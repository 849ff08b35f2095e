import Mathlib.Logic.Function.Basic
import ScriptBytecode.Proofs.Slots.Methods
import ScriptBytecode.Proofs.Stack.Verifier

/-!
# Where the values of locals are

Where the value of a local is depends on the way that control has come: it is in the slots that the
last store for the local has written, or in those that it came in as an argument. `latest` says so
of a path through code.

Code reads its locals faithfully if on every path what is loaded for a local comes from where its
value is, nothing is stored there for another local, and nothing is loaded from where nothing has
been written (`Faithful`). In such code a value that is loaded was put there by the last store for
its local, or came in as an argument (`written_of_latest`).

* `Whereabouts` are slots by name, with `HoldsIn` for their order and `meet` for what two ways agree
  on;
* `latest` follows a path, and `Faithful` says that all reads on all paths are right;
* `written_of_latest` explains what that means in terms of the last store.

**In terms of code only.** `Faithful` mentions neither the compiler nor its table of locals. It
takes the code of a method, with the accesses that its loads and stores are for, and follows paths
through it. The names come from the accesses, so it says something only together with the fact that
these are the accesses of the body (`MethodCode.Renders`).

A value may be read that was stored for the same local in another place than the last store in the
text. What counts is the last store on the path.
-/

namespace ScriptBytecode

/-! ### What is known of locals -/

/-- For each name the slots that its value is in, as far as this is known. -/
abbrev Whereabouts := String → Option SlotRange

namespace Whereabouts

variable {w w' w'' : Whereabouts} {name : String} {r : SlotRange}

/-- Whatever is known in the one is known in the other. -/
def HoldsIn (w w' : Whereabouts) : Prop := ∀ name r, w name = some r → w' name = some r

/-- What is known once a value has been stored for a name. -/
def store (w : Whereabouts) (name : String) (r : SlotRange) : Whereabouts :=
  Function.update w name (some r)

/-- What is known whichever of two ways control has come. -/
def meet (w w' : Whereabouts) : Whereabouts := fun name ↦
  if w name = w' name then w name else none

/-- What is known holds. -/
theorem HoldsIn.refl (w : Whereabouts) : w.HoldsIn w := fun _ _ h ↦ h

/-- What holds in what holds, holds. -/
theorem HoldsIn.trans (h : w.HoldsIn w') (h' : w'.HoldsIn w'') : w.HoldsIn w'' :=
  fun name r hr ↦ h' name r (h name r hr)

theorem store_of_ne {other : String} (h : other ≠ name) : w.store name r other = w other :=
  Function.update_of_ne h ..

@[simp] theorem store_self : w.store name r name = some r := Function.update_self ..

/-- What holds before a store holds after it. -/
theorem HoldsIn.store (h : w.HoldsIn w') (name : String) (r : SlotRange) :
    (w.store name r).HoldsIn (w'.store name r) := by
  intro other r' hr
  by_cases hne : other = name
  · subst hne
    rwa [store_self] at hr ⊢
  · rw [store_of_ne hne] at hr ⊢
    exact h other r' hr

/-- What is known both ways is known either way. -/
theorem meet_eq_some_iff : w.meet w' name = some r ↔ w name = some r ∧ w' name = some r := by
  unfold meet
  split
  · next heq => rw [← heq, and_self]
  · next hne => exact ⟨nofun, fun ⟨h, h'⟩ ↦ absurd (h.trans h'.symm) hne⟩

/-- What two ways agree on holds on the one way -/
theorem meet_holdsIn_left (w w' : Whereabouts) : (w.meet w').HoldsIn w :=
  fun _ _ h ↦ (meet_eq_some_iff.1 h).1

/-- and on the other. -/
theorem meet_holdsIn_right (w w' : Whereabouts) : (w.meet w').HoldsIn w' :=
  fun _ _ h ↦ (meet_eq_some_iff.1 h).2

@[simp] theorem meet_self (w : Whereabouts) : w.meet w = w := funext fun _ ↦ if_pos rfl

/-- What two ways agree on of a name depends on what each knows of it. -/
theorem meet_congr {v v' : Whereabouts} (h : w name = w' name) (h' : v name = v' name) :
    w.meet v name = w'.meet v' name := by
  unfold meet
  rw [h, h']

end Whereabouts

/-- Where a table of locals says that values are. -/
def Locals.whereabouts (l : Locals) : Whereabouts := fun name ↦ (l.get? name).map LocalVar.range

namespace Locals

variable {l l' : Locals} {v : LocalVar} {name : String} {type : MachineType} {span : Span}

/-- What a name means to the compiler is where its value is expected. -/
theorem whereabouts_of_get? (h : l.get? name = some v) : l.whereabouts name = some v.range := by
  unfold whereabouts
  rw [h]
  rfl

/-- After a store the name means the slots that were written. -/
theorem whereabouts_declareStore (h : l.declareStore name type span = .ok (v, l')) :
    l'.whereabouts = l.whereabouts.store name v.range := by
  obtain ⟨-, -, hself, hothers, -⟩ := declareStore_cases h
  funext other
  by_cases hne : other = name
  · subst hne
    rw [Whereabouts.store_self, whereabouts_of_get? hself]
  · rw [Whereabouts.store_of_ne hne, whereabouts, hothers other hne]
    rfl

end Locals

/-! ### Instructions -/

/-- What is known after an instruction: a store has put the value of its local where it writes. -/
def Whereabouts.after (w : Whereabouts) : Noted → Whereabouts
  | (.store kind slot, some (.write name)) => w.store name ⟨kind, slot.toNat⟩
  | _ => w

namespace Whereabouts

variable {w w' : Whereabouts} {n : Noted}

/-- Only stores move values. -/
theorem after_eq_self (h : ∀ kind slot, n.1 ≠ .store kind slot) : w.after n = w := by
  unfold after
  split
  · exact absurd rfl (h _ _)
  · rfl

theorem after_none (w : Whereabouts) (i : Instruction) : w.after (i, none) = w := by
  cases i <;> rfl

/-- What holds before an instruction holds after it. -/
theorem HoldsIn.after (h : w.HoldsIn w') (n : Noted) : (w.after n).HoldsIn (w'.after n) := by
  unfold Whereabouts.after
  split
  · exact h.store _ _
  · exact h

/-- What is known after an instruction was known before, unless the instruction has stored it. -/
theorem of_after {name : String} {kind : StackKind} {slot : UInt16}
    (h : w.after n name = some ⟨kind, slot.toNat⟩) :
    w name = some ⟨kind, slot.toNat⟩ ∨ n = (.store kind slot, some (.write name)) := by
  unfold Whereabouts.after at h
  split at h
  · next kind' slot' other =>
    by_cases hne : name = other
    · subst hne
      rw [store_self] at h
      obtain ⟨rfl, hslot⟩ := SlotRange.mk.inj (Option.some.inj h)
      exact .inr (by rw [UInt16.toNat_inj.1 hslot])
    · rw [store_of_ne hne] at h
      exact .inl h
  · exact .inl h

end Whereabouts

/-! ### Paths -/

/-- The ways that control can have come from the beginning of the code to a position: the positions
passed before, the latest first. -/
inductive Path (code : List Instruction) : List Nat → Nat → Prop
  | start : Path code [] 0
  | step {passed : List Nat} {pos pos' : Nat} (h : Path code passed pos)
    (hflows : Flows code pos pos') : Path code (pos :: passed) pos'

/-- Where the values of locals are once the instructions at some positions have been passed, the
latest first: in the slots that the last store for the local has written, and in those of its
argument if there was no store. -/
def latest (arguments : Whereabouts) (noted : List Noted) : List Nat → Whereabouts
  | [] => arguments
  | pos :: passed =>
    match noted[pos]? with
    | some n => (latest arguments noted passed).after n
    | none => latest arguments noted passed

/-- A value is where it came in, or where a store that was passed has put it. -/
theorem written_of_latest {arguments : Whereabouts} {noted : List Noted} {passed : List Nat}
    {name : String} {kind : StackKind} {slot : UInt16}
    (h : latest arguments noted passed name = some ⟨kind, slot.toNat⟩) :
    arguments name = some ⟨kind, slot.toNat⟩ ∨
      ∃ pos ∈ passed, noted[pos]? = some (.store kind slot, some (.write name)) := by
  induction passed with
  | nil => exact .inl h
  | cons pos passed ih =>
    have hbefore : latest arguments noted passed name = some ⟨kind, slot.toNat⟩ →
        arguments name = some ⟨kind, slot.toNat⟩ ∨
          ∃ p ∈ pos :: passed, noted[p]? = some (.store kind slot, some (.write name)) := by
      intro hpassed
      obtain hargument | ⟨p, hp, hstore⟩ := ih hpassed
      · exact .inl hargument
      · exact .inr ⟨p, List.mem_cons_of_mem _ hp, hstore⟩
    unfold latest at h
    cases hn : noted[pos]? with
    | none =>
      rw [hn] at h
      exact hbefore h
    | some n =>
      rw [hn] at h
      obtain hpassed | rfl := Whereabouts.of_after h
      · exact hbefore hpassed
      · exact .inr ⟨pos, List.mem_cons_self .., hn⟩

/-- On every path the values of locals are read from where they are. -/
structure Faithful (arguments : Whereabouts) (noted : List Noted) : Prop where
  /-- What is loaded for a local comes from the slots that the last store for it on the path has
  written, and if there was none, from those that it was given as an argument. -/
  reads : ∀ {passed : List Nat} {pos : Nat} {kind : StackKind} {slot : UInt16} {name : String},
    Path (noted.map Prod.fst) passed pos →
    noted[pos]? = some (.load kind slot, some (.read name)) →
    latest arguments noted passed name = some ⟨kind, slot.toNat⟩
  /-- Nothing is stored there for another local. -/
  intact : ∀ {kind kind' : StackKind} {slot slot' : UInt16} {name other : String},
    (.load kind slot, some (.read name)) ∈ noted →
    (.store kind' slot', some (.write other)) ∈ noted → name ≠ other →
    ¬SlotRange.Meets ⟨kind, slot.toNat⟩ ⟨kind', slot'.toNat⟩
  /-- What is loaded at all comes from the slots of an argument, or from slots that something on the
  path has written. -/
  written : ∀ {passed : List Nat} {pos : Nat} {kind : StackKind} {slot : UInt16},
    Path (noted.map Prod.fst) passed pos → (noted.map Prod.fst)[pos]? = some (.load kind slot) →
    (∃ name, arguments name = some ⟨kind, slot.toNat⟩) ∨
      ∃ before ∈ passed, (noted.map Prod.fst)[before]? = some (.store kind slot)

end ScriptBytecode

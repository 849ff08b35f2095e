import ScriptBytecode.Proofs.Emission
import ScriptBytecode.Proofs.Stack.Streams

/-!
# Closed code

An assembler can be asked for jumps to any label, and to bind any label, also one that it has not
created or has bound already. It goes on all the same, and the code that it has by then may have
jumps that lead nowhere, or to two places. But it has noted what was wrong.

* `Breaks` says what can be wrong with a call: an instruction does not find its operands
  (`Instruction.Lacks`), a jump arrives with another stack than the label expects
  (`LabelTable.RefusesJump`), or a label cannot be bound here (`LabelTable.RefusesBind`).
  `BreaksFirst` is the first thing that is wrong in some calls.
* As long as nothing is wrong, each label is bound in the code if the table of labels says so, and
  once only, and jumps go to labels of the table (`Closed`).

In code that is finished all jumps lead somewhere, and to one place. If a label was misused, the
code is not finished, and what is reported is the first thing that was wrong (`closed_of_finish`).

**What is wrong is described without the assembler.** `Instruction.Lacks`, `LabelTable.RefusesJump`
and `LabelTable.RefusesBind` are conditions on the stack that is followed and on the labels, one
constructor for each fault with the data that its report has. That the assembler notes a fault just
if one of them applies is then proved once for each operation, in both directions
(`jump_eq_error_iff`, `bind_eq_error_iff`, `Assembler.fault_call_of_breaks`,
`Assembler.fault_call_of_not_breaks`).

**The first fault wins.** A fault that has been noted stays (`Assembler.fault_callAll_of_some`), so
what is reported in the end is the first thing that was wrong, whatever is called later
(`Assembler.fault_callAll_of_breaksFirst`). A misused label need not be that first thing: something
else may have been wrong before it, as in `Assembler.closed_of_finish_misusing`.

Nothing is said of reachability or of stacks here; that is the subject of safe streams.
-/

namespace ScriptBytecode

/-! ### What can be wrong -/

/-- What is wrong with an instruction that does not find its operands. -/
inductive Instruction.Lacks (i : Instruction) (stack : List StackKind) : Fault → Prop
  /-- There are too few values. The one that an instruction looks at has to be there even if it is
  not taken. -/
  | values (h : stack.length < max i.pops i.expects?.toList.length) :
    Lacks i stack (.stackUnderflow i)
  /-- The top value has another kind than the instruction names. -/
  | kind {kind actual : StackKind} (hpops : i.pops ≤ stack.length)
    (hexpects : i.expects? = some kind)
    (hhead : stack.head? = some actual) (hne : kind ≠ actual) : Lacks i stack (.wrongKind i actual)

namespace LabelTable

/-- What is wrong with a jump that reaches a label with the given stack. -/
inductive RefusesJump (t : LabelTable) (l : Label) (stack : List StackKind) : Fault → Prop
  | foreign (hget : t.get? l = none) : RefusesJump t l stack (.foreignLabel l)
  | mismatch {state : LabelState} {expected : List StackKind} (hget : t.get? l = some state)
    (hstack : state.stack = some expected) (hne : expected ≠ stack) :
    RefusesJump t l stack (.jumpMismatch l stack.length expected.length)

/-- What is wrong with binding a label where control arrives with the given stack, if at all. -/
inductive RefusesBind (t : LabelTable) (l : Label) (current : Option (List StackKind)) :
    Fault → Prop
  | foreign (hget : t.get? l = none) : RefusesBind t l current (.foreignLabel l)
  | twice {state : LabelState} (hget : t.get? l = some state) (hbound : state.bound = true) :
    RefusesBind t l current (.boundTwice l)
  | mismatch {state : LabelState} {actual expected : List StackKind} (hget : t.get? l = some state)
    (hbound : state.bound = false) (hcurrent : current = some actual)
    (hstack : state.stack = some expected) (hne : expected ≠ actual) :
    RefusesBind t l current (.bindMismatch l actual.length expected.length)

variable {t : LabelTable} {l : Label} {stack : List StackKind} {current : Option (List StackKind)}
  {f : Fault}

/-- A jump is refused just if it arrives with another stack, or at no label. -/
theorem jump_eq_error_iff : t.jump l stack = .error f ↔ t.RefusesJump l stack f := by
  constructor
  · intro h
    unfold jump at h
    split at h
    · next hget =>
      cases h
      exact .foreign hget
    · next state hget =>
      split at h
      · cases h
      · next expected hstack =>
        split at h
        · cases h
        · next hne =>
          cases h
          exact .mismatch hget hstack hne
  · intro h
    unfold jump
    cases h with
    | foreign hget => rw [hget]
    | mismatch hget hstack hne =>
      rw [hget]
      dsimp only
      rw [hstack]
      dsimp only
      rw [if_neg hne]

/-- A label is refused just if it is bound already, reached with another stack, or no label. -/
theorem bind_eq_error_iff : (t.bind l current).2 = .error f ↔ t.RefusesBind l current f := by
  constructor
  · intro h
    unfold bind at h
    split at h
    · next hget =>
      cases h
      exact .foreign hget
    · next state hget =>
      split at h
      · next hbound =>
        cases h
        exact .twice hget hbound
      · next hbound =>
        dsimp only at h
        split at h
        · next actual expected hcurrent hstack =>
          split at h
          · cases h
          · next hne =>
            cases h
            exact .mismatch hget (Bool.not_eq_true _ ▸ hbound) rfl hstack hne
        · cases h
  · intro h
    unfold bind
    cases h with
    | foreign hget => rw [hget]
    | twice hget hbound =>
      rw [hget]
      dsimp only
      rw [if_pos hbound]
    | mismatch hget hbound hcurrent hstack hne =>
      subst hcurrent
      rw [hget]
      dsimp only
      rw [if_neg (by simp [hbound]), hstack]
      dsimp only
      rw [if_neg hne]

end LabelTable

namespace Assembler

/-- What is wrong with a call. The jump of an instruction is looked at first. -/
inductive Breaks (a : Assembler) : Call → Fault → Prop
  | jump {i : Instruction} {hi : ∀ l, i ≠ .bind l} {l : Label} {f : Fault} (hl : i.target? = some l)
    (h : a.labels.RefusesJump l (a.stack.drop i.pops) f) : Breaks a (.emit i hi) f
  | operands {i : Instruction} {hi : ∀ l, i ≠ .bind l} {f : Fault}
    (hjump : ∀ l f, i.target? = some l → ¬a.labels.RefusesJump l (a.stack.drop i.pops) f)
    (h : i.Lacks a.stack f) : Breaks a (.emit i hi) f
  | bind {l : Label} {f : Fault} (h : a.labels.RefusesBind l a.current? f) : Breaks a (.bind l) f

/-- The first thing that is wrong in some calls. -/
inductive BreaksFirst : Assembler → List Call → Fault → Prop
  | here {a : Assembler} {c : Call} {calls : List Call} {f : Fault} (h : a.Breaks c f) :
    BreaksFirst a (c :: calls) f
  | later {a : Assembler} {c : Call} {calls : List Call} {f : Fault} (hnone : ∀ f, ¬a.Breaks c f)
    (h : BreaksFirst (a.call c) calls f) : BreaksFirst a (c :: calls) f

/-! ### What is noted -/

variable {a : Assembler} {i : Instruction} {c : Call} {calls : List Call} {l : Label} {f : Fault}

/-- The first fault is kept. -/
theorem fault_fail_of_none (h : a.fault = none) (f : Fault) : (a.fail f).fault = some f := by
  simp [fail, h]

/-- What has been noted stays. -/
theorem fault_fail_of_some (h : a.fault = some f) (f' : Fault) : (a.fail f').fault = some f := by
  simp [fail, h]

@[simp] theorem stack_fail (a : Assembler) (f : Fault) : (a.fail f).stack = a.stack := rfl

@[simp] theorem stack_applyJump (a : Assembler) (i : Instruction) :
    (a.applyJump i).stack = a.stack := by
  unfold applyJump
  split
  · rfl
  · split <;> rfl

/-- An effect keeps the fault that was found before, -/
theorem fault_applyEffect_of_some (h : a.fault = some f) (i : Instruction) :
    (a.applyEffect i).fault = some f := by
  unfold applyEffect
  dsimp only
  repeat' split
  all_goals simp [fail, h]

/-- and so does a jump. -/
theorem fault_applyJump_of_some (h : a.fault = some f) (i : Instruction) :
    (a.applyJump i).fault = some f := by
  unfold applyJump
  repeat' split
  all_goals simp [fail, h]

/-- So does every call, -/
theorem fault_call_of_some (h : a.fault = some f) (c : Call) : (a.call c).fault = some f := by
  cases c with
  | emit i hi => exact fault_applyEffect_of_some (fault_applyJump_of_some h i) i
  | createLabel => exact h
  | bind l =>
    show (a.bind l).fault = some f
    unfold Assembler.bind
    dsimp only
    split
    · exact h
    · exact h
    · exact fault_fail_of_some h _

/-- and any number of them. -/
theorem fault_callAll_of_some (h : a.fault = some f) (calls : List Call) :
    (a.callAll calls).fault = some f := by
  induction calls generalizing a with
  | nil => exact h
  | cons c calls ih => exact ih (fault_call_of_some h c)

/-- What an instruction lacks is noted. -/
theorem fault_applyEffect_of_lacks (ha : a.fault = none) (h : i.Lacks a.stack f) :
    (a.applyEffect i).fault = some f := by
  unfold applyEffect
  cases h with
  | values hlength =>
    split
    · exact fault_fail_of_none ha _
    · next hpops =>
      cases hexpects : i.expects? with
      | none =>
        rw [hexpects, Option.toList_none, List.length_nil, Nat.max_zero] at hlength
        exact absurd hlength hpops
      | some kind =>
        -- nothing is taken, but there has to be a value to look at
        have hstack : a.stack = [] := by
          rw [hexpects, Option.toList_some, List.length_singleton] at hlength
          exact List.eq_nil_of_length_eq_zero (by omega)
        rw [hstack]
        exact fault_fail_of_none ha _
  | kind hpops hexpects hhead hne =>
    rw [if_neg (Nat.not_lt.2 hpops), hexpects, hhead]
    dsimp only
    rw [if_neg hne, fault_pushResult]
    exact fault_fail_of_none ha _

/-- If it lacks nothing, nothing is noted. -/
theorem fault_applyEffect_of_not_lacks (h : ∀ f, ¬i.Lacks a.stack f) :
    (a.applyEffect i).fault = a.fault := by
  have hlength : max i.pops i.expects?.toList.length ≤ a.stack.length :=
    Nat.le_of_not_lt fun hlt ↦ h _ (.values hlt)
  have hpops : ¬a.stack.length < i.pops := by omega
  unfold applyEffect
  rw [if_neg hpops]
  cases hexpects : i.expects? with
  | none => exact fault_pushResult _ _
  | some kind =>
    cases hhead : a.stack.head? with
    | none =>
      rw [hexpects, List.head?_eq_none_iff.1 hhead] at hlength
      exact absurd hlength (by simp)
    | some actual =>
      have heq : kind = actual := Decidable.not_not.1 fun hne ↦
        h _ (.kind (Nat.le_of_not_lt hpops) hexpects hhead hne)
      dsimp only
      rw [if_pos heq]
      exact fault_pushResult _ _

/-- A jump that is refused is noted. -/
theorem fault_applyJump_of_refusesJump (ha : a.fault = none) (hl : i.target? = some l)
    (h : a.labels.RefusesJump l (a.stack.drop i.pops) f) : (a.applyJump i).fault = some f := by
  unfold applyJump
  rw [hl]
  dsimp only
  rw [LabelTable.jump_eq_error_iff.2 h]
  exact fault_fail_of_none ha f

theorem fault_applyJump_of_not_refusesJump
    (h : ∀ l f, i.target? = some l → ¬a.labels.RefusesJump l (a.stack.drop i.pops) f) :
    (a.applyJump i).fault = a.fault := by
  unfold applyJump
  split
  · rfl
  · next l hl =>
    split
    · rfl
    · next f hjump => exact absurd (LabelTable.jump_eq_error_iff.1 hjump) (h l f hl)

/-- What is wrong with a call is noted. -/
theorem fault_call_of_breaks (ha : a.fault = none) (h : a.Breaks c f) :
    (a.call c).fault = some f := by
  cases h with
  | @jump i hi l f hl h =>
    exact fault_applyEffect_of_some (fault_applyJump_of_refusesJump ha hl h) i
  | operands hjump h =>
    have hfault := (fault_applyJump_of_not_refusesJump hjump).trans ha
    exact fault_applyEffect_of_lacks hfault (by rwa [stack_applyJump])
  | @bind l f h =>
    have herr : (a.labels.bind l a.current?).2 = .error f := LabelTable.bind_eq_error_iff.2 h
    show (a.bind l).fault = some f
    unfold Assembler.bind
    rw [← current?]
    dsimp only
    rw [herr]
    exact fault_fail_of_none ha f

/-- If nothing is wrong with it, nothing is noted. -/
theorem fault_call_of_not_breaks (h : ∀ f, ¬a.Breaks c f) : (a.call c).fault = a.fault := by
  cases c with
  | emit i hi =>
    have hjump : ∀ l f, i.target? = some l →
        ¬a.labels.RefusesJump l (a.stack.drop i.pops) f := fun l f hl hrefuses ↦
      h f (.jump hl hrefuses)
    have hlacks : ∀ f, ¬i.Lacks (a.applyJump i).stack f := by
      intro f hlacks
      rw [stack_applyJump] at hlacks
      exact h f (.operands hjump hlacks)
    exact (fault_applyEffect_of_not_lacks hlacks).trans (fault_applyJump_of_not_refusesJump hjump)
  | createLabel => rfl
  | bind l =>
    show (a.bind l).fault = a.fault
    unfold Assembler.bind
    rw [← current?]
    dsimp only
    split
    · rfl
    · rfl
    · next f hbind => exact absurd (.bind (LabelTable.bind_eq_error_iff.1 hbind)) (h f)

/-- What is reported of some calls is the first thing that is wrong in them, whatever comes
later. -/
theorem fault_callAll_of_breaksFirst (ha : a.fault = none) (h : BreaksFirst a calls f) :
    (a.callAll calls).fault = some f := by
  induction h with
  | here h => exact fault_callAll_of_some (fault_call_of_breaks ha h) _
  | later hnone _ ih => exact ih ((fault_call_of_not_breaks hnone).trans ha)

/-- If something is wrong in the end, something was wrong first. -/
theorem exists_breaksFirst (h : (a.callAll calls).fault ≠ none) (ha : a.fault = none) :
    ∃ f, BreaksFirst a calls f := by
  induction calls generalizing a with
  | nil => exact absurd ha h
  | cons c calls ih =>
    by_cases hc : ∃ f, a.Breaks c f
    · obtain ⟨f, hf⟩ := hc
      exact ⟨f, .here hf⟩
    · have hnone : ∀ f, ¬a.Breaks c f := fun f hf ↦ hc ⟨f, hf⟩
      obtain ⟨f, hf⟩ := ih h ((fault_call_of_not_breaks hnone).trans ha)
      exact ⟨f, .later hnone hf⟩

/-! ### Labels -/

/-- The labels that some calls create. -/
def created (a : Assembler) : List Call → List Label
  | [] => []
  | .createLabel :: calls => a.nextLabel :: a.createLabel.created calls
  | c :: calls => (a.call c).created calls

theorem size_call_le (a : Assembler) (c : Call) : a.labels.size ≤ (a.call c).labels.size := by
  cases c with
  | emit i hi => exact Nat.le_of_eq (size_emit a i).symm
  | createLabel =>
    show a.labels.size ≤ a.createLabel.labels.size
    rw [size_createLabel]
    exact Nat.le_succ _
  | bind l => exact Nat.le_of_eq (size_bind a l).symm

theorem size_callAll_le (a : Assembler) (calls : List Call) :
    a.labels.size ≤ (a.callAll calls).labels.size := by
  induction calls generalizing a with
  | nil => exact Nat.le_refl _
  | cons c calls ih => exact Nat.le_trans (size_call_le a c) (ih (a.call c))

/-- They are numbered in order. -/
theorem mem_created_iff : l ∈ a.created calls ↔
    a.labels.size ≤ l.index ∧ l.index < (a.callAll calls).labels.size := by
  induction calls generalizing a with
  | nil =>
    refine ⟨fun h ↦ (by cases h), fun ⟨hle, hlt⟩ ↦ ?_⟩
    exact absurd hlt (Nat.not_lt.2 hle)
  | cons c calls ih =>
    cases c with
    | emit i hi =>
      show l ∈ (a.emit i).created calls ↔ _
      rw [ih, size_emit]
      rfl
    | createLabel =>
      have hle := size_callAll_le a.createLabel calls
      have hnext : l = a.nextLabel ↔ l.index = a.labels.size :=
        ⟨fun h ↦ h ▸ rfl, fun h ↦ congrArg Label.mk h⟩
      show l ∈ a.nextLabel :: a.createLabel.created calls ↔
        _ ∧ l.index < (a.createLabel.callAll calls).labels.size
      rw [List.mem_cons, ih, hnext]
      rw [size_createLabel] at hle ⊢
      omega
    | bind l' =>
      show l ∈ (a.bind l').created calls ↔ _
      rw [ih, size_bind]
      rfl

/-- No label is created twice. -/
theorem nodup_created (a : Assembler) (calls : List Call) : (a.created calls).Nodup := by
  induction calls generalizing a with
  | nil => exact List.nodup_nil
  | cons c calls ih =>
    cases c with
    | emit i hi => exact ih (a.emit i)
    | createLabel =>
      refine List.nodup_cons.2 ⟨fun hmem ↦ ?_, ih a.createLabel⟩
      have hle := (mem_created_iff.1 hmem).1
      rw [size_createLabel, index_nextLabel] at hle
      exact Nat.lt_irrefl _ hle
    | bind l => exact ih (a.bind l)

/-- The instruction that a call adds to the code, if it adds one. -/
def instruction? : Call → Option Instruction
  | .emit i _ => some i
  | .createLabel => none
  | .bind l => some (.bind l)

theorem code_call (a : Assembler) (c : Call) :
    (a.call c).code = a.code ++ (instruction? c).toList := by
  cases c with
  | emit i hi => exact code_emit a i
  | createLabel => exact (List.append_nil _).symm
  | bind l => exact code_bind a l

/-- The code has the instructions of all calls, whatever is wrong with them. -/
theorem code_callAll (a : Assembler) (calls : List Call) :
    (a.callAll calls).code = a.code ++ calls.filterMap instruction? := by
  induction calls generalizing a with
  | nil => exact (List.append_nil _).symm
  | cons c calls ih =>
    show ((a.call c).callAll calls).code = _
    rw [ih, code_call, List.append_assoc, List.filterMap_cons]
    cases instruction? c <;> rfl

/-! ### Bound labels -/

/-- Labels are bound in the code as the table says, and jumps go to labels of the table. -/
structure Closed (a : Assembler) : Prop where
  nodup : (boundLabels a.code).Nodup
  mem_iff : ∀ l, l ∈ boundLabels a.code ↔ ∃ state, a.labels.get? l = some state ∧ state.bound = true
  targets : ∀ i ∈ a.code, ∀ l, i.target? = some l → l.index < a.labels.size

namespace Closed

theorem empty : Closed {} where
  nodup := List.nodup_nil
  mem_iff l := by
    refine ⟨fun h ↦ (by cases h), fun ⟨state, hget, _⟩ ↦ (by cases hget)⟩
  targets i hi := by cases hi

/-- Code stays closed when an instruction is emitted and nothing is wrong, -/
theorem emit (h : a.Closed) (hi : ∀ l, i ≠ .bind l) (hfault : (a.emit i).fault = none) :
    (a.emit i).Closed := by
  obtain ⟨-, hadmits, heq⟩ := emit_of_faultless hfault
  have hbound : boundLabels (a.emit i).code = boundLabels a.code := by
    rw [code_emit, boundLabels_append, boundLabels_cons_of_ne hi, boundLabels_nil, List.append_nil]
  constructor
  · rw [hbound]
    exact h.nodup
  · intro l
    rw [hbound, h.mem_iff, heq]
    constructor
    · rintro ⟨state, hget, hstate⟩
      obtain ⟨state', hget', hsame, -⟩ := LabelTable.jumpedBy_keeps hadmits hget
      exact ⟨state', hget', hsame.trans hstate⟩
    · rintro ⟨state, hget, hstate⟩
      obtain ⟨state', hget', hsame, -⟩ := LabelTable.of_jumpedBy hget
      exact ⟨state', hget', hsame.trans hstate⟩
  · intro j hj l hl
    rw [size_emit]
    rw [code_emit, List.mem_append, List.mem_singleton] at hj
    obtain hj | rfl := hj
    · exact h.targets j hj l hl
    · obtain ⟨state, hget, -⟩ := hadmits l hl
      exact (List.getElem?_eq_some_iff.1 hget).1

/-- when a label is created, -/
theorem createLabel (h : a.Closed) : a.createLabel.Closed where
  nodup := h.nodup
  mem_iff l := by
    refine (h.mem_iff l).trans ⟨?_, ?_⟩
    · rintro ⟨state, hget, hstate⟩
      exact ⟨state, LabelTable.get?_create_of_some hget, hstate⟩
    · rintro ⟨state, hget, hstate⟩
      by_cases hl : l = a.labels.next
      · subst hl
        cases (LabelTable.get?_create_next a.labels).symm.trans hget
        cases hstate
      · exact ⟨state, (LabelTable.get?_create_of_ne a.labels hl).symm.trans hget, hstate⟩
  targets j hj l hl := by
    rw [size_createLabel]
    exact Nat.lt_succ_of_lt (h.targets j hj l hl)

/-- and when one is bound and nothing is wrong. -/
theorem bind (h : a.Closed) (hfault : (a.bind l).fault = none) : (a.bind l).Closed := by
  obtain ⟨known, hget, -, heq⟩ := bind_of_faultless hfault
  have hbound : boundLabels (a.bind l).code = boundLabels a.code ++ [l] := by
    rw [code_bind, boundLabels_append, boundLabels_bind_cons, boundLabels_nil]
  -- the table had no position for the label, so the code had none either
  have hnew : l ∉ boundLabels a.code := by
    intro hmem
    obtain ⟨state, hget', hstate⟩ := (h.mem_iff l).1 hmem
    cases hget.symm.trans hget'
    cases hstate
  constructor
  · rw [hbound, List.nodup_append]
    refine ⟨h.nodup, by simp, fun l' hl' l'' hl'' heq ↦ hnew ?_⟩
    rwa [← List.mem_singleton.1 hl'', ← heq]
  · intro l'
    rw [hbound, List.mem_append, List.mem_singleton, h.mem_iff, heq]
    by_cases hl : l = l'
    · subst hl
      refine ⟨fun _ ↦ ⟨_, LabelTable.get?_set_self hget, rfl⟩, fun _ ↦ .inr rfl⟩
    · rw [LabelTable.get?_set_of_ne _ _ hl]
      exact or_iff_left fun h ↦ hl h.symm
  · intro j hj l' hl
    rw [size_bind]
    rw [code_bind, List.mem_append, List.mem_singleton] at hj
    obtain hj | rfl := hj
    · exact h.targets j hj l' hl
    · cases hl

/-- So it is closed after any calls that nothing is wrong with. -/
theorem callAll (h : a.Closed) (hfault : (a.callAll calls).fault = none) :
    (a.callAll calls).Closed := by
  induction calls generalizing a with
  | nil => exact h
  | cons c calls ih =>
    have hcall : (a.call c).fault = none := fault_of_callAll hfault
    refine ih ?_ hfault
    cases c with
    | emit i hi => exact h.emit hi hcall
    | createLabel => exact h.createLabel
    | bind l => exact h.bind hcall

end Closed

/-! ### Misused labels -/

/-- The label that a call jumps to or binds. -/
def label? : Call → Option Label
  | .emit i _ => i.target?
  | .createLabel => none
  | .bind l => some l

/-- After some calls, another one jumps to or binds a label that they have not created, or binds one
that they have bound already. -/
def Misuses (before : List Call) (c : Call) : Prop :=
  (∃ l, label? c = some l ∧ l ∉ created {} before) ∨ ∃ l, c = .bind l ∧ c ∈ before

variable {before : List Call}

/-- A label that was not created is not in the table. -/
theorem get?_eq_none_of_notMem_created (h : l ∉ created {} before) :
    (callAll {} before).labels.get? l = none :=
  List.getElem?_eq_none (Nat.le_of_not_lt fun hlt ↦ h (mem_created_iff.2 ⟨Nat.zero_le _, hlt⟩))

/-- If nothing has been wrong before, then something is wrong with such a call. -/
theorem exists_breaks_of_misuses (hfault : (callAll {} before).fault = none)
    (h : Misuses before c) : ∃ f, (callAll {} before).Breaks c f := by
  obtain ⟨l, hl, hforeign⟩ | ⟨l, rfl, hmem⟩ := h
  · have hget := get?_eq_none_of_notMem_created hforeign
    cases c with
    | emit i hi => exact ⟨_, .jump hl (.foreign hget)⟩
    | createLabel => cases hl
    | bind l' =>
      cases hl
      exact ⟨_, .bind (.foreign hget)⟩
  · have hbound : l ∈ boundLabels (callAll {} before).code := by
      rw [mem_boundLabels, code_callAll, List.mem_append, List.mem_filterMap]
      exact .inr ⟨.bind l, hmem, rfl⟩
    obtain ⟨state, hget, hstate⟩ := ((Closed.empty.callAll hfault).mem_iff l).1 hbound
    exact ⟨_, .bind (.twice hget hstate)⟩

/-- To misuse a label is found wrong. -/
theorem fault_ne_none_of_misuses (h : Misuses before c) :
    (callAll {} (before ++ [c])).fault ≠ none := by
  have happend : callAll {} (before ++ [c]) = (callAll {} before).call c := by simp [callAll]
  rw [happend]
  cases hfault : (callAll {} before).fault with
  | some f => simp [fault_call_of_some hfault]
  | none =>
    obtain ⟨f, hf⟩ := exists_breaks_of_misuses hfault h
    simp [fault_call_of_breaks hfault hf]

/-! ### Finished code -/

theorem finish_of_fault (h : a.fault = some f) : a.finish = .error f := by
  unfold finish
  rw [h]

/-- Code that is finished binds the labels that were created, each of them once, and all of its
jumps go to one of them. If a call jumped to a label that had not been created, or bound such a
label, or bound a label once more, then the code is not finished, whatever was called later, and
what is reported is the first thing that was wrong. -/
theorem closed_of_finish (calls : List Call) :
    (∀ code, (callAll {} calls).finish = .ok code →
      (boundLabels code.instructions).Nodup ∧
        (boundLabels code.instructions).Perm (created {} calls) ∧
        ∀ i ∈ code.instructions, ∀ l, i.target? = some l →
          l ∈ boundLabels code.instructions) ∧
      ∀ before c after, calls = before ++ c :: after → Misuses before c →
        ∃ f, BreaksFirst {} (before ++ [c]) f ∧ (callAll {} calls).finish = .error f := by
  constructor
  · intro code hfinish
    obtain ⟨hfault, hunbound, rfl⟩ := of_finish_eq_ok hfinish
    have hclosed : (callAll {} calls).Closed := Closed.empty.callAll hfault
    have hmem : ∀ l, l ∈ boundLabels (callAll {} calls).code ↔
        l.index < (callAll {} calls).labels.size := by
      intro l
      rw [hclosed.mem_iff]
      constructor
      · rintro ⟨state, hget, -⟩
        exact (List.getElem?_eq_some_iff.1 hget).1
      · intro hlt
        have hget : (callAll {} calls).labels.get? l = some _ := List.getElem?_eq_getElem hlt
        exact ⟨_, hget, unbound_eq_nil_iff.1 hunbound l _ hget⟩
    refine ⟨hclosed.nodup, ?_, fun i hi l hl ↦ (hmem l).2 (hclosed.targets i hi l hl)⟩
    refine (List.perm_ext_iff_of_nodup hclosed.nodup (nodup_created _ _)).2 fun l ↦ ?_
    rw [hmem, mem_created_iff]
    exact (and_iff_right (Nat.zero_le _)).symm
  · -- the misuse need not be the first thing that was wrong, but something was noted then
    rintro before c after rfl hmisuses
    obtain ⟨f, hfirst⟩ := exists_breaksFirst (fault_ne_none_of_misuses hmisuses) rfl
    refine ⟨f, hfirst, finish_of_fault ?_⟩
    have happend : callAll {} (before ++ c :: after) =
        (callAll {} (before ++ [c])).callAll after := by simp [callAll]
    rw [happend]
    exact fault_callAll_of_some (fault_callAll_of_breaksFirst rfl hfirst) after

/-- Two labels that are bound in another order than they were created. -/
def crossing : List Call :=
  [.createLabel, .createLabel, .emit (.pushInt 0) nofun, .emit (.jumpIf .ne ⟨1⟩) nofun, .bind ⟨1⟩,
    .emit (.pushInt 0) nofun, .emit (.jumpIf .ne ⟨0⟩) nofun, .bind ⟨0⟩]

/-- A label that is bound before it is created, after an instruction without its operand. -/
def misusing : List Call := [.emit (.pop .long) nofun, .bind ⟨0⟩, .createLabel]

/-- Two jumps that cross are closed; an operand that is not there is reported before a label that is
not there. -/
theorem closed_of_finish_misusing :
    (∃ code, (callAll {} crossing).finish = .ok code ∧
      (boundLabels code.instructions).Perm [⟨0⟩, ⟨1⟩]) ∧
      BreaksFirst {} [.emit (.pop .long) nofun, .bind ⟨0⟩] (.stackUnderflow (.pop .long)) := by
  constructor
  · exact ⟨_, rfl, ((closed_of_finish crossing).1 _ rfl).2.1⟩
  · obtain ⟨f, hfirst, hfinish⟩ := (closed_of_finish misusing).2 [.emit (.pop .long) nofun]
      (.bind ⟨0⟩) [.createLabel] rfl (.inl ⟨⟨0⟩, rfl, by simp [created]⟩)
    cases hfinish
    exact hfirst

end Assembler

end ScriptBytecode

import ScriptBytecode.Proofs.Stack.Typed

/-!
# Streams of instructions

An assembler can be asked for anything in any order: for instructions, for labels and for their
positions, also behind a jump, where control does not arrive. That nothing was found wrong in the
end is meant to say that the code is safe: whatever branches are taken, an instruction finds its
operands, a label is reached with one stack only, and the stack keeps within the recorded size
(`Code.Safe`).

This is so as long as each jump back to a label finds on record which stack the label is reached
with (`Assembler.safe_of_finish`). A label that is bound where control does not arrive, before any
jump to it, leaves no record. The code behind it is followed with the stack of the code before it,
and a later jump to it is not compared to that stack (`Assembler.not_safe_unrecorded`).

* `Assembler.Traced` is the invariant of a stream, with one `Visit` for each instruction, and
  `Traced.callAll` is its induction;
* `Assembler.Recorded` is what is asked of a jump back.

Since slots are counted with 16 bits, `Covers` compares the recorded size with the count, which is
the number of slots only as long as that is less than 65536.

**What is not asked for.** The calls may be any, in any order, and labels may stand anywhere. Code
that control does not reach is not typed, and an execution is followed whether or not the operands
are there (`Arrives`), so that safety is not part of what it means to arrive somewhere.

**What the proof rests on.** `Traced` gives each instruction the stack that the assembler followed
there, if control arrives (`Visit`). An execution can only arrive where one was followed
(`Traced.exists_visit`), and with that very stack (`Traced.followed_of_arrives`); this is an
induction on executions and does not look at the assembler again. That the trace exists is an
induction on calls, and the only step that needs a record is a jump back to a bound label: the stack
at any other label is either on record by then or put on record by the jump.
-/

namespace ScriptBytecode

/-! ### Executions -/

namespace Instruction

/-- What the instruction leaves of a stack, where it takes what is there. -/
def after (i : Instruction) (stack : List StackKind) : List StackKind :=
  i.pushes?.toList ++ stack.drop i.pops

/-- The stack has the values that the instruction takes, with one of the right kind on top for an
instruction that names a kind. -/
structure Runs (i : Instruction) (stack : List StackKind) : Prop where
  pops_le : i.pops ≤ stack.length
  head?_eq : ∀ kind, i.expects? = some kind → stack.head? = some kind

theorem after_of_target {i : Instruction} {l : Label} (h : i.target? = some l)
    (stack : List StackKind) : i.after stack = stack.drop i.pops := by
  cases i <;> first | rfl | cases h

end Instruction

/-- Some execution of the code arrives at a position with such a stack. Any branch may be taken, and
an instruction runs whether or not its operands are there. -/
inductive Arrives (code : List Instruction) : Nat → List StackKind → Prop
  | start : Arrives code 0 []
  | next {pos : Nat} {stack : List StackKind} {i : Instruction} (h : Arrives code pos stack)
    (hi : code[pos]? = some i) (hgoes : i.isTerminal = false) :
    Arrives code (pos + 1) (i.after stack)
  | jump {pos pos' : Nat} {stack : List StackKind} {i : Instruction} {l : Label}
    (h : Arrives code pos stack) (hi : code[pos]? = some i) (hl : i.target? = some l)
    (hbind : code[pos']? = some (.bind l)) : Arrives code pos' (i.after stack)

/-- No execution of the code goes wrong on the operand stack. -/
structure Code.Safe (code : Code) : Prop where
  /-- Each instruction finds its operands. -/
  runs : ∀ {pos : Nat} {stack : List StackKind} {i : Instruction},
    Arrives code.instructions pos stack → code.instructions[pos]? = some i → i.Runs stack
  /-- A label is always reached with the same stack. -/
  labels : ∀ {pos pos' : Nat} {stack stack' : List StackKind} {l : Label},
    Arrives code.instructions pos stack → code.instructions[pos]? = some (.bind l) →
      Arrives code.instructions pos' stack' → code.instructions[pos']? = some (.bind l) →
        stack = stack'
  /-- The stack never takes more slots than recorded, as far as they can be counted with 16 bits. -/
  slots : ∀ {pos : Nat} {stack : List StackKind}, Arrives code.instructions pos stack →
    stackSlots stack < 2 ^ 16 → stackSlots stack ≤ code.maxStack.toNat

/-! ### Calls -/

/-- What an assembler can be asked to do. Labels get their positions by calls of their own. -/
inductive Call where
  | emit (i : Instruction) (hi : ∀ l, i ≠ .bind l)
  | createLabel
  | bind (l : Label)

namespace Assembler

/-- Answers a call. -/
def call (a : Assembler) : Call → Assembler
  | .emit i _ => a.emit i
  | .createLabel => a.createLabel
  | .bind l => a.bind l

/-- Answers one call after another. -/
def callAll (a : Assembler) (calls : List Call) : Assembler := calls.foldl call a

/-- If the call is for a jump back to a label, the stack at that label is on record. -/
def Recorded (a : Assembler) : Call → Prop
  | .emit i _ => ∀ state ∈ i.target?.bind a.labels.get?, state.bound = true →
    state.stack.isSome = true
  | .createLabel | .bind _ => True

/-- The same of each of the calls, when it is made. -/
def AllRecorded (a : Assembler) : List Call → Prop
  | [] => True
  | c :: calls => a.Recorded c ∧ (a.call c).AllRecorded calls

instance (a : Assembler) : (c : Call) → Decidable (a.Recorded c)
  | .emit i _ => inferInstanceAs (Decidable (∀ state ∈ i.target?.bind a.labels.get?, _ → _))
  | .createLabel | .bind _ => isTrue trivial

instance decidableAllRecorded (a : Assembler) : (calls : List Call) →
    Decidable (a.AllRecorded calls)
  | [] => isTrue trivial
  | c :: calls =>
    have := decidableAllRecorded (a.call c) calls
    inferInstanceAs (Decidable (a.Recorded c ∧ (a.call c).AllRecorded calls))

/-! ### Calls that find nothing wrong -/

/-- The recorded size covers the stack and all that it was built up from, as 16 bits count slots. -/
def Covers (room : UInt16) (stack : List StackKind) : Prop :=
  ∀ below, below <:+ stack → stackSlots below % 2 ^ 16 ≤ room.toNat

/-- Larger room covers what smaller room does. -/
theorem Covers.mono {room room' : UInt16} {stack : List StackKind} (h : Covers room stack)
    (hroom : room.toNat ≤ room'.toNat) : Covers room' stack :=
  fun below hbelow ↦ Nat.le_trans (h below hbelow) hroom

variable {a a' : Assembler} {i : Instruction} {l : Label}

@[simp] theorem fault_fail_ne_none (a : Assembler) (f : Fault) : (a.fail f).fault ≠ none := by
  simp [fail]

@[simp] theorem fault_pushResult (a : Assembler) (i : Instruction) :
    (a.pushResult i).fault = a.fault := by
  unfold pushResult
  split <;> rfl

/-- An instruction with whose effect nothing is wrong has found its operands. -/
theorem applyEffect_of_faultless (h : (a.applyEffect i).fault = none) :
    i.Runs a.stack ∧ a.applyEffect i =
      { a with stack := i.after a.stack, maxStack := a.roomAfter i (i.after a.stack) } := by
  rw [Instruction.after, ← pushResult_eq]
  unfold applyEffect at h ⊢
  split at h
  · exact absurd h (fault_fail_ne_none _ _)
  · next hlength =>
    have hpops := Nat.le_of_not_lt hlength
    rw [if_neg hlength]
    dsimp only at h ⊢
    split at h
    · next hexpects => exact ⟨⟨hpops, by simp [hexpects]⟩, rfl⟩
    · exact absurd h (fault_fail_ne_none _ _)
    · next kind actual hexpects hhead =>
      split at h
      · next heq =>
        refine ⟨⟨hpops, fun kind' hkind' ↦ ?_⟩, by rw [if_pos heq]⟩
        rw [hhead, ← heq, ← hexpects, hkind']
      · rw [fault_pushResult] at h
        exact absurd h (fault_fail_ne_none _ _)

/-- An instruction whose jump is not refused has one that is admitted. -/
theorem applyJump_of_faultless (h : (a.applyJump i).fault = none) :
    (∀ l, i.target? = some l → a.labels.Admits l (i.after a.stack)) ∧
      a.applyJump i = { a with labels := a.labels.jumpedBy i (i.after a.stack) } := by
  unfold applyJump at h ⊢
  unfold LabelTable.jumpedBy
  cases hl : i.target? with
  | none => exact ⟨fun _ h ↦ (by cases h), rfl⟩
  | some l =>
    rw [hl] at h
    dsimp only at h ⊢
    rw [Instruction.after_of_target hl]
    cases hjump : a.labels.jump l (a.stack.drop i.pops) with
    | ok labels =>
      obtain ⟨hadmits, rfl⟩ := LabelTable.of_jump_eq_ok hjump
      refine ⟨fun l' hl' ↦ ?_, rfl⟩
      rwa [← Option.some.inj hl']
    | error fault =>
      rw [hjump] at h
      exact absurd h (fault_fail_ne_none _ _)

/-- What an assembler does that finds nothing wrong with an instruction. -/
theorem emit_of_faultless (h : (a.emit i).fault = none) :
    i.Runs a.stack ∧ (∀ l, i.target? = some l → a.labels.Admits l (i.after a.stack)) ∧
      a.emit i =
        { code := a.code ++ [i], stack := i.after a.stack
          maxStack := a.roomAfter i (i.after a.stack)
          reachable := a.reachable && !i.isTerminal
          labels := a.labels.jumpedBy i (i.after a.stack), fault := a.fault } := by
  obtain ⟨hruns, heffect⟩ := applyEffect_of_faultless (a := a.applyJump i) h
  have hfault : (a.applyJump i).fault = none := by
    have h : ((a.applyJump i).applyEffect i).fault = none := h
    rwa [heffect] at h
  obtain ⟨hadmits, hjump⟩ := applyJump_of_faultless hfault
  unfold emit
  rw [heffect]
  rw [hjump] at hruns ⊢
  exact ⟨hruns, hadmits, rfl⟩

/-- The stack that control arrives with at the current position, if it does. -/
def current? (a : Assembler) : Option (List StackKind) := if a.reachable then some a.stack else none

/-- What an assembler does that finds nothing wrong with the position of a label. -/
theorem bind_of_faultless (h : (a.bind l).fault = none) : ∃ known,
    a.labels.get? l = some { bound := false, stack := known } ∧
      (∀ stack, a.current? = some stack → known = none ∨ known = some stack) ∧
      a.bind l =
        { a with
          code := a.code ++ [Instruction.bind l], stack := known.getD a.stack, reachable := true
          labels := a.labels.set l { bound := true, stack := known <|> a.current? } } := by
  unfold bind at h ⊢
  rw [← current?] at h ⊢
  dsimp only at h ⊢
  cases hbind : a.labels.bind l a.current? with
  | mk labels outcome =>
    rw [hbind] at h
    cases outcome with
    | error fault => exact absurd h (fault_fail_ne_none _ _)
    | ok outcome =>
      obtain ⟨known, hget, hagrees, rfl, rfl⟩ := LabelTable.of_bind_eq_ok hbind
      refine ⟨known, hget, hagrees, ?_⟩
      unfold current?
      cases hreach : a.reachable <;> cases known <;> rfl

/-- The followed stack counts only where control arrives. -/
theorem eq_of_current? {stack : List StackKind} (h : a.current? = some stack) :
    a.reachable = true ∧ a.stack = stack := by
  unfold current? at h
  split at h
  · next hreach => exact ⟨hreach, Option.some.inj h⟩
  · cases h

/-- The recorded size never shrinks. -/
theorem le_roomAfter (a : Assembler) (i : Instruction) (stack : List StackKind) :
    a.maxStack.toNat ≤ (a.roomAfter i stack).toNat := by
  unfold roomAfter
  split
  · rw [toNat_max]
    exact Nat.le_max_left ..
  · exact Nat.le_refl _

/-- What an instruction leaves has been counted, if what it finds has. -/
theorem covers_after (i : Instruction) (h : Covers a.maxStack a.stack) :
    Covers (a.roomAfter i (i.after a.stack)) (i.after a.stack) := by
  intro below hbelow
  have hkept : below <:+ a.stack.drop i.pops →
      stackSlots below % 2 ^ 16 ≤ (a.roomAfter i (i.after a.stack)).toNat := fun hsuffix ↦
    Nat.le_trans (h below (hsuffix.trans (List.drop_suffix ..))) (a.le_roomAfter ..)
  unfold Instruction.after at hbelow
  cases hpushes : i.pushes? with
  | none =>
    rw [hpushes] at hbelow
    exact hkept hbelow
  | some kind =>
    rw [hpushes] at hbelow
    obtain rfl | hbelow := List.suffix_cons_iff.1 hbelow
    · unfold roomAfter Instruction.after
      rw [hpushes, if_pos Option.isSome_some, toNat_max, UInt16.toNat_ofNat']
      exact Nat.le_max_right ..
    · exact hkept hbelow

theorem fault_of_call {c : Call} (h : (a.call c).fault = none) : a.fault = none := by
  cases c with
  | emit i hi =>
    have h : (a.emit i).fault = none := h
    rwa [(emit_of_faultless h).2.2] at h
  | createLabel => exact h
  | bind l =>
    have h : (a.bind l).fault = none := h
    obtain ⟨known, -, -, heq⟩ := bind_of_faultless h
    rwa [heq] at h

/-- If nothing is wrong in the end, nothing was wrong before. -/
theorem fault_of_callAll {calls : List Call} (h : (a.callAll calls).fault = none) :
    a.fault = none := by
  induction calls generalizing a with
  | nil => exact h
  | cons c calls ih => exact fault_of_call (ih h)

end Assembler

/-! ### What was followed -/

namespace LabelTable

/-- What is known of a label stays known, and once it is bound nothing becomes known of it. -/
def Keeps (t t' : LabelTable) : Prop :=
  ∀ ⦃l : Label⦄ ⦃state : LabelState⦄, t.get? l = some state → ∃ state', t'.get? l = some state' ∧
    (∀ stack, state.stack = some stack → state'.stack = some stack) ∧
    (state.bound = true → state' = state)

/-- The recorded size covers the stacks that labels are reached with. -/
def Within (t : LabelTable) (room : UInt16) : Prop :=
  ∀ ⦃l : Label⦄ ⦃state : LabelState⦄ ⦃stack : List StackKind⦄, t.get? l = some state →
    state.stack = some stack → Assembler.Covers room stack

variable {t t' : LabelTable} {l : Label} {room room' : UInt16}

theorem keeps_create (t : LabelTable) : t.Keeps t.create :=
  fun _ _ hget ↦ ⟨_, get?_create_of_some hget, fun _ h ↦ h, fun _ ↦ rfl⟩

/-- A label that has not been bound may be changed as long as its stack is not. -/
theorem keeps_set {state state' : LabelState} (hget : t.get? l = some state)
    (hbound : state.bound = false)
    (hstack : ∀ stack, state.stack = some stack → state'.stack = some stack) :
    t.Keeps (t.set l state') := by
  intro l' other hother
  by_cases hl : l = l'
  · subst hl
    obtain rfl := Option.some.inj (hget.symm.trans hother)
    refine ⟨state', get?_set_self hget, hstack, fun h ↦ ?_⟩
    rw [hbound] at h
    cases h
  · exact ⟨other, (get?_set_of_ne t _ hl).trans hother, fun _ h ↦ h, fun _ ↦ rfl⟩

/-- A jump that finds the stack of a bound label on record leaves that label as it is. -/
theorem keeps_jumpedBy {i : Instruction} {stack : List StackKind}
    (hadmits : ∀ l, i.target? = some l → t.Admits l stack)
    (hrecorded : ∀ state ∈ i.target?.bind t.get?, state.bound = true →
      state.stack.isSome = true) : t.Keeps (t.jumpedBy i stack) := by
  intro l state hget
  obtain ⟨state', hget', hbound, hknown⟩ := jumpedBy_keeps hadmits hget
  refine ⟨state', hget', hknown, fun h ↦ ?_⟩
  by_cases htarget : i.target? = some l
  · have hsome := hrecorded state (by rw [htarget]; exact hget) h
    obtain ⟨known, hstack⟩ := Option.isSome_iff_exists.1 hsome
    have hstack' := hknown known hstack
    obtain ⟨bound, stack⟩ := state
    obtain ⟨bound', stack'⟩ := state'
    obtain rfl : bound' = bound := hbound
    obtain rfl : stack' = stack := hstack'.trans hstack.symm
    rfl
  · rw [get?_jumpedBy, if_neg htarget, hget] at hget'
    exact (Option.some.inj hget').symm

theorem Within.mono (h : t.Within room) (hroom : room.toNat ≤ room'.toNat) : t.Within room' :=
  fun _ _ _ hget hstack ↦ (h hget hstack).mono hroom

theorem Within.create (h : t.Within room) : t.create.Within room := by
  intro l state stack hget hstack
  by_cases hl : l = t.next
  · subst hl
    rw [get?_create_next] at hget
    obtain rfl := Option.some.inj hget
    cases hstack
  · exact h ((get?_create_of_ne t hl).symm.trans hget) hstack

theorem Within.set (h : t.Within room) {state state' : LabelState} (hget : t.get? l = some state')
    (hstack : ∀ stack, state.stack = some stack → Assembler.Covers room stack) :
    (t.set l state).Within room := by
  intro l' other stack hother hknown
  by_cases hl : l = l'
  · subst hl
    obtain rfl := Option.some.inj ((get?_set_self hget).symm.trans hother)
    exact hstack stack hknown
  · exact h ((get?_set_of_ne t _ hl).symm.trans hother) hknown

/-- A jump records a stack that there is room for. -/
theorem Within.jumpedBy (h : t.Within room) (i : Instruction) {stack : List StackKind}
    (hstack : Assembler.Covers room stack) : (t.jumpedBy i stack).Within room := by
  intro l state known hget hknown
  rw [get?_jumpedBy] at hget
  split at hget
  · obtain ⟨state', -, rfl⟩ := Option.map_eq_some_iff.1 hget
    obtain rfl := Option.some.inj hknown
    exact hstack
  · exact h hget hknown

end LabelTable

/-- An instruction with the stack that it was followed at, if control arrives there. -/
structure Visit where
  instruction : Instruction
  stack? : Option (List StackKind)

/-- What was followed at the instruction fits the labels and the recorded size. -/
structure Visit.Fits (v : Visit) (t : LabelTable) (room : UInt16) : Prop where
  runs : ∀ {stack : List StackKind}, v.stack? = some stack → v.instruction.Runs stack
  slots : ∀ {stack : List StackKind}, v.stack? = some stack → Assembler.Covers room stack
  /-- The label of a jump is reached with what the jump leaves. -/
  jumps : ∀ {stack : List StackKind} {l : Label}, v.stack? = some stack →
    v.instruction.target? = some l →
      ∃ state, t.get? l = some state ∧ state.stack = some (v.instruction.after stack)
  /-- What a label is reached with is what was followed at its position. -/
  binds : ∀ {l : Label}, v.instruction = .bind l → ∃ state, t.get? l = some state ∧
    state.bound = true ∧ ∀ stack, state.stack = some stack → v.stack? = some stack

/-- What fitted before still fits when more is known of labels. -/
theorem Visit.Fits.mono {v : Visit} {t t' : LabelTable} {room room' : UInt16} (h : v.Fits t room)
    (hkeeps : t.Keeps t') (hroom : room.toNat ≤ room'.toNat) : v.Fits t' room' where
  runs := h.runs
  slots hstack := (h.slots hstack).mono hroom
  jumps hstack hl := by
    obtain ⟨state, hget, hafter⟩ := h.jumps hstack hl
    obtain ⟨state', hget', hknown, -⟩ := hkeeps hget
    exact ⟨state', hget', hknown _ hafter⟩
  binds hbind := by
    obtain ⟨state, hget, hbound, hagrees⟩ := h.binds hbind
    obtain ⟨state', hget', -, hsame⟩ := hkeeps hget
    obtain rfl := hsame hbound
    exact ⟨state', hget', hbound, hagrees⟩

namespace Assembler

variable {a a' : Assembler} {visits : List Visit} {v : Visit} {i : Instruction} {l : Label}

/-- What was followed at the instructions so far and at the current position. -/
def followed (a : Assembler) (visits : List Visit) : List (Option (List StackKind)) :=
  visits.map (·.stack?) ++ [a.current?]

/-- The instructions so far have been followed as the visits say. -/
structure Traced (a : Assembler) (visits : List Visit) : Prop where
  code_eq : a.code = visits.map (·.instruction)
  entry : (a.followed visits)[0]? = some (some [])
  /-- What an instruction leaves is what was followed at the next position. -/
  next : ∀ {pos : Nat} {v : Visit} {stack : List StackKind}, visits[pos]? = some v →
    v.stack? = some stack → v.instruction.isTerminal = false →
      (a.followed visits)[pos + 1]? = some (some (v.instruction.after stack))
  fits : ∀ v ∈ visits, v.Fits a.labels a.maxStack
  /-- No label has two positions. -/
  once : ∀ {pos pos' : Nat} {l : Label}, a.code[pos]? = some (.bind l) →
    a.code[pos']? = some (.bind l) → pos = pos'
  within : a.labels.Within a.maxStack
  /-- Also where control does not arrive, the recorded size covers the stack. -/
  slots : Covers a.maxStack a.stack

namespace Traced

theorem empty : Traced {} [] where
  code_eq := rfl
  entry := rfl
  next h := by cases h
  fits _ h := absurd h List.not_mem_nil
  once h := by cases h
  within _ _ _ h := by cases h
  slots below hbelow := by
    rw [List.suffix_nil.1 hbelow]
    exact Nat.zero_le _

/-- To create a label visits nothing. -/
theorem createLabel (h : a.Traced visits) : a.createLabel.Traced visits where
  code_eq := h.code_eq
  entry := h.entry
  next := h.next
  fits v hv := (h.fits v hv).mono (LabelTable.keeps_create _) (Nat.le_refl _)
  once := h.once
  within := h.within.create
  slots := h.slots

/-- Once there is an instruction at the current position, what was followed there stays the same,
where control arrives. -/
theorem getElem?_followed {stack : List StackKind} {pos : Nat}
    (hat : ∀ stack, a.current? = some stack → v.stack? = some stack)
    (h : (a.followed visits)[pos]? = some (some stack)) :
    (a'.followed (visits ++ [v]))[pos]? = some (some stack) := by
  unfold followed at h ⊢
  rw [List.map_append]
  refine getElem?_snoc_of_some ?_ _
  obtain h | ⟨rfl, heq⟩ := getElem?_snoc h
  · exact getElem?_snoc_of_some h _
  · rw [List.map_singleton, hat _ heq.symm, List.getElem?_concat_length]

/-- One more instruction has been followed. -/
theorem add (h : a.Traced visits) (hcode : a'.code = a.code ++ [v.instruction])
    (hat : ∀ stack, a.current? = some stack → v.stack? = some stack)
    (hnext : ∀ stack, v.stack? = some stack → v.instruction.isTerminal = false →
      a'.current? = some (v.instruction.after stack))
    (hnew : ∀ l, v.instruction = .bind l →
      ∀ state, a.labels.get? l = some state → state.bound = false)
    (hkeeps : a.labels.Keeps a'.labels) (hroom : a.maxStack.toNat ≤ a'.maxStack.toNat)
    (hfits : v.Fits a'.labels a'.maxStack) (hwithin : a'.labels.Within a'.maxStack)
    (hslots : Covers a'.maxStack a'.stack) : a'.Traced (visits ++ [v]) where
  code_eq := by rw [hcode, h.code_eq, List.map_append, List.map_singleton]
  entry := getElem?_followed hat h.entry
  next {pos w stack} hw hstack hgoes := by
    obtain hw | ⟨rfl, rfl⟩ := getElem?_snoc hw
    · exact getElem?_followed hat (h.next hw hstack hgoes)
    · unfold followed
      rw [hnext stack hstack hgoes]
      simp
  fits w hw := by
    obtain hw | hw := List.mem_append.1 hw
    · exact (h.fits w hw).mono hkeeps hroom
    · obtain rfl := List.mem_singleton.1 hw
      exact hfits
  once {pos pos' l} hl hl' := by
    -- An earlier position would have left the label bound.
    have hother : ∀ {pos : Nat}, a.code[pos]? = some (Instruction.bind l) →
        v.instruction ≠ .bind l := by
      intro pos hpos hv
      rw [h.code_eq] at hpos
      obtain ⟨w, hw, hwbind⟩ := List.mem_map.1 (List.mem_of_getElem? hpos)
      obtain ⟨state, hget, hbound, -⟩ := (h.fits w hw).binds hwbind
      rw [hnew l hv state hget] at hbound
      cases hbound
    rw [hcode] at hl hl'
    obtain hl | ⟨rfl, heq⟩ := getElem?_snoc hl <;> obtain hl' | ⟨rfl, heq'⟩ := getElem?_snoc hl'
    · exact h.once hl hl'
    · exact absurd heq'.symm (hother hl)
    · exact absurd heq.symm (hother hl')
    · rfl
  within := hwithin
  slots := hslots

/-- An instruction with which nothing is wrong, and which finds on record what it has to. -/
theorem emit (h : a.Traced visits) (hfault : (a.emit i).fault = none) (hi : ∀ l, i ≠ .bind l)
    (hrecorded : a.Recorded (.emit i hi)) : (a.emit i).Traced (visits ++ [⟨i, a.current?⟩]) := by
  obtain ⟨hruns, hadmits, heq⟩ := emit_of_faultless hfault
  have hroom := a.le_roomAfter i (i.after a.stack)
  have hslots := covers_after i h.slots
  rw [heq]
  refine h.add rfl (fun _ hstack ↦ hstack) ?_ (fun l hl ↦ absurd hl (hi l))
    (LabelTable.keeps_jumpedBy hadmits hrecorded) hroom ?_
    ((h.within.mono hroom).jumpedBy i hslots) hslots
  · intro stack hstack hgoes
    obtain ⟨hreach, rfl⟩ := eq_of_current? hstack
    have hgoes : i.isTerminal = false := hgoes
    simp [current?, hreach, hgoes]
  · constructor
    · intro stack hstack
      obtain ⟨-, rfl⟩ := eq_of_current? hstack
      exact hruns
    · intro stack hstack
      obtain ⟨-, rfl⟩ := eq_of_current? hstack
      exact h.slots.mono hroom
    · intro stack l hstack hl
      obtain ⟨-, rfl⟩ := eq_of_current? hstack
      obtain ⟨state, hget, -⟩ := hadmits l hl
      refine ⟨{ state with stack := some (i.after a.stack) }, ?_, rfl⟩
      rw [LabelTable.get?_jumpedBy, if_pos hl, hget]
      rfl
    · exact fun {l} hl ↦ absurd hl (hi l)

/-- The position of a label, if nothing is wrong with it. -/
theorem bind (h : a.Traced visits) (hfault : (a.bind l).fault = none) :
    (a.bind l).Traced (visits ++ [⟨.bind l, some (a.bind l).stack⟩]) := by
  obtain ⟨known, hget, hagrees, heq⟩ := bind_of_faultless hfault
  have hrecord : ∀ stack, (known <|> a.current?) = some stack → known.getD a.stack = stack := by
    intro stack hstack
    cases known with
    | none => exact (eq_of_current? hstack).2
    | some expected => exact Option.some.inj hstack
  have hslots : Covers a.maxStack (known.getD a.stack) := by
    cases known with
    | none => exact h.slots
    | some expected => exact h.within hget rfl
  rw [heq]
  -- A label that stays without a record asks nothing of its position, so the stack that is left
  -- from the code above will do there.
  refine h.add rfl ?_ (fun _ hstack _ ↦ hstack) ?_
    (LabelTable.keeps_set hget rfl fun stack hstack ↦ ?_) (Nat.le_refl _) ?_
    (h.within.set hget fun stack hstack ↦ ?_) hslots
  · intro stack hstack
    obtain rfl | rfl := hagrees stack hstack
    · exact congrArg some (eq_of_current? hstack).2
    · rfl
  · intro l' hl' state hget'
    obtain rfl := Instruction.bind.inj hl'
    obtain rfl := Option.some.inj (hget.symm.trans hget')
    rfl
  · obtain rfl : known = some stack := hstack
    rfl
  · constructor
    · exact fun _ ↦ ⟨Nat.zero_le _, fun _ h ↦ by cases h⟩
    · intro stack hstack
      obtain rfl := Option.some.inj hstack
      exact hslots
    · exact fun _ h ↦ by cases h
    · intro l' hl'
      obtain rfl := Instruction.bind.inj hl'
      exact ⟨_, LabelTable.get?_set_self hget, rfl, fun stack hstack ↦
        congrArg some (hrecord stack hstack)⟩
  · rw [← hrecord stack hstack]
    exact hslots

/-- Each call leaves a trace, if a jump back finds its label on record. -/
theorem call {c : Call} (h : a.Traced visits) (hfault : (a.call c).fault = none)
    (hrecorded : a.Recorded c) : ∃ visits', (a.call c).Traced visits' := by
  cases c with
  | emit i hi => exact ⟨_, h.emit hfault hi hrecorded⟩
  | createLabel => exact ⟨_, h.createLabel⟩
  | bind l => exact ⟨_, h.bind hfault⟩

/-- So do all calls: this is the induction on streams. -/
theorem callAll {calls : List Call} (h : a.Traced visits) (hfault : (a.callAll calls).fault = none)
    (hrecorded : a.AllRecorded calls) : ∃ visits', (a.callAll calls).Traced visits' := by
  induction calls generalizing a visits with
  | nil => exact ⟨visits, h⟩
  | cons c calls ih =>
    obtain ⟨visits', h'⟩ := h.call (fault_of_callAll hfault) hrecorded.1
    exact ih h' hfault hrecorded.2

/-! ### What arrives -/

/-- Where control arrives the trace says with which stack. -/
theorem exists_visit {pos : Nat} {stack : List StackKind} (h : a.Traced visits)
    (hi : a.code[pos]? = some i) (hstack : (a.followed visits)[pos]? = some (some stack)) :
    ∃ v, visits[pos]? = some v ∧ v.instruction = i ∧ v.stack? = some stack := by
  rw [h.code_eq, List.getElem?_map] at hi
  obtain ⟨v, hv, hinstruction⟩ := Option.map_eq_some_iff.1 hi
  refine ⟨v, hv, hinstruction, ?_⟩
  have hfollowed : (a.followed visits)[pos]? = some v.stack? := by
    refine getElem?_snoc_of_some ?_ _
    rw [List.getElem?_map, hv]
    rfl
  exact Option.some.inj (hfollowed.symm.trans hstack)

/-- Whatever way an execution takes, it arrives with the stack that was followed. -/
theorem followed_of_arrives {pos : Nat} {stack : List StackKind} (h : a.Traced visits)
    (harrives : Arrives a.code pos stack) : (a.followed visits)[pos]? = some (some stack) := by
  induction harrives with
  | start => exact h.entry
  | next _ hi hgoes ih =>
    obtain ⟨v, hv, rfl, hstack⟩ := h.exists_visit hi ih
    exact h.next hv hstack hgoes
  | @jump pos pos' stack i l _ hi hl hbind ih =>
    obtain ⟨v, hv, rfl, hstack⟩ := h.exists_visit hi ih
    obtain ⟨state, hget, hafter⟩ := (h.fits v (List.mem_of_getElem? hv)).jumps hstack hl
    rw [h.code_eq, List.getElem?_map] at hbind
    obtain ⟨w, hw, hwbind⟩ := Option.map_eq_some_iff.1 hbind
    obtain ⟨state', hget', -, hagrees⟩ := (h.fits w (List.mem_of_getElem? hw)).binds hwbind
    obtain rfl := Option.some.inj (hget.symm.trans hget')
    refine getElem?_snoc_of_some ?_ _
    rw [List.getElem?_map, hw]
    exact congrArg some (hagrees _ hafter)

/-- Code that leaves a trace is safe. -/
theorem safe (h : a.Traced visits) : Code.Safe ⟨a.code, a.maxStack⟩ where
  runs harrives hi := by
    obtain ⟨v, hv, rfl, hstack⟩ := h.exists_visit hi (h.followed_of_arrives harrives)
    exact (h.fits v (List.mem_of_getElem? hv)).runs hstack
  labels {pos pos' stack stack' l} harrives hl harrives' hl' := by
    obtain rfl := h.once hl hl'
    have hsame := (h.followed_of_arrives harrives).symm.trans (h.followed_of_arrives harrives')
    exact Option.some.inj (Option.some.inj hsame)
  slots {pos stack} harrives hslots := by
    have hcovers : Covers a.maxStack stack := by
      obtain hvisit | ⟨-, hcurrent⟩ := getElem?_snoc (h.followed_of_arrives harrives)
      · obtain ⟨v, hv, hstack⟩ := List.mem_map.1 (List.mem_of_getElem? hvisit)
        exact (h.fits v hv).slots hstack
      · obtain ⟨-, rfl⟩ := eq_of_current? hcurrent.symm
        exact h.slots
    have hle := hcovers stack (List.suffix_refl stack)
    rwa [Nat.mod_eq_of_lt hslots] at hle

end Traced

/-- Where nothing was found wrong in the end, and each jump back to a label found on record which
stack the label is reached with, no execution of the code goes wrong. -/
theorem safe_of_finish {calls : List Call} {code : Code}
    (h : (callAll {} calls).finish = .ok code) (hrecorded : AllRecorded {} calls) : code.Safe := by
  obtain ⟨hfault, -, rfl⟩ := of_finish_eq_ok h
  obtain ⟨visits, hvisits⟩ := Traced.empty.callAll hfault hrecorded
  exact hvisits.safe

/-- A loop that is left by a conditional jump to a label behind the jump back. -/
def looping : List Call :=
  [.createLabel, .createLabel, .bind ⟨0⟩, .emit (.pushInt 1) nofun,
    .emit (.jumpIf .eq ⟨1⟩) nofun, .emit (.goto ⟨0⟩) nofun, .bind ⟨1⟩, .emit .returnVoid nofun]

/-- A loop that finds its label on record when it jumps back. -/
theorem safe_of_finish_looping : AllRecorded {} looping ∧
    ∃ code, (callAll {} looping).finish = .ok code ∧ code.Safe := by
  have hrecorded : AllRecorded {} looping := by decide
  exact ⟨hrecorded, _, rfl, safe_of_finish rfl hrecorded⟩

/-- The first label is bound behind a jump, before anything jumps to it. What comes after it is
followed with the stack of that jump, but the last instruction jumps to it with an empty stack. -/
def unrecorded : List Call :=
  [.createLabel, .createLabel, .emit (.pushInt 1) nofun, .emit (.goto ⟨1⟩) nofun, .bind ⟨0⟩,
    .emit (.pop .int) nofun, .emit .returnVoid nofun, .bind ⟨1⟩, .emit (.pop .int) nofun,
    .emit (.goto ⟨0⟩) nofun]

/-- Nothing is found wrong with such a stream, and its first `pop` may be reached with no value to
drop. -/
theorem not_safe_unrecorded :
    ∃ code, (callAll {} unrecorded).finish = .ok code ∧ ¬code.Safe := by
  refine ⟨_, rfl, fun h ↦ ?_⟩
  have hpushed : Arrives (callAll {} unrecorded).code 1 [.int] :=
    .next (i := .pushInt 1) .start rfl rfl
  have hjumped : Arrives (callAll {} unrecorded).code 5 [.int] :=
    .jump (i := .goto ⟨1⟩) hpushed rfl rfl rfl
  have hpopped : Arrives (callAll {} unrecorded).code 7 [] :=
    .next (i := .pop .int) (.next (i := .bind ⟨1⟩) hjumped rfl rfl) rfl rfl
  have hback : Arrives (callAll {} unrecorded).code 2 [] :=
    .jump (i := .goto ⟨0⟩) hpopped rfl rfl rfl
  have hpop : Arrives (callAll {} unrecorded).code 3 [] :=
    .next (i := .bind ⟨0⟩) hback rfl rfl
  have hruns : (Instruction.pop .int).Runs [] := h.runs hpop rfl
  exact absurd hruns.pops_le (by decide)

end Assembler

end ScriptBytecode

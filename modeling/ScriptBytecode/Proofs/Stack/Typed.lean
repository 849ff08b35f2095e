import ScriptBytecode.Proofs.Emission
import ScriptBytecode.Proofs.Stack.Labels
import ScriptBytecode.Proofs.Stack.Verifier

/-!
# Code that is verified as it is assembled

`Assembler.Typed` is what verification asks of code that is not finished: each instruction so far
has a shape, the shapes fit along the control flow, and the labels remember the shapes that jumps
arrive with. Each step of the assembler keeps it, provided that the step makes sense: that control
arrives, that operands of the right kinds are there, and that a label is reached with the one shape
it has.

`Assembler.Live a stack` is what can be said of any assembler, whatever it holds: nothing is wrong
so far, and control arrives behind the code with `stack`. `Assembler.At a stack` is all that the
rest of a method needs to know: besides, the code so far is typed.

**What each step asks for.** A step of the assembler is total, and notes a fault where something is
wrong. The lemmas about `Typed` therefore have the reasons as hypotheses: `Typed.emit` asks for the
effect of the instruction on the shape, and for the shape that its label admits if it jumps;
`Typed.bind` asks that control arrives with the stack the label waits for. The lemmas about `Live`
ask for the same and say what becomes of the stack that is followed; those about `At` put both
together.

**Where control does not arrive** the assembler goes on following a stack that means nothing. All
that is kept of it is that it has been there before (`Typed.stops`), which is enough for the
recorded size; `Dead` and `Off` are the counterparts of `Live` and `At` there, and only a label
leads out of them.

**The size of the stack** is recorded as the assembler goes, by adding and taking 16-bit counts. An
instruction that only takes values leaves the record as it is, though with counts that wrap around
what it leaves may count for more than what was there. But whatever lies at the bottom of a shape
was a shape itself (`BuiltUp`), so it has been counted before (`Assembler.toNat_roomAfter`).

* `Assembler.emit_of_effect` and `Assembler.bind_eq` compute what a step does where nothing is
  wrong;
* `Typed.emit`, `Typed.createLabel` and `Typed.bind` are the steps of the invariant;
* `At.finish` is the end of a method, where typed code becomes verified code.
-/

namespace ScriptBytecode

/-! ### Effects and the assembler's bookkeeping -/

namespace Instruction

theorem length_kindsOf? {types : List MachineType} {kinds : List StackKind}
    (h : kindsOf? types = some kinds) : kinds.length = types.length := by
  induction types generalizing kinds with
  | nil =>
    obtain rfl := Option.some.inj h
    rfl
  | cons type types ih =>
    obtain ⟨kind, -, h⟩ := Option.bind_eq_some_iff.1 h
    obtain ⟨kinds', hkinds', h⟩ := Option.bind_eq_some_iff.1 h
    obtain rfl := Option.some.inj h
    rw [List.length_cons, List.length_cons, ih hkinds']

/-- What the assembler knows of an instruction agrees with what verification asks. `dup` is on its
own: to the assembler it takes nothing and adds a value, under the condition that it is there
already. -/
theorem pops_eq {i : Instruction} {taken : List StackKind} (h : i.takes? = some taken) :
    (∃ kind, i = .dup kind) ∨
      (i.pops = taken.length ∧ i.leaves = i.pushes?.toList ∧
        ∀ kind, i.expects? = some kind → taken.head? = some kind) := by
  have hcall : ∀ {types : List MachineType} {f : List StackKind → List StackKind} {n : Nat},
      (∀ kinds, (f kinds).length = kinds.length + n) → (kindsOf? types).map f = some taken →
        types.length + n = taken.length := by
    intro types f n hf hmap
    obtain ⟨kinds, hkinds, rfl⟩ := Option.map_eq_some_iff.1 hmap
    rw [hf, length_kindsOf? hkinds]
  cases i with
  | dup kind => exact .inl ⟨kind, rfl⟩
  | invokeStatic m =>
    exact .inr ⟨hcall (n := 0) (by simp) h, rfl, by simp [expects?]⟩
  | invokeVirtual m | invokeInterface m | invokeSpecial m =>
    exact .inr ⟨hcall (n := 1) (by simp) h, rfl, by simp [expects?]⟩
  | _ =>
    obtain rfl := Option.some.inj h
    exact .inr ⟨rfl, rfl, by simp [expects?]⟩

end Instruction

/-- The size that is recorded for the stack once an instruction has left it as `after`. -/
def Assembler.roomAfter (a : Assembler) (i : Instruction) (after : List StackKind) : UInt16 :=
  if i.pushes?.isSome then max a.maxStack (.ofNat (stackSlots after)) else a.maxStack

/-- What an instruction pushes is put on whatever stack is followed. -/
theorem Assembler.pushResult_eq (a : Assembler) (i : Instruction) (stack : List StackKind) :
    ({ a with stack } : Assembler).pushResult i =
      { a with
        stack := i.pushes?.toList ++ stack
        maxStack := a.roomAfter i (i.pushes?.toList ++ stack) } := by
  unfold pushResult roomAfter
  cases i.pushes? with
  | none => rfl
  | some kind => rfl

/-- Where the operands of an instruction are there, the assembler follows its effect. -/
theorem Assembler.applyEffect_of_effect {a : Assembler} {i : Instruction} {after : List StackKind}
    (h : i.effect? a.stack = some after) :
    a.applyEffect i = { a with stack := after, maxStack := a.roomAfter i after } := by
  obtain ⟨taken, rest, htaken, hstack, rfl⟩ := Instruction.effect?_eq_some.1 h
  obtain ⟨kind, rfl⟩ | ⟨hpops, hleaves, hexpects⟩ := Instruction.pops_eq htaken
  · obtain rfl : [kind] = taken := Option.some.inj htaken
    unfold applyEffect
    simp [Instruction.pops, Instruction.expects?, hstack, pushResult, Instruction.pushes?, push,
      Instruction.leaves, roomAfter]
  · have hnot : ¬a.stack.length < i.pops := by
      rw [hstack, hpops, List.length_append]
      omega
    have hdrop : a.stack.drop i.pops = rest := by rw [hstack, hpops, List.drop_left]
    have hpopped : ({ a with stack := rest } : Assembler).pushResult i =
        { a with
          stack := i.leaves ++ rest
          maxStack := a.roomAfter i (i.leaves ++ rest) } := by
      rw [hleaves]
      exact pushResult_eq a i rest
    have hhead : ∀ kind, i.expects? = some kind → a.stack.head? = some kind := by
      intro kind hkind
      rw [hstack, List.head?_append, hexpects kind hkind]
      rfl
    unfold applyEffect
    rw [if_neg hnot, hdrop]
    dsimp only
    split
    · exact hpopped
    · next kind hkind hnone =>
      rw [hhead kind hkind] at hnone
      cases hnone
    · next kind actual hkind hactual =>
      obtain rfl := Option.some.inj ((hhead kind hkind).symm.trans hactual)
      rw [if_pos rfl]
      exact hpopped

/-- What the jump of an instruction leaves of the labels, if it has one. -/
def LabelTable.jumpedBy (t : LabelTable) (i : Instruction) (stack : List StackKind) : LabelTable :=
  match i.target? with
  | none => t
  | some l => t.expecting l stack

/-- A jump fixes the stack of its target and of no other label. -/
theorem LabelTable.get?_jumpedBy (t : LabelTable) (i : Instruction) (stack : List StackKind)
    (l : Label) : (t.jumpedBy i stack).get? l =
      if i.target? = some l then (t.get? l).map fun state ↦ { state with stack := some stack }
      else t.get? l := by
  unfold jumpedBy
  cases hl : i.target? with
  | none => rfl
  | some l' =>
    by_cases hne : l' = l
    · subst hne
      rw [if_pos rfl]
      cases hget : t.get? l' with
      | none => simp [expecting, hget]
      | some state => exact get?_expecting_self hget
    · rw [if_neg fun h ↦ hne (Option.some.inj h)]
      exact get?_expecting_of_ne hne

/-- A jump that is admitted keeps what is known of the stack at a label, and whether it is bound. -/
theorem LabelTable.jumpedBy_keeps {t : LabelTable} {i : Instruction} {stack : List StackKind}
    {l : Label} {state : LabelState} (hjump : ∀ l, i.target? = some l → t.Admits l stack)
    (hget : t.get? l = some state) :
    ∃ state', (t.jumpedBy i stack).get? l = some state' ∧ state'.bound = state.bound ∧
      ∀ known, state.stack = some known → state'.stack = some known := by
  rw [get?_jumpedBy]
  split
  · next htarget =>
    obtain ⟨state', hget', hstack⟩ := hjump l htarget
    obtain rfl : state' = state := Option.some.inj (hget'.symm.trans hget)
    refine ⟨{ state' with stack := some stack }, by rw [hget]; rfl, rfl, fun known hknown ↦ ?_⟩
    rw [hknown] at hstack
    simpa [eq_comm] using hstack
  · exact ⟨state, hget, rfl, fun _ hknown ↦ hknown⟩

/-- What a jump may have changed is the label that it goes to. -/
theorem LabelTable.of_jumpedBy {t : LabelTable} {i : Instruction} {stack : List StackKind}
    {l : Label} {state : LabelState} (hget : (t.jumpedBy i stack).get? l = some state) :
    ∃ state', t.get? l = some state' ∧ state'.bound = state.bound ∧
      (state' = state ∨ i.target? = some l) := by
  rw [get?_jumpedBy] at hget
  split at hget
  · next htarget =>
    obtain ⟨state', hget', rfl⟩ := Option.map_eq_some_iff.1 hget
    exact ⟨state', hget', rfl, .inr htarget⟩
  · exact ⟨state, hget, rfl, .inl rfl⟩

/-- A jump arrives with what its instruction leaves of the stack. -/
theorem Instruction.drop_pops_of_target {i : Instruction} {l : Label}
    {shape after : List StackKind} (hl : i.target? = some l) (h : i.effect? shape = some after) :
    shape.drop i.pops = after := by
  obtain ⟨taken, rest, htaken, rfl, rfl⟩ := effect?_eq_some.1 h
  cases i with
  | goto | jumpIf | jumpIfCompare =>
    obtain rfl := Option.some.inj htaken
    rfl
  | _ => cases hl

/-- Jumps and returns only take from the stack. -/
theorem Instruction.suffix_of_leaves_nil {i : Instruction} {shape after : List StackKind}
    (hleaves : i.leaves = []) (h : i.effect? shape = some after) : after <:+ shape := by
  obtain ⟨taken, rest, -, rfl, rfl⟩ := effect?_eq_some.1 h
  rw [hleaves, List.nil_append]
  exact List.suffix_append ..

theorem Instruction.leaves_of_target {i : Instruction} {l : Label} (h : i.target? = some l) :
    i.leaves = [] := by
  cases i <;> first | rfl | cases h

theorem Instruction.leaves_of_isTerminal {i : Instruction} (h : i.isTerminal = true) :
    i.leaves = [] := by
  cases i <;> first | rfl | cases h

theorem Instruction.target?_of_isStraight {i : Instruction} (h : i.isStraight = true) :
    i.target? = none := by
  cases i <;> first | rfl | cases h

theorem Instruction.isTerminal_of_isStraight {i : Instruction} (h : i.isStraight = true) :
    i.isTerminal = false := by
  cases i <;> first | rfl | cases h

theorem LabelTable.admits_of_target {t : LabelTable} {i : Instruction} {l : Label}
    {stack : List StackKind} (hl : i.target? = some l) (h : t.Admits l stack) :
    ∀ l', i.target? = some l' → t.Admits l' stack := by
  intro l' hl'
  rwa [Option.some.inj (hl.symm.trans hl')] at h

/-- Where the operands of an instruction are there and its jump is admitted, nothing is found wrong
with it. -/
theorem Assembler.emit_of_effect {a : Assembler} {i : Instruction} {after : List StackKind}
    (h : i.effect? a.stack = some after)
    (hjump : ∀ l, i.target? = some l → a.labels.Admits l after) :
    a.emit i =
      { code := a.code ++ [i], stack := after, maxStack := a.roomAfter i after
        reachable := a.reachable && !i.isTerminal, labels := a.labels.jumpedBy i after
        fault := a.fault } := by
  have hlabels : a.applyJump i = { a with labels := a.labels.jumpedBy i after } := by
    unfold applyJump LabelTable.jumpedBy
    cases hl : i.target? with
    | none => rfl
    | some l =>
      dsimp only
      rw [Instruction.drop_pops_of_target hl h, LabelTable.jump_of_admits (hjump l hl)]
  unfold emit
  rw [hlabels, applyEffect_of_effect (a := { a with labels := a.labels.jumpedBy i after }) h]
  rfl

/-- A label may be bound if control arrives with the stack that jumps to the label expect. Where
control does not arrive there must have been a jump. -/
theorem Assembler.bind_eq {a : Assembler} {l : Label} {stack : List StackKind}
    {known : Option (List StackKind)}
    (hget : a.labels.get? l = some { bound := false, stack := known })
    (harrives : a.reachable = true → a.stack = stack ∧ (known = none ∨ known = some stack))
    (hstops : a.reachable = false → known = some stack) :
    a.bind l =
      { a with
        code := a.code ++ [Instruction.bind l], stack, reachable := true
        labels := a.labels.set l { bound := true, stack := some stack } } := by
  unfold Assembler.bind LabelTable.bind
  rw [hget]
  cases hreach : a.reachable with
  | true =>
    obtain ⟨rfl, rfl | rfl⟩ := harrives hreach
    · rfl
    · simp
  | false =>
    obtain rfl := hstops hreach
    rfl

/-! ### The size of the stack -/

/-- A stack is built up value by value: whatever lies at the bottom of a shape was a shape
itself. -/
def BuiltUp (shapes : List (List StackKind)) : Prop :=
  ∀ shape ∈ shapes, ∀ below, below <:+ shape → below ∈ shapes

section Size

variable {shapes : List (List StackKind)} {shape after : List StackKind} {i : Instruction}

/-- One shape more may raise the count. -/
theorem counted_concat (shapes : List (List StackKind)) (shape : List StackKind) :
    counted (shapes ++ [shape]) = max (counted shapes) (stackSlots shape % 2 ^ 16) := by
  induction shapes with
  | nil => exact Nat.max_comm ..
  | cons first rest ih =>
    show max (stackSlots first % 2 ^ 16) (counted (rest ++ [shape])) = _
    rw [ih, ← Nat.max_assoc]
    rfl

/-- The count of each shape is at most the highest. -/
theorem le_counted (h : shape ∈ shapes) : stackSlots shape % 2 ^ 16 ≤ counted shapes := by
  induction shapes with
  | nil => cases h
  | cons first rest ih =>
    obtain rfl | h := List.mem_cons.1 h
    · exact Nat.le_max_left ..
    · exact Nat.le_trans (ih h) (Nat.le_max_right ..)

/-- A shape that has been counted before changes nothing. -/
theorem counted_concat_of_mem (h : shape ∈ shapes) :
    counted (shapes ++ [shape]) = counted shapes := by
  rw [counted_concat]
  exact Nat.max_eq_left (le_counted h)

/-- Unless a shape is too wide for it, 16 bits are enough to count with. -/
theorem counted_eq_widest (h : widest shapes < 2 ^ 16) : counted shapes = widest shapes := by
  induction shapes with
  | nil => rfl
  | cons first rest ih =>
    change max (stackSlots first) (widest rest) < 2 ^ 16 at h
    obtain ⟨hfirst, hrest⟩ := Nat.max_lt.1 h
    show max (stackSlots first % 2 ^ 16) (counted rest) = max (stackSlots first) (widest rest)
    rw [ih hrest, Nat.mod_eq_of_lt hfirst]

namespace BuiltUp

theorem concat_of_mem (h : BuiltUp shapes) (hshape : shape ∈ shapes) :
    BuiltUp (shapes ++ [shape]) := by
  intro other hother below hbelow
  obtain hother | hother := List.mem_append.1 hother
  · exact List.mem_append_left _ (h other hother below hbelow)
  · obtain rfl := List.mem_singleton.1 hother
    exact List.mem_append_left _ (h other hshape below hbelow)

theorem of_concat (h : BuiltUp (shapes ++ [shape])) (hshape : shape ∈ shapes) :
    BuiltUp shapes := by
  intro other hother below hbelow
  obtain hmem | hmem := List.mem_append.1 (h other (List.mem_append_left _ hother) below hbelow)
  · exact hmem
  · rwa [List.mem_singleton.1 hmem]

/-- An instruction puts at most one value more on what it leaves alone. -/
theorem concat_of_effect (h : BuiltUp shapes) (hshape : shape ∈ shapes)
    (heffect : i.effect? shape = some after) : BuiltUp (shapes ++ [after]) := by
  obtain ⟨taken, rest, htaken, rfl, rfl⟩ := Instruction.effect?_eq_some.1 heffect
  intro other hother below hbelow
  obtain hother | hother := List.mem_append.1 hother
  · exact List.mem_append_left _ (h other hother below hbelow)
  obtain rfl := List.mem_singleton.1 hother
  have hrest : ∀ below, below <:+ rest → below ∈ shapes := fun below hbelow ↦
    h _ hshape below (hbelow.trans (List.suffix_append ..))
  have hself : i.leaves ++ rest ∈ shapes ++ [i.leaves ++ rest] := by simp
  obtain ⟨kind, rfl⟩ | ⟨-, hleaves, -⟩ := Instruction.pops_eq htaken
  · obtain rfl : [kind] = taken := Option.some.inj htaken
    obtain rfl | hbelow := List.suffix_cons_iff.1 hbelow
    · exact hself
    · exact List.mem_append_left _ (h _ hshape below hbelow)
  · rw [hleaves] at hbelow hself ⊢
    cases hpushes : i.pushes? with
    | none =>
      rw [hpushes] at hbelow
      exact List.mem_append_left _ (hrest below hbelow)
    | some kind =>
      rw [hpushes] at hbelow hself
      obtain rfl | hbelow := List.suffix_cons_iff.1 hbelow
      · exact hself
      · exact List.mem_append_left _ (hrest below hbelow)

end BuiltUp

/-- If the shapes so far have been recorded, the shape after an instruction is, too. -/
theorem Assembler.toNat_roomAfter {a : Assembler} (h : i.effect? a.stack = some after)
    (hbuilt : BuiltUp shapes) (hstack : a.stack ∈ shapes)
    (hrecord : a.maxStack.toNat = counted shapes) :
    (a.roomAfter i after).toNat = counted (shapes ++ [after]) := by
  unfold roomAfter
  split
  · rw [toNat_max, hrecord, counted_concat, UInt16.toNat_ofNat']
  · next hnone =>
    obtain ⟨taken, rest, htaken, -, -⟩ := Instruction.effect?_eq_some.1 h
    have hleaves : i.leaves = [] := by
      obtain ⟨kind, rfl⟩ | ⟨-, hleaves, -⟩ := Instruction.pops_eq htaken
      · exact absurd rfl hnone
      · rw [hleaves, Option.not_isSome_iff_eq_none.1 hnone]
        rfl
    have hsuffix := Instruction.suffix_of_leaves_nil hleaves h
    rw [hrecord, counted_concat_of_mem (hbuilt _ hstack _ hsuffix)]

end Size

/-! ### Growing code -/

/-- Control flows as before when more code comes behind. -/
theorem Flows.append {code : List Instruction} {pos pos' : Nat} (h : Flows code pos pos')
    (code' : List Instruction) : Flows (code ++ code') pos pos' := by
  have hleft : ∀ {pos i}, code[pos]? = some i → (code ++ code')[pos]? = some i := fun hi ↦ by
    rw [List.getElem?_append_left (List.getElem?_eq_some_iff.1 hi).1]
    exact hi
  cases h with
  | next hi hgoes => exact .next (hleft hi) hgoes
  | jump hi hl hbind => exact .jump (hleft hi) hl (hleft hbind)

theorem Flows.reaches_append {code : List Instruction} {pos pos' : Nat}
    (h : Relation.ReflTransGen (Flows code) pos pos') (code' : List Instruction) :
    Relation.ReflTransGen (Flows (code ++ code')) pos pos' :=
  Relation.ReflTransGen.mono (fun _ _ h ↦ Flows.append h code') _ _ h

/-- An instruction of code with one more at its end is the one more or was there before. -/
theorem getElem?_snoc {α : Type} {xs : List α} {x y : α} {pos : Nat}
    (h : (xs ++ [x])[pos]? = some y) : xs[pos]? = some y ∨ pos = xs.length ∧ y = x := by
  obtain hlt | hle := Nat.lt_or_ge pos xs.length
  · exact .inl ((List.getElem?_append_left hlt).symm.trans h)
  · rw [List.getElem?_append_right hle] at h
    obtain ⟨hpos, hy⟩ := List.getElem?_eq_some_iff.1 h
    have hzero : pos - xs.length = 0 := by simpa using hpos
    refine .inr ⟨by omega, ?_⟩
    simpa [hzero] using hy.symm

theorem getElem?_snoc_of_some {α : Type} {xs : List α} {y : α} {pos : Nat}
    (h : xs[pos]? = some y) (x : α) : (xs ++ [x])[pos]? = some y := by
  rw [List.getElem?_append_left (List.getElem?_eq_some_iff.1 h).1]
  exact h

/-! ### Typed assemblers -/

namespace Assembler

/-- The code so far is verified by the shapes of its instructions, and the labels are what jumps and
positions have made of them. -/
structure Typed (a : Assembler) (shapes : List (List StackKind)) : Prop where
  /-- Each instruction has a shape. -/
  length : shapes.length = a.code.length
  /-- The method is entered with an empty stack. -/
  entry : (shapes ++ [a.stack]).head? = some []
  /-- Each instruction finds its operands, and what follows it, or the label that it jumps to, has
  the shape that it leaves. -/
  operands : ∀ {pos : Nat} {i : Instruction}, a.code[pos]? = some i →
    ∃ shape after, shapes[pos]? = some shape ∧ i.effect? shape = some after ∧
      (i.isTerminal = false → (shapes ++ [a.stack])[pos + 1]? = some after) ∧
      ∀ l, i.target? = some l → ∃ state, a.labels.get? l = some state ∧ state.stack = some after
  /-- A bound label has the shape of its position. -/
  marks : ∀ {pos : Nat} {l : Label}, a.code[pos]? = some (.bind l) →
    ∃ shape, shapes[pos]? = some shape ∧
      a.labels.get? l = some { bound := true, stack := some shape }
  /-- A bound label has a position. -/
  placed : ∀ {l : Label} {state : LabelState}, a.labels.get? l = some state →
    state.bound = true → .bind l ∈ a.code
  /-- No label is bound twice. -/
  once : ∀ {pos pos' : Nat} {l : Label}, a.code[pos]? = some (.bind l) →
    a.code[pos']? = some (.bind l) → pos = pos'
  /-- A label that waits for its position with a stack has been jumped to. -/
  awaited : ∀ {l : Label} {state : LabelState}, a.labels.get? l = some state →
    state.bound = false → state.stack ≠ none → ∃ i ∈ a.code, i.target? = some l
  /-- Control can reach each instruction. -/
  reached : ∀ pos < a.code.length, Relation.ReflTransGen (Flows a.code) 0 pos
  /-- What is reachable for the assembler can be reached. -/
  arrives : a.reachable = true → Relation.ReflTransGen (Flows a.code) 0 a.code.length
  /-- What is not stands behind an instruction that control never goes on from, with a stack that
  was there before. -/
  stops : a.reachable = false → a.stack ∈ shapes ∧
    ∃ i, a.code.getLast? = some i ∧ i.isTerminal = true
  /-- The stack has been built up value by value. -/
  builtUp : BuiltUp (shapes ++ [a.stack])
  /-- The recorded size of the stack is that of the widest shape, as 16 bits count it. -/
  maxStack_eq : a.maxStack.toNat = counted (shapes ++ [a.stack])
  /-- Nothing is wrong. -/
  faultless : a.fault = none

theorem Typed.empty : Typed {} [] where
  length := rfl
  entry := rfl
  operands h := by cases h
  marks h := by cases h
  placed h := by cases h
  once h := by cases h
  awaited h := by cases h
  reached pos h := by cases h
  arrives _ := .refl
  stops h := by cases h
  builtUp shape hshape below hbelow := by
    obtain rfl : shape = [] := List.mem_singleton.1 hshape
    rw [List.suffix_nil.1 hbelow]
    exact hshape
  maxStack_eq := rfl
  faultless := rfl

namespace Typed

variable {a : Assembler} {shapes : List (List StackKind)} {stack after : List StackKind}
  {i : Instruction} {l : Label} {known : Option (List StackKind)}

/-- The followed stack has its count recorded. -/
theorem slots_le_maxStack (h : a.Typed shapes) :
    stackSlots a.stack % 2 ^ 16 ≤ a.maxStack.toNat := by
  rw [h.maxStack_eq]
  exact le_counted (by simp)

theorem createLabel (h : a.Typed shapes) : a.createLabel.Typed shapes where
  length := h.length
  entry := h.entry
  operands hi := by
    obtain ⟨shape, after, hshape, heffect, hnext, htarget⟩ := h.operands hi
    refine ⟨shape, after, hshape, heffect, hnext, fun l hl ↦ ?_⟩
    obtain ⟨state, hget, hstack⟩ := htarget l hl
    exact ⟨state, LabelTable.get?_create_of_some hget, hstack⟩
  marks hbind := by
    obtain ⟨shape, hshape, hget⟩ := h.marks hbind
    exact ⟨shape, hshape, LabelTable.get?_create_of_some hget⟩
  placed {l state} hget hbound := by
    by_cases hl : l = a.labels.next
    · subst hl
      rw [show a.createLabel.labels = a.labels.create from rfl, LabelTable.get?_create_next] at hget
      obtain rfl := Option.some.inj hget
      cases hbound
    · exact h.placed ((LabelTable.get?_create_of_ne _ hl).symm.trans hget) hbound
  once := h.once
  awaited {l state} hget hbound hstack := by
    by_cases hl : l = a.labels.next
    · subst hl
      rw [show a.createLabel.labels = a.labels.create from rfl, LabelTable.get?_create_next] at hget
      obtain rfl := Option.some.inj hget
      exact absurd rfl hstack
    · exact h.awaited ((LabelTable.get?_create_of_ne _ hl).symm.trans hget) hbound hstack
  reached := h.reached
  arrives := h.arrives
  stops := h.stops
  builtUp := h.builtUp
  maxStack_eq := h.maxStack_eq
  faultless := h.faultless

/-- Control reaches all instructions if it reaches one more at the end. -/
theorem reached_snoc (h : a.Typed shapes)
    (hlast : Relation.ReflTransGen (Flows (a.code ++ [i])) 0 a.code.length) :
    ∀ pos < (a.code ++ [i]).length, Relation.ReflTransGen (Flows (a.code ++ [i])) 0 pos := by
  intro pos hpos
  obtain hlt | rfl : pos < a.code.length ∨ pos = a.code.length := by
    rw [List.length_append, List.length_singleton] at hpos
    omega
  · exact Flows.reaches_append (h.reached pos hlt) [i]
  · exact hlast

/-- No label is bound twice if one more instruction does not bind one that was bound before. -/
theorem once_snoc (h : a.Typed shapes)
    (hnew : ∀ {l : Label} {pos : Nat}, i = .bind l → a.code[pos]? ≠ some (Instruction.bind l))
    {pos pos' : Nat} (hl : (a.code ++ [i])[pos]? = some (.bind l))
    (hl' : (a.code ++ [i])[pos']? = some (.bind l)) : pos = pos' := by
  obtain hl | ⟨hpos, heq⟩ := getElem?_snoc hl
  · obtain hl' | ⟨-, heq'⟩ := getElem?_snoc hl'
    · exact h.once hl hl'
    · exact absurd hl (hnew heq'.symm)
  · obtain hl' | ⟨hpos', -⟩ := getElem?_snoc hl'
    · exact absurd hl' (hnew heq.symm)
    · rw [hpos, hpos']

/-- An instruction that finds its operands may follow wherever control arrives. -/
theorem emit (h : a.Typed shapes) (hreach : a.reachable = true)
    (heffect : i.effect? a.stack = some after) (hbind : ∀ l, i ≠ .bind l)
    (hjump : ∀ l, i.target? = some l → a.labels.Admits l after) :
    (a.emit i).Typed (shapes ++ [a.stack]) := by
  have hmem : a.stack ∈ shapes ++ [a.stack] := by simp
  have hroom := toNat_roomAfter heffect h.builtUp hmem h.maxStack_eq
  rw [emit_of_effect heffect hjump]
  have hlength := h.length
  have hlast : (shapes ++ [a.stack])[a.code.length]? = some a.stack := by
    rw [← hlength, List.getElem?_concat_length]
  have harrives : Relation.ReflTransGen (Flows (a.code ++ [i])) 0 a.code.length :=
    Flows.reaches_append (h.arrives hreach) [i]
  constructor
  case length => simp [hlength]
  case entry =>
    have hentry := h.entry
    rw [List.head?_append]
    simp [hentry]
  case operands =>
    intro pos j hj
    obtain hj | ⟨rfl, rfl⟩ := getElem?_snoc hj
    · obtain ⟨shape, after', hshape, heffect', hnext, htarget⟩ := h.operands hj
      refine ⟨shape, after', getElem?_snoc_of_some hshape _, heffect', fun hgoes ↦ ?_, ?_⟩
      · exact getElem?_snoc_of_some (hnext hgoes) _
      · -- A jump further up has fixed the stack of its label already; this one agrees or goes
        -- elsewhere.
        intro l hl
        obtain ⟨state, hget, hstack⟩ := htarget l hl
        obtain ⟨state', hget', -, hstack'⟩ := LabelTable.jumpedBy_keeps hjump hget
        exact ⟨state', hget', hstack' _ hstack⟩
    · refine ⟨a.stack, after, hlast, heffect, fun _ ↦ ?_, fun l hl ↦ ?_⟩
      · rw [← hlength]
        simp
      · obtain ⟨state, hget, -⟩ := hjump l hl
        refine ⟨{ state with stack := some after }, ?_, rfl⟩
        rw [LabelTable.get?_jumpedBy, if_pos hl, hget]
        rfl
  case marks =>
    intro pos l hl
    obtain hl | ⟨-, heq⟩ := getElem?_snoc hl
    · obtain ⟨shape, hshape, hget⟩ := h.marks hl
      obtain ⟨⟨bound, stack⟩, hget', hbound, hstack⟩ := LabelTable.jumpedBy_keeps hjump hget
      obtain rfl : bound = true := hbound
      obtain rfl : stack = some shape := hstack _ rfl
      exact ⟨shape, getElem?_snoc_of_some hshape _, hget'⟩
    · exact absurd heq.symm (hbind l)
  case placed =>
    intro l state hget hbound
    obtain ⟨state', hget', hbound', -⟩ := LabelTable.of_jumpedBy hget
    exact List.mem_append_left _ (h.placed hget' (hbound'.trans hbound))
  case once => exact h.once_snoc fun heq ↦ absurd heq (hbind _)
  -- A label that is waited for was jumped to before, or is now.
  case awaited =>
    intro l state hget hbound hstack
    obtain ⟨state', hget', hbound', rfl | htarget⟩ := LabelTable.of_jumpedBy hget
    · obtain ⟨j, hj, hl⟩ := h.awaited hget' hbound hstack
      exact ⟨j, List.mem_append_left _ hj, hl⟩
    · exact ⟨i, by simp, htarget⟩
  case reached => exact h.reached_snoc harrives
  case arrives =>
    intro hgoes
    have hnot : i.isTerminal = false := by simpa [hreach] using hgoes
    rw [List.length_append]
    exact harrives.tail (.next (List.getElem?_concat_length ..) hnot)
  -- Control does not go on behind the last instruction, and nothing is left of its stack to look
  -- at.
  case stops =>
    intro hstops
    have hterminal : i.isTerminal = true := by simpa [hreach] using hstops
    have hsuffix := Instruction.suffix_of_leaves_nil (Instruction.leaves_of_isTerminal hterminal)
      heffect
    exact ⟨h.builtUp _ hmem _ hsuffix, i, by simp, hterminal⟩
  case builtUp => exact h.builtUp.concat_of_effect hmem heffect
  case maxStack_eq => exact hroom
  case faultless => exact h.faultless

/-- A stack that a label waits with has been there before. -/
theorem mem_of_awaited (h : a.Typed shapes) {state : LabelState}
    (hget : a.labels.get? l = some state) (hbound : state.bound = false)
    (hstack : state.stack = some stack) : stack ∈ shapes ++ [a.stack] := by
  obtain ⟨j, hj, hl⟩ := h.awaited hget hbound (by simp [hstack])
  obtain ⟨pos, hpos⟩ := List.mem_iff_getElem?.1 hj
  obtain ⟨shape, after, hshape, heffect, -, htarget⟩ := h.operands hpos
  obtain ⟨state', hget', hafter⟩ := htarget l hl
  obtain rfl : state = state' := Option.some.inj (hget.symm.trans hget')
  obtain rfl : stack = after := Option.some.inj (hstack.symm.trans hafter)
  have hsuffix := Instruction.suffix_of_leaves_nil (Instruction.leaves_of_target hl) heffect
  exact h.builtUp shape (List.mem_append_left _ (List.mem_of_getElem? hshape)) _ hsuffix

/-- What the current position is given as its stack has been there before. -/
theorem arriving (h : a.Typed shapes)
    (hget : a.labels.get? l = some { bound := false, stack := known })
    (harrives : a.reachable = true → a.stack = stack)
    (hstops : a.reachable = false → known = some stack) :
    BuiltUp (shapes ++ [stack]) ∧ a.maxStack.toNat = counted (shapes ++ [stack]) := by
  cases hreach : a.reachable with
  | true =>
    rw [← harrives hreach]
    exact ⟨h.builtUp, h.maxStack_eq⟩
  | false =>
    obtain ⟨hstack, -⟩ := h.stops hreach
    have hmem : stack ∈ shapes := by
      obtain hmem | hmem := List.mem_append.1 (h.mem_of_awaited hget rfl (hstops hreach))
      · exact hmem
      · rwa [List.mem_singleton.1 hmem]
    refine ⟨(h.builtUp.of_concat hstack).concat_of_mem hmem, ?_⟩
    rw [counted_concat_of_mem hmem, h.maxStack_eq, counted_concat_of_mem hstack]

/-- Where the current position is given the stack that a label waits with, what comes before still
fits. -/
theorem next_arriving (h : a.Typed shapes) (harrives : a.reachable = true → a.stack = stack)
    {pos : Nat} (hi : a.code[pos]? = some i) (hgoes : i.isTerminal = false)
    (hnext : (shapes ++ [a.stack])[pos + 1]? = some after) :
    (shapes ++ [stack])[pos + 1]? = some after := by
  have hpos : pos < a.code.length := (List.getElem?_eq_some_iff.1 hi).1
  cases hreach : a.reachable with
  | true => rwa [harrives hreach] at hnext
  | false =>
    obtain ⟨-, j, hlast, hterminal⟩ := h.stops hreach
    have hlt : pos + 1 < shapes.length := by
      rw [h.length]
      refine Nat.lt_of_not_le fun hge ↦ ?_
      have hpos' : a.code.length - 1 = pos := by omega
      rw [List.getLast?_eq_getElem?, hpos', hi] at hlast
      obtain rfl := Option.some.inj hlast
      rw [hgoes] at hterminal
      cases hterminal
    rw [List.getElem?_append_left hlt] at hnext ⊢
    exact hnext

theorem entry_arriving (h : a.Typed shapes) (harrives : a.reachable = true → a.stack = stack) :
    (shapes ++ [stack]).head? = some [] := by
  have hentry := h.entry
  cases shapes with
  | cons shape shapes => exact hentry
  | nil =>
    have hcode : a.code = [] := List.length_eq_zero_iff.1 h.length.symm
    cases hreach : a.reachable with
    | true => rwa [harrives hreach] at hentry
    | false =>
      obtain ⟨-, j, hlast, -⟩ := h.stops hreach
      rw [hcode] at hlast
      cases hlast

/-- A label that waits for its position has not been bound before. -/
theorem ne_of_waiting (h : a.Typed shapes)
    (hget : a.labels.get? l = some { bound := false, stack := known }) {pos : Nat} {l' : Label}
    (hbind : a.code[pos]? = some (.bind l')) : l' ≠ l := by
  rintro rfl
  obtain ⟨shape, -, hmark⟩ := h.marks hbind
  rw [hget] at hmark
  cases hmark

/-- Control arrives at a label from above or by a jump that the label has been waiting for. -/
theorem reaches_bind (h : a.Typed shapes)
    (hget : a.labels.get? l = some { bound := false, stack := known })
    (hstops : a.reachable = false → known = some stack) :
    Relation.ReflTransGen (Flows (a.code ++ [.bind l])) 0 a.code.length := by
  cases hreach : a.reachable with
  | true => exact Flows.reaches_append (h.arrives hreach) _
  | false =>
    obtain ⟨j, hj, hl⟩ := h.awaited hget rfl (by simp [hstops hreach])
    obtain ⟨pos, hpos⟩ := List.mem_iff_getElem?.1 hj
    have hlt := (List.getElem?_eq_some_iff.1 hpos).1
    exact (Flows.reaches_append (h.reached pos hlt) _).tail
      (.jump (getElem?_snoc_of_some hpos _) hl (List.getElem?_concat_length ..))

/-- A label may be bound where control arrives with the stack that its jumps expect. -/
theorem bind (h : a.Typed shapes) (hget : a.labels.get? l = some { bound := false, stack := known })
    (harrives : a.reachable = true → a.stack = stack ∧ (known = none ∨ known = some stack))
    (hstops : a.reachable = false → known = some stack) :
    (a.bind l).Typed (shapes ++ [stack]) := by
  rw [bind_eq hget harrives hstops]
  have hlength := h.length
  have hstack : a.reachable = true → a.stack = stack := fun hreach ↦ (harrives hreach).1
  have hself : (a.labels.set l { bound := true, stack := some stack }).get? l =
      some { bound := true, stack := some stack } := LabelTable.get?_set_self hget
  have hother : ∀ {l' state}, a.labels.get? l' = some state → l' ≠ l →
      (a.labels.set l { bound := true, stack := some stack }).get? l' = some state :=
    fun hget' hne ↦ (LabelTable.get?_set_of_ne _ _ (Ne.symm hne)).trans hget'
  have hlast : (shapes ++ [stack])[a.code.length]? = some stack := by
    rw [← hlength, List.getElem?_concat_length]
  have hreached := h.reaches_bind hget hstops
  obtain ⟨hbuilt, hrecord⟩ := h.arriving hget hstack hstops
  have hmem : stack ∈ shapes ++ [stack] := by simp
  constructor
  case length => simp [hlength]
  case entry =>
    rw [List.head?_append, h.entry_arriving hstack]
    rfl
  -- The new shape may be new to the instruction before it, which only flows here if control
  -- arrives.
  case operands =>
    intro pos j hj
    obtain hj | ⟨rfl, rfl⟩ := getElem?_snoc hj
    · obtain ⟨shape, after, hshape, heffect, hnext, htarget⟩ := h.operands hj
      refine ⟨shape, after, getElem?_snoc_of_some hshape _, heffect, fun hgoes ↦ ?_, ?_⟩
      · exact getElem?_snoc_of_some (h.next_arriving hstack hj hgoes (hnext hgoes)) _
      · intro l' hl'
        obtain ⟨state, hget', hafter⟩ := htarget l' hl'
        -- The jumps that waited for `l` have fixed the stack with which it is bound.
        by_cases hne : l' = l
        · subst hne
          obtain rfl : _ = state := Option.some.inj (hget.symm.trans hget')
          refine ⟨_, hself, ?_⟩
          obtain rfl : known = some after := hafter
          cases hreach : a.reachable with
          | true => simpa [eq_comm] using (harrives hreach).2
          | false => exact (hstops hreach).symm
        · exact ⟨state, hother hget' hne, hafter⟩
    · refine ⟨stack, stack, hlast, rfl, fun _ ↦ ?_, fun l' hl' ↦ by cases hl'⟩
      rw [← hlength]
      simp
  case marks =>
    intro pos l' hl'
    obtain hl' | ⟨rfl, heq⟩ := getElem?_snoc hl'
    · obtain ⟨shape, hshape, hmark⟩ := h.marks hl'
      exact ⟨shape, getElem?_snoc_of_some hshape _, hother hmark (h.ne_of_waiting hget hl')⟩
    · obtain rfl := Instruction.bind.inj heq
      exact ⟨stack, hlast, hself⟩
  case placed =>
    intro l' state hget' hbound
    by_cases hne : l' = l
    · subst hne
      simp
    · rw [LabelTable.get?_set_of_ne _ _ (Ne.symm hne)] at hget'
      exact List.mem_append_left _ (h.placed hget' hbound)
  -- A label that was bound before would not be waiting now.
  case once =>
    refine h.once_snoc fun heq hl' ↦ ?_
    obtain rfl := Instruction.bind.inj heq
    exact h.ne_of_waiting hget hl' rfl
  case awaited =>
    intro l' state hget' hbound hknown
    by_cases hne : l' = l
    · subst hne
      obtain rfl := Option.some.inj (hself.symm.trans hget')
      cases hbound
    · rw [LabelTable.get?_set_of_ne _ _ (Ne.symm hne)] at hget'
      obtain ⟨j, hj, hl⟩ := h.awaited hget' hbound hknown
      exact ⟨j, List.mem_append_left _ hj, hl⟩
  case reached => exact h.reached_snoc hreached
  case arrives =>
    intro _
    rw [List.length_append]
    exact hreached.tail (.next (List.getElem?_concat_length ..) rfl)
  case stops =>
    intro hstops
    cases hstops
  case builtUp => exact hbuilt.concat_of_mem hmem
  case maxStack_eq => exact hrecord.trans (counted_concat_of_mem hmem).symm
  case faultless => exact h.faultless

end Typed

/-! ### What the rest of a method needs to know -/

/-- Nothing is wrong so far, and control arrives behind the code with the given stack. -/
structure Live (a : Assembler) (stack : List StackKind) : Prop where
  faultless : a.fault = none
  reachable : a.reachable = true
  stack_eq : a.stack = stack

/-- Nothing is wrong so far, and control does not go on behind the code. -/
structure Dead (a : Assembler) : Prop where
  faultless : a.fault = none
  unreachable : a.reachable = false

variable {a : Assembler} {stack after : List StackKind} {i : Instruction} {l : Label}

namespace Live

/-- An instruction that only works on values finds its operands and leaves its results; the labels
stay as they are. -/
theorem emit (h : a.Live stack) (heffect : i.effect? stack = some after)
    (hstraight : i.isStraight = true) : (a.emit i).Live after ∧ (a.emit i).labels = a.labels := by
  rw [← h.stack_eq] at heffect
  have htarget := Instruction.target?_of_isStraight hstraight
  have hgoes := Instruction.isTerminal_of_isStraight hstraight
  rw [emit_of_effect heffect (by simp [htarget])]
  exact ⟨⟨h.faultless, by simp [h.reachable, hgoes], rfl⟩, by simp [LabelTable.jumpedBy, htarget]⟩

/-- A conditional jump takes its operands and goes on with what is left, as does the label. -/
theorem emit_branch (h : a.Live stack) (heffect : i.effect? stack = some after)
    (hgoes : i.isTerminal = false) (htarget : i.target? = some l)
    (hadmits : a.labels.Admits l after) :
    (a.emit i).Live after ∧ (a.emit i).labels = a.labels.expecting l after := by
  rw [← h.stack_eq] at heffect
  rw [emit_of_effect heffect (LabelTable.admits_of_target htarget hadmits)]
  exact ⟨⟨h.faultless, by simp [h.reachable, hgoes], rfl⟩, by simp [LabelTable.jumpedBy, htarget]⟩

/-- An unconditional jump hands the stack to its label. -/
theorem emit_goto (h : a.Live stack) (hadmits : a.labels.Admits l stack) :
    (a.emit (.goto l)).Dead ∧ (a.emit (.goto l)).labels = a.labels.expecting l stack := by
  have heffect : (Instruction.goto l).effect? a.stack = some stack := by
    rw [h.stack_eq]
    rfl
  rw [emit_of_effect heffect (LabelTable.admits_of_target rfl hadmits)]
  exact ⟨⟨h.faultless, by simp [Instruction.isTerminal]⟩, rfl⟩

theorem createLabel (h : a.Live stack) : a.createLabel.Live stack :=
  ⟨h.faultless, h.reachable, h.stack_eq⟩

/-- A label that nothing has jumped to, or that expects this stack, may be bound. -/
theorem bind (h : a.Live stack) {known : Option (List StackKind)}
    (hget : a.labels.get? l = some { bound := false, stack := known })
    (hknown : known = none ∨ known = some stack) :
    (a.bind l).Live stack ∧
      (a.bind l).labels = a.labels.set l { bound := true, stack := some stack } := by
  rw [bind_eq hget (fun _ ↦ ⟨h.stack_eq, hknown⟩) (by simp [h.reachable])]
  exact ⟨⟨h.faultless, rfl, rfl⟩, rfl⟩

end Live

/-- Behind a jump control goes on at a label that has been jumped to. -/
theorem Dead.bind (h : a.Dead)
    (hget : a.labels.get? l = some { bound := false, stack := some stack }) :
    (a.bind l).Live stack ∧
      (a.bind l).labels = a.labels.set l { bound := true, stack := some stack } := by
  rw [bind_eq hget (by simp [h.unreachable]) fun _ ↦ rfl]
  exact ⟨⟨h.faultless, rfl, rfl⟩, rfl⟩

/-- The code so far is typed and does not return, and control arrives behind it with the given
stack. -/
structure At (a : Assembler) (stack : List StackKind) : Prop extends a.Live stack where
  typed : ∃ shapes, a.Typed shapes
  running : ∀ i ∈ a.code, i.isReturn = false

/-- The code so far is typed and does not return, and control does not go on behind it. -/
structure Off (a : Assembler) : Prop extends a.Dead where
  typed : ∃ shapes, a.Typed shapes
  running : ∀ i ∈ a.code, i.isReturn = false

theorem At.empty : At {} [] where
  faultless := rfl
  reachable := rfl
  stack_eq := rfl
  typed := ⟨[], .empty⟩
  running _ h := by cases h

theorem running_snoc (h : ∀ i ∈ a.code, i.isReturn = false) (hi : i.isReturn = false) :
    ∀ j ∈ a.code ++ [i], j.isReturn = false := by
  intro j hj
  obtain hj | hj := List.mem_append.1 hj
  · exact h j hj
  · rw [List.mem_singleton.1 hj]
    exact hi

namespace At

/-- What is on the stack has been counted. -/
theorem slots_le (h : a.At stack) : stackSlots a.stack % 2 ^ 16 ≤ a.maxStack.toNat := by
  obtain ⟨shapes, htyped⟩ := h.typed
  exact htyped.slots_le_maxStack

theorem emit (h : a.At stack) (heffect : i.effect? stack = some after)
    (hstraight : i.isStraight = true) : (a.emit i).At after := by
  obtain ⟨shapes, htyped⟩ := h.typed
  have hlive := (h.toLive.emit heffect hstraight).1
  rw [← h.stack_eq] at heffect
  have htarget := Instruction.target?_of_isStraight hstraight
  have hbind : ∀ l, i ≠ .bind l := by
    rintro l rfl
    cases hstraight
  refine ⟨hlive, ⟨_, htyped.emit h.reachable heffect hbind (by simp [htarget])⟩, ?_⟩
  rw [code_emit]
  exact running_snoc h.running (by cases i <;> first | rfl | cases hstraight)

/-- Behind a branch control arrives with what the branch leaves. -/
theorem emit_branch (h : a.At stack) (heffect : i.effect? stack = some after)
    (hgoes : i.isTerminal = false) (htarget : i.target? = some l)
    (hadmits : a.labels.Admits l after) : (a.emit i).At after := by
  obtain ⟨shapes, htyped⟩ := h.typed
  have hlive := (h.toLive.emit_branch heffect hgoes htarget hadmits).1
  rw [← h.stack_eq] at heffect
  have hbind : ∀ l', i ≠ .bind l' := by
    rintro l' rfl
    cases htarget
  have hjump := LabelTable.admits_of_target htarget hadmits
  refine ⟨hlive, ⟨_, htyped.emit h.reachable heffect hbind hjump⟩, ?_⟩
  rw [code_emit]
  exact running_snoc h.running (by cases i <;> first | rfl | cases htarget)

/-- Behind a jump control does not arrive. -/
theorem emit_goto (h : a.At stack) (hadmits : a.labels.Admits l stack) :
    (a.emit (.goto l)).Off := by
  obtain ⟨shapes, htyped⟩ := h.typed
  have heffect : (Instruction.goto l).effect? a.stack = some stack := by
    rw [h.stack_eq]
    rfl
  have hjump := LabelTable.admits_of_target (i := .goto l) rfl hadmits
  refine ⟨(h.toLive.emit_goto hadmits).1, ⟨_, htyped.emit h.reachable heffect (by simp) hjump⟩, ?_⟩
  rw [code_emit]
  exact running_snoc h.running rfl

theorem createLabel (h : a.At stack) : a.createLabel.At stack where
  toLive := h.toLive.createLabel
  typed := h.typed.imp fun _ htyped ↦ htyped.createLabel
  running := h.running

/-- A label is bound where control arrives with the stack that it expects. -/
theorem bind (h : a.At stack) {known : Option (List StackKind)}
    (hget : a.labels.get? l = some { bound := false, stack := known })
    (hknown : known = none ∨ known = some stack) : (a.bind l).At stack := by
  obtain ⟨shapes, htyped⟩ := h.typed
  refine ⟨(h.toLive.bind hget hknown).1,
    ⟨_, htyped.bind hget (fun _ ↦ ⟨h.stack_eq, hknown⟩) ?_⟩, ?_⟩
  · simp [h.reachable]
  · rw [code_bind]
    exact running_snoc h.running rfl

end At

/-- A label is bound where control does not arrive: then it arrives by jumps. -/
theorem Off.bind (h : a.Off)
    (hget : a.labels.get? l = some { bound := false, stack := some stack }) :
    (a.bind l).At stack := by
  obtain ⟨shapes, htyped⟩ := h.typed
  refine ⟨(h.toDead.bind hget).1, ⟨_, htyped.bind hget ?_ fun _ ↦ rfl⟩, ?_⟩
  · simp [h.unreachable]
  · rw [code_bind]
    exact running_snoc h.running rfl

/-! ### Finished code -/

/-- No label is unbound just if each is bound. -/
theorem unbound_eq_nil_iff {t : LabelTable} :
    t.unbound = [] ↔ ∀ l state, t.get? l = some state → state.bound = true := by
  unfold LabelTable.unbound
  rw [List.filter_eq_nil_iff]
  constructor
  · intro h l state hget
    have hlt : l.index < t.states.length := (List.getElem?_eq_some_iff.1 hget).1
    have hl := h l (List.mem_map.2 ⟨l.index, List.mem_range.2 hlt, rfl⟩)
    rw [hget] at hl
    simpa using hl
  · intro h l _
    cases hget : t.get? l with
    | none => simp
    | some state => simp [h l state hget]

/-- Typed code that ends with the return of its method is verified. -/
theorem Typed.verifiedBy {shapes : List (List StackKind)} {body : List Instruction}
    {returnType : MachineType} (h : a.Typed (shapes ++ [returnType.kind?.toList]))
    (hcode : a.code = body ++ [exitOf returnType]) (hrunning : ∀ i ∈ body, i.isReturn = false)
    (hstack : a.stack = [])
    (hlabels : ∀ l state, a.labels.get? l = some state → state.bound = true) :
    VerifiedBy a.code returnType a.maxStack (shapes ++ [returnType.kind?.toList]) := by
  have hlast : a.code[body.length]? = some (exitOf returnType) := by
    rw [hcode, List.getElem?_concat_length]
  have hterminal : (exitOf returnType).isTerminal = true := by
    unfold exitOf
    split <;> rfl
  have hlength : (shapes ++ [returnType.kind?.toList]).length = body.length + 1 := by
    rw [h.length, hcode, List.length_append, List.length_singleton]
  have hcounted : a.maxStack.toNat = counted (shapes ++ [returnType.kind?.toList]) := by
    rw [h.maxStack_eq, hstack, counted_concat]
    exact Nat.max_eq_left (Nat.zero_le _)
  constructor
  · exact h.length
  · have hentry := h.entry
    rw [List.head?_append] at hentry
    cases hhead : (shapes ++ [returnType.kind?.toList]).head? with
    | none => simp at hhead
    | some shape => rwa [hhead] at hentry
  · intro pos i hi
    obtain ⟨shape, after, hshape, heffect, -⟩ := h.operands hi
    exact ⟨shape, after, hshape, heffect⟩
  · intro pos pos' i hi hflows
    obtain ⟨shape, after, hshape, heffect, hnext, htarget⟩ := h.operands hi
    refine ⟨shape, after, hshape, heffect, ?_⟩
    cases hflows with
    -- The return is the last instruction and does not go on, so there is a shape behind all others.
    | next hi' hgoes =>
      obtain rfl := Option.some.inj (hi.symm.trans hi')
      have hne : pos ≠ body.length := by
        rintro rfl
        obtain rfl := Option.some.inj (hi.symm.trans hlast)
        rw [hgoes] at hterminal
        cases hterminal
      have hlt : pos + 1 < (shapes ++ [returnType.kind?.toList]).length := by
        have := (List.getElem?_eq_some_iff.1 hshape).1
        omega
      rw [← hnext hgoes, List.getElem?_append_left hlt]
    -- A jump goes where its label is bound, and both remember the same shape.
    | jump hi' hl hbind =>
      obtain rfl := Option.some.inj (hi.symm.trans hi')
      obtain ⟨state, hget, hafter⟩ := htarget _ hl
      obtain ⟨shape', hshape', hmark⟩ := h.marks hbind
      obtain rfl := Option.some.inj (hget.symm.trans hmark)
      rw [hshape']
      exact hafter
  · intro i l hi hl
    obtain ⟨pos, hpos⟩ := List.mem_iff_getElem?.1 hi
    obtain ⟨_, _, -, -, -, htarget⟩ := h.operands hpos
    obtain ⟨state, hget, -⟩ := htarget l hl
    exact h.placed hget (hlabels l state hget)
  · exact h.once
  · exact ⟨body, hcode, hrunning, by simp⟩
  · exact h.reached
  · exact hcounted
  · intro hwidest
    rw [hcounted, counted_eq_widest hwidest]

/-- A method that arrives at its end with the value to return, and has bound its labels, is finished
by its return, and its code is verified. -/
theorem At.finish {returnType : MachineType} (h : a.At returnType.kind?.toList)
    (hlabels : ∀ l state, a.labels.get? l = some state → state.bound = true) :
    ∃ code, (a.emit (exitOf returnType)).finish = .ok code ∧
      ∃ shapes, VerifiedBy code.instructions returnType code.maxStack shapes := by
  obtain ⟨shapes, htyped⟩ := h.typed
  have htarget : (exitOf returnType).target? = none := by
    unfold exitOf
    split <;> rfl
  have heffect : (exitOf returnType).effect? a.stack = some [] := by
    rw [h.stack_eq]
    unfold exitOf
    cases returnType.kind? with
    | none => rfl
    | some kind => exact Instruction.effect?_append (i := .returnValue kind) rfl []
  have hbind : ∀ l, exitOf returnType ≠ .bind l := by
    intro l
    unfold exitOf
    split <;> simp
  have hjump : ∀ l, (exitOf returnType).target? = some l → a.labels.Admits l [] := by
    simp [htarget]
  -- The return empties the stack and jumps nowhere, so what is left to check are the labels.
  have hend := htyped.emit h.reachable heffect hbind hjump
  have heq := emit_of_effect heffect hjump
  have hlabels' : (a.emit (exitOf returnType)).labels = a.labels := by
    rw [heq]
    simp [LabelTable.jumpedBy, htarget]
  rw [h.stack_eq] at hend
  have hstack : (a.emit (exitOf returnType)).stack = [] := by rw [heq]
  have hverified := hend.verifiedBy (code_emit ..) h.running hstack (by rwa [hlabels'])
  have hunbound : (a.emit (exitOf returnType)).labels.unbound = [] := by
    rw [hlabels']
    exact unbound_eq_nil_iff.2 hlabels
  refine ⟨{ instructions := _, maxStack := _ }, ?_, _, hverified⟩
  unfold Assembler.finish
  rw [hend.faultless, hunbound]

end Assembler

end ScriptBytecode

import ScriptBytecode.Bytecode.Instruction

/-!
# Running the code of one method

A `Configuration` is a position in the code, the operand stack and the memory of the local slots;
`step` runs one instruction and `run` a number of them. Integers wrap around at their width. A jump
goes on from the instruction that binds its label.

A 64-bit integer fills two slots: its value stands in the first, and the second is marked as taken.
A store to either half destroys it, so a load that succeeds read what the last store to exactly
these slots wrote.

The machine has no objects. It stops in front of an instruction that needs one, as it does in front
of a return and of an instruction whose operands are not there.

* `Memory.load_store_self` and `load_store_of_disjoint` are the laws of the memory of slots;
* `Configuration.run_succ` and `run_add` are those of runs;
* `Placed` says that a piece stands somewhere in a program, with labels that are bound only there.

**What is fixed here.** The arithmetic is that of the machine: sums and differences wrap around, a
number is widened with its sign, and 64-bit integers compare to `-1`, `0` or `1`. How a condition
compares two numbers is fixed by `Condition.holds`. None of this is taken from the compiler.

**Jumps.** A label is found by searching the code for where it is bound (`position?`), and a jump to
a label that is bound nowhere stops the machine. Pieces of code are therefore placed with a promise
about labels: those of the piece are bound where the piece has them and not before
(`Placed.position`).
-/

namespace ScriptBytecode

/-! ### Values -/

/-- A value that code without objects computes with. Truth values are the integers `0` and `1`. -/
inductive Value where
  | int (n : Int32)
  | long (n : Int64)
  | null
deriving DecidableEq, Repr, Inhabited

namespace Value

/-- The kind of the value. -/
def kind : Value → StackKind
  | int _ => .int
  | long _ => .long
  | null => .reference

/-- The default value of a kind. -/
def default : StackKind → Value
  | .int => .int 0
  | .long => .long 0
  | .reference => .null

@[simp] theorem kind_default (k : StackKind) : (default k).kind = k := by cases k <;> rfl

theorem exists_int_of_kind {v : Value} (h : v.kind = .int) : ∃ n, v = int n := by
  cases v <;> simp_all [kind]

theorem exists_long_of_kind {v : Value} (h : v.kind = .long) : ∃ n, v = long n := by
  cases v <;> simp_all [kind]

end Value

/-! ### Conditions -/

/-- Whether the first number compares to the second as the condition says. -/
def Condition.holds : Condition → Int → Int → Bool
  | eq, x, y => x = y
  | ne, x, y => x ≠ y
  | lt, x, y => x < y
  | ge, x, y => x ≥ y
  | gt, x, y => x > y
  | le, x, y => x ≤ y

/-- The negation of a test holds where the test does not. -/
@[simp] theorem Condition.holds_negate (c : Condition) (x y : Int) :
    c.negate.holds x y = !c.holds x y := by
  cases c <;> simp only [negate, holds, ← decide_not, decide_eq_decide] <;> omega

/-- How two 64-bit integers compare: `-1`, `0` or `1`. -/
def order (x y : Int64) : Int32 := if x < y then -1 else if x = y then 0 else 1

/-- Comparing the outcome of a comparison to zero is comparing the numbers themselves. -/
theorem Condition.holds_order (c : Condition) (x y : Int64) :
    c.holds (order x y).toInt 0 = c.holds x.toInt y.toInt := by
  have hlt : x < y ↔ x.toInt < y.toInt := Int64.lt_iff_toInt_lt
  have heq : x = y ↔ x.toInt = y.toInt := Int64.toInt_inj.symm
  unfold order
  split
  · next h =>
    have := hlt.1 h
    have : (-1 : Int32).toInt = -1 := by decide
    cases c <;> simp [holds, this] <;> omega
  · next h =>
    have hge := mt hlt.2 h
    split
    · next h => cases c <;> simp [holds, h]
    · next h =>
      have hne := mt heq.2 h
      have : (1 : Int32).toInt = 1 := by decide
      cases c <;> simp [holds, this] <;> omega

/-! ### Local slots -/

/-- What a slot holds. -/
inductive Cell where
  /-- A value, or the first half of one. -/
  | value (v : Value)
  /-- The second half of the value before it. -/
  | upper
deriving DecidableEq, Repr, Inhabited

/-- The local slots. A slot that was never written holds nothing. -/
abbrev Memory := Nat → Option Cell

namespace Memory

/-- Writes a value to a slot and, if it needs two, to the next. -/
def store (m : Memory) (slot : Nat) (v : Value) : Memory := fun i ↦
  if i = slot then some (.value v)
  else if i = slot + 1 ∧ v.kind = .long then some .upper
  else m i

/-- The value of the given kind that starts at a slot, if it is whole. -/
def load (m : Memory) (slot : Nat) (kind : StackKind) : Option Value :=
  match m slot with
  | some (.value v) =>
    if v.kind = kind ∧ (kind = .long → m (slot + 1) = some .upper) then some v else none
  | _ => none

/-- What is read has the kind it is read with. -/
theorem kind_of_load {m : Memory} {slot : Nat} {k : StackKind} {v : Value}
    (h : m.load slot k = some v) : v.kind = k := by
  unfold load at h
  split at h
  · split at h
    · next hk =>
      obtain rfl := Option.some.inj h
      exact hk.1
    · exact absurd h (by simp)
  · exact absurd h (by simp)

/-- What was stored is read again. -/
theorem load_store_self (m : Memory) (slot : Nat) (v : Value) :
    (m.store slot v).load slot v.kind = some v := by
  cases v <;> simp [load, store, Value.kind]

/-- A store leaves alone what lies in other slots. -/
theorem load_store_of_disjoint (m : Memory) {slot slot' : Nat} (v : Value) {k : StackKind}
    (h : slot + v.kind.width ≤ slot' ∨ slot' + k.width ≤ slot) :
    (m.store slot v).load slot' k = m.load slot' k := by
  have hv := v.kind.width_pos
  have hk := k.width_pos
  have hkeep : ∀ i, slot' ≤ i → i < slot' + k.width → m.store slot v i = m i := by
    intro i hlo hhi
    have hwidth : v.kind = .long → v.kind.width = 2 := fun h ↦ by rw [h]; rfl
    unfold store
    rw [if_neg (by omega), if_neg (by rintro ⟨rfl, hlong⟩; have := hwidth hlong; omega)]
  have hfirst := hkeep slot' (Nat.le_refl _) (by omega)
  unfold load
  rw [hfirst]
  cases k with
  | long => rw [hkeep (slot' + 1) (by omega) (by simp [StackKind.width])]
  | int | reference => simp only [reduceCtorEq, false_implies, and_true]

end Memory

/-! ### Steps -/

/-- The state of a running method. -/
structure Configuration where
  /-- The position of the next instruction. -/
  pc : Nat
  /-- The operand stack, top first. -/
  stack : List Value
  /-- The local slots. -/
  memory : Memory

/-- The position that jumps to a label continue from. -/
def position? (code : List Instruction) (l : Label) : Option Nat := code.idxOf? (.bind l)

namespace Configuration

/-- Goes on to the next instruction with a new stack. -/
def next (c : Configuration) (stack : List Value) :
    Configuration := { c with pc := c.pc + 1, stack }

/-- Goes on at a label with a new stack. -/
def jump (c : Configuration) (code : List Instruction) (l : Label) (stack : List Value) :
    Option Configuration :=
  (position? code l).map fun pc ↦ { c with pc, stack }

/-- Runs an instruction. -/
def execute (c : Configuration) (code : List Instruction) (i : Instruction) :
    Option Configuration :=
  match i, c.stack with
  | .pushInt n, stack => some (c.next (.int n :: stack))
  | .pushLong n, stack => some (c.next (.long n :: stack))
  | .pushNull, stack => some (c.next (.null :: stack))
  | .load kind slot, stack => (c.memory.load slot.toNat kind).map fun v ↦ c.next (v :: stack)
  | .store kind slot, v :: stack =>
    if v.kind = kind then some { c.next stack with memory := c.memory.store slot.toNat v } else none
  | .dup kind, v :: stack => if v.kind = kind then some (c.next (v :: v :: stack)) else none
  | .pop kind, v :: stack => if v.kind = kind then some (c.next stack) else none
  | .iadd, .int y :: .int x :: stack => some (c.next (.int (x + y) :: stack))
  | .isub, .int y :: .int x :: stack => some (c.next (.int (x - y) :: stack))
  | .ladd, .long y :: .long x :: stack => some (c.next (.long (x + y) :: stack))
  | .lsub, .long y :: .long x :: stack => some (c.next (.long (x - y) :: stack))
  | .i2l, .int x :: stack => some (c.next (.long x.toInt64 :: stack))
  | .lcmp, .long y :: .long x :: stack => some (c.next (.int (order x y) :: stack))
  | .goto l, stack => c.jump code l stack
  | .jumpIf test l, .int x :: stack =>
    if test.holds x.toInt 0 then c.jump code l stack else some (c.next stack)
  | .jumpIfCompare test l, .int y :: .int x :: stack =>
    if test.holds x.toInt y.toInt then c.jump code l stack else some (c.next stack)
  | .bind _, stack => some (c.next stack)
  | _, _ => none

/-! What the instructions do that look at what they are given. -/

section Execute

variable (code : List Instruction) (pc : Nat) (stack : List Value) (memory : Memory)

theorem execute_load (kind : StackKind) (slot : UInt16) :
    (⟨pc, stack, memory⟩ : Configuration).execute code (.load kind slot) =
      (memory.load slot.toNat kind).map fun v ↦ ⟨pc + 1, v :: stack, memory⟩ := rfl

theorem execute_store (slot : UInt16) (v : Value) :
    (⟨pc, v :: stack, memory⟩ : Configuration).execute code (.store v.kind slot) =
      some ⟨pc + 1, stack, memory.store slot.toNat v⟩ := if_pos rfl

theorem execute_dup (v : Value) :
    (⟨pc, v :: stack, memory⟩ : Configuration).execute code (.dup v.kind) =
      some ⟨pc + 1, v :: v :: stack, memory⟩ := if_pos rfl

theorem execute_pop (v : Value) :
    (⟨pc, v :: stack, memory⟩ : Configuration).execute code (.pop v.kind) =
      some ⟨pc + 1, stack, memory⟩ := if_pos rfl

theorem execute_goto (l : Label) :
    (⟨pc, stack, memory⟩ : Configuration).execute code (.goto l) =
      (position? code l).map fun pc ↦ ⟨pc, stack, memory⟩ := rfl

theorem execute_jumpIf (test : Condition) (l : Label) (x : Int32) :
    (⟨pc, .int x :: stack, memory⟩ : Configuration).execute code (.jumpIf test l) =
      if test.holds x.toInt 0 then (position? code l).map fun pc ↦ ⟨pc, stack, memory⟩
      else some ⟨pc + 1, stack, memory⟩ := rfl

theorem execute_jumpIfCompare (test : Condition) (l : Label) (x y : Int32) :
    (⟨pc, .int y :: .int x :: stack, memory⟩ : Configuration).execute code
        (.jumpIfCompare test l) =
      if test.holds x.toInt y.toInt then (position? code l).map fun pc ↦ ⟨pc, stack, memory⟩
      else some ⟨pc + 1, stack, memory⟩ := rfl

end Execute

/-- Runs the next instruction. -/
def step (code : List Instruction) (c : Configuration) : Option Configuration :=
  match code[c.pc]? with
  | some i => c.execute code i
  | none => none

/-- Runs a number of instructions. -/
def run (code : List Instruction) : Nat → Configuration → Option Configuration
  | 0, c => some c
  | n + 1, c => (c.step code).bind (run code n)

@[simp] theorem run_zero (code : List Instruction) (c : Configuration) :
    c.run code 0 = some c := rfl

/-- A step runs the instruction at the position. -/
theorem step_eq {code : List Instruction} {c : Configuration} {i : Instruction}
    (h : code[c.pc]? = some i) : c.step code = c.execute code i := by
  unfold step
  rw [h]

theorem run_one (code : List Instruction) (c : Configuration) : c.run code 1 = c.step code := by
  rw [run]
  cases c.step code <;> rfl

/-- A run begins with its first step. -/
theorem run_succ {code : List Instruction} {c c' : Configuration} (h : c.step code = some c')
    (n : Nat) : c.run code (n + 1) = c'.run code n := by
  simp [run, h]

/-- A run can be made in two parts. -/
theorem run_add (code : List Instruction) (m n : Nat) (c : Configuration) :
    c.run code (m + n) = (c.run code m).bind (run code n) := by
  induction m generalizing c with
  | zero => simp [run]
  | succ m ih =>
    rw [Nat.succ_add, run, run]
    cases c.step code with
    | none => rfl
    | some c' => exact ih c'

end Configuration

/-! ### Pieces of code in their place -/

/-- The labels that a piece of code binds, in order. -/
def boundLabels (code : List Instruction) : List Label :=
  code.filterMap fun i ↦ match i with | .bind l => some l | _ => none

@[simp] theorem boundLabels_nil : boundLabels [] = [] := rfl

/-- Labels are bound in the order of the code. -/
@[simp] theorem boundLabels_append (code code' : List Instruction) :
    boundLabels (code ++ code') = boundLabels code ++ boundLabels code' := by
  simp [boundLabels]

@[simp] theorem boundLabels_bind_cons (l : Label) (code : List Instruction) :
    boundLabels (.bind l :: code) = l :: boundLabels code := rfl

/-- Other instructions bind no label. -/
theorem boundLabels_cons_of_ne {i : Instruction} (h : ∀ l, i ≠ .bind l)
    (code : List Instruction) : boundLabels (i :: code) = boundLabels code := by
  cases i <;> first | rfl | exact absurd rfl (h _)

theorem mem_boundLabels {l : Label} {code : List Instruction} :
    l ∈ boundLabels code ↔ .bind l ∈ code := by
  constructor
  · intro h
    obtain ⟨i, hi, hl⟩ := List.mem_filterMap.1 h
    cases i <;> simp_all
  · intro h
    exact List.mem_filterMap.2 ⟨.bind l, h, rfl⟩

/-- A piece stands at a position of a program, and jumps to the labels it binds end up in it. -/
structure Placed (program : List Instruction) (pc : Nat) (piece : List Instruction) : Prop where
  /-- The instructions of the piece stand one after another. -/
  get : ∀ i, i < piece.length → program[pc + i]? = piece[i]?
  /-- The labels of the piece are bound nowhere else. -/
  position : ∀ i l, piece[i]? = some (.bind l) → position? program l = some (pc + i)

namespace Placed

variable {program piece piece' : List Instruction} {pc : Nat} {i : Instruction}

/-- A piece that is placed has its first part placed. -/
theorem left (h : Placed program pc (piece ++ piece')) : Placed program pc piece where
  get j hj := by
    rw [h.get j (by simp; omega), List.getElem?_append_left hj]
  position j l hj := by
    have hlt : j < piece.length := (List.getElem?_eq_some_iff.1 hj).1
    exact h.position j l (by rw [List.getElem?_append_left hlt, hj])

/-- Its second part comes behind the first. -/
theorem right (h : Placed program pc (piece ++ piece')) :
    Placed program (pc + piece.length) piece' where
  get j hj := by
    rw [Nat.add_assoc, h.get (piece.length + j) (by simp; omega),
      List.getElem?_append_right (by omega), Nat.add_sub_cancel_left]
  position j l hj := by
    rw [Nat.add_assoc]
    exact h.position (piece.length + j) l (by
      rw [List.getElem?_append_right (by omega), Nat.add_sub_cancel_left, hj])

/-- The first instruction of a piece is at its place. -/
theorem head (h : Placed program pc (i :: piece)) : program[pc]? = some i := by
  simpa using h.get 0 (by simp)

/-- The other instructions come behind it. -/
theorem tail (h : Placed program pc (i :: piece)) : Placed program (pc + 1) piece := by
  have h' : Placed program pc ([i] ++ piece) := h
  exact h'.right

/-- Jumps to a label continue from where the piece binds it. -/
theorem position_bind {l : Label} (h : Placed program pc (piece ++ .bind l :: piece')) :
    position? program l = some (pc + piece.length) :=
  h.position piece.length l (by simp)

end Placed

/-- Code that binds no label twice is in place on its own. -/
theorem placed_self {code : List Instruction} (h : (boundLabels code).Nodup) :
    Placed code 0 code where
  get i _ := by rw [Nat.zero_add]
  position i l hi := by
    obtain ⟨before, after, rfl, rfl⟩ : ∃ before after, code = before ++ .bind l :: after ∧
        before.length = i := by
      obtain ⟨hlt, hget⟩ := List.getElem?_eq_some_iff.1 hi
      refine ⟨code.take i, code.drop (i + 1), ?_, by simp; omega⟩
      rw [← hget, List.getElem_cons_drop, List.take_append_drop]
    have hnot : .bind l ∉ before := by
      intro hmem
      rw [boundLabels_append, boundLabels_bind_cons, List.nodup_append] at h
      exact h.2.2 l (mem_boundLabels.2 hmem) l (List.mem_cons_self ..) rfl
    rw [Nat.zero_add, position?, List.idxOf?_eq_some_iff]
    refine ⟨by simp, by simp, fun j hj ↦ ?_⟩
    rw [List.getElem_append_left hj]
    intro heq
    exact hnot (heq ▸ List.getElem_mem hj)

end ScriptBytecode

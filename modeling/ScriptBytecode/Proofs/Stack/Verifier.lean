import Mathlib.Algebra.Group.Nat.Defs
import Mathlib.Logic.Relation
import ScriptBytecode.Bytecode.Unit

/-!
# Verified code

A stack shape is the list of the kinds of the values on the operand stack. Code is verified by
giving each instruction the shape that it is reached with, such that the shapes fit along every edge
of the control flow: `Verified` collects what is asked of the code of a whole method.

`Instruction.effect?` is the effect of an instruction on the shape. Unlike the tables that the
assembler goes by, it checks the kind of every operand.

* `VerifiedBy` lists what is asked of code and of the shapes that are given to it;
* `effect?_eq_some` says what an instruction takes and leaves.

**Nothing here refers to how code is assembled.** The shapes are any list that fits, and the control
flow is read off the finished instructions (`Flows`). The assembler checks less: the number of
operands for most instructions, and a kind for the few that name one.

**The size is exact, and counted with 16 bits.** The recorded size is the highest count of slots
that some shape has (`VerifiedBy.maxStack_counted`), neither more nor less. A count wraps around, so
this is the width of the widest shape only where that can be counted at all
(`VerifiedBy.maxStack_eq`).

**No code is left over.** Every instruction can be reached (`VerifiedBy.reached`), so no shape is
given to code that control cannot come to.
-/

namespace ScriptBytecode

/-! ### The effect of an instruction -/

/-- The kinds of the values of a list of types, if all of them have values. -/
def kindsOf? : List MachineType → Option (List StackKind)
  | [] => some []
  | type :: types => do
    let kind ← type.kind?
    let kinds ← kindsOf? types
    some (kind :: kinds)

namespace Instruction

/-- The kinds that the instruction needs on top of the stack, the topmost first. An invocation of a
member with a parameter that can have no value needs something that is never there. -/
def takes? : Instruction → Option (List StackKind)
  | store kind _ | pop kind | dup kind | .returnValue kind => some [kind]
  | i2l | jumpIf .. => some [.int]
  | iadd | isub | jumpIfCompare .. => some [.int, .int]
  | ladd | lsub | lcmp => some [.long, .long]
  | invokeStatic m => (kindsOf? m.params).map List.reverse
  | invokeVirtual m | invokeInterface m | invokeSpecial m =>
    (kindsOf? m.params).map fun kinds ↦ kinds.reverse ++ [.reference]
  | _ => some []

/-- The kinds that the instruction leaves in place of what it needs. -/
def leaves : Instruction → List StackKind
  | dup kind => [kind, kind]
  | i => i.pushes?.toList

/-- The shape after the instruction, if it can run at the given one. -/
def effect? (i : Instruction) (shape : List StackKind) : Option (List StackKind) :=
  match i.takes? with
  | none => none
  | some taken => if taken <+: shape then some (i.leaves ++ shape.drop taken.length) else none

/-- Whether the instruction ends the method. -/
def isReturn : Instruction → Bool
  | .returnValue _ | returnVoid => true
  | _ => false

/-- Whether the instruction only works on values: it does not jump or return, and marks no
position. -/
def isStraight : Instruction → Bool
  | goto _ | jumpIf .. | jumpIfCompare .. | bind _ | .returnValue _ | returnVoid => false
  | _ => true

theorem effect?_eq_some {i : Instruction} {shape after : List StackKind} :
    i.effect? shape = some after ↔
      ∃ taken rest, i.takes? = some taken ∧ shape = taken ++ rest ∧ after = i.leaves ++ rest := by
  unfold effect?
  constructor
  · intro h
    split at h
    · cases h
    · next taken htaken =>
      split at h
      · next hprefix =>
        obtain ⟨rest, rfl⟩ := hprefix
        rw [List.drop_left] at h
        exact ⟨taken, rest, htaken, rfl, (Option.some.inj h).symm⟩
      · cases h
  · rintro ⟨taken, rest, htaken, rfl, rfl⟩
    rw [htaken]
    simp

/-- An instruction runs on top of anything that it runs on its own on top of. -/
theorem effect?_append {i : Instruction} {taken : List StackKind} (h : i.takes? = some taken)
    (rest : List StackKind) : i.effect? (taken ++ rest) = some (i.leaves ++ rest) :=
  effect?_eq_some.2 ⟨taken, rest, h, rfl, rfl⟩

end Instruction

/-! ### Control flow -/

/-- Control can go from one position to another. -/
inductive Flows (code : List Instruction) : Nat → Nat → Prop
  /-- To the next instruction. -/
  | next {pos : Nat} {i : Instruction} (hi : code[pos]? = some i) (hgoes : i.isTerminal = false) :
    Flows code pos (pos + 1)
  /-- To where the label of a jump is bound. -/
  | jump {pos pos' : Nat} {i : Instruction} {l : Label} (hi : code[pos]? = some i)
    (hl : i.target? = some l) (hbind : code[pos']? = some (.bind l)) : Flows code pos pos'

/-! ### Verified methods -/

/-- The most slots that any of the shapes takes. -/
def widest (shapes : List (List StackKind)) : Nat := (shapes.map stackSlots).foldr max 0

/-- The most slots that any of the shapes takes, each counted with 16 bits. -/
def counted (shapes : List (List StackKind)) : Nat :=
  (shapes.map fun shape ↦ stackSlots shape % 2 ^ 16).foldr max 0

/-- The instruction that a method with the given result ends with. -/
def exitOf (returnType : MachineType) : Instruction :=
  match returnType.kind? with
  | none => .returnVoid
  | some kind => .returnValue kind

/-- The code of a method with the given result is verified by the shapes of its instructions. -/
structure VerifiedBy (code : List Instruction) (returnType : MachineType) (maxStack : UInt16)
    (shapes : List (List StackKind)) : Prop where
  /-- Each instruction has a shape. -/
  length : shapes.length = code.length
  /-- The method is entered with an empty stack. -/
  entry : shapes.head? = some []
  /-- Each instruction finds operands of the kinds that it needs. -/
  operands : ∀ {pos : Nat} {i : Instruction}, code[pos]? = some i →
    ∃ shape after, shapes[pos]? = some shape ∧ i.effect? shape = some after
  /-- Wherever control goes, it arrives with the shape that is expected there. -/
  edges : ∀ {pos pos' : Nat} {i : Instruction}, code[pos]? = some i → Flows code pos pos' →
    ∃ shape after, shapes[pos]? = some shape ∧ i.effect? shape = some after ∧
      shapes[pos']? = some after
  /-- Each jump has a place to go to. -/
  targets : ∀ {i : Instruction} {l : Label}, i ∈ code → i.target? = some l → .bind l ∈ code
  /-- No label is bound twice. -/
  labels : ∀ {pos pos' : Nat} {l : Label}, code[pos]? = some (.bind l) →
    code[pos']? = some (.bind l) → pos = pos'
  /-- The method ends with its only return, with the value to return alone on the stack. -/
  exit : ∃ body, code = body ++ [exitOf returnType] ∧ (∀ i ∈ body, i.isReturn = false) ∧
    shapes.getLast? = some returnType.kind?.toList
  /-- Control can reach each instruction. -/
  reached : ∀ pos < code.length, Relation.ReflTransGen (Flows code) 0 pos
  /-- The recorded size of the stack is the highest count of the slots of a shape. -/
  maxStack_counted : maxStack.toNat = counted shapes
  /-- This is the size of the widest shape, if its slots can be counted with 16 bits. -/
  maxStack_eq : widest shapes < 2 ^ 16 → maxStack.toNat = widest shapes

/-- The code of the method passes verification. -/
def MethodCode.Verified (m : MethodCode) : Prop :=
  ∃ shapes, VerifiedBy m.instructions m.returnType m.maxStack shapes

end ScriptBytecode

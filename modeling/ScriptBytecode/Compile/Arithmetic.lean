import ScriptBytecode.Error

/-!
# Arithmetic on primitive values

On a numeric receiver a call is an operation of the machine. Only addition and subtraction exist,
with exactly one argument. The operation runs at the wider of the two widths, and the narrower
operand is widened right after it is computed.

A `Plan` is made before anything is emitted, so an operation that is refused leaves no trace.
-/

namespace ScriptBytecode

/-- The widths of integers. -/
inductive Width where
  /-- 32 bits. -/
  | narrow
  /-- 64 bits. -/
  | wide
deriving DecidableEq, Repr, Inhabited

namespace Width

/-- The wider of two widths. -/
def max : Width → Width → Width
  | narrow, w => w
  | wide, _ => wide

/-- The type of integers of the width. -/
def type : Width → MachineType
  | narrow => .int
  | wide => .long

/-- The width of the integers of a type, if it is a numeric type. -/
def ofType? : MachineType → Option Width
  | .int => some narrow
  | .long => some wide
  | _ => none

/-- The addition of the width. -/
def add : Width → Instruction
  | narrow => .iadd
  | wide => .ladd

/-- The subtraction of the width. -/
def sub : Width → Instruction
  | narrow => .isub
  | wide => .lsub

theorem type_eq_of_ofType? {t : MachineType} {w : Width} (h : ofType? t = some w) : w.type = t := by
  cases t with
  | primitive p => cases p <;> cases h <;> rfl
  | _ => cases h

end Width

namespace Arithmetic

/-- How an arithmetic operation is carried out. -/
structure Plan where
  /-- Whether the receiver is widened. -/
  widenReceiver : Bool
  /-- Whether the argument is widened. -/
  widenArgument : Bool
  /-- The operation. -/
  operation : Instruction
  /-- The width of the result. -/
  width : Width
deriving DecidableEq, Repr, Inhabited

/-- The instruction of an operator at a width. -/
def operation? (w : Width) : String → Option Instruction
  | "+" => some w.add
  | "-" => some w.sub
  | _ => none

/-- The plan for an operation, if it exists. -/
def plan? (receiver : Width) (operator : String) : List MachineType → Option Plan
  | [argument] => do
    let argument ← Width.ofType? argument
    let width := receiver.max argument
    let operation ← operation? width operator
    some
      { widenReceiver := receiver != width, widenArgument := argument != width
        operation, width }
  | _ => none

/-- How messages describe the operands of an operation. -/
def operands (receiver : Width) (args : List MachineType) : String :=
  if args.isEmpty then receiver.type.render
  else s!"{receiver.type.render} with ({MachineType.renderList args})"

/-- The plan for an operation. -/
def plan (receiver : Width) (operator : String) (args : List MachineType) (span : Span) :
    Except CompileError Plan :=
  match plan? receiver operator args with
  | some p => .ok p
  | none => .error (.located span (.unsupportedOperator operator (operands receiver args)))

end Arithmetic

end ScriptBytecode

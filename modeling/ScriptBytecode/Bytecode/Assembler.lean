import ScriptBytecode.Bytecode.LabelTable

/-!
# Assembling the code of one method

An `Assembler` collects the instructions of one method in the order they run and follows the operand
stack as it goes. It never refuses an instruction. What it finds wrong it keeps as a fault, the
first one only, and `finish` reports it in place of the code.

Following the stack is a single pass over the instructions. After an unconditional jump or a return
the current position is unreachable and the followed stack is whatever it was; binding a label that
a jump has reached makes it reachable again, with the stack of that jump.

The slots of the stack are counted with 16 bits, and the count wraps around.
-/

namespace ScriptBytecode

/-- The finished code of one method. -/
structure Code where
  /-- The instructions in the order they run. -/
  instructions : List Instruction
  /-- The most slots that the operand stack takes. -/
  maxStack : UInt16
deriving DecidableEq, Repr, Inhabited

/-- The code of one method while it is being put together. -/
structure Assembler where
  /-- The instructions so far. -/
  code : List Instruction := []
  /-- The operand stack at the current position, top first. -/
  stack : List StackKind := []
  /-- The most slots that the operand stack has taken. -/
  maxStack : UInt16 := 0
  /-- Whether control can arrive at the current position. -/
  reachable : Bool := true
  /-- The labels of the method. -/
  labels : LabelTable := {}
  /-- The first thing found wrong. -/
  fault : Option Fault := none
deriving DecidableEq, Repr, Inhabited

namespace Assembler

/-- Notes a fault, unless there has been one before. -/
def fail (a : Assembler) (f : Fault) : Assembler := { a with fault := a.fault <|> some f }

/-- Puts a value on the followed stack. -/
def push (a : Assembler) (kind : StackKind) : Assembler :=
  let stack := kind :: a.stack
  { a with stack, maxStack := max a.maxStack (.ofNat (stackSlots stack)) }

/-- Puts the value that an instruction leaves, if any, on the followed stack. -/
def pushResult (a : Assembler) (i : Instruction) : Assembler :=
  match i.pushes? with
  | none => a
  | some kind => a.push kind

/-- Follows the effect of an instruction on the operand stack. An instruction that finds too few
values empties the stack and leaves nothing. -/
def applyEffect (a : Assembler) (i : Instruction) : Assembler :=
  if a.stack.length < i.pops then { a with stack := [] }.fail (.stackUnderflow i)
  else
    let popped := { a with stack := a.stack.drop i.pops }
    match i.expects?, a.stack.head? with
    | none, _ => popped.pushResult i
    | some _, none => popped.fail (.stackUnderflow i)
    | some kind, some actual =>
      if kind = actual then popped.pushResult i
      else (popped.fail (.wrongKind i actual)).pushResult i

/-- Follows the jump of an instruction, if it has one, before its operands are gone. -/
def applyJump (a : Assembler) (i : Instruction) : Assembler :=
  match i.target? with
  | none => a
  | some l =>
    match a.labels.jump l (a.stack.drop i.pops) with
    | .ok labels => { a with labels }
    | .error fault => a.fail fault

/-- Adds an instruction. -/
def emit (a : Assembler) (i : Instruction) : Assembler :=
  let a := (a.applyJump i).applyEffect i
  { a with code := a.code ++ [i], reachable := a.reachable && !i.isTerminal }

/-- The label that the method creates next. -/
def nextLabel (a : Assembler) : Label := a.labels.next

/-- Creates the label `nextLabel`. -/
def createLabel (a : Assembler) : Assembler := { a with labels := a.labels.create }

/-- Gives a label the current position. -/
def bind (a : Assembler) (l : Label) : Assembler :=
  let current := if a.reachable then some a.stack else none
  let (labels, outcome) := a.labels.bind l current
  let a := { a with labels, code := a.code ++ [Instruction.bind l] }
  match outcome with
  | .ok (some stack) => { a with stack, reachable := true }
  | .ok none => { a with reachable := true }
  | .error fault => a.fail fault

/-- The number of values on the followed stack. -/
def depth (a : Assembler) : Nat := a.stack.length

/-- The finished code, if nothing was wrong and every label has a position. -/
def finish (a : Assembler) : Except Fault Code :=
  match a.fault, a.labels.unbound with
  | some fault, _ => .error fault
  | none, l :: _ => .error (.neverBound l)
  | none, [] => .ok { instructions := a.code, maxStack := a.maxStack }

end Assembler

end ScriptBytecode

import ScriptBytecode.Classes.Member
import ScriptBytecode.Text.Quoted

/-!
# Instructions of the stack machine

Instructions are symbolic: labels are numbers local to a method, classes and members are named, and
constants stand inline. A label is bound by an instruction of its own, `bind`, which marks the
position that jumps to the label continue from.

What an instruction does to the operand stack is spread over a few small tables: how many values it
`pops`, the kind of the value it `pushes?`, the kind that the top value must have (`expects?`),
where it may jump (`target?`) and whether control can go on to the next instruction (`isTerminal`).
-/

namespace ScriptBytecode

/-! ### Labels and conditions -/

/-- A jump target within one method. -/
structure Label where
  /-- Position in the order of creation. -/
  index : Nat
deriving DecidableEq, Repr, Inhabited

/-- The label as listings write it. -/
def Label.render (l : Label) : String := s!"L{l.index}"

/-- When a conditional jump is taken: how the tested integer compares to zero, or the first of two
integers to the second. -/
inductive Condition where
  | eq
  | ne
  | lt
  | ge
  | gt
  | le
deriving DecidableEq, Repr, Inhabited

namespace Condition

/-- The condition that a comparison operator tests. -/
def ofOperator? : String → Option Condition
  | "==" => some eq
  | "!=" => some ne
  | "<" => some lt
  | ">=" => some ge
  | ">" => some gt
  | "<=" => some le
  | _ => none

/-- The condition that holds exactly when this one does not. -/
def negate : Condition → Condition
  | eq => ne
  | ne => eq
  | lt => ge
  | ge => lt
  | gt => le
  | le => gt

/-- Whether the condition tests for equality or its absence. -/
def isEquality : Condition → Bool
  | eq | ne => true
  | lt | ge | gt | le => false

/-- The condition within a mnemonic. -/
def mnemonic : Condition → String
  | eq => "eq"
  | ne => "ne"
  | lt => "lt"
  | ge => "ge"
  | gt => "gt"
  | le => "le"

end Condition

/-! ### Instructions -/

/-- One instruction of the stack machine. -/
inductive Instruction where
  /-- Pushes a 32-bit integer. -/
  | pushInt (value : Int32)
  /-- Pushes a 64-bit integer. -/
  | pushLong (value : Int64)
  /-- Pushes a string constant. -/
  | pushString (value : String)
  /-- Pushes the null reference. -/
  | pushNull
  /-- Pushes a local. -/
  | load (kind : StackKind) (slot : UInt16)
  /-- Pops into a local. -/
  | store (kind : StackKind) (slot : UInt16)
  /-- Pushes the top value once more. -/
  | dup (kind : StackKind)
  /-- Drops the top value. -/
  | pop (kind : StackKind)
  /-- Adds 32-bit integers. -/
  | iadd
  /-- Subtracts 32-bit integers. -/
  | isub
  /-- Adds 64-bit integers. -/
  | ladd
  /-- Subtracts 64-bit integers. -/
  | lsub
  /-- Widens a 32-bit integer to 64 bits. -/
  | i2l
  /-- Compares 64-bit integers and pushes -1, 0 or 1. -/
  | lcmp
  /-- Allocates an instance without initializing it. -/
  | new (cls : ClassRef)
  /-- Calls a static member. -/
  | invokeStatic (member : MemberRef)
  /-- Calls an instance member of a class. -/
  | invokeVirtual (member : MemberRef)
  /-- Calls an instance member of an interface. -/
  | invokeInterface (member : MemberRef)
  /-- Calls a constructor. -/
  | invokeSpecial (member : MemberRef)
  /-- Jumps. -/
  | goto (target : Label)
  /-- Pops an integer and jumps if it compares to zero as the condition says. -/
  | jumpIf (condition : Condition) (target : Label)
  /-- Pops two integers and jumps if the lower compares to the upper as the condition says. -/
  | jumpIfCompare (condition : Condition) (target : Label)
  /-- Marks the position of a label. -/
  | bind (label : Label)
  /-- Returns the top value. -/
  | returnValue (kind : StackKind)
  /-- Returns without a value. -/
  | returnVoid
deriving DecidableEq, Repr, Inhabited

namespace Instruction

/-! ### Effect on the operand stack -/

/-- How many values the instruction takes from the stack. -/
def pops : Instruction → Nat
  | pushInt _ | pushLong _ | pushString _ | pushNull => 0
  | load .. | dup _ | new _ | goto _ | bind _ | returnVoid => 0
  | store .. | pop _ | i2l | jumpIf .. | .returnValue _ => 1
  | iadd | isub | ladd | lsub | lcmp | jumpIfCompare .. => 2
  | invokeStatic m => m.params.length
  | invokeVirtual m | invokeInterface m | invokeSpecial m => m.params.length + 1

/-- The kind of the value that the instruction leaves, if it leaves one. -/
def pushes? : Instruction → Option StackKind
  | pushInt _ | iadd | isub | lcmp => some .int
  | pushLong _ | ladd | lsub | i2l => some .long
  | pushString _ | pushNull | new _ => some .reference
  | load kind _ | dup kind => some kind
  | invokeStatic m | invokeVirtual m | invokeInterface m | invokeSpecial m => m.returnType.kind?
  | store .. | pop _ | goto _ | jumpIf .. | jumpIfCompare .. | bind _ | .returnValue _
    | returnVoid =>
    none

/-- The kind that the top value must have, for instructions that name one. -/
def expects? : Instruction → Option StackKind
  | pop kind | .returnValue kind | store kind _ | dup kind => some kind
  | _ => none

/-- Where the instruction may jump. -/
def target? : Instruction → Option Label
  | goto l | jumpIf _ l | jumpIfCompare _ l => some l
  | _ => none

/-- Whether control never goes on to the next instruction. -/
def isTerminal : Instruction → Bool
  | goto _ | .returnValue _ | returnVoid => true
  | _ => false

/-! ### Listings -/

/-- The instruction as listings write it. -/
def render : Instruction → String
  | pushInt value => s!"push.i {value.toInt}"
  | pushLong value => s!"push.l {value.toInt}"
  | pushString value => "push.s " ++ Quoted.encode value
  | pushNull => "push.null"
  | load kind slot => s!"{kind.letter}load {slot}"
  | store kind slot => s!"{kind.letter}store {slot}"
  | dup .long => "dup2"
  | dup _ => "dup"
  | pop .long => "pop2"
  | pop _ => "pop"
  | iadd => "iadd"
  | isub => "isub"
  | ladd => "ladd"
  | lsub => "lsub"
  | i2l => "i2l"
  | lcmp => "lcmp"
  | new c => "new " ++ c.name
  | invokeStatic m => "invokestatic " ++ m.render
  | invokeVirtual m => "invokevirtual " ++ m.render
  | invokeInterface m => "invokeinterface " ++ m.render
  | invokeSpecial m => "invokespecial " ++ m.render
  | goto l => "goto " ++ l.render
  | jumpIf c l => s!"if{c.mnemonic} {l.render}"
  | jumpIfCompare c l => s!"if_icmp{c.mnemonic} {l.render}"
  | bind l => l.render ++ ":"
  | .returnValue kind => s!"{kind.letter}return"
  | returnVoid => "return"

instance : ToString Instruction := ⟨render⟩

end Instruction

end ScriptBytecode

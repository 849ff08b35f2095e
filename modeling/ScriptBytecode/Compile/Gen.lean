import ScriptBytecode.Compile.Typing

/-!
# Generating the code of one method

`Gen` is the type of actions that emit code for a method: they work on the session and on the
assembler of that method. An action on the session alone is lifted to `Gen` and leaves the assembler
as it is; conversely `assemble` runs an action on a fresh assembler and yields the finished code, so
the code of one method never mixes with that of another.

What a node is compiled for is its `Destination`. A node can be run for its effects, leaving the
stack as it was; it can be made to leave its value on the stack; or it can decide a jump, which
again leaves the stack as it was. The helpers here carry values to their destination.
-/

namespace ScriptBytecode

/-- The session and the method whose code is being generated. -/
structure GenState where
  /-- The state of the compilation. -/
  session : Session
  /-- The code of the method so far. -/
  asm : Assembler := {}
deriving Inhabited

/-- Actions that emit code for a method and may fail. -/
abbrev Gen := EStateM CompileError GenState

/-- What a node is compiled for. -/
inductive Destination where
  /-- Only for its effects. -/
  | discard
  /-- To leave its value on the stack. -/
  | push
  /-- To jump to the target if its truth value is `sense`, and to go on otherwise. -/
  | jump (sense : Bool) (target : Label)
deriving DecidableEq, Repr, Inhabited

namespace Gen

variable {α : Type}

/-! ### Moving between sessions and methods -/

/-- Runs an action on the session. -/
def onSession (act : SessionM α) : Gen α := fun g ↦
  match act g.session with
  | .ok a session => .ok a { g with session }
  | .error e session => .error e { g with session }

/-- Runs an action with an assembler of its own and yields the finished code. -/
def assemble (act : Gen Unit) : SessionM Code := fun session ↦
  match act { session } with
  | .error e g => .error e g.session
  | .ok () g =>
    match g.asm.finish with
    | .ok code => .ok code g.session
    | .error fault => .error (.internal fault) g.session

/-- Reads from the session, or fails. -/
def query (read : Session → Except CompileError α) : Gen α := onSession (SessionM.query read)

/-- The machine type that a source type stands for. -/
def typeOf (type : SourceType) (span : Span) : Gen MachineType := query (·.typeOf type span)

/-- The type of the value that a node leaves on the stack. -/
def valueType (node : Node) : Gen MachineType := query (·.valueType node)

/-- The types of the values that the nodes leave on the stack. -/
def valueTypes (nodes : List Node) : Gen (List MachineType) := query (·.valueTypes nodes)

/-- The member that a call on a class refers to. -/
def resolve (receiver : ClassRef) (name : String) (args : List MachineType) (isStatic : Bool)
    (span : Span) : Gen Member :=
  query (·.classes.resolve receiver name args isStatic span)

/-! ### Emission -/

/-- Emits an instruction. -/
def emit (i : Instruction) : Gen Unit := modify fun g ↦ { g with asm := g.asm.emit i }

/-- Emits a sequence of instructions. -/
def emitAll (is : List Instruction) : Gen Unit := is.forM emit

/-- Creates a label. -/
def createLabel : Gen Label := do
  let l := (← get).asm.nextLabel
  modify fun g ↦ { g with asm := g.asm.createLabel }
  pure l

/-- Gives a label the current position. -/
def bind (l : Label) : Gen Unit := modify fun g ↦ { g with asm := g.asm.bind l }

/-! ### Values -/

/-- The instruction that pushes the default value of a type: zero or null. -/
def defaultValue (type : MachineType) : Instruction :=
  match type.kind? with
  | some .int => .pushInt 0
  | some .long => .pushLong 0
  | some .reference | none => .pushNull

/-- Pushes the default value of a type. In place of no value this is a null reference of the root
class. -/
def placeholder (type : MachineType) : Gen MachineType := do
  emit (defaultValue type)
  pure (if type.isVoid then .object else type)

/-- Ends a construct that has left a value of type `produced`, if that is not `void`. What is on the
stack and not wanted is dropped, and what is wanted and not there is made up. -/
def settle (produced : MachineType) (keep : Bool) : Gen MachineType := do
  match produced.kind?, keep with
  | none, true => placeholder produced
  | none, false => pure .void
  | some _, true => pure produced
  | some kind, false =>
    emit (.pop kind)
    pure .void

/-- Converts the top value. Between references anything goes, since narrowing has been checked
before. -/
def coerce (actual target : MachineType) (span : Span) : Gen Unit := do
  match (← get).session.classes.conversion? actual target with
  | some conversion => emitAll conversion.code
  | none =>
    if actual.kind? = some .reference ∧ target.kind? = some .reference then pure ()
    else throw (.misuse span (.typeMismatch actual target))

/-- Runs code that stands at `span` and converts its value to the target type. For `void` the code
is run for its effects. -/
def receive (target : MachineType) (span : Span) (code : Destination → Gen MachineType) :
    Gen Unit := do
  if target.isVoid then
    let _ ← code .discard
  else
    let actual ← code .push
    coerce actual target span

/-- Carries a node to its destination. `code` runs the node for its effects, or for its value if its
argument is true; a jump tests the value. -/
def deliver (node : Node) (destination : Destination) (code : Bool → Gen MachineType) :
    Gen MachineType := do
  match destination with
  | .discard => code false
  | .push => code true
  | .jump sense target =>
    let type ← valueType node
    unless type = .boolean do
      throw (.predicate node.span (.notBoolean type))
    let actual ← code true
    coerce actual .boolean node.span
    emit (.jumpIf (if sense then .ne else .eq) target)
    pure .void

/-- The destination of a node that only has a value to leave or not. -/
def keepOrDiscard (keep : Bool) : Destination := if keep then .push else .discard

end Gen

end ScriptBytecode

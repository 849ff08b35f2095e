import ScriptBytecode.Compile.Typing
import ScriptBytecode.Proofs.Execution.Machine

/-!
# What a tree means

`meaning` evaluates the trees that compute with integers and local variables alone: constants, reads
and stores of locals, sums and differences, sequences, branches and loops. Evaluation goes from left
to right and knows nothing of stacks, slots or labels; the variables are an environment of values by
name.

The meaning of a node is a pair: how it is run, for its value or only for its effects, and how it
decides a condition. Where a value is used at another type than its own it is widened: operands to
the wider of their types, and the value of an assignment, of a branch or of a loop to the type of
that construct. Sums, differences and comparisons are those of the integers (`operate`,
`relation?`); only the result of a sum or a difference is cut to its width.

Loops are bounded by a number of rounds. An evaluation that needs more ends with `outOfRounds`,
which is told apart from the two ways in which an evaluation goes wrong.

**What it shares with the compiler** are the types that the tree was given or that are found for it:
the meaning of a node depends on them, since it says at which width numbers are computed. Everything
else is written anew. In particular comparisons are given by relations of integers (`relation?`),
and that the compiler tests for the same is a lemma (`relation?_eq`).

**What has no meaning.** A node outside of the fragment, or a value used at a type that it does not
fit, halts the evaluation as ill typed. Code that was compiled never comes to that; so the result
about runs has no case for it.
-/

namespace ScriptBytecode

/-! ### Evaluations -/

/-- Why an evaluation has no outcome. -/
inductive Halt where
  /-- A local variable was read before anything was stored in it. -/
  | unset (name : String)
  /-- A value was missing or of a kind that it could not be used at. -/
  | illTyped
  /-- A loop went through all the rounds that it was given. -/
  | outOfRounds
deriving DecidableEq, Repr, Inhabited

/-- The values of the local variables. -/
abbrev Env := String → Option Value

/-- The environment with another value for one variable. -/
def Env.set (env : Env) (name : String) (v : Value) : Env :=
  fun other ↦ if other = name then some v else env other

/-- Evaluations read and change an environment and may halt. -/
abbrev Eval := StateT Env (Except Halt)

namespace Eval

/-- The value of a variable. -/
def read (name : String) : Eval Value := fun env ↦
  match env name with
  | some v => .ok (v, env)
  | none => .error (.unset name)

/-- Stores a value in a variable. -/
def write (name : String) (v : Value) : Eval Unit := fun env ↦ .ok ((), env.set name v)

/-- Goes on with what typing the tree gave. -/
def static {α : Type} (r : Except CompileError α) : Eval α :=
  match r with
  | .ok a => pure a
  | .error _ => throw .illTyped

/-- Runs rounds until one says that it was the last. -/
def rounds {α : Type} (round : α → Eval (Bool × α)) : Nat → α → Eval α
  | 0, _ => throw .outOfRounds
  | n + 1, a => do
    let (again, a) ← round a
    if again then rounds round n a else pure a

end Eval

/-! ### Values -/

namespace Value

/-- The number that a value stands for. -/
def number? : Value → Option Int
  | int n => some n.toInt
  | long n => some n.toInt
  | null => none

/-- The number that a value stands for, or a halt. -/
def number (v : Value) : Eval Int :=
  match v.number? with
  | some n => pure n
  | none => throw .illTyped

/-- The value at another type: itself if it has the kind of the type, and widened if it is a 32-bit
integer and the type is that of 64-bit integers. -/
def convert (v : Value) (type : MachineType) : Eval Value :=
  if type.kind? = some v.kind then pure v
  else match v, type.kind? with
    | int n, some .long => pure (long n.toInt64)
    | _, _ => throw .illTyped

end Value

/-- An integer cut to a width. -/
def Width.wrap : Width → Int → Value
  | narrow, n => .int (.ofInt n)
  | wide, n => .long (.ofInt n)

/-- The number that an operator makes of two numbers. -/
def operate : String → Int → Int → Eval Int
  | "+", x, y => pure (x + y)
  | "-", x, y => pure (x - y)
  | _, _, _ => throw .illTyped

/-- The relation between two numbers that an operator stands for, if it compares. -/
def relation? : String → Option (Int → Int → Bool)
  | "<" => some fun x y ↦ x < y
  | "<=" => some fun x y ↦ x ≤ y
  | ">" => some fun x y ↦ y < x
  | ">=" => some fun x y ↦ y ≤ x
  | "==" => some fun x y ↦ x = y
  | "!=" => some fun x y ↦ x ≠ y
  | _ => none

/-- The condition that code tests for an operator holds exactly where its relation does. -/
theorem relation?_eq (name : String) :
    relation? name = (Condition.ofOperator? name).map Condition.holds := by
  unfold relation? Condition.ofOperator?
  split
  case h_7 => split <;> trivial
  all_goals rfl

/-- The value of a constant. -/
def Literal.value : Literal → Eval Value
  | int n => pure (.int n)
  | long n => pure (.long n)
  | bool b => pure (.int (if b then 1 else 0))
  | string _ | null => throw .illTyped

/-! ### Types that evaluation depends on -/

namespace Session

/-- The type that a store is made at: the one inferred for it, or else that of the value. -/
def storeType (s : Session) (value : Node) (type : SourceType) (span : Span) :
    Except CompileError MachineType := do
  let declared ← s.typeOf type span
  if declared.isVoid then s.valueType value else .ok declared

/-- The type that a branch or loop is run at. It has none if no value is wanted. -/
def joinType (s : Session) (type : SourceType) (span : Span) (keep : Bool) :
    Except CompileError MachineType :=
  if keep then s.typeOf type span else .ok .void

/-- The width of the numbers that a node computes. -/
def width (s : Session) (n : Node) : Eval Width := do
  match Width.ofType? (← Eval.static (s.valueType n)) with
  | some w => pure w
  | none => throw .illTyped

end Session

/-! ### Meanings -/

/-- What a node does. -/
structure Meaning where
  /-- Runs the node. There is a value if one is wanted. -/
  run (keep : Bool) : Eval (Option Value)
  /-- Runs the node as a condition. -/
  test : Eval Bool

namespace Meaning

/-- The value, if it is wanted. -/
def settled (keep : Bool) (v : Value) : Option Value := if keep then some v else none

/-- Runs a node for its value at a type. At the type `void` it is run for its effects. -/
def runAs (m : Meaning) (type : MachineType) : Eval (Option Value) := do
  if type.isVoid then m.run false
  else match ← m.run true with
    | some v => return some (← v.convert type)
    | none => throw .illTyped

/-- Runs a node for the number that its value at a type stands for. -/
def numberAs (m : Meaning) (type : MachineType) : Eval Int := do
  match ← m.runAs type with
  | some v => v.number
  | none => throw .illTyped

/-- A node that decides a condition by its truth value. -/
def ofRun (run : Bool → Eval (Option Value)) : Meaning where
  run := run
  test := do
    match ← run true with
    | some v => return (← v.number) ≠ 0
    | none => throw .illTyped

/-- A node that is not evaluated. -/
def illTyped : Meaning := ofRun fun _ ↦ throw .illTyped

/-- One round of a loop that tests first: it is the last if the condition is as `negative` says, and
runs the content otherwise. -/
def testFirst (condition content : Meaning) (type : MachineType) (negative : Bool)
    (carried : Option Value) : Eval (Bool × Option Value) := do
  if (← condition.test) = negative then return (false, carried)
  else return (true, ← content.runAs type)

/-- One round of a loop that tests last. -/
def testLast (condition content : Meaning) (type : MachineType) (negative : Bool)
    (_ : Option Value) : Eval (Bool × Option Value) := do
  let carried ← content.runAs type
  return ((← condition.test) ≠ negative, carried)

end Meaning

open Meaning

mutual

/-- What a node does. `bound` limits the rounds of each loop. -/
def meaning (s : Session) (bound : Nat) (n : Node) : Meaning :=
  match n with
  | .literal value _ _ => .ofRun fun keep ↦ return settled keep (← value.value)
  | .readLocal name _ _ => .ofRun fun keep ↦ if keep then some <$> Eval.read name else return none
  | .noop _ => .ofRun fun keep ↦ return settled keep .null
  | .assign name value type span => .ofRun fun keep ↦ do
    match ← (meaning s bound value).runAs (← Eval.static (s.storeType value type span)) with
    | some v =>
      Eval.write name v
      return settled keep v
    | none => throw .illTyped
  | .body nodes _ _ => .ofRun (meaningOf s bound nodes)
  | .call receiver name [argument] _ _ =>
    let run := fun keep ↦ do
      let w ← s.width receiver
      let x ← (meaning s bound receiver).numberAs w.type
      let v ← s.width argument
      let y ← (meaning s bound argument).numberAs v.type
      return settled keep ((w.max v).wrap (← operate name x y))
    { run
      test := match relation? name with
        | some relation => do
          let x ← (meaning s bound receiver).numberAs (← Eval.static (s.valueType receiver))
          let y ← (meaning s bound argument).numberAs (← Eval.static (s.valueType argument))
          return relation x y
        | none => (ofRun run).test }
  | .call receiver "!" [] _ _ =>
    { run := fun _ ↦ throw .illTyped
      test := return !(← (meaning s bound receiver).test) }
  | .branch condition thenArm elseArm type span => .ofRun fun keep ↦ do
    let type ← Eval.static (s.joinType type span keep)
    let v ←
      if ← (meaning s bound condition).test then (meaning s bound thenArm).runAs type
      else (meaningOfElse s bound type elseArm)
    return settled keep (v.getD .null)
  | .loop condition content checkFirst negative type span => .ofRun fun keep ↦ do
    let type ← Eval.static (s.joinType type span keep)
    let round :=
      if checkFirst then
        testFirst (meaning s bound condition) (meaning s bound content) type negative
      else testLast (meaning s bound condition) (meaning s bound content) type negative
    let v ← Eval.rounds round bound (type.kind?.map Value.default)
    return settled keep (v.getD .null)
  | _ => illTyped
termination_by structural n

/-- Runs a sequence: all nodes but the last for their effects. -/
def meaningOf (s : Session) (bound : Nat) (nodes : List Node) (keep : Bool) :
    Eval (Option Value) :=
  match nodes with
  | [] => return settled keep .null
  | [n] => (meaning s bound n).run keep
  | n :: rest => do
    let _ ← (meaning s bound n).run false
    meaningOf s bound rest keep
termination_by structural nodes

/-- Runs the other arm of a branch. If it is missing it has the default value. -/
def meaningOfElse (s : Session) (bound : Nat) (type : MachineType) (arm : Option Node) :
    Eval (Option Value) :=
  match arm with
  | some n => (meaning s bound n).runAs type
  | none => return type.kind?.map Value.default
termination_by structural arm

end

end ScriptBytecode

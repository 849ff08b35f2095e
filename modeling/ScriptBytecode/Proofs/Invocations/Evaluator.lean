import ScriptBytecode.Compile.Typing
import ScriptBytecode.Proofs.Invocations.Machine

/-!
# What a tree of calls does

`evaluate` says what the trees do that are made of constants, reads of locals, the current instance
and calls. It knows nothing of stacks, slots or code. The receiver of a call is evaluated first,
then the arguments from left to right, and then the member is invoked; an instance is allocated
before the arguments of its constructor are evaluated.

A tree is evaluated for its value or only for what it does.

* The value of a call is what the member returns.
* Where the member returns nothing, it is the receiver, or null if the call is static.
* The value of a construction is the new instance.

The member that a call stands for is the one that it resolves to, given the types of its arguments,
and each argument is widened to the type of its parameter. A call on a number is a sum or a
difference, which invokes nothing.

**What is left to the world.** What a member does when it is invoked is not modelled. The world
gives an answer for each invocation, which may depend on all that has happened before; so a
statement about every world covers members with effects on each other, and members that answer
differently each time.

**What counts as happening** are allocations and invocations, with the member, the receiver and the
arguments. Reads of locals are not recorded, and locals do not change: trees that store are not made
of calls in this sense.

**The receiver and numbers.** An operator on a number evaluates its operands, from left to right,
and invokes nothing; whether a call is one is decided by the type of its receiver.
-/

namespace ScriptBytecode.Invocations

/-! ### Evaluations -/

/-- Why an evaluation has no outcome. -/
inductive Stop where
  /-- A local variable was read that has no value. -/
  | unset (name : String)
  /-- The tree is not made of calls, or a call does not resolve. -/
  | refused
deriving DecidableEq, Repr, Inhabited

/-- Evaluations add to a history and may stop. -/
abbrev Run := StateT History (Except Stop)

namespace Run

/-- Goes on with what typing the tree gave. -/
def static {α : Type} : Except CompileError α → Run α
  | .ok a => pure a
  | .error _ => throw .refused

/-- Goes on with an outcome that must be there. -/
def demand {α : Type} : Option α → Run α
  | some a => pure a
  | none => throw .refused

end Run

namespace World

/-- The value of a local variable. -/
def read (w : World) (name : String) : Run Datum :=
  match w.locals name with
  | some v => pure v
  | none => throw (.unset name)

/-- Allocates an instance. Instances are told apart by their place in the history. -/
def allocate (cls : ClassRef) : Run Datum := fun h ↦
  .ok (.reference (.object h.length), h ++ [.allocation cls])

/-- Invokes a member. -/
def invoke (w : World) (m : MemberRef) (receiver : Option Datum) (args : List Datum) :
    Run (Option Datum) := fun h ↦
  let h := h ++ [.invocation m receiver args]
  .ok (w.answer m.returnType h, h)

end World

/-! ### Values -/

namespace Datum

/-- The value at another type: a 32-bit integer is widened if the type is that of 64-bit
integers. -/
def convert (v : Datum) (type : MachineType) : Datum :=
  match v, type.kind? with
  | int n, some .long => long n.toInt64
  | v, _ => v

/-- The value as a 64-bit integer, if it is an integer. -/
def wide? : Datum → Option Int64
  | int n => some n.toInt64
  | long n => some n
  | reference _ => none

/-- What an operator makes of an integer and one more, at the wider of their widths. -/
def operate? (operator : String) (x : Datum) (ys : List Datum) : Option Datum :=
  match operator, x, ys with
  | "+", int x, [int y] => some (int (x + y))
  | "-", int x, [int y] => some (int (x - y))
  | "+", x, [y] => do return long ((← x.wide?) + (← y.wide?))
  | "-", x, [y] => do return long ((← x.wide?) - (← y.wide?))
  | _, _, _ => none

end Datum

/-- The value of a constant. -/
def datum : Literal → Datum
  | .int n => .int n
  | .long n => .long n
  | .bool b => .int (if b then 1 else 0)
  | .string text => .reference (.constant text)
  | .null => .null

/-- A value that is left only if it is wanted. -/
def wanted (keep : Bool) (v : Datum) : Option Datum := if keep then some v else none

/-- A value that must be there, at the type that it is used at. -/
def operand (run : Run (Option Datum)) (type : MachineType) : Run Datum := do
  match ← run with
  | some v => pure (v.convert type)
  | none => throw .refused

/-! ### Trees -/

mutual

/-- Evaluates a tree, for its value if `keep` is true and otherwise for what it does. -/
def evaluate (s : Session) (w : World) (n : Node) (keep : Bool) : Run (Option Datum) :=
  match n with
  | .literal value _ _ => pure (wanted keep (datum value))
  | .readLocal name _ _ => if keep then some <$> w.read name else pure none
  | .selfRef _ _ => pure (wanted keep (.reference w.self))
  | .call receiver name args _ span =>
    if receiver.type.isMeta then do
      let cls ← Run.static (s.metaClass receiver.type receiver.span name span)
      let types ← Run.static (s.valueTypes args)
      if name = "new" then
        let m ← Run.static (s.classes.resolve cls constructorName types false span)
        let object ← World.allocate cls
        let args ← evaluateArguments s w args m.params
        let _ ← w.invoke m.toRef (some object) args
        pure (wanted keep object)
      else
        let m ← Run.static (s.classes.resolve cls name types true span)
        let args ← evaluateArguments s w args m.params
        let result ← w.invoke m.toRef none args
        pure (wanted keep (result.getD .null))
    else do
      let type ← Run.static (s.valueType receiver)
      let types ← Run.static (s.valueTypes args)
      match Width.ofType? type with
      | some _ =>
        let x ← operand (evaluate s w receiver true) type
        let ys ← evaluateArguments s w args types
        let result ← Run.demand (Datum.operate? name x ys)
        pure (wanted keep result)
      | none =>
        let cls ← Run.static (Session.receiverClass type name span)
        let m ← Run.static (s.classes.resolve cls name types false span)
        let receiver ← operand (evaluate s w receiver true) type
        let args ← evaluateArguments s w args m.params
        let result ← w.invoke m.toRef (some receiver) args
        pure (wanted keep (result.getD receiver))
  | .selfCall name args _ span => do
    let (_, m) ← Run.static (s.selfCallee name (s.valueTypes args) span)
    let args ← evaluateArguments s w args m.params
    if m.flags.isStatic then
      let result ← w.invoke m.toRef none args
      pure (wanted keep (result.getD .null))
    else
      let self := .reference w.self
      let result ← w.invoke m.toRef (some self) args
      pure (wanted keep (result.getD self))
  | _ => throw .refused
termination_by structural n

/-- Evaluates arguments from left to right, each widened to the type of its parameter. -/
def evaluateArguments (s : Session) (w : World) (nodes : List Node) (types : List MachineType) :
    Run (List Datum) :=
  match nodes, types with
  | n :: nodes, type :: types => do
    let v ← operand (evaluate s w n true) type
    let vs ← evaluateArguments s w nodes types
    pure (v :: vs)
  | _, _ => pure []
termination_by structural nodes

end

/-! ### Trees made of calls -/

/-- The tree is made of constants, reads of locals, the current instance, and calls on types, on
such trees, and on the current instance. -/
inductive Calls : Node → Prop
  | literal (value : Literal) (type : SourceType) (span : Span) : Calls (.literal value type span)
  | readLocal (name : String) (type : SourceType) (span : Span) : Calls (.readLocal name type span)
  | selfRef (type : SourceType) (span : Span) : Calls (.selfRef type span)
  | onType (cls : String) (typeSpan : Span) (name : String) {args : List Node} (type : SourceType)
    (span : Span) (hargs : ∀ n ∈ args, Calls n) :
    Calls (.call (.typeName cls typeSpan) name args type span)
  | onValue {receiver : Node} (name : String) {args : List Node} (type : SourceType) (span : Span)
    (hreceiver : Calls receiver) (hvalue : receiver.type.isMeta = false)
    (hargs : ∀ n ∈ args, Calls n) : Calls (.call receiver name args type span)
  | onSelf {name : String} {args : List Node} (type : SourceType) (span : Span)
    (hname : name ≠ constructorName) (hargs : ∀ n ∈ args, Calls n) :
    Calls (.selfCall name args type span)

end ScriptBytecode.Invocations

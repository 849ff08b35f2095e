import ScriptBytecode.Classes.Overload
import ScriptBytecode.Compile.Arithmetic
import ScriptBytecode.Compile.Session
import ScriptBytecode.Source.Node

/-!
# The type of a value before it is compiled

Overloads are resolved, and local slots chosen, before the operands are compiled. What a node will
leave on the stack is therefore computed from the node alone: `Session.valueType` takes the inferred
type where there is one and otherwise resolves the call that the node is.

A call of an instance member without a result is worth its receiver, so that calls can be chained. A
node with no value of its own is worth the null reference, of the root class.
-/

namespace ScriptBytecode.Session

/-! ### Receivers -/

/-- The class that a static call is made on. -/
def metaClass (s : Session) (type : SourceType) (typeSpan : Span) (name : String) (span : Span) :
    Except CompileError ClassRef := do
  match ← s.typeOf type typeSpan with
  | .ref c => .ok c
  | .primitive p => .error (.located span (.primitiveReceiver name p.name))
  | type => .error (.misuse span (.callOnType name type))

/-- The class whose members a call on a value can name. Arrays have those of the root class. -/
def receiverClass (receiver : MachineType) (name : String) (span : Span) :
    Except CompileError ClassRef :=
  match receiver with
  | .ref c => .ok c
  | .array _ | .void => .ok .root
  | .primitive p => .error (.located span (.primitiveReceiver name p.name))

/-! ### Callees -/

/-- The class and member that a call without a receiver refers to. `args` are the argument types, or
why there are none. In a static context only static members are considered; elsewhere those come
second, and if neither fits the error is the one for instance members. -/
def selfCallee (s : Session) (name : String) (args : Except CompileError (List MachineType))
    (span : Span) : Except CompileError (ClassRef × Member) := do
  let some scope := s.scopes.currentClass? | .error (.misuse span (.callOutsideClass name))
  let args ← args
  let resolve := fun isStatic ↦ s.classes.resolve scope.cls name args isStatic span
  if s.scopes.isStatic then .ok (scope.cls, ← resolve true)
  else match resolve false with
    | .ok m => .ok (scope.cls, m)
    | .error e =>
      match e, resolve true with
      | .located _ (.noApplicableMethod ..), .ok m => .ok (scope.cls, m)
      | e, _ => .error e

/-! ### Values -/

/-- The type of the result of a member, or of what stands in for it. -/
def resultType (m : Member) (standIn : MachineType) : MachineType :=
  if m.returnType.isVoid then standIn else m.returnType

mutual

/-- The type of the value that a node leaves on the stack. -/
def valueType (s : Session) : Node → Except CompileError MachineType
  | .call receiver name args type span => do
    let inferred ← s.typeOf type span
    if !inferred.isVoid then .ok inferred
    else if receiver.type.isMeta then
      let cls ← s.metaClass receiver.type receiver.span name span
      if name = "new" then .ok (.ref cls)
      else
        let m ← s.classes.resolve cls name (← s.valueTypes args) true span
        .ok (resultType m .object)
    else
      let receiverType ← s.valueType receiver
      match Width.ofType? receiverType with
      | some _ => .ok .object
      | none =>
        let cls ← receiverClass receiverType name span
        let m ← s.classes.resolve cls name (← s.valueTypes args) false span
        .ok (resultType m receiverType)
  | .selfCall name args type span => do
    let inferred ← s.typeOf type span
    if !inferred.isVoid then .ok inferred
    else
      let (cls, m) ← s.selfCallee name (s.valueTypes args) span
      .ok (resultType m (if m.flags.isStatic then .object else .ref cls))
  | node => do
    let inferred ← s.typeOf node.type node.span
    .ok (if inferred.isVoid then .object else inferred)

/-- The types of the values that the nodes leave on the stack. -/
def valueTypes (s : Session) : List Node → Except CompileError (List MachineType)
  | [] => .ok []
  | node :: nodes => do
    let type ← s.valueType node
    let types ← s.valueTypes nodes
    .ok (type :: types)

end

end ScriptBytecode.Session

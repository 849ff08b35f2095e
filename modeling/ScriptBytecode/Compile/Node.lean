import ScriptBytecode.Compile.Calls
import ScriptBytecode.Compile.Definitions

/-!
# Compiling syntax trees

`Gen.node` walks a tree and emits its code. Each node is compiled for a destination, and the code of
a node is put together from the code of its parts by the functions of the modules before this one.

Conditions of branches and loops are compiled as jumps. A comparison jumps on its outcome and a
negation turns the sense of the jump around; any other condition is compiled to a truth value which
is then tested.
-/

namespace ScriptBytecode.Gen

/-- What remains of a construct of the given type that has left its value, if it has one: in place
of no value a placeholder is pushed if one is wanted. -/
def settleVoid (type : MachineType) (keep : Bool) : Gen MachineType := do
  if keep && type.isVoid then placeholder type else pure type

/-- The type that a branch or loop is compiled at. It has none if no value is wanted. -/
def joinType (type : SourceType) (span : Span) (keep : Bool) : Gen MachineType :=
  if keep then typeOf type span else pure .void

mutual

/-- Compiles a node for a destination. Returns the type of the value that the node leaves on the
stack, `void` for none. -/
def node (n : Node) (destination : Destination) : Gen MachineType :=
  match n with
  | .script name _ span => deliver n destination fun _ ↦ throw (.misuse span (.nestedScript name))
  | .classDef name superclass interfaces members span =>
    deliver n destination fun keep ↦ do
      onSession <| SessionM.defineClass name superclass interfaces
        (members.any (·.isConstructorDef)) span (classMembers name members)
      settle .void keep
  | .methodDef name params returnType content isStatic span =>
    deliver n destination fun keep ↦ do
      onSession <| SessionM.defineMethod name params returnType isStatic span content.span
        (node content)
      settle .void keep
  | .constructorDef params content span =>
    deliver n destination fun keep ↦ do
      onSession <| SessionM.defineConstructor params span (node content)
      settle .void keep
  | .importDef full asName span =>
    deliver n destination fun keep ↦ do
      let _ ← onSession <| SessionM.importClass (simpleName full) asName full span
      settle .void keep
  | .body nodes _ _ => deliver n destination fun keep ↦ sequence nodes keep
  | .literal value type span => deliver n destination fun keep ↦ literal value type span keep
  | .typeName name span =>
    deliver n destination fun keep ↦
      if keep then throw (.misuse span (.typeAsValue name)) else pure .void
  | .selfRef _ span => deliver n destination fun keep ↦ selfRef span keep
  | .readLocal name _ span => deliver n destination fun keep ↦ readLocal name span keep
  | .assign name value type span =>
    deliver n destination fun keep ↦ assign name value type span (node value) keep
  | .call receiver name args _ span =>
    let value := deliver n destination fun keep ↦
      call receiver name args span (node receiver) (arguments args) keep
    match destination with
    | .jump sense target =>
      if receiver.type.isMeta then value
      else match Condition.ofOperator? name with
        | some test => do
          compare test receiver name args span (node receiver) (arguments args) sense target
          pure .void
        | none =>
          if name = "!" ∧ args.isEmpty then do
            if (← valueType receiver) = .boolean then node receiver (.jump (!sense) target)
            else value
          else value
    | _ => value
  | .selfCall name args _ span =>
    deliver n destination fun keep ↦ callSelf name args span (arguments args) keep
  | .branch condition thenArm elseArm type span =>
    deliver n destination fun keep ↦ do
      let type ← joinType type span keep
      let otherwise ← createLabel
      let done ← createLabel
      let _ ← node condition (.jump false otherwise)
      receive type thenArm.span (node thenArm)
      emit (.goto done)
      bind otherwise
      alternative type elseArm
      bind done
      settleVoid type keep
  | .loop condition content checkFirst negative type span =>
    deliver n destination fun keep ↦ do
      let type ← joinType type span keep
      let before ← createLabel
      let done ← createLabel
      if !type.isVoid then emit (defaultValue type)
      bind before
      if checkFirst then
        let _ ← node condition (.jump negative done)
      if let some kind := type.kind? then emit (.pop kind)
      receive type content.span (node content)
      if checkFirst then emit (.goto before)
      else
        let _ ← node condition (.jump (!negative) before)
      bind done
      settleVoid type keep
  | .noop _ => deliver n destination fun keep ↦ settle .void keep
termination_by structural n

/-- Compiles a sequence: all nodes but the last for their effects. -/
def sequence (nodes : List Node) (keep : Bool) : Gen MachineType :=
  match nodes with
  | [] => settle .void keep
  | [n] => node n (keepOrDiscard keep)
  | n :: rest => do
    let _ ← node n .discard
    sequence rest keep
termination_by structural nodes

/-- Compiles arguments from left to right, each converted to the type of its parameter. -/
def arguments (nodes : List Node) (params : List MachineType) : Gen Unit :=
  match nodes, params with
  | n :: rest, param :: params => do
    receive param n.span (node n)
    arguments rest params
  | _, _ => pure ()
termination_by structural nodes

/-- Compiles the other arm of a branch. A missing arm leaves the default value. -/
def alternative (type : MachineType) (arm : Option Node) : Gen Unit :=
  match arm with
  | some n => receive type n.span (node n)
  | none => if type.isVoid then pure () else emit (defaultValue type)
termination_by structural arm

/-- Compiles the members of a class, which are methods and constructors only. -/
def classMembers (cls : String) (members : List Node) : SessionM Unit :=
  match members with
  | [] => pure ()
  | n :: rest => do
    classMember cls n
    classMembers cls rest
termination_by structural members

/-- Compiles one member of a class. -/
def classMember (cls : String) (n : Node) : SessionM Unit :=
  match n with
  | .methodDef name params returnType content isStatic span =>
    SessionM.defineMethod name params returnType isStatic span content.span (node content)
  | .constructorDef params content span =>
    SessionM.defineConstructor params span (node content)
  | n => throw (.misuse n.span (.foreignMember cls))
termination_by structural n

end

end ScriptBytecode.Gen

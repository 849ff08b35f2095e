import ScriptBytecode.Compile.Gen

/-!
# Code for calls, conditions and locals

The code of a node is made of the code of its parts. The functions here put the parts together. They
take the nodes of the operands, to find their types, beside the code of the operands, to emit it; so
none of them recurses, and what remains of the compiler proper is the walk over the tree.

A member is resolved before any operand is emitted. Operands are emitted from left to right, the
receiver first, each followed by its conversion.

* `Gen.construct`, `Gen.callStatic` and `Gen.callInstance` are calls on a type and on a value;
* `Gen.calculate` and `Gen.compare` are arithmetic and conditions;
* `Gen.call` chooses among them by the receiver, and `Gen.callSelf` is a call without one.
-/

namespace ScriptBytecode.Gen

/-- The code of a list of arguments, given the parameter types that they convert to. -/
abbrev ArgsCode := List MachineType → Gen Unit

/-- Emits the arguments of a call. -/
def passArgs (args : List Node) (code : ArgsCode) (params : List MachineType) : Gen Unit := do
  if args.length = params.length then code params
  else throw (.internal (.argumentCount args.length params.length))

/-! ### Calls on a type -/

/-- Code of a construction: the instance is allocated, kept twice, and initialized. -/
def construct (cls : ClassRef) (args : List Node) (span : Span) (argsCode : ArgsCode)
    (keep : Bool) : Gen MachineType := do
  let m ← resolve cls constructorName (← valueTypes args) false span
  emit (.new cls)
  emit (.dup .reference)
  passArgs args argsCode m.params
  emit (.invokeSpecial m.toRef)
  settle (.ref cls) keep

/-- Code of a call of a static member. -/
def callStatic (cls : ClassRef) (name : String) (args : List Node) (span : Span)
    (argsCode : ArgsCode) (keep : Bool) : Gen MachineType := do
  let m ← resolve cls name (← valueTypes args) true span
  passArgs args argsCode m.params
  emit (.invokeStatic m.toRef)
  settle m.returnType keep

/-! ### Calls on a value -/

/-- The instruction that calls an instance member of a receiver of class `cls`. -/
def invocation (cls : ClassRef) (m : Member) : Instruction :=
  if m.flags.isInterface || m.owner.isInterface || cls.isInterface then .invokeInterface m.toRef
  else .invokeVirtual m.toRef

/-- Code of a call of an instance member. If a value is wanted and the member has none, the receiver
is kept in its place. -/
def callInstance (receiver : Node) (receiverType : MachineType) (name : String) (args : List Node)
    (span : Span) (receiverCode : Destination → Gen MachineType) (argsCode : ArgsCode)
    (keep : Bool) : Gen MachineType := do
  let cls ← query fun _ ↦ Session.receiverClass receiverType name span
  let m ← resolve cls name (← valueTypes args) false span
  receive receiverType receiver.span receiverCode
  let chains := m.returnType.isVoid && keep
  if chains then emit (.dup .reference)
  passArgs args argsCode m.params
  emit (invocation cls m)
  if chains then pure receiverType else settle m.returnType keep

/-- Code of an arithmetic operation. -/
def calculate (receiver : Node) (width : Width) (name : String) (args : List Node) (span : Span)
    (receiverCode : Destination → Gen MachineType) (argsCode : ArgsCode) (keep : Bool) :
    Gen MachineType := do
  let types ← valueTypes args
  let plan ← query fun _ ↦ Arithmetic.plan width name types span
  receive width.type receiver.span receiverCode
  if plan.widenReceiver then emit .i2l
  passArgs args argsCode types
  if plan.widenArgument then emit .i2l
  emit plan.operation
  settle plan.width.type keep

/-- Code of a call with a receiver, which may be a type, a number or any other value. -/
def call (receiver : Node) (name : String) (args : List Node) (span : Span)
    (receiverCode : Destination → Gen MachineType) (argsCode : ArgsCode) (keep : Bool) :
    Gen MachineType := do
  if receiver.type.isMeta then
    let cls ← query (·.metaClass receiver.type receiver.span name span)
    if name = "new" then construct cls args span argsCode keep
    else callStatic cls name args span argsCode keep
  else
    let receiverType ← valueType receiver
    match Width.ofType? receiverType with
    | some width => calculate receiver width name args span receiverCode argsCode keep
    | none => callInstance receiver receiverType name args span receiverCode argsCode keep

/-- Code of a call without a receiver. -/
def callSelf (name : String) (args : List Node) (span : Span) (argsCode : ArgsCode)
    (keep : Bool) : Gen MachineType := do
  let (cls, m) ← query fun s ↦ s.selfCallee name (s.valueTypes args) span
  if m.flags.isStatic then
    passArgs args argsCode m.params
    emit (.invokeStatic m.toRef)
    settle m.returnType keep
  else
    let chains := m.returnType.isVoid && keep
    emit (.load .reference 0)
    if chains then emit (.dup .reference)
    passArgs args argsCode m.params
    emit (.invokeVirtual m.toRef)
    if chains then pure (.ref cls) else settle m.returnType keep

/-! ### Conditions -/

/-- How two primitive operands are compared. -/
inductive Comparison where
  /-- As 32-bit integers. -/
  | narrow
  /-- As 64-bit integers, after widening the operands that are not. -/
  | wide (widenLeft widenRight : Bool)
deriving DecidableEq, Repr, Inhabited

/-- How operands of the given types are compared. Truth values are only ever equal or not. -/
def comparison (test : Condition) (operator : String) (left right : MachineType) :
    Except PredicateFlaw Comparison :=
  match left.primitive?, right.primitive? with
  | some .int, some .int => .ok .narrow
  | some .boolean, some .boolean =>
    if test.isEquality then .ok .narrow else .error (.booleanOrdering operator)
  | some .boolean, some _ | some _, some .boolean => .error (.mixedOperands operator left right)
  | some l, some r => .ok (.wide (l = .int) (r = .int))
  | _, _ => .error (.referenceOperands operator left right)

/-- Code of a jump that compares two operands. -/
def compare (test : Condition) (left : Node) (operator : String) (args : List Node) (span : Span)
    (leftCode : Destination → Gen MachineType) (argsCode : ArgsCode) (sense : Bool)
    (target : Label) : Gen Unit := do
  let [right] := args | throw (.predicate span (.operandCount operator))
  let leftType ← valueType left
  let rightType ← valueType right
  let effective := if sense then test else test.negate
  match comparison test operator leftType rightType with
  | .error flaw => throw (.predicate span flaw)
  | .ok .narrow =>
    receive leftType left.span leftCode
    argsCode [rightType]
    emit (.jumpIfCompare effective target)
  | .ok (.wide widenLeft widenRight) =>
    receive leftType left.span leftCode
    if widenLeft then emit .i2l
    argsCode [rightType]
    if widenRight then emit .i2l
    emit .lcmp
    emit (.jumpIf effective target)

/-! ### Constants, the receiver and locals -/

/-- Code of a constant. -/
def literal (value : Literal) (type : SourceType) (span : Span) (keep : Bool) :
    Gen MachineType := do
  if !keep then pure .void
  else match value with
    | .int n =>
      emit (.pushInt n)
      pure .int
    | .long n =>
      emit (.pushLong n)
      pure .long
    | .bool b =>
      emit (.pushInt (if b then 1 else 0))
      pure .boolean
    | .string text =>
      emit (.pushString text)
      pure .string
    | .null =>
      let inferred ← typeOf type span
      emit .pushNull
      pure (if inferred.kind? = some .reference then inferred else .object)

/-- Code of the current instance. -/
def selfRef (span : Span) (keep : Bool) : Gen MachineType := do
  let scopes := (← get).session.scopes
  if scopes.isStatic then throw (.misuse span .selfInStatic)
  match scopes.currentClass? with
  | none => throw (.misuse span .selfOutsideClass)
  | some scope =>
    if keep then
      emit (.load .reference 0)
      pure (.ref scope.cls)
    else pure .void

/-- Code of the value of a local variable. -/
def readLocal (name : String) (span : Span) (keep : Bool) : Gen MachineType := do
  match (← get).session.scopes.currentMethod? with
  | none => throw (.misuse span .localOutsideMethod)
  | some scope =>
    match scope.locals.get? name with
    | none => throw (.located span (.unknownVariable name))
    | some v =>
      if keep then
        emit (.load v.kind v.slot)
        pure v.type
      else pure .void

/-- Code of a store to a local variable. The variable takes the type inferred for the store, or that
of the value if there is none; if the store has a value, that is the value stored. -/
def assign (name : String) (value : Node) (type : SourceType) (span : Span)
    (valueCode : Destination → Gen MachineType) (keep : Bool) : Gen MachineType := do
  let declared ← typeOf type span
  let type ← if declared.isVoid then valueType value else pure declared
  receive type value.span valueCode
  let v ← onSession <|
    SessionM.declareLocal (.misuse span .localOutsideMethod) (·.declareStore name type span)
  if keep then emit (.dup v.kind)
  emit (.store v.kind v.slot)
  pure (if keep then type else .void)

end ScriptBytecode.Gen

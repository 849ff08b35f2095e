import ScriptBytecode.Compile.Gen

/-!
# Code for methods, constructors and classes

A definition is compiled within the class around it. Its method is opened, receiver and parameters
take their slots, and the body is run with an assembler of its own; so a definition never disturbs
the method that it may stand in. The code of the body is an argument of the functions here.

A constructor calls the constructor of the superclass that takes no arguments, then runs its body. A
class that defines no constructor gets one that does the first and stops.

* `SessionM.defineMethod`, `SessionM.defineConstructor` and `SessionM.defineDefaultConstructor` make
  one method each;
* `SessionM.defineClass` opens a class for its members, and `SessionM.defineMain` makes the method
  that runs a script.
-/

namespace ScriptBytecode

open SessionM

/-! ### Parameters -/

/-- The class around a definition, and whether methods directly within it are static. -/
def Session.definingClass (s : Session) (span : Span) : Except CompileError (ClassRef × Bool) :=
  match s.scopes.currentClass? with
  | some scope => .ok (scope.cls, scope.isStaticBody)
  | none => .error (.misuse span .definitionOutsideClass)

/-- The machine types of parameters. -/
def Session.paramTypes (s : Session) : List Param → Except CompileError (List MachineType)
  | [] => .ok []
  | p :: ps => do
    let type ← s.typeOf p.type p.span
    let types ← s.paramTypes ps
    .ok (type :: types)

namespace SessionM

/-- Gives the receiver its slot. -/
def declareThis (cls : ClassRef) : SessionM Unit := do
  let _ ← declareLocal (.internal .noMethodScope) fun l ↦
    (l.declareThis cls).mapError .internal

/-- Gives a parameter its slots. -/
def declareParam (name : String) (type : MachineType) (span : Span) : SessionM Unit := do
  let _ ← declareLocal (.internal .noMethodScope) (·.declareParam name type span)

/-- Gives parameters their slots, in order. -/
def declareParams : List Param → List MachineType → SessionM Unit
  | p :: ps, type :: types => do
    declareParam p.name type p.span
    declareParams ps types
  | _, _ => pure ()

end SessionM

/-! ### Around a body -/

namespace Gen

/-- Calls the constructor of the superclass that takes no arguments. -/
def callSuper (span : Span) : Gen Unit := do
  match (← get).session.scopes.currentClass? with
  | none => throw (.internal .constructorOutsideClass)
  | some scope =>
    let m ← resolve scope.superclass constructorName [] false span
    emit (.load .reference 0)
    emit (.invokeSpecial m.toRef)

/-- What follows the body of a method with the given result. -/
def epilogue (returnType : MachineType) (isStatic : Bool) : Epilogue → List Instruction :=
  fun style ↦
    match returnType.kind?, style with
    | none, _ => [.returnVoid]
    | some .reference, .legacy =>
      if isStatic then [.returnValue .reference]
      else [.pop .reference, .load .reference 0, .returnValue .reference]
    | some kind, _ => [.returnValue kind]

end Gen

/-! ### Definitions -/

namespace SessionM

/-- Compiles a method of the class around it. `bodySpan` is where the body stands. -/
def defineMethod (name : String) (params : List Param) (returnType : SourceType)
    (isStatic : Bool) (span bodySpan : Span) (body : Destination → Gen MachineType) :
    SessionM Unit := do
  let (cls, isStaticBody) ← query (·.definingClass span)
  let isStatic := isStatic || isStaticBody
  let types ← query (·.paramTypes params)
  let machine ← query (·.typeOf returnType span)
  inMethod { name, params := types, returnType := machine, flags := { isStatic } } do
    if !isStatic then declareThis cls
    declareParams params types
    Gen.assemble do
      Gen.receive machine bodySpan body
      Gen.emitAll (Gen.epilogue machine isStatic (← get).session.options.epilogue)

/-- Compiles a constructor of the class around it, which must not be that of a script. -/
def defineConstructor (params : List Param) (span : Span)
    (body : Destination → Gen MachineType) : SessionM Unit := do
  let (cls, isStaticBody) ← query (·.definingClass span)
  if isStaticBody then throw (.misuse span .constructorInScript)
  let types ← query (·.paramTypes params)
  inMethod { name := constructorName, params := types, flags := { isConstructor := true } } do
    declareThis cls
    declareParams params types
    Gen.assemble do
      Gen.callSuper span
      let _ ← body .discard
      Gen.emit .returnVoid

/-- Compiles the constructor of a class that defines none. -/
def defineDefaultConstructor (span : Span) : SessionM Unit := do
  let (cls, _) ← query (·.definingClass span)
  inMethod { name := constructorName, flags := { isConstructor := true } } do
    declareThis cls
    Gen.assemble do
      Gen.callSuper span
      Gen.emit .returnVoid

/-- The classes that a list of names stands for as supertypes. -/
def supertypesOf (span : Span) : List String → SessionM (List ClassRef)
  | [] => pure []
  | name :: names => do
    let c ← query (·.supertypeOf name span)
    let cs ← supertypesOf span names
    pure (c :: cs)

/-- Compiles a class, given the action that compiles its members. -/
def defineClass (name : String) (superclass : Option String) (interfaces : List String)
    (hasConstructor : Bool) (span : Span) (members : SessionM Unit) : SessionM Unit := do
  let cls := ((← get).classes.classRef? name).getD { name }
  let superclass ←
    match superclass with
    | some superclass => query (·.supertypeOf superclass span)
    | none => pure .root
  let interfaces ← supertypesOf span interfaces
  inClass { cls, superclass, interfaces := interfaces.map (·.name) } do
    if !hasConstructor then defineDefaultConstructor span
    members

end SessionM

end ScriptBytecode

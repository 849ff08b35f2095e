import ScriptBytecode.Compile.Session
import ScriptBytecode.Compile.Definitions
import ScriptBytecode.Source.Declarations

/-!
# Declaring before compiling

Before any code of a script is emitted, all that the script declares is entered into the tables of
the session, so that code can use what is defined further down. `SessionM.declareScript` does it in
an order that lets definitions name one another freely: first what type names stand for, then the
classes with their supertypes, and last the members, whose types may be any of the classes.

Among the type names, the imports of the options come first, then the classes of the script, then
the imports of the script, each taking the place of what came before under its name.
-/

namespace ScriptBytecode

/-- The name of the method that runs a script. -/
def mainName : String := "main"

/-- The type of the argument of that method, an array of strings. -/
def mainArgs : MachineType := .array .string

/-- How much a script has declared. -/
structure DeclarationCount where
  /-- Classes, that of the script included. -/
  classes : Nat
  /-- Methods and constructors, those that every class has included. -/
  members : Nat
deriving DecidableEq, Repr, Inhabited

namespace Declaration

/-- The name of the class that is declared, if it is one. -/
def className? : Declaration → Option String
  | classDecl name .. => some name
  | _ => none

/-- The name of the class whose constructor is declared, if it is one. -/
def constructorOwner? : Declaration → Option String
  | constructorDecl owner .. => some owner
  | _ => none

end Declaration

namespace SessionM

/-! ### Single entries -/

/-- Enters a class of the script into the type names. -/
def nameClass (name : String) : SessionM Unit :=
  modify fun s ↦ { s with types := s.types.insertClass name (.ofClass name) }

/-- Adds a class to the known classes. -/
def addClass (entry : ClassEntry) (span : Span) : SessionM Unit := do
  let s ← get
  let classes ← ofExcept ((s.classes.register entry).mapError (CompileError.ofRegistration span))
  set { s with classes }

/-- Adds a member to a known class. -/
def addMember (m : Member) (span : Span) : SessionM Unit := do
  let s ← get
  let classes ← ofExcept ((s.classes.addMember m).mapError (CompileError.ofRegistration span))
  set { s with classes }

/-- Imports the class that an import names. -/
def declareImport : Declaration → SessionM Unit
  | .importDecl full asName span => do
    let _ ← importClass (simpleName full) asName full span
  | _ => pure ()

/-- Adds a declared class with its supertypes to the known classes. -/
def declareClass : Declaration → SessionM Unit
  | .classDecl name superclass interfaces span => do
    let superclass ←
      match superclass with
      | some superclass => query (·.supertypeOf superclass span)
      | none => pure .root
    let interfaces ← supertypesOf span interfaces
    addClass
      { cls := { name }, superclass := some superclass.name
        interfaces := interfaces.map (·.name) } span
  | _ => pure ()

/-- Adds a declared method to its class. -/
def declareMethod : Declaration → SessionM Unit
  | .methodDecl owner name params returnType isStatic span => do
    let params ← query (·.paramTypes params)
    let returnType ← query (·.typeOf returnType span)
    addMember { owner := { name := owner }, name, params, returnType, flags := { isStatic } } span
  | _ => pure ()

/-- Adds a declared constructor to its class. -/
def declareConstructor : Declaration → SessionM Unit
  | .constructorDecl owner params span => do
    let params ← query (·.paramTypes params)
    addMember (.constructor { name := owner } params) span
  | _ => pure ()

/-- Adds the constructor that a class has if it declares none. `owners` are the classes that declare
one. -/
def declareDefaultConstructor (owners : List String) : Declaration → SessionM Unit
  | .classDecl name _ _ span =>
    if owners.contains name then pure () else addMember (.constructor { name } []) span
  | _ => pure ()

/-! ### A whole script -/

/-- Enters all that a script declares. -/
def declareScript (script : Script) : SessionM DeclarationCount := do
  (← get).options.imports.forM fun (short, full) ↦ do
    let _ ← importClass short none full .unknown
  let declarations := script.declarations
  let classNames := declarations.filterMap (·.className?)
  let owners := declarations.filterMap (·.constructorOwner?)
  nameClass script.name
  classNames.forM nameClass
  declarations.forM declareImport
  addClass (.ofClass script.name) script.span
  declarations.forM declareClass
  addMember
    { owner := { name := script.name }, name := mainName, params := [mainArgs]
      flags := { isStatic := true } } script.span
  declarations.forM declareMethod
  declarations.forM declareConstructor
  addMember (.constructor { name := script.name } []) script.span
  declarations.forM (declareDefaultConstructor owners)
  let methods := declarations.countP fun d ↦ d matches .methodDecl ..
  let implicit := classNames.countP (!owners.contains ·)
  pure
    { classes := classNames.length + 1
      members := methods + owners.length + implicit + 2 }

end SessionM

end ScriptBytecode

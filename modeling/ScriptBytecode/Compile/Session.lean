import ScriptBytecode.Classes.Standard
import ScriptBytecode.Scope.Frames
import ScriptBytecode.Types.Table

/-!
# The state of a compilation

A `Session` is all that compiling a unit reads and changes: the known classes, what type names stand
for, the classes and methods that are open, the options, and the classes finished so far.

Actions on a session are of type `SessionM`. An action that fails still has a session afterwards,
with whatever it did before it failed. This matters to `inClass` and `inMethod`, which run an action
inside of a new scope and close that scope whether or not the action succeeds. What they produce
becomes part of the unit only if it does.
-/

namespace ScriptBytecode

/-! ### Options -/

/-- What a method with a result does after its body. -/
inductive Epilogue where
  /-- Return the value of the body. -/
  | corrected
  /-- Return the receiver, in instance methods whose result is a reference. -/
  | legacy
deriving DecidableEq, Repr, Inhabited

/-- The options of a compilation. -/
structure Options where
  /-- Whether progress is to be reported. It does not change what is compiled. -/
  verbose : Bool := false
  /-- Short names and the classes they are to stand for, before anything is declared. -/
  imports : List (String × String) := []
  /-- What methods with a result do after their body. -/
  epilogue : Epilogue := .corrected
deriving DecidableEq, Repr, Inhabited

/-! ### Sessions -/

/-- The state of a compilation. -/
structure Session where
  /-- The known classes. -/
  classes : ClassTable
  /-- What type names stand for. -/
  types : TypeTable := .builtin
  /-- The open classes and methods. -/
  scopes : Scopes := {}
  /-- The options of the compilation. -/
  options : Options := {}
  /-- The names of all classes entered so far, in order. -/
  entered : List String := []
  /-- The classes finished so far, the latest first. -/
  finished : List ClassCode := []
deriving DecidableEq, Inhabited

/-- Actions that read and change a session and may fail. -/
abbrev SessionM := EStateM CompileError Session

namespace Session

/-- The machine type that a source type stands for. -/
def typeOf (s : Session) (type : SourceType) (span : Span) : Except CompileError MachineType :=
  s.types.resolve s.classes type span

/-- The class that a name stands for as a supertype. -/
def supertypeOf (s : Session) (name : String) (span : Span) : Except CompileError ClassRef := do
  match ← s.typeOf (.named name) span with
  | .ref c => .ok c
  | type => .error (.misuse span (.notSupertype type))

/-- The session with a class open. -/
def openClass (s : Session) (scope : ClassScope) : Session :=
  { s with entered := s.entered ++ [scope.cls.name], scopes := s.scopes.enterClass scope }

/-- The session with a method open, and the handle to leave it with. -/
def openMethod (s : Session) (scope : MethodScope) : MethodHandle × Session :=
  let (handle, scopes) := s.scopes.enterMethod scope
  (handle, { s with scopes })

/-- The classes of the given names, each taken out of `finished` as it is found. -/
def collect (finished : List ClassCode) : List String → Except Fault (List ClassCode)
  | [] => .ok []
  | name :: names =>
    match finished.find? (·.name == name) with
    | none => .error (.classNeverFinished name)
    | some c =>
      match collect (finished.filter (·.name != name)) names with
      | .ok cs => .ok (c :: cs)
      | .error fault => .error fault

/-- The unit that a session has compiled. Nothing may be open any more, and each class entered must
have been finished, under a name of its own. -/
def finish (s : Session) : Except Fault UnitCode :=
  if s.scopes.depth = 0 then (collect s.finished s.entered).map UnitCode.mk
  else .error (.scopesStillOpen s.scopes.depth)

end Session

/-! ### Actions -/

namespace SessionM

variable {α : Type}

/-- Runs an action and reports how it ended; the session is as the action left it. -/
def attempt (act : SessionM α) : SessionM (Except CompileError α) := fun s ↦
  match act s with
  | .ok a s => .ok (.ok a) s
  | .error e s => .ok (.error e) s

/-- Goes on with a value, or fails. -/
def ofExcept : Except CompileError α → SessionM α
  | .ok a => pure a
  | .error e => throw e

/-- Goes on with a value, or fails with a fault. -/
def ofFault : Except Fault α → SessionM α
  | .ok a => pure a
  | .error fault => throw (.internal fault)

/-- Reads from the session, or fails. -/
def query (read : Session → Except CompileError α) : SessionM α := do
  ofExcept (read (← get))

/-- Makes `short`, and `asName` if it is given, stand for the class `full`. -/
def importClass (short : String) (asName : Option String) (full : String) (span : Span) :
    SessionM MachineType := do
  let s ← get
  let (machine, types) ←
    ofExcept (s.types.importClass s.classes (short :: asName.toList) full span)
  set { s with types }
  pure machine

/-- Runs an action with a class open. If the action succeeds the class is finished. -/
def inClass (scope : ClassScope) (act : SessionM α) : SessionM α := do
  modify (·.openClass scope)
  let outcome ← attempt act
  let (scope, scopes) ← ofFault (← get).scopes.leaveClass
  modify fun s ↦ { s with scopes }
  let a ← ofExcept outcome
  let done : ClassCode :=
    { name := scope.cls.name, superclass := scope.superclass.name
      interfaces := scope.interfaces, methods := scope.methods }
  modify fun s ↦ { s with finished := done :: s.finished }
  pure a

/-- Runs an action that makes the code of a method, with the method open. If the action succeeds the
method is added to the class around it. -/
def inMethod (scope : MethodScope) (act : SessionM Code) : SessionM Unit := do
  let (handle, s) := (← get).openMethod scope
  set s
  let outcome ← attempt act
  let (scope, scopes) ← ofFault ((← get).scopes.leaveMethod handle)
  modify fun s ↦ { s with scopes }
  let code ← ofExcept outcome
  match scopes.currentClass? with
  | none => throw (.internal (.methodOutsideClass scope.name))
  | some _ =>
    let done : MethodCode :=
      { name := scope.name, flags := scope.flags, params := scope.params
        returnType := scope.returnType, instructions := code.instructions
        maxLocals := scope.locals.size, maxStack := code.maxStack }
    modify fun s ↦ { s with scopes := s.scopes.addMethod done }

/-- Runs a declaration on the locals of the current method. -/
def declareLocal (outside : CompileError)
    (declare : Locals → Except CompileError (LocalVar × Locals)) : SessionM LocalVar := do
  match (← get).scopes.currentMethod? with
  | none => throw outside
  | some scope =>
    let (v, locals) ← ofExcept (declare scope.locals)
    modify fun s ↦ { s with scopes := s.scopes.setLocals locals }
    pure v

end SessionM

end ScriptBytecode

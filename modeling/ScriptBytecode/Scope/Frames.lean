import ScriptBytecode.Bytecode.Unit
import ScriptBytecode.Scope.Locals

/-!
# Open classes and methods

While a program is compiled, classes and methods open within one another: a class within a method, a
method within that class, and so on. `Scopes` is the stack of what is open, innermost first. Only
the innermost frame can be left.

Entering a method yields a handle, which remembers how many frames were open then; the method can
only be left with its own handle, when exactly as many frames are open again. An operation that
fails yields no stack, so the stack stays what it was.
-/

namespace ScriptBytecode

/-- A class that is open. -/
structure ClassScope where
  /-- The class. -/
  cls : ClassRef
  /-- Its superclass. -/
  superclass : ClassRef := .root
  /-- The names of its interfaces. -/
  interfaces : List String := []
  /-- Whether methods directly within it are static, as in the class of a script. -/
  isStaticBody : Bool := false
  /-- The methods finished so far. -/
  methods : List MethodCode := []
deriving DecidableEq, Repr, Inhabited

/-- A method that is open. -/
structure MethodScope where
  /-- The method's name. -/
  name : String
  /-- Parameter types in order. -/
  params : List MachineType := []
  /-- The type of the result. -/
  returnType : MachineType := .void
  /-- The method's traits. -/
  flags : MemberFlags := {}
  /-- The method's local variables. -/
  locals : Locals := {}
deriving DecidableEq, Repr, Inhabited

/-- Something that is open. -/
inductive Frame where
  | ofClass (scope : ClassScope)
  | ofMethod (scope : MethodScope)
deriving DecidableEq, Repr, Inhabited

/-- The right to leave a method. -/
structure MethodHandle where
  /-- How many frames were open once the method was entered. -/
  depth : Nat
deriving DecidableEq, Repr, Inhabited

/-- What is open, innermost first. -/
structure Scopes where
  /-- The open frames. -/
  frames : List Frame := []
deriving DecidableEq, Repr, Inhabited

namespace Scopes

/-- How many frames are open. -/
def depth (s : Scopes) : Nat := s.frames.length

/-! ### Entering and leaving -/

/-- Opens a class. -/
def enterClass (s : Scopes) (scope : ClassScope) : Scopes :=
  { frames := .ofClass scope :: s.frames }

/-- Closes the innermost frame, which must be a class. -/
def leaveClass (s : Scopes) : Except Fault (ClassScope × Scopes) :=
  match s.frames with
  | .ofClass scope :: frames => .ok (scope, { frames })
  | .ofMethod _ :: _ => .error .methodStillOpen
  | [] => .error .noClassToLeave

/-- Opens a method. -/
def enterMethod (s : Scopes) (scope : MethodScope) : MethodHandle × Scopes :=
  ({ depth := s.depth + 1 }, { frames := .ofMethod scope :: s.frames })

/-- Closes the innermost frame, which must be the method entered with the handle. -/
def leaveMethod (s : Scopes) (handle : MethodHandle) : Except Fault (MethodScope × Scopes) :=
  if s.depth ≠ handle.depth then .error (.leftOutOfOrder s.depth handle.depth)
  else match s.frames with
    | .ofMethod scope :: frames => .ok (scope, { frames })
    | .ofClass _ :: _ => .error .classStillOpen
    | [] => .error .noMethodToLeave

/-- A method that was entered can be left with its handle. -/
@[simp] theorem leaveMethod_enterMethod (s : Scopes) (scope : MethodScope) :
    (s.enterMethod scope).2.leaveMethod (s.enterMethod scope).1 = .ok (scope, s) := by
  simp [enterMethod, leaveMethod, depth]

/-! ### What is open -/

/-- The class that a frame opens. -/
def classOf? : Frame → Option ClassScope
  | .ofClass scope => some scope
  | .ofMethod _ => none

/-- The innermost open class. -/
def currentClass? (s : Scopes) : Option ClassScope := s.frames.findSome? classOf?

/-- The innermost frame, if it is a method. -/
def currentMethod? (s : Scopes) : Option MethodScope :=
  match s.frames with
  | .ofMethod scope :: _ => some scope
  | _ => none

/-- Whether code at this place has no current instance. Outside of all classes there is none. -/
def isStatic (s : Scopes) : Bool :=
  match s.frames with
  | .ofMethod scope :: _ => scope.flags.isStatic
  | .ofClass scope :: _ => scope.isStaticBody
  | [] => true

/-! ### Changing what is open -/

/-- Replaces the locals of the current method. -/
def setLocals (s : Scopes) (locals : Locals) : Scopes :=
  match s.frames with
  | .ofMethod scope :: frames => { frames := .ofMethod { scope with locals } :: frames }
  | _ => s

/-- Adds a method to the innermost class of a list of frames. -/
def addMethodTo (m : MethodCode) : List Frame → List Frame
  | [] => []
  | .ofClass scope :: frames => .ofClass { scope with methods := scope.methods ++ [m] } :: frames
  | frame :: frames => frame :: addMethodTo m frames

/-- Adds a finished method to the innermost open class. -/
def addMethod (s : Scopes) (m : MethodCode) : Scopes := { frames := addMethodTo m s.frames }

end Scopes

end ScriptBytecode

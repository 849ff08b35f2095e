import ScriptBytecode.Bytecode.Instruction
import ScriptBytecode.Classes.Table
import ScriptBytecode.Span

/-!
# Why a compilation fails

A `CompileError` is either a `Problem` of the program being compiled, located at the construct that
caused it, or a `Fault`: a broken invariant of the compiler itself, which has no place in the
source.

Each cause is a constructor, and the wording stands in the `message` functions. The three families
of causes that have many members, `Misuse`, `PredicateFlaw` and `Fault`, also have a constructor
`described`, by which a client reports a cause of its own in words.
-/

namespace ScriptBytecode

/-! ### Faults of the compiler -/

/-- A broken invariant of the compiler. -/
inductive Fault where
  /-- An instruction found fewer values than it pops. -/
  | stackUnderflow (instruction : Instruction)
  /-- An instruction found a value of another kind than it names. -/
  | wrongKind (instruction : Instruction) (actual : StackKind)
  /-- A label was used that the method never created. -/
  | foreignLabel (label : Label)
  /-- A jump reached a label with another stack than before. -/
  | jumpMismatch (label : Label) (actual expected : Nat)
  /-- A label was bound a second time. -/
  | boundTwice (label : Label)
  /-- A label was bound with another stack than the jumps to it have. -/
  | bindMismatch (label : Label) (actual expected : Nat)
  /-- A label was created and not bound. -/
  | neverBound (label : Label)
  /-- The receiver was declared after another local. -/
  | lateReceiver
  /-- A class was left while one of its methods was open. -/
  | methodStillOpen
  /-- A class was left although none was entered. -/
  | noClassToLeave
  /-- A method was left from another depth than it was entered at. -/
  | leftOutOfOrder (depth entered : Nat)
  /-- A method was left while a class within it was open. -/
  | classStillOpen
  /-- A method was left although none was entered. -/
  | noMethodToLeave
  /-- A method was finished with no class to put it in. -/
  | methodOutsideClass (name : String)
  /-- A constructor was begun with no class around it. -/
  | constructorOutsideClass
  /-- Locals were declared with no method around them. -/
  | noMethodScope
  /-- A call passed another number of arguments than its member takes. -/
  | argumentCount (args params : Nat)
  /-- The unit ended inside of scopes. -/
  | scopesStillOpen (count : Nat)
  /-- A class was entered and not finished. -/
  | classNeverFinished (name : String)
  /-- A fault given in words. -/
  | described (text : String)
deriving DecidableEq, Repr, Inhabited

/-- The fault in words. -/
def Fault.message : Fault → String
  | stackUnderflow i => s!"stack underflow at '{i.render}'"
  | wrongKind i k => s!"'{i.render}' on a {k.describe} value"
  | foreignLabel l => s!"label {l.render} does not belong to this method"
  | jumpMismatch l n e => s!"jump to {l.render} with stack depth {n} (expected {e})"
  | boundTwice l => s!"label {l.render} bound twice"
  | bindMismatch l n e => s!"stack depth {n} at {l.render} does not match jumps ({e})"
  | neverBound l => s!"label {l.render} was never bound"
  | lateReceiver => "`this` must be declared before any other local"
  | methodStillOpen => "left a class while a method was still open"
  | noClassToLeave => "left a class that was never entered"
  | leftOutOfOrder n e => s!"method scopes left out of order (depth {n} for a handle of depth {e})"
  | classStillOpen => "left a method while a class was open"
  | noMethodToLeave => "left a method that was never entered"
  | methodOutsideClass name => s!"method '{name}' emitted outside of any class"
  | constructorOutsideClass => "constructor outside of any class"
  | noMethodScope => "no method scope for locals"
  | argumentCount n e => s!"{n} argument(s) for {e} parameter(s)"
  | scopesStillOpen n => s!"{n} scope(s) still open at end of unit"
  | classNeverFinished name => s!"class '{name}' was entered but never finished"
  | described text => text

/-! ### Problems of the program -/

/-- A construct in a place where it has no meaning. -/
inductive Misuse where
  /-- What is compiled as a unit is not a script. -/
  | rootNotScript
  /-- A script inside of another construct. -/
  | nestedScript (name : String)
  /-- A type where a value is needed. -/
  | typeAsValue (name : String)
  /-- The current instance where there is none. -/
  | selfInStatic
  /-- The current instance with no class around. -/
  | selfOutsideClass
  /-- A local variable with no method around. -/
  | localOutsideMethod
  /-- A variable for values of type `void`. -/
  | valuelessVariable (name : String)
  /-- A static call on a type that has no members. -/
  | callOnType (name : String) (type : MachineType)
  /-- A call on the current class with no class around. -/
  | callOutsideClass (name : String)
  /-- A value of a type that does not convert to the one needed. -/
  | typeMismatch (actual target : MachineType)
  /-- A supertype that is no class. -/
  | notSupertype (type : MachineType)
  /-- A class member that is neither method nor constructor. -/
  | foreignMember (cls : String)
  /-- A method with no class around. -/
  | definitionOutsideClass
  /-- A constructor in a script body. -/
  | constructorInScript
  /-- A misuse given in words. -/
  | described (text : String)
deriving DecidableEq, Repr, Inhabited

/-- The misuse in words. -/
def Misuse.message : Misuse → String
  | rootNotScript => "compilation root must be a script"
  | nestedScript name => s!"script '{name}' cannot be nested"
  | typeAsValue name => s!"type '{name}' used as a value"
  | selfInStatic => "`self` used in a static context"
  | selfOutsideClass => "`self` used outside of a class"
  | localOutsideMethod => "local variables are only available inside a method"
  | valuelessVariable name => s!"variable '{name}' cannot hold a value of no type"
  | callOnType name type => s!"cannot call '{name}' on type {type.render}"
  | callOutsideClass name => s!"call to '{name}' outside of a class"
  | typeMismatch actual target =>
    s!"cannot use a value of type {actual.render} where {target.render} is expected"
  | notSupertype type => s!"{type.render} cannot be used as a supertype"
  | foreignMember cls => s!"only methods and constructors may appear in class '{cls}'"
  | definitionOutsideClass => "definition outside of any class"
  | constructorInScript => "constructors may only appear in a class"
  | described text => text

/-- Why a condition cannot be compiled to a jump. -/
inductive PredicateFlaw where
  /-- The condition is no truth value. -/
  | notBoolean (type : MachineType)
  /-- A comparison with other than one operand. -/
  | operandCount (operator : String)
  /-- Truth values compared by order. -/
  | booleanOrdering (operator : String)
  /-- A truth value compared to a number. -/
  | mixedOperands (operator : String) (left right : MachineType)
  /-- A comparison of references. -/
  | referenceOperands (operator : String) (left right : MachineType)
  /-- A flaw given in words. -/
  | described (text : String)
deriving DecidableEq, Repr, Inhabited

/-- The flaw in words. -/
def PredicateFlaw.message : PredicateFlaw → String
  | notBoolean type => s!"condition of type {type.render} is not boolean"
  | operandCount op => s!"comparison '{op}' takes exactly one operand"
  | booleanOrdering op => s!"ordering comparison '{op}' on boolean"
  | mixedOperands op left right => s!"comparison '{op}' between {left.render} and {right.render}"
  | referenceOperands op left right =>
    s!"comparison '{op}' on non-primitive {left.render} and {right.render}"
  | described text => text

/-- What is wrong with a program. -/
inductive Problem where
  /-- A type name that stands for nothing. -/
  | unknownType (name : String)
  /-- A call that no member accepts. -/
  | noApplicableMethod (owner name args : String)
  /-- A call that several members accept, none of them the most specific. -/
  | ambiguousCall (owner name args candidates : String)
  /-- An arithmetic operation that does not exist. -/
  | unsupportedOperator (operator receiver : String)
  /-- A condition that cannot be compiled to a jump. -/
  | unsupportedPredicate (flaw : PredicateFlaw)
  /-- A member called on a primitive value. -/
  | primitiveReceiver (name receiver : String)
  /-- A variable that nothing has been stored in. -/
  | unknownVariable (name : String)
  /-- A construct in a place where it has no meaning. -/
  | invalidContext (misuse : Misuse)
  /-- A class or member defined twice. -/
  | duplicateDefinition (name : String)
  /-- Any other refusal by the class table. -/
  | registration (reason : RegistrationError)
deriving DecidableEq, Repr, Inhabited

/-- The problem in words. -/
def Problem.message : Problem → String
  | unknownType name => s!"unknown type '{name}'"
  | noApplicableMethod owner name args => s!"no applicable method {owner}.{name}({args})"
  | ambiguousCall owner name args candidates =>
    s!"ambiguous call {owner}.{name}({args}): could be {candidates}"
  | unsupportedOperator op receiver => s!"operator '{op}' is not supported on {receiver}"
  | unsupportedPredicate flaw => s!"unsupported predicate: {flaw.message}"
  | primitiveReceiver name receiver => s!"cannot invoke '{name}' on primitive {receiver}"
  | unknownVariable name => s!"unknown variable '{name}'"
  | invalidContext misuse => misuse.message
  | duplicateDefinition name => s!"duplicate definition '{name}'"
  | registration reason => reason.message

/-- The problem that a refusal by the class table makes: what is there already was defined twice. -/
def Problem.ofRegistration : RegistrationError → Problem
  | .duplicateClass name => .duplicateDefinition name
  | .duplicateMember signature => .duplicateDefinition signature
  | reason => .registration reason

/-! ### Errors -/

/-- Why a compilation fails. -/
inductive CompileError where
  /-- Something is wrong with the program, at a place in its source. -/
  | located (span : Span) (problem : Problem)
  /-- Something is wrong with the compiler. -/
  | internal (fault : Fault)
deriving DecidableEq, Repr, Inhabited

namespace CompileError

/-- A misused construct. -/
def misuse (span : Span) (m : Misuse) : CompileError := .located span (.invalidContext m)

/-- A flawed condition. -/
def predicate (span : Span) (flaw : PredicateFlaw) : CompileError :=
  .located span (.unsupportedPredicate flaw)

/-- A refusal by the class table, at the definition that was refused. -/
def ofRegistration (span : Span) (reason : RegistrationError) : CompileError :=
  .located span (.ofRegistration reason)

/-- Where in the source the error arose. -/
def span? : CompileError → Option Span
  | located span _ => some span
  | internal _ => none

/-- The error in words. -/
def message : CompileError → String
  | located span problem => s!"at {span.render}: {problem.message}"
  | internal fault => s!"internal compiler error: {fault.message}"

/-- Whether the error is a fault of the compiler. -/
def isInternal : CompileError → Bool
  | located .. => false
  | internal _ => true

/-- Only internal errors have no place in the source. -/
@[simp] theorem span?_eq_none_iff {e : CompileError} : e.span? = none ↔ e.isInternal = true := by
  cases e <;> simp [span?, isInternal]

end CompileError

end ScriptBytecode

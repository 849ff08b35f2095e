import ScriptBytecode.Bytecode.Instruction
import ScriptBytecode.Classes.Table

/-!
# Implicit conversions

A value converts to another type without being asked to in four cases: to its own type, where
classes are compared by name; from `int` to `long`; from a class to one of its supertypes; and from
any reference to the root class. Nothing converts to or from `void`.

Conversions decide which arguments a parameter accepts and what is emitted between a value and the
place that it is used in. Only the widening of integers takes an instruction.
-/

namespace ScriptBytecode

/-- A way for a value to convert to another type. -/
inductive Conversion where
  /-- The type is the same. -/
  | identity
  /-- A 32-bit integer becomes a 64-bit integer. -/
  | widen
  /-- A reference is seen as a reference to a supertype. -/
  | reference
deriving DecidableEq, Repr, Inhabited

/-- The instructions that carry the conversion out. -/
def Conversion.code : Conversion → List Instruction
  | identity | reference => []
  | widen => [.i2l]

namespace ClassTable

/-- How values of the first type convert to the second, if they do. -/
def conversion? (t : ClassTable) : MachineType → MachineType → Option Conversion
  | .primitive p, .primitive q =>
    if p = q then some .identity
    else if p = .int ∧ q = .long then some .widen
    else none
  | .ref c, .ref d =>
    if c.name = d.name then some .identity
    else if d.name = objectName ∨ t.isSubtype c.name d.name then some .reference
    else none
  | .array a, .array b => if a = b then some .identity else none
  | .array _, .ref d => if d.name = objectName then some .reference else none
  | _, _ => none

/-- Whether values of the first type can stand where the second is expected. -/
def isAssignable (t : ClassTable) (source target : MachineType) : Bool :=
  (t.conversion? source target).isSome

/-- Whether two lists of types have the same length and each type of the first can stand where its
partner in the second is expected. -/
def areAssignable (t : ClassTable) : List MachineType → List MachineType → Bool
  | [], [] => true
  | a :: as, b :: bs => t.isAssignable a b && t.areAssignable as bs
  | _, _ => false

@[simp] theorem conversion?_void_left (t : ClassTable) (b : MachineType) :
    t.conversion? .void b = none := by
  cases b <;> rfl

@[simp] theorem conversion?_void_right (t : ClassTable) (a : MachineType) :
    t.conversion? a .void = none := by
  cases a <;> rfl

/-- Arguments can be assigned to parameters only if there are as many. -/
theorem length_eq_of_areAssignable {t : ClassTable} {as bs : List MachineType}
    (h : t.areAssignable as bs = true) : as.length = bs.length := by
  induction as generalizing bs with
  | nil => cases bs <;> simp_all [areAssignable]
  | cons a as ih =>
    cases bs with
    | nil => simp [areAssignable] at h
    | cons b bs =>
      simp only [areAssignable, Bool.and_eq_true] at h
      simp [ih h.2]

end ClassTable

end ScriptBytecode

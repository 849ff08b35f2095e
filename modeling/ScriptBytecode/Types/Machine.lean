/-!
# Types of the target machine

`MachineType` is the type of a value as the target machine sees it. Instructions do not look at it
directly: what they need to know is its `StackKind`, one of three shapes a value can have on the
operand stack and in a local slot. `void` is the type of no value and has no kind.

Classes are known by name. A `ClassRef` also remembers whether the name is an interface, since calls
through an interface dispatch differently; the flag takes part in equality, so that `C` the class
and `C` the interface are different types.
-/

namespace ScriptBytecode

/-! ### Kinds of values -/

/-- The shape of a value on the operand stack. -/
inductive StackKind where
  /-- A 32-bit integer; booleans are held this way too. -/
  | int
  /-- A 64-bit integer. -/
  | long
  /-- An object or array reference. -/
  | reference
deriving DecidableEq, Repr, Inhabited

namespace StackKind

/-- Slots a value of the kind takes, on the stack and among the locals. -/
def width : StackKind → Nat
  | int => 1
  | long => 2
  | reference => 1

/-- The letter that mnemonics use for the kind. -/
def letter : StackKind → String
  | int => "i"
  | long => "l"
  | reference => "a"

/-- How diagnostics name the kind. -/
def describe : StackKind → String
  | int => "Int"
  | long => "Long"
  | reference => "Reference"

theorem width_pos (k : StackKind) : 0 < k.width := by cases k <;> decide

end StackKind

/-- Slots that a stack of values takes. -/
def stackSlots : List StackKind → Nat
  | [] => 0
  | kind :: stack => kind.width + stackSlots stack

@[simp] theorem stackSlots_nil : stackSlots [] = 0 := rfl

@[simp] theorem stackSlots_cons (k : StackKind) (stack : List StackKind) :
    stackSlots (k :: stack) = k.width + stackSlots stack := rfl

/-- Values on a stack take the slots that its parts take. -/
theorem stackSlots_append (stack stack' : List StackKind) :
    stackSlots (stack ++ stack') = stackSlots stack + stackSlots stack' := by
  induction stack with
  | nil => simp
  | cons kind stack ih => simp [ih, Nat.add_assoc]

/-- Of two counts of slots the larger one is the larger number. -/
theorem toNat_max (m n : UInt16) : (max m n).toNat = max m.toNat n.toNat := by
  show (if m ≤ n then n else m).toNat = _
  split
  · next h => exact (Nat.max_eq_right (UInt16.le_iff_toNat_le.1 h)).symm
  · next h =>
    have hlt := Nat.lt_of_not_le (mt UInt16.le_iff_toNat_le.2 h)
    exact (Nat.max_eq_left (Nat.le_of_lt hlt)).symm

/-- The primitive types. -/
inductive Primitive where
  | boolean
  | int
  | long
deriving DecidableEq, Repr, Inhabited

namespace Primitive

/-- Whether arithmetic is defined on the type. -/
def isNumeric : Primitive → Bool
  | boolean => false
  | int | long => true

/-- The kind of the type's values. -/
def kind : Primitive → StackKind
  | boolean | int => .int
  | long => .long

/-- The type's name. -/
def name : Primitive → String
  | boolean => "boolean"
  | int => "int"
  | long => "long"

end Primitive

/-! ### Classes -/

/-- A class or interface, by its fully qualified name. -/
structure ClassRef where
  /-- Fully qualified name. -/
  name : String
  /-- Whether calls go through interface dispatch. -/
  isInterface : Bool := false
deriving DecidableEq, Repr, Inhabited

/-- The name of the root of the class hierarchy. -/
def objectName : String := "java.lang.Object"

/-- The name of the class of string constants. -/
def stringName : String := "java.lang.String"

/-- The root of the class hierarchy. -/
def ClassRef.root : ClassRef := { name := objectName }

/-! ### Types -/

/-- The type of a value on the target machine. -/
inductive MachineType where
  /-- No value at all. -/
  | void
  /-- A primitive value. -/
  | primitive (type : Primitive)
  /-- A reference to an instance of a class or interface. -/
  | ref (cls : ClassRef)
  /-- A reference to an array. -/
  | array (element : MachineType)
deriving DecidableEq, Repr, Inhabited

namespace MachineType

/-- The type of truth values. -/
@[match_pattern] abbrev boolean : MachineType := .primitive .boolean

/-- The type of 32-bit integers. -/
@[match_pattern] abbrev int : MachineType := .primitive .int

/-- The type of 64-bit integers. -/
@[match_pattern] abbrev long : MachineType := .primitive .long

/-- The type of instances of the class `name`. -/
def ofClass (name : String) : MachineType := .ref { name }

/-- The type every reference converts to. -/
def object : MachineType := .ref .root

/-- The type of string constants. -/
def string : MachineType := ofClass stringName

/-- Whether this is the type of no value. -/
def isVoid : MachineType → Bool
  | void => true
  | _ => false

/-- Whether this is a reference to an interface. -/
def isInterface : MachineType → Bool
  | ref c => c.isInterface
  | _ => false

/-- The primitive type, if it is one. -/
def primitive? : MachineType → Option Primitive
  | primitive p => some p
  | _ => none

/-- The class or interface referred to, if it is one. -/
def class? : MachineType → Option ClassRef
  | ref c => some c
  | _ => none

/-- The kind of the type's values; none for `void`. -/
def kind? : MachineType → Option StackKind
  | void => none
  | primitive p => some p.kind
  | ref _ | array _ => some .reference

/-- The type's name, as messages write it. -/
def render : MachineType → String
  | void => "void"
  | primitive p => p.name
  | ref c => c.name
  | array e => e.render ++ "[]"

instance : ToString MachineType := ⟨render⟩

@[simp] theorem isVoid_iff {t : MachineType} : t.isVoid = true ↔ t = void := by
  cases t <;> simp [isVoid]

/-- Only the type of no value has no kind. -/
@[simp] theorem kind?_eq_none_iff {t : MachineType} : t.kind? = none ↔ t = void := by
  cases t <;> simp [kind?]

/-- A list of types, as messages write argument lists. -/
def renderList (types : List MachineType) : String :=
  ", ".intercalate (types.map render)

end MachineType

end ScriptBytecode

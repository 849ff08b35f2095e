import ScriptBytecode.Error
import ScriptBytecode.Types.Source

/-!
# What type names stand for

A `TypeTable` gives machine types to source types. It starts with the built-in names and grows by
imports and by the classes of the program; an entry made later takes the place of an earlier one.

A source type without an entry of its own is looked up by its parts: an array type through its
element type, the type itself through its values, and a plain name as the name of a known class.
-/

namespace ScriptBytecode

/-- The machine types of source types. -/
structure TypeTable where
  /-- The entries, the latest first. -/
  entries : List (SourceType × MachineType) := []
deriving DecidableEq, Inhabited

namespace TypeTable

/-! ### Entries -/

/-- The machine type entered for a source type. -/
def lookup? (t : TypeTable) (type : SourceType) : Option MachineType := t.entries.lookup type

/-- Whether a source type has an entry of its own. -/
def contains (t : TypeTable) (type : SourceType) : Bool := (t.lookup? type).isSome

/-- Enters a machine type for a source type. -/
def insert (t : TypeTable) (type : SourceType) (machine : MachineType) : TypeTable :=
  { entries := (type, machine) :: t.entries }

/-- Enters a machine type for a name, for its values as well as for the type itself. -/
def insertClass (t : TypeTable) (name : String) (machine : MachineType) : TypeTable :=
  (t.insert (.metaOf name) machine).insert (.named name) machine

/-- The table of the built-in names. -/
def builtin : TypeTable :=
  let primitives : TypeTable :=
    { entries :=
        [(.none, .void), (.named "void", .void), (.named "boolean", .boolean),
          (.named "int", .int), (.named "long", .long)] }
  ((primitives.insertClass "string" .string).insertClass "String" .string).insertClass
    "Object" .object

@[simp] theorem lookup?_insert_self (t : TypeTable) (type : SourceType) (machine : MachineType) :
    (t.insert type machine).lookup? type = some machine := by
  simp [insert, lookup?]

theorem lookup?_insert_of_ne (t : TypeTable) {type other : SourceType} (machine : MachineType)
    (h : other ≠ type) : (t.insert type machine).lookup? other = t.lookup? other := by
  simp [insert, lookup?, List.lookup_cons, beq_false_of_ne h]

/-! ### Resolution -/

/-- The machine type that a plain name stands for. -/
def resolveName? (t : TypeTable) (classes : ClassTable) (name : String) : Option MachineType :=
  match t.lookup? (.named name) with
  | some machine => some machine
  | none => (classes.classRef? name).map .ref

/-- The machine type that a source type stands for. -/
def resolve? (t : TypeTable) (classes : ClassTable) (type : SourceType) : Option MachineType :=
  match t.lookup? type with
  | some machine => some machine
  | none =>
    if type.isArray then (t.resolveName? classes type.name).map .array
    else t.resolveName? classes type.name

/-- The machine type that a source type stands for, or an error at the place that names it. -/
def resolve (t : TypeTable) (classes : ClassTable) (type : SourceType) (span : Span) :
    Except CompileError MachineType :=
  match t.resolve? classes type with
  | some machine => .ok machine
  | none => .error (.located span (.unknownType type.name))

/-! ### Imports -/

/-- Makes short names stand for a known class. All of them are entered, or none if there is no such
class. -/
def importClass (t : TypeTable) (classes : ClassTable) (short : List String) (full : String)
    (span : Span) : Except CompileError (MachineType × TypeTable) :=
  match classes.classRef? full with
  | none => .error (.located span (.unknownType full))
  | some c => .ok (.ref c, short.foldl (fun t name ↦ t.insertClass name (.ref c)) t)

end TypeTable

end ScriptBytecode

/-!
# Types as source text names them

A `SourceType` is what type checking attaches to a construct: a base name, and whether the array of
that name or the type itself is meant. It is only an identity. Which machine type it stands for is
decided by a type table.

A construct without a value has the type `none`, under a name that no identifier can spell.
-/

namespace ScriptBytecode

/-- A type by name. -/
structure SourceType where
  /-- Base name. -/
  name : String
  /-- Whether arrays of the named type are meant. -/
  isArray : Bool := false
  /-- Whether the type itself is meant, as in `Type.new`, and not one of its values. -/
  isMeta : Bool := false
deriving DecidableEq, Repr, Inhabited

namespace SourceType

/-- The base name of the type of constructs without a value. -/
def noneName : String := "<none>"

/-- The type of constructs without a value. -/
def none : SourceType := { name := noneName }

/-- The type of values of the named type. -/
def named (name : String) : SourceType := { name }

/-- The named type itself. -/
def metaOf (name : String) : SourceType := { name, isMeta := true }

/-- Whether this is the type of constructs without a value. -/
def isNone (t : SourceType) : Bool := t == none

/-- The type itself, in place of its values. -/
def asMeta (t : SourceType) : SourceType := { t with isMeta := true }

/-- The values of the type, in place of the type itself. -/
def asInstance (t : SourceType) : SourceType := { t with isMeta := false }

/-- The element type of an array type. -/
def element? (t : SourceType) : Option SourceType :=
  if t.isArray then some (named t.name) else Option.none

/-- The type as messages write it. -/
def render (t : SourceType) : String :=
  if t.isNone then "<no type>"
  else (if t.isMeta then "meta " else "") ++ t.name ++ (if t.isArray then "[]" else "")

instance : ToString SourceType := ⟨render⟩

end SourceType

end ScriptBytecode

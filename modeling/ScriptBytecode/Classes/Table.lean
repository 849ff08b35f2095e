import ScriptBytecode.Classes.Hierarchy
import ScriptBytecode.Classes.Member

/-!
# The table of known classes

A `ClassTable` holds every class and interface that code can name: the classes of the host and, once
they are declared, those of the program being compiled. It keeps the class entries, the hierarchy
between their names, and the fingerprints of all members.

A table grows by `register`, which adds a class, and `addMember`, which adds a member to a class
that is there. Both refuse what would break the table, and a refusal yields no table at all, so a
table that was refused an addition is the table from before.

`visibleMembers` is how a call finds its candidates: constructors on the class itself, other members
on the class and all its supertypes, where a declaration hides those further away with the same
parameters.
-/

namespace ScriptBytecode

/-! ### Refusals -/

/-- Why an addition to a class table is refused. -/
inductive RegistrationError where
  /-- A class of this name is there already. -/
  | duplicateClass (name : String)
  /-- A member with this signature is there already. -/
  | duplicateMember (signature : String)
  /-- The member's owner is not in the table. -/
  | unknownOwner (name : String)
  /-- The class would be a supertype of itself. -/
  | circularInheritance (name : String)
deriving DecidableEq, Repr, Inhabited

/-- The refusal in words. -/
def RegistrationError.message : RegistrationError → String
  | duplicateClass name => s!"duplicate class '{name}'"
  | duplicateMember signature => s!"duplicate member '{signature}'"
  | unknownOwner name => s!"unknown owner class '{name}'"
  | circularInheritance name => s!"circular inheritance for '{name}'"

/-! ### Class entries -/

/-- A class or interface with its declared supertypes and members. -/
structure ClassEntry where
  /-- Name and dispatch of the class. -/
  cls : ClassRef
  /-- The direct superclass; none for the root class and for interfaces. -/
  superclass : Option String := none
  /-- Interfaces implemented directly, or extended by an interface. -/
  interfaces : List String := []
  /-- Declared methods and constructors. -/
  members : List Member := []
deriving DecidableEq, Inhabited

namespace ClassEntry

/-- A class directly below the root class, without members. -/
def ofClass (name : String) : ClassEntry := { cls := { name }, superclass := some objectName }

/-- An interface without members. -/
def ofInterface (name : String) : ClassEntry := { cls := { name, isInterface := true } }

/-- The name of the class. -/
def name (e : ClassEntry) : String := e.cls.name

/-- The direct supertypes: the superclass, then the interfaces. -/
def supertypes (e : ClassEntry) : List String := e.superclass.toList ++ e.interfaces

/-- The entry with one more member. -/
def addMember (e : ClassEntry) (m : Member) : ClassEntry := { e with members := e.members ++ [m] }

end ClassEntry

/-! ### The table -/

/-- Every class that code can name. -/
structure ClassTable where
  /-- The classes, in the order registered. -/
  classes : List ClassEntry := []
  /-- The hierarchy between the names of classes and of their supertypes. -/
  hierarchy : Hierarchy := {}
  /-- The fingerprints of all members. -/
  signatures : List Fingerprint := []
deriving DecidableEq, Inhabited

namespace ClassTable

/-- The table without classes. -/
def empty : ClassTable := {}

/-- The entry of a class. -/
def get? (t : ClassTable) (name : String) : Option ClassEntry := t.classes.find? (·.name == name)

/-- Whether a class is in the table. -/
def contains (t : ClassTable) (name : String) : Bool := (t.get? name).isSome

/-- The reference to a class of the table. -/
def classRef? (t : ClassTable) (name : String) : Option ClassRef := (t.get? name).map (·.cls)

/-- Whether making `supertype` a direct supertype of `name` closes a cycle. -/
def closesCycle (t : ClassTable) (name supertype : String) : Bool :=
  supertype == name || t.hierarchy.reaches supertype name

/-- The first of the members whose signature is among `signatures` or repeats an earlier one. -/
def firstDuplicate? (signatures : List Fingerprint) : List Member → Option Member
  | [] => none
  | m :: ms =>
    if signatures.contains m.fingerprint then some m
    else firstDuplicate? (m.fingerprint :: signatures) ms

/-- Adds a class together with the members it carries. -/
def register (t : ClassTable) (e : ClassEntry) : Except RegistrationError ClassTable :=
  if t.contains e.name then .error (.duplicateClass e.name)
  else if e.supertypes.any (t.closesCycle e.name) then .error (.circularInheritance e.name)
  else match firstDuplicate? t.signatures e.members with
    | some m => .error (.duplicateMember m.render)
    | none => .ok
      { classes := t.classes ++ [e]
        hierarchy := t.hierarchy.addClass e.name e.supertypes
        signatures := t.signatures ++ e.members.map Member.fingerprint }

/-- Adds a member to the class that owns it. -/
def addMember (t : ClassTable) (m : Member) : Except RegistrationError ClassTable :=
  if !t.contains m.owner.name then .error (.unknownOwner m.owner.name)
  else if t.signatures.contains m.fingerprint then .error (.duplicateMember m.render)
  else .ok
    { t with
      classes := t.classes.map fun e ↦ if e.name == m.owner.name then e.addMember m else e
      signatures := t.signatures ++ [m.fingerprint] }

/-! ### Subtypes and visible members -/

/-- Whether `sub` is `sup` or has it among its supertypes, direct or not. -/
def isSubtype (t : ClassTable) (sub sup : String) : Bool :=
  sub == sup || t.hierarchy.reaches sub sup

/-- A class and all its supertypes, nearest first. The root class is last, also for interfaces and
for names that the hierarchy does not know. -/
def linearize (t : ClassTable) (name : String) : List String :=
  (t.hierarchy.ancestors name).filter (· != objectName) ++ [objectName]

/-- The members that `owner` itself declares under a name, constructors left out. -/
def declared (t : ClassTable) (owner name : String) (isStatic : Bool) : List Member :=
  match t.get? owner with
  | none => []
  | some e => e.members.filter fun m ↦
      m.name == name && !m.flags.isConstructor && m.flags.isStatic == isStatic

/-- Keeps, of the members with the same parameters, the first. -/
def hideOverridden (members : List Member) : List Member :=
  members.foldl (fun found m ↦
    if found.any (·.params == m.params) then found else found ++ [m]) []

/-- The members called `name` that are visible on a class. -/
def visibleMembers (t : ClassTable) (cls name : String) (isStatic : Bool) : List Member :=
  if name == constructorName then
    match t.get? cls with
    | none => []
    | some e => e.members.filter (·.flags.isConstructor)
  else
    hideOverridden ((t.linearize cls).flatMap fun owner ↦ t.declared owner name isStatic)

end ClassTable

end ScriptBytecode

import ScriptBytecode.Classes.Table

/-!
# The standard host classes

The classes that every program can count on: the root class, strings and their builder, integer
arithmetic and boxing, a few interfaces with one list class, and the console stream. They are
written down as data (`standardClasses`) and registered one after another (`ClassTable.standard`).
-/

namespace ScriptBytecode

namespace ClassEntry

/-- Declares one more interface of the class. -/
def implements (e : ClassEntry) (interface : String) : ClassEntry :=
  { e with interfaces := e.interfaces ++ [interface] }

/-- Declares a member. What an interface declares is marked as such. -/
def declare (e : ClassEntry) (name : String) (params : List MachineType)
    (returnType : MachineType) (flags : MemberFlags) : ClassEntry :=
  e.addMember
    { owner := e.cls, name, params, returnType
      flags := { flags with isInterface := flags.isInterface || e.cls.isInterface } }

/-- Declares a constructor. -/
def constructor (e : ClassEntry) (params : List MachineType) : ClassEntry :=
  e.declare constructorName params .void { isConstructor := true }

/-- Declares an instance method. -/
def method (e : ClassEntry) (name : String) (params : List MachineType)
    (returnType : MachineType) : ClassEntry :=
  e.declare name params returnType {}

/-- Declares a static method. -/
def function (e : ClassEntry) (name : String) (params : List MachineType)
    (returnType : MachineType) : ClassEntry :=
  e.declare name params returnType { isStatic := true }

end ClassEntry

open MachineType (boolean int long void object string)

/-- The root of the hierarchy. -/
def objectClass : ClassEntry :=
  { cls := .root : ClassEntry }
  |>.constructor []
  |>.method "toString" [] string
  |>.method "hashCode" [] int
  |>.method "equals" [object] boolean

/-- Strings. -/
def stringClass : ClassEntry :=
  ClassEntry.ofClass stringName
  |>.implements "java.lang.Comparable"
  |>.constructor []
  |>.constructor [string]
  |>.method "length" [] int
  |>.method "isEmpty" [] boolean
  |>.method "concat" [string] string
  |>.method "compareTo" [object] int
  |>.function "valueOf" [int] string
  |>.function "valueOf" [long] string
  |>.function "valueOf" [boolean] string
  |>.function "valueOf" [object] string

/-- Strings under construction. -/
def stringBuilderClass : ClassEntry :=
  let builder := MachineType.ofClass "java.lang.StringBuilder"
  ClassEntry.ofClass "java.lang.StringBuilder"
  |>.constructor []
  |>.constructor [string]
  |>.method "append" [string] builder
  |>.method "append" [int] builder
  |>.method "append" [long] builder
  |>.method "append" [boolean] builder
  |>.method "append" [object] builder
  |>.method "length" [] int
  |>.method "setLength" [int] void

/-- Functions on integers. -/
def mathClass : ClassEntry :=
  ClassEntry.ofClass "java.lang.Math"
  |>.function "abs" [int] int
  |>.function "abs" [long] long
  |>.function "max" [int, int] int
  |>.function "max" [long, long] long
  |>.function "min" [int, int] int
  |>.function "min" [long, long] long

/-- Integers as objects. -/
def integerClass : ClassEntry :=
  ClassEntry.ofClass "java.lang.Integer"
  |>.implements "java.lang.Comparable"
  |>.constructor [int]
  |>.method "intValue" [] int
  |>.method "longValue" [] long
  |>.method "compareTo" [object] int
  |>.function "valueOf" [int] (.ofClass "java.lang.Integer")
  |>.function "parseInt" [string] int
  |>.function "toString" [int] string

/-- Things that can be run. -/
def runnableInterface : ClassEntry :=
  ClassEntry.ofInterface "java.lang.Runnable"
  |>.method "run" [] void

/-- Things that can be compared. -/
def comparableInterface : ClassEntry :=
  ClassEntry.ofInterface "java.lang.Comparable"
  |>.method "compareTo" [object] int

/-- Declares the operations of lists. -/
def ClassEntry.listMethods (e : ClassEntry) : ClassEntry :=
  e
  |>.method "add" [object] boolean
  |>.method "get" [int] object
  |>.method "size" [] int
  |>.method "isEmpty" [] boolean
  |>.method "clear" [] void

/-- Lists. -/
def listInterface : ClassEntry := (ClassEntry.ofInterface "java.util.List").listMethods

/-- Lists held in an array. -/
def arrayListClass : ClassEntry :=
  ClassEntry.ofClass "java.util.ArrayList"
  |>.implements "java.util.List"
  |>.constructor []
  |>.constructor [int]
  |>.listMethods

/-- The console. -/
def printStreamClass : ClassEntry :=
  ClassEntry.ofClass "java.io.PrintStream"
  |>.method "println" [] void
  |>.method "println" [string] void
  |>.method "println" [int] void
  |>.method "println" [long] void
  |>.method "println" [boolean] void
  |>.method "println" [object] void
  |>.method "print" [string] void

/-- The standard host classes, in the order registered. -/
def standardClasses : List ClassEntry :=
  [objectClass, stringClass, stringBuilderClass, mathClass, integerClass, runnableInterface,
    comparableInterface, listInterface, arrayListClass, printStreamClass]

namespace ClassTable

/-- Registers a class, or leaves the table as it is if the class is refused. -/
def registerIfNew (t : ClassTable) (e : ClassEntry) : ClassTable :=
  match t.register e with
  | .ok extended => extended
  | .error _ => t

/-- The table of the standard host classes. -/
def standard : ClassTable := standardClasses.foldl registerIfNew empty

end ClassTable

end ScriptBytecode

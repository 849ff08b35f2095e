import ScriptBytecode.Bytecode.Assembler

/-!
# Compiled units

What a compilation produces: the classes of a unit, each with its methods and their code. Classes
are listed in the order that their definitions were entered, the class of the script first; methods
in the order that they were finished.
-/

namespace ScriptBytecode

/-- A compiled method or constructor. -/
structure MethodCode where
  /-- The method's name; `constructorName` for constructors. -/
  name : String
  /-- The method's traits. -/
  flags : MemberFlags
  /-- Parameter types in order. -/
  params : List MachineType
  /-- The type of the result. -/
  returnType : MachineType
  /-- The method's instructions. -/
  instructions : List Instruction
  /-- Slots of the locals, receiver and parameters included. -/
  maxLocals : UInt16
  /-- Slots of the operand stack. -/
  maxStack : UInt16
deriving DecidableEq, Repr, Inhabited

/-- A compiled class. -/
structure ClassCode where
  /-- The name of the class. -/
  name : String
  /-- The name of its superclass. -/
  superclass : String
  /-- The names of its interfaces. -/
  interfaces : List String
  /-- Its methods and constructors. -/
  methods : List MethodCode
deriving DecidableEq, Repr, Inhabited

/-- A compiled unit. -/
structure UnitCode where
  /-- The classes of the unit. -/
  classes : List ClassCode
deriving DecidableEq, Repr, Inhabited

namespace ClassCode

/-- The first method of a name. -/
def method? (c : ClassCode) (name : String) : Option MethodCode :=
  c.methods.find? (·.name == name)

/-- All methods of a name. -/
def methodsNamed (c : ClassCode) (name : String) : List MethodCode :=
  c.methods.filter (·.name == name)

end ClassCode

/-- The first class of a name. -/
def UnitCode.class? (u : UnitCode) (name : String) : Option ClassCode :=
  u.classes.find? (·.name == name)

end ScriptBytecode

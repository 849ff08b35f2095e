import ScriptBytecode.Span
import ScriptBytecode.Types.Source

/-!
# Typed syntax trees

A `Node` is a piece of a program after type checking. Every node that can have a value carries the
type that the checker inferred for it, and every node carries its span.

Operators are calls named after the operator, so that `a + b` calls `+` on `a`. A call on the
current instance or class has no receiver and is a `selfCall`. Definitions may stand wherever a node
may; they belong to the class around them.
-/

namespace ScriptBytecode

/-- A parameter of a method or constructor. -/
structure Param where
  /-- The parameter's name. -/
  name : String
  /-- The parameter's type. -/
  type : SourceType
  /-- Where the parameter stands. -/
  span : Span := {}
deriving DecidableEq, Repr, Inhabited

/-- A constant. -/
inductive Literal where
  | int (value : Int32)
  | long (value : Int64)
  | bool (value : Bool)
  | string (value : String)
  | null
deriving DecidableEq, Repr, Inhabited

/-- A node of a typed syntax tree. -/
inductive Node where
  /-- A unit of compilation: a named class whose `main` runs the body. -/
  | script (name : String) (body : Node) (span : Span)
  /-- A sequence; its value is that of the last node. -/
  | body (nodes : List Node) (type : SourceType) (span : Span)
  /-- A class with its superclass, if named, its interfaces and its members. -/
  | classDef (name : String) (superclass : Option String) (interfaces : List String)
      (members : List Node) (span : Span)
  /-- A method. -/
  | methodDef (name : String) (params : List Param) (returnType : SourceType) (body : Node)
      (isStatic : Bool) (span : Span)
  /-- A constructor. -/
  | constructorDef (params : List Param) (body : Node) (span : Span)
  /-- An import of a known class, under its simple name and perhaps one more. -/
  | importDef (full : String) (asName : Option String) (span : Span)
  /-- A constant. -/
  | literal (value : Literal) (type : SourceType) (span : Span)
  /-- A type, as the receiver of static calls. -/
  | typeName (name : String) (span : Span)
  /-- The current instance. -/
  | selfRef (type : SourceType) (span : Span)
  /-- The value of a local variable. -/
  | readLocal (name : String) (type : SourceType) (span : Span)
  /-- A store to a local variable; its value is the value stored. -/
  | assign (name : String) (value : Node) (type : SourceType) (span : Span)
  /-- A call on a receiver. -/
  | call (receiver : Node) (name : String) (args : List Node) (type : SourceType) (span : Span)
  /-- A call on the current instance or class. -/
  | selfCall (name : String) (args : List Node) (type : SourceType) (span : Span)
  /-- A conditional with one or two arms. -/
  | branch (condition thenArm : Node) (elseArm : Option Node) (type : SourceType) (span : Span)
  /-- A loop, which tests its condition before or after the body and goes on while it is true or,
  if negative, while it is false. -/
  | loop (condition body : Node) (checkFirst negative : Bool) (type : SourceType) (span : Span)
  /-- Nothing. -/
  | noop (span : Span)
deriving Inhabited

namespace Node

/-- The type inferred for the node; `none` for definitions and other nodes without a value. -/
def type : Node → SourceType
  | body _ type _ | literal _ type _ | selfRef type _ | readLocal _ type _ => type
  | assign _ _ type _ | call _ _ _ type _ | selfCall _ _ type _ => type
  | branch _ _ _ type _ | loop _ _ _ _ type _ => type
  | typeName name _ => .metaOf name
  | script .. | classDef .. | methodDef .. | constructorDef .. | importDef .. | noop _ => .none

/-- Where the node stands. -/
def span : Node → Span
  | script _ _ span | body _ _ span | classDef _ _ _ _ span | methodDef _ _ _ _ _ span => span
  | constructorDef _ _ span | importDef _ _ span | literal _ _ span | typeName _ span => span
  | selfRef _ span | readLocal _ _ span | assign _ _ _ span | call _ _ _ _ span => span
  | selfCall _ _ _ span | branch _ _ _ _ span | loop _ _ _ _ _ span | noop span => span

/-- Whether the node defines something in place of computing a value. -/
def isDefinition : Node → Bool
  | classDef .. | methodDef .. | constructorDef .. | importDef .. => true
  | _ => false

/-- Whether the node is a constructor. -/
def isConstructorDef : Node → Bool
  | constructorDef .. => true
  | _ => false

end Node

/-- The last segment of a dotted name. -/
def simpleName (full : String) : String :=
  String.ofList (full.toList.reverse.takeWhile (· != '.')).reverse

/-! ### Building nodes whose type follows from their parts -/

namespace Node

/-- An `int` constant. -/
def int (value : Int32) (span : Span := {}) : Node := literal (.int value) (.named "int") span

/-- A `long` constant. -/
def long (value : Int64) (span : Span := {}) : Node := literal (.long value) (.named "long") span

/-- A `boolean` constant. -/
def bool (value : Bool) (span : Span := {}) : Node := literal (.bool value) (.named "boolean") span

/-- A string constant. -/
def string (value : String) (span : Span := {}) : Node :=
  literal (.string value) (.named "string") span

/-- A sequence of the type of its last node. -/
def sequence (nodes : List Node) (span : Span := {}) : Node :=
  body nodes ((nodes.getLast?.map type).getD .none) span

/-- A store of the type of its value. -/
def store (name : String) (value : Node) (span : Span := {}) : Node :=
  assign name value value.type span

/-- A binary operation. -/
def binary (left : Node) (operator : String) (right : Node) (type : SourceType)
    (span : Span := {}) : Node :=
  call left operator [right] type span

/-- A construction of an instance. -/
def construct (cls : String) (args : List Node) (span : Span := {}) : Node :=
  call (typeName cls span) "new" args (.named cls) span

/-- A loop without a value that tests its condition first and runs while it is true. -/
def whileLoop (condition body : Node) (span : Span := {}) : Node :=
  loop condition body true false .none span

/-- A loop without a value that tests its condition first and runs until it is true. -/
def untilLoop (condition body : Node) (span : Span := {}) : Node :=
  loop condition body true true .none span

end Node

/-- A unit of compilation. -/
structure Script where
  /-- The name of the class that the script becomes. -/
  name : String
  /-- The statements and definitions of the script. -/
  body : Node
  /-- Where the script stands. -/
  span : Span := {}
deriving Inhabited

/-- The script that a node is, if it is one. -/
def Node.script? : Node → Option Script
  | .script name content span => some ⟨name, content, span⟩
  | _ => none

end ScriptBytecode

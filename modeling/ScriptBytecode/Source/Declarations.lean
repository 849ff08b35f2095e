import ScriptBytecode.Source.Node

/-!
# What a script declares

Definitions and imports may stand anywhere in a script: in sequences, branches, conditions,
arguments and within one another. `Node.declarations` lists all of them in the order that they are
written, each with the class that it belongs to.

A method belongs to the class around it, and is static if it says so or if that class is the class
of the script. A constructor in the script itself is no declaration; compiling it is an error. A
script within a script declares nothing.
-/

namespace ScriptBytecode

/-- The class around a node. -/
structure Owner where
  /-- The name of the class. -/
  name : String
  /-- Whether methods directly within it are static. -/
  isStaticBody : Bool
deriving DecidableEq, Repr, Inhabited

/-- Something that a script declares. -/
inductive Declaration where
  /-- An import. -/
  | importDecl (full : String) (asName : Option String) (span : Span)
  /-- A class. -/
  | classDecl (name : String) (superclass : Option String) (interfaces : List String) (span : Span)
  /-- A method of the class `owner`. -/
  | methodDecl (owner name : String) (params : List Param) (returnType : SourceType)
      (isStatic : Bool) (span : Span)
  /-- A constructor of the class `owner`. -/
  | constructorDecl (owner : String) (params : List Param) (span : Span)
deriving DecidableEq, Repr, Inhabited

namespace Node

mutual

/-- What a node declares within the class around it. -/
def declarations (owner : Owner) (n : Node) : List Declaration :=
  match n with
  | .script .. | .literal .. | .typeName .. | .selfRef .. | .readLocal .. | .noop _ => []
  | .body nodes _ _ => declarationsOf owner nodes
  | .classDef name superclass interfaces members span =>
    .classDecl name superclass interfaces span ::
      declarationsOf { name, isStaticBody := false } members
  | .methodDef name params returnType content isStatic span =>
    .methodDecl owner.name name params returnType (isStatic || owner.isStaticBody) span ::
      declarations owner content
  | .constructorDef params content span =>
    (if owner.isStaticBody then [] else [.constructorDecl owner.name params span]) ++
      declarations owner content
  | .importDef full asName span => [.importDecl full asName span]
  | .assign _ value _ _ => declarations owner value
  | .call receiver _ args _ _ => declarations owner receiver ++ declarationsOf owner args
  | .selfCall _ args _ _ => declarationsOf owner args
  | .branch condition thenArm elseArm _ _ =>
    declarations owner condition ++ declarations owner thenArm ++
      alternativeDeclarations owner elseArm
  | .loop condition content _ _ _ _ => declarations owner condition ++ declarations owner content
termination_by structural n

/-- What the nodes of a list declare, one after another. -/
def declarationsOf (owner : Owner) (nodes : List Node) : List Declaration :=
  match nodes with
  | [] => []
  | n :: rest => declarations owner n ++ declarationsOf owner rest
termination_by structural nodes

/-- What the other arm of a branch declares, if there is one. -/
def alternativeDeclarations (owner : Owner) (arm : Option Node) : List Declaration :=
  match arm with
  | some n => declarations owner n
  | none => []
termination_by structural arm

end

end Node

/-- What a script declares within its class. -/
def Script.declarations (s : Script) : List Declaration :=
  s.body.declarations { name := s.name, isStaticBody := true }

end ScriptBytecode

import ScriptBytecode.Compile.Declare

/-!
# What compiling a script defines

`Script.definitions` lists all that compiling a script defines or imports, in the order in which it
is met. A definition is met before its own contents, and its types are looked up right then, in a
type table that the imports before it have changed: `itemsOf?` goes through a list of definitions
and gives the classes and members that they amount to.

**Two readings of one list.** A definition says what is written, with type names; an item is what it
amounts to, with types. Which types these are depends on the place, so items are computed from the
list of definitions together with a type table (`itemsOf?`), and only imports change the table on
the way.

`itemsOf?` fails if a type name stands for nothing in its place. For a script that compiles it never
does, which is part of what is proved about units.

A class is an item without its members, and each of these is an item of its own. So what a unit has
can be compared with what definitions amount to as lists of items, up to order.
-/

namespace ScriptBytecode

/-! ### Definitions in the order of compilation -/

/-- Something that compiling a script defines or imports. -/
inductive Definition where
  /-- What the script declares. -/
  | written (d : Declaration)
  /-- The constructor of a class that has none among its members. -/
  | implicitConstructor (owner : String)
  /-- The method that runs a script. -/
  | main (owner : String)
deriving DecidableEq, Repr, Inhabited

namespace Definition

/-- The name of the class that is defined, if it is one. -/
def className? : Definition → Option String
  | written d => d.className?
  | _ => none

/-- What the script declares in this place, if it is not implied. -/
def declaration? : Definition → Option Declaration
  | written d => some d
  | _ => none

end Definition

namespace Node

mutual

/-- What compiling a node within the class around it defines. In the class of a script there are no
constructors, a receiver that is a type is not compiled, and what is tested after the body of a loop
is compiled after it. -/
def definitions (owner : Owner) (n : Node) : List Definition :=
  match n with
  | .script .. | .literal .. | .typeName .. | .selfRef .. | .readLocal .. | .noop _ => []
  | .body nodes _ _ => definitionsOf owner nodes
  | .classDef name superclass interfaces members span =>
    .written (.classDecl name superclass interfaces span) ::
      ((if members.any (·.isConstructorDef) then [] else [.implicitConstructor name]) ++
        definitionsOf { name, isStaticBody := false } members)
  | .methodDef name params returnType content isStatic span =>
    .written
      (.methodDecl owner.name name params returnType (isStatic || owner.isStaticBody) span) ::
      definitions owner content
  | .constructorDef params content span =>
    (if owner.isStaticBody then [] else [.written (.constructorDecl owner.name params span)]) ++
      definitions owner content
  | .importDef full asName span => [.written (.importDecl full asName span)]
  | .assign _ value _ _ => definitions owner value
  | .call receiver _ args _ _ =>
    (if receiver.type.isMeta then [] else definitions owner receiver) ++ definitionsOf owner args
  | .selfCall _ args _ _ => definitionsOf owner args
  | .branch condition thenArm elseArm _ _ =>
    definitions owner condition ++
      (definitions owner thenArm ++ alternativeDefinitions owner elseArm)
  | .loop condition content checkFirst _ _ _ =>
    if checkFirst then definitions owner condition ++ definitions owner content
    else definitions owner content ++ definitions owner condition
termination_by structural n

/-- What compiling the nodes of a list defines, one after another. -/
def definitionsOf (owner : Owner) (nodes : List Node) : List Definition :=
  match nodes with
  | [] => []
  | n :: rest => definitions owner n ++ definitionsOf owner rest
termination_by structural nodes

/-- What compiling the other arm of a branch defines, if there is one. -/
def alternativeDefinitions (owner : Owner) (arm : Option Node) : List Definition :=
  match arm with
  | some n => definitions owner n
  | none => []
termination_by structural arm

end

end Node

/-- What compiling a script defines, its own class first. -/
def Script.definitions (s : Script) : List Definition :=
  .written (.classDecl s.name none [] s.span) :: .implicitConstructor s.name :: .main s.name ::
    s.body.definitions { name := s.name, isStaticBody := true }

/-! ### What definitions amount to -/

/-- A class without its members, or a member. -/
inductive Item where
  | ofClass (header : ClassEntry)
  | ofMember (m : Member)
deriving DecidableEq

/-- The member that an item is, if it is one. -/
def Item.member? : Item → Option Member
  | ofClass _ => none
  | ofMember m => some m

namespace TypeTable

/-- The types of parameters. -/
def paramTypes? (t : TypeTable) (classes : ClassTable) (params : List Param) :
    Option (List MachineType) :=
  params.mapM fun p ↦ t.resolve? classes p.type

/-- There are as many types as parameters. -/
theorem length_paramTypes? {t : TypeTable} {classes : ClassTable} {params : List Param}
    {types : List MachineType} (h : t.paramTypes? classes params = some types) :
    types.length = params.length := by
  unfold paramTypes? at h
  induction params generalizing types with
  | nil =>
    obtain rfl := Option.some.inj h
    rfl
  | cons p ps ih =>
    rw [List.mapM_cons] at h
    obtain ⟨type, -, h⟩ := Option.bind_eq_some_iff.1 h
    obtain ⟨rest, hrest, h⟩ := Option.bind_eq_some_iff.1 h
    obtain rfl := Option.some.inj h
    rw [List.length_cons, List.length_cons, ih hrest]

/-- The class that a name stands for as a supertype. -/
def supertype? (t : TypeTable) (classes : ClassTable) (name : String) : Option ClassRef :=
  match t.resolve? classes (.named name) with
  | some (.ref c) => some c
  | _ => none

/-- The superclass of a class that may name one. -/
def superclass? (t : TypeTable) (classes : ClassTable) : Option String → Option ClassRef
  | some name => t.supertype? classes name
  | none => some .root

/-- The type table after an import. -/
def withImport (t : TypeTable) (classes : ClassTable) (full : String) (asName : Option String) :
    TypeTable :=
  match classes.classRef? full with
  | some c => (simpleName full :: asName.toList).foldl (fun t name ↦ t.insertClass name (.ref c)) t
  | none => t

end TypeTable

namespace Declaration

/-- What a declaration amounts to if type names stand for what a table says. -/
def items? (classes : ClassTable) (types : TypeTable) : Declaration → Option (List Item)
  | importDecl .. => some []
  | classDecl name superclass interfaces _ => do
    let superclass ← types.superclass? classes superclass
    let interfaces ← interfaces.mapM (types.supertype? classes)
    some [.ofClass
      { cls := { name }, superclass := some superclass.name
        interfaces := interfaces.map (·.name) }]
  | methodDecl owner name params returnType isStatic _ => do
    let params ← types.paramTypes? classes params
    let returnType ← types.resolve? classes returnType
    some [.ofMember
      { owner := { name := owner }, name, params, returnType, flags := { isStatic } }]
  | constructorDecl owner params _ => do
    let params ← types.paramTypes? classes params
    some [.ofMember (.constructor { name := owner } params)]

/-- What type names stand for after a declaration. -/
def typesAfter (classes : ClassTable) (types : TypeTable) : Declaration → TypeTable
  | importDecl full asName _ => types.withImport classes full asName
  | _ => types

end Declaration

namespace Definition

/-- What a definition amounts to if type names stand for what a table says. -/
def items? (classes : ClassTable) (types : TypeTable) : Definition → Option (List Item)
  | written d => d.items? classes types
  | implicitConstructor owner => some [.ofMember (.constructor { name := owner } [])]
  | main owner => some [.ofMember
      { owner := { name := owner }, name := mainName, params := [mainArgs]
        flags := { isStatic := true } }]

/-- What type names stand for after a definition. -/
def typesAfter (classes : ClassTable) (types : TypeTable) : Definition → TypeTable
  | written d => d.typesAfter classes types
  | _ => types

end Definition

section Lists

variable (classes : ClassTable)

/-- What type names stand for after definitions. -/
def typesAfter (types : TypeTable) (ds : List Definition) : TypeTable :=
  ds.foldl (Definition.typesAfter classes) types

/-- What definitions amount to, one after another. -/
def itemsOf? (types : TypeTable) : List Definition → Option (List Item)
  | [] => some []
  | d :: ds => do
    let items ← d.items? classes types
    let rest ← itemsOf? (d.typesAfter classes types) ds
    some (items ++ rest)

variable {classes} {types : TypeTable} {ds ds' : List Definition} {items items' : List Item}

/-- The type table changes with one definition after another. -/
@[simp] theorem typesAfter_append :
    typesAfter classes types (ds ++ ds') = typesAfter classes (typesAfter classes types ds) ds' :=
  List.foldl_append ..

/-- The first definition is mapped in the type table that it leaves to itself. -/
theorem itemsOf?_cons {d : Definition} (h : d.items? classes types = some items)
    (h' : itemsOf? classes (d.typesAfter classes types) ds = some items') :
    itemsOf? classes types (d :: ds) = some (items ++ items') := by
  simp [itemsOf?, h, h']

/-- Two lists of definitions amount to what they amount to one after the other, the second in the
type table that the first leaves. -/
theorem itemsOf?_append (h : itemsOf? classes types ds = some items)
    (h' : itemsOf? classes (typesAfter classes types ds) ds' = some items') :
    itemsOf? classes types (ds ++ ds') = some (items ++ items') := by
  induction ds generalizing types items with
  | nil =>
    obtain rfl := Option.some.inj h
    exact h'
  | cons d ds ih =>
    obtain ⟨first, hfirst, h⟩ := Option.bind_eq_some_iff.1 h
    obtain ⟨rest, hrest, h⟩ := Option.bind_eq_some_iff.1 h
    obtain rfl := Option.some.inj h
    rw [List.append_assoc]
    exact itemsOf?_cons hfirst (ih hrest h')

end Lists

end ScriptBytecode

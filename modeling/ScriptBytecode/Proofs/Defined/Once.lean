import ScriptBytecode.Proofs.Defined.Units

/-!
# Each definition once

A unit has the class of its script first, then every class that the script declares, and in these
classes every method and constructor that is declared, each of them once. Beside them stand the
`main` of the script and constructors that are implied, and nothing else. What is declared within a
receiver that is a type is the exception: it is passed over.

Members are told apart by all that they are, types included. The types of a declared member are
those that its type names stand for where it is compiled, so the declarations are listed with the
type tables in force there (`placed`), and the members of the unit are set beside that list one by
one:

* `exists_members_of_itemsOf?` does so for any list of definitions;
* `Compiler.definesOnce_of_compile` is the result about whole scripts, for which
  `UnitCode.DefinesOnce` states what is claimed;
* `Compiler.notMem_members_beforeType` shows a method that is passed over.

**What tells members apart.** Two overloads have one owner and one name and differ in their
parameter types, so a statement about names, or about names and numbers of parameters, would be true
of a unit that has one overload twice and the other not at all. `UnitCode.DefinesOnce` pairs each
declaration with a member whose types are what the declared names stand for.

**What is not said** is in which order members stand in their classes, or which classes get a
constructor that is implied; both are said elsewhere. Nor is it said here that what was registered
has the same types.

**The condition** that nothing is passed over is the weakest one under which this can hold, as far
as methods are concerned: what is passed over is declared and has no member in the unit.
-/

namespace ScriptBytecode

/-! ### Members of units -/

/-- The members of a unit. -/
def UnitCode.members (u : UnitCode) : List Member :=
  u.classes.flatMap fun c ↦ c.methods.map (·.member c.name)

/-- The members of a unit are those among its items. -/
theorem UnitCode.members_eq (u : UnitCode) : u.members = u.items.filterMap Item.member? := by
  obtain ⟨classes⟩ := u
  show classes.flatMap _ = (classes.flatMap ClassCode.items).filterMap Item.member?
  rw [List.filterMap_flatMap]
  refine List.flatMap_congr fun c _ ↦ ?_
  rw [ClassCode.items, List.filterMap_cons_none rfl, List.filterMap_map]
  exact (congrFun List.filterMap_eq_map c.methods).symm

/-! ### Declarations where they are compiled -/

namespace Declaration

/-- Whether a method or a constructor is declared. -/
def isMember : Declaration → Bool
  | methodDecl .. | constructorDecl .. => true
  | importDecl .. | classDecl .. => false

variable {d : Declaration} {classes : ClassTable} {types : TypeTable} {items : List Item}

/-- A declared method or constructor amounts to one member. -/
theorem eq_ofMember_of_items? (hd : d.isMember = true) (h : d.items? classes types = some items) :
    ∃ m, items = [.ofMember m] := by
  cases d with
  | importDecl full asName span | classDecl name superclass interfaces span => cases hd
  | methodDecl owner name params returnType isStatic span =>
    obtain ⟨machine, -, h⟩ := Option.bind_eq_some_iff.1 h
    obtain ⟨returnType, -, h⟩ := Option.bind_eq_some_iff.1 h
    exact ⟨_, (Option.some.inj h).symm⟩
  | constructorDecl owner params span =>
    obtain ⟨machine, -, h⟩ := Option.bind_eq_some_iff.1 h
    exact ⟨_, (Option.some.inj h).symm⟩

/-- Any other declaration amounts to no member. -/
theorem members_of_items? (hd : d.isMember = false) (h : d.items? classes types = some items) :
    items.filterMap Item.member? = [] := by
  cases d with
  | methodDecl owner name params returnType isStatic span
  | constructorDecl owner params span => cases hd
  | importDecl full asName span =>
    obtain rfl := Option.some.inj h
    rfl
  | classDecl name superclass interfaces span =>
    obtain ⟨superclass, -, h⟩ := Option.bind_eq_some_iff.1 h
    obtain ⟨interfaces, -, h⟩ := Option.bind_eq_some_iff.1 h
    obtain rfl := Option.some.inj h
    rfl

end Declaration

/-- The method that runs a script. -/
def Member.main (owner : ClassRef) : Member :=
  { owner, name := mainName, params := [mainArgs], flags := { isStatic := true } }

/-- What a definition implies without writing it, if that is what it is. -/
def Definition.implied? : Definition → Option Member
  | written _ => none
  | implicitConstructor owner => some (.constructor { name := owner } [])
  | main owner => some (.main { name := owner })

section Placed

variable (classes : ClassTable)

/-- What is written among definitions, each with what type names stand for where it is compiled. -/
def placed (types : TypeTable) : List Definition → List (Declaration × TypeTable)
  | [] => []
  | .written d :: ds => (d, types) :: placed (d.typesAfter classes types) ds
  | .implicitConstructor _ :: ds | .main _ :: ds => placed types ds

/-- The member is what the declaration amounts to in its place. -/
def PlacedAs (p : Declaration × TypeTable) (m : Member) : Prop :=
  p.1.items? classes p.2 = some [.ofMember m]

variable {classes} {types : TypeTable} {ds : List Definition} {items : List Item}

/-- Nothing that is written is lost, and nothing is added. -/
theorem map_fst_placed : (placed classes types ds).map Prod.fst = Node.written ds := by
  induction ds generalizing types with
  | nil => rfl
  | cons d ds ih =>
    cases d with
    | written d => exact congrArg (d :: ·) ih
    | implicitConstructor owner | main owner => exact ih

/-- What definitions amount to has one member for each method and constructor that is written, of
the types in force in its place, beside the members that are implied. -/
theorem exists_members_of_itemsOf? (h : itemsOf? classes types ds = some items) :
    ∃ members, List.Forall₂ (PlacedAs classes)
        ((placed classes types ds).filter (·.1.isMember)) members ∧
      (items.filterMap Item.member?).Perm (ds.filterMap (·.implied?) ++ members) := by
  induction ds generalizing types items with
  | nil =>
    obtain rfl := Option.some.inj h
    exact ⟨[], .nil, .refl _⟩
  | cons d ds ih =>
    obtain ⟨first, hfirst, h⟩ := Option.bind_eq_some_iff.1 h
    obtain ⟨rest, hrest, h⟩ := Option.bind_eq_some_iff.1 h
    obtain rfl := Option.some.inj h
    obtain ⟨members, hplaced, hperm⟩ := ih hrest
    rw [List.filterMap_append]
    -- What is implied is a member as it stands. What is written amounts to one member, in the type
    -- table at its place, if it declares one at all.
    cases d with
    | implicitConstructor owner | main owner =>
      obtain rfl := Option.some.inj hfirst
      exact ⟨members, hplaced, hperm.cons _⟩
    | written d =>
      have himplied : (Definition.written d :: ds).filterMap (·.implied?) =
          ds.filterMap (·.implied?) := List.filterMap_cons_none rfl
      rw [himplied, placed]
      cases hd : d.isMember with
      | false =>
        rw [List.filter_cons_of_neg (by simp [hd]), Declaration.members_of_items? hd hfirst]
        exact ⟨members, hplaced, hperm⟩
      | true =>
        obtain ⟨m, rfl⟩ := Declaration.eq_ofMember_of_items? hd hfirst
        rw [List.filter_cons_of_pos (by simp [hd])]
        exact ⟨m :: members, .cons hfirst hplaced, (hperm.cons m).trans List.perm_middle.symm⟩

end Placed

/-! ### What is implied -/

/-- What definitions imply are constructors without parameters, each for another one of the classes
that they define. -/
def ImpliesConstructors (ds : List Definition) : Prop :=
  ∃ names : List String, names.Sublist (ds.filterMap (·.className?)) ∧
    ds.filterMap (·.implied?) = names.map fun name ↦ .constructor { name } []

namespace ImpliesConstructors

variable {ds ds' : List Definition}

theorem nil : ImpliesConstructors [] := ⟨[], .refl _, rfl⟩

/-- What is implied by two lists of definitions is implied by them together. -/
theorem append (h : ImpliesConstructors ds) (h' : ImpliesConstructors ds') :
    ImpliesConstructors (ds ++ ds') := by
  obtain ⟨names, hsub, heq⟩ := h
  obtain ⟨names', hsub', heq'⟩ := h'
  refine ⟨names ++ names', ?_, ?_⟩
  · rw [List.filterMap_append]
    exact hsub.append hsub'
  · rw [List.filterMap_append, List.map_append, heq, heq']

end ImpliesConstructors

/-- Within a class, only constructors of the classes further in are implied. -/
theorem Node.impliesConstructors_definitions (n : Node) (owner : Owner) :
    ImpliesConstructors (n.definitions owner) := by
  refine Node.definitions_induction ?nil ?append ?written ?classDecl n owner
  case nil => exact .nil
  case append => exact fun h h' ↦ h.append h'
  case written =>
    intro d hd
    have hwritten : (Definition.written d).className? = none := hd
    refine ⟨[], ?_, rfl⟩
    rw [List.filterMap_cons_none hwritten]
    exact .refl _
  case classDecl =>
    rintro name superclass interfaces span members ⟨names, hsub, heq⟩
    split
    · exact ⟨names, hsub.cons name, heq⟩
    · -- the name of the class is there for the constructor that it gets
      exact ⟨name :: names, hsub.cons_cons name,
        congrArg (Member.constructor { name } [] :: ·) heq⟩

/-! ### Units -/

/-- The methods and constructors of a script that are compiled, each with what type names stand for
in its place. -/
def Script.placedMembers (script : Script) (s : Session) : List (Declaration × TypeTable) :=
  (placed s.classes s.types script.definitions).filter (·.1.isMember)

/-- After the script was declared in the session, the unit has each definition of the script
once. -/
structure UnitCode.DefinesOnce (unit : UnitCode) (script : Script) (s : Session) : Prop where
  /-- The classes have different names. -/
  nodup : (unit.classes.map (·.name)).Nodup
  /-- They are the class of the script and those that it declares. -/
  classes : ∃ others, unit.classes.map (·.name) = script.name :: others ∧
    others.Perm (script.declarations.filterMap (·.className?))
  /-- Each method and constructor that is declared is compiled in one place. -/
  declared : ((script.placedMembers s).map Prod.fst).Perm (script.declarations.filter (·.isMember))
  /-- There is one member for each of them, of the types in force in its place. The others are the
  constructor and the `main` of the script, and constructors that other classes get. -/
  members : ∃ (members : List Member) (implied : List String),
    List.Forall₂ (PlacedAs s.classes) (script.placedMembers s) members ∧
    implied.Sublist (unit.classes.map (·.name)).tail ∧
    unit.members.Perm (.constructor { name := script.name } [] :: .main { name := script.name } ::
      (implied.map (fun name ↦ .constructor { name } []) ++ members))

namespace Compiler

/-- Where nothing is passed over, a compiled unit has each definition of its script once: its
classes have different names, that of the script first and then those of the classes that it
declares; and its members are those that the script declares, each once, in the class that it
belongs to and of the types in force in its place, beside `main` and constructors that are
implied. -/
theorem definesOnce_of_compile {c : Compiler} {root : Node} {script : Script} {unit : UnitCode}
    (hscript : root.script? = some script) (hpassed : script.passedOver = [])
    (h : c.compile root = .ok unit) :
    ∃ count s, SessionM.declareScript script c.start = .ok count s ∧
      unit.DefinesOnce script s := by
  obtain ⟨count, s, hdeclare, hcompiled⟩ := compiledFrom_of_compile hscript h
  have hnames : unit.classes.map (·.name) =
      script.name :: script.bodyDefinitions.filterMap (·.className?) := hcompiled.classNames
  -- With nothing passed over, what is declared is what the body defines.
  have hwritten : script.declarations.Perm (Node.written script.bodyDefinitions) := by
    have hperm := script.perm_declarations
    rwa [hpassed, List.append_nil] at hperm
  have hclasses : (script.bodyDefinitions.filterMap (·.className?)).Perm
      (script.declarations.filterMap (·.className?)) := by
    rw [classNames_written]
    exact (hwritten.filterMap _).symm
  refine ⟨count, s, hdeclare, ?nodup, ⟨_, hnames, hclasses⟩, ?declared, ?members⟩
  -- That no class is defined twice was checked when the script was declared.
  case nodup =>
    rw [hnames]
    exact (hclasses.cons script.name).nodup_iff.2 hcompiled.declared.nodup
  case declared =>
    have hplaced := (List.filter_map (f := Prod.fst) (p := Declaration.isMember)
      (l := placed s.classes s.types script.definitions)).symm
    rw [map_fst_placed] at hplaced
    exact (List.Perm.of_eq hplaced).trans (hwritten.symm.filter _)
  case members =>
    obtain ⟨implied, hsub, himplied⟩ := script.body.impliesConstructors_definitions
      { name := script.name, isStaticBody := true }
    obtain ⟨items, hitems, hperm⟩ := hcompiled.items
    obtain ⟨members, hplaced, hmembers⟩ := exists_members_of_itemsOf? hitems
    refine ⟨members, implied, hplaced, ?_, ?_⟩
    · rw [hnames]
      exact hsub
    · rw [UnitCode.members_eq, ← himplied]
      exact (hperm.filterMap _).trans hmembers

/-- A script that declares methods in a condition and in an argument. -/
def nesting : Node :=
  let int := SourceType.named "int"
  let method := fun (name : String) ↦ Node.methodDef name [] int (.int 1) false {}
  let condition := Node.sequence [method "early", .bool true]
  .script "Nesting" (.sequence
    [.classDef "Inner" none [] [method "run"] {},
      .branch condition (.binary (.int 1) "+" (.sequence [method "late", .int 2]) int)
        none .none {}])
    {}

theorem definesOnce_of_compile_nesting : ∃ script unit count s,
    nesting.script? = some script ∧ script.passedOver = [] ∧
    Compiler.compile {} nesting = .ok unit ∧
    SessionM.declareScript script (Compiler.start {}) = .ok count s ∧
    unit.DefinesOnce script s := by
  have hcompiles : (Compiler.compile {} nesting).toOption.isSome = true := by decide +kernel
  obtain ⟨unit, hcompile⟩ := exists_eq_ok_of_isSome hcompiles
  obtain ⟨count, s, hdeclare, honce⟩ := definesOnce_of_compile rfl rfl hcompile
  exact ⟨_, unit, count, s, rfl, rfl, hcompile, hdeclare, honce⟩

/-- A script whose only method is declared within a receiver that is a type. -/
def beforeType : Node :=
  let int := SourceType.named "int"
  let method := Node.methodDef "f" [] int (.int 1) false {}
  let receiver := Node.sequence [method, .typeName "Math" {}]
  .script "Hidden" (.sequence [.call receiver "abs" [.selfCall "f" [] int {}] int {}]) {}

/-- The method is called, but no member of the unit is what it amounts to, whatever its types
are. -/
theorem notMem_members_beforeType : ∃ script unit, beforeType.script? = some script ∧
    Compiler.compile { options := { imports := [("Math", "java.lang.Math")] } } beforeType =
      .ok unit ∧
    ∃ d ∈ script.declarations, d.isMember = true ∧
      ∀ m ∈ unit.members, ∀ classes types, ¬ PlacedAs classes (d, types) m := by
  have hmembers : (Compiler.compile { options := { imports := [("Math", "java.lang.Math")] } }
      beforeType).toOption.map UnitCode.members =
      some [.constructor { name := "Hidden" } [], .main { name := "Hidden" }] := by decide +kernel
  obtain ⟨unit, hcompile, hunit⟩ := exists_eq_ok_of_map hmembers
  refine ⟨_, unit, rfl, hcompile, .methodDecl "Hidden" "f" [] (.named "int") true {}, by decide,
    rfl, fun m hm classes types hplaced ↦ ?_⟩
  have hname : m.name = "f" := by
    obtain ⟨returnType, -, heq⟩ := Option.bind_eq_some_iff.1 hplaced
    obtain rfl := Item.ofMember.inj (List.singleton_inj.1 (Option.some.inj heq))
    rfl
  rw [hunit] at hm
  obtain rfl | hm := List.mem_cons.1 hm
  · exact absurd hname (by decide)
  · obtain rfl := List.mem_singleton.1 hm
    exact absurd hname (by decide)

end Compiler

end ScriptBytecode

import ScriptBytecode.Compile.Declare
import ScriptBytecode.Proofs.Defined.Items
import ScriptBytecode.Proofs.Ensures

/-!
# Looking up type names

What a source type stands for depends on a type table only through its entries, and on a class table
only for names that have no entry. So two pairs of tables that agree in this far give every
definition the same meaning, however they were built. What a session looks up is what its tables
say; where they say nothing, the session reports an error.

* `TypeTable.resolve?`, `paramTypes?` and `supertype?` are the look-ups in tables, and
  `toOption_typeOf`, `toOption_paramTypes` and `toOption_supertypeOf` say that sessions make them;
* `lookup?_withImport` is the effect of an import.
-/

namespace ScriptBytecode

namespace TypeTable

variable {types types' : TypeTable} {classes classes' : ClassTable}

/-! ### Entries of classes -/

/-- A class is entered for its name, and for that name as a type, but not for arrays. -/
theorem lookup?_insertClass (types : TypeTable) (name : String) (machine : MachineType)
    (type : SourceType) : (types.insertClass name machine).lookup? type =
      if type.name = name ∧ type.isArray = false then some machine else types.lookup? type := by
  obtain ⟨base, isArray, isMeta⟩ := type
  by_cases hentry : base = name ∧ isArray = false
  · obtain ⟨rfl, rfl⟩ := hentry
    rw [if_pos ⟨rfl, rfl⟩]
    cases isMeta with
    | false => exact lookup?_insert_self ..
    | true =>
      refine (lookup?_insert_of_ne _ _ ?_).trans (lookup?_insert_self ..)
      simp [SourceType.named]
  · rw [if_neg hentry]
    have hnamed : (⟨base, isArray, isMeta⟩ : SourceType) ≠ .named name := fun heq ↦
      hentry ⟨congrArg SourceType.name heq, congrArg SourceType.isArray heq⟩
    have hmeta : (⟨base, isArray, isMeta⟩ : SourceType) ≠ .metaOf name := fun heq ↦
      hentry ⟨congrArg SourceType.name heq, congrArg SourceType.isArray heq⟩
    exact (lookup?_insert_of_ne _ _ hnamed).trans (lookup?_insert_of_ne _ _ hmeta)

/-- Classes are entered for all of the names, over what was there before. -/
theorem lookup?_foldl_insertClass (machine : String → MachineType) (names : List String)
    (types : TypeTable) (type : SourceType) :
    (names.foldl (fun t name ↦ t.insertClass name (machine name)) types).lookup? type =
      if type.name ∈ names ∧ type.isArray = false then some (machine type.name)
      else types.lookup? type := by
  induction names generalizing types with
  | nil => simp
  | cons name names ih =>
    rw [List.foldl_cons, ih, lookup?_insertClass]
    by_cases harray : type.isArray = false
    · by_cases hname : type.name = name
      · simp [hname, harray]
      · simp [hname, harray]
    · simp [harray]

/-- An import changes what its simple name and its alias stand for, and nothing else. -/
theorem lookup?_withImport {full : String} {c : ClassRef} (h : classes.classRef? full = some c)
    (types : TypeTable) (asName : Option String) (type : SourceType) :
    (types.withImport classes full asName).lookup? type =
      if type.name ∈ simpleName full :: asName.toList ∧ type.isArray = false then some (.ref c)
      else types.lookup? type := by
  unfold withImport
  rw [h]
  exact lookup?_foldl_insertClass (fun _ ↦ .ref c) ..

/-! ### Tables that read alike -/

/-- The entries decide, and where there is none the names of known classes do. -/
theorem resolve?_congr (htypes : ∀ type, types.lookup? type = types'.lookup? type)
    (hclasses : ∀ name, types.lookup? (.named name) = none →
      classes.classRef? name = classes'.classRef? name) (type : SourceType) :
    types.resolve? classes type = types'.resolve? classes' type := by
  have hname : ∀ name, types.resolveName? classes name = types'.resolveName? classes' name := by
    intro name
    unfold resolveName?
    rw [← htypes]
    cases hlookup : types.lookup? (.named name) with
    | some machine => rfl
    | none =>
      dsimp only
      rw [hclasses name hlookup]
  unfold resolve?
  rw [← htypes, hname]

/-- Parameters have the same types where types stand for the same. -/
theorem paramTypes?_congr
    (h : ∀ type, types.resolve? classes type = types'.resolve? classes' type)
    (params : List Param) : types.paramTypes? classes params = types'.paramTypes? classes' params :=
  congrArg (params.mapM ·) (funext fun p ↦ h p.type)

/-- Supertypes are the same where types stand for the same. -/
theorem supertype?_congr
    (h : ∀ type, types.resolve? classes type = types'.resolve? classes' type) :
    types.supertype? classes = types'.supertype? classes' := by
  funext name
  unfold supertype?
  rw [h]

end TypeTable

/-- What a declaration amounts to depends on what types stand for, and on nothing else. -/
theorem Declaration.items?_congr {types types' : TypeTable} {classes classes' : ClassTable}
    (h : ∀ type, types.resolve? classes type = types'.resolve? classes' type) (d : Declaration) :
    d.items? classes types = d.items? classes' types' := by
  cases d with
  | importDecl full asName span => rfl
  | classDecl name superclass interfaces span =>
    have hsuperclass : types.superclass? classes superclass =
        types'.superclass? classes' superclass := by
      cases superclass with
      | none => rfl
      | some superclass => exact congrFun (TypeTable.supertype?_congr h) superclass
    simp only [items?, hsuperclass, TypeTable.supertype?_congr h]
  | methodDecl owner name params returnType isStatic span =>
    simp only [items?, TypeTable.paramTypes?_congr h, h]
  | constructorDecl owner params span =>
    simp only [items?, TypeTable.paramTypes?_congr h]

/-- A definition amounts to the same items where types stand for the same. -/
theorem Definition.items?_congr {types types' : TypeTable} {classes classes' : ClassTable}
    (h : ∀ type, types.resolve? classes type = types'.resolve? classes' type) (d : Definition) :
    d.items? classes types = d.items? classes' types' := by
  cases d with
  | written d => exact d.items?_congr h
  | implicitConstructor owner | main owner => rfl

/-! ### What a session looks up -/

namespace Session

variable (s : Session)

/-- What a session says that a type stands for is what its tables say. -/
theorem toOption_typeOf (type : SourceType) (span : Span) :
    (s.typeOf type span).toOption = s.types.resolve? s.classes type := by
  unfold typeOf TypeTable.resolve
  cases s.types.resolve? s.classes type <;> rfl

/-- So are the types of parameters, -/
theorem toOption_paramTypes (params : List Param) :
    (s.paramTypes params).toOption = s.types.paramTypes? s.classes params := by
  unfold TypeTable.paramTypes?
  induction params with
  | nil => rfl
  | cons p ps ih =>
    rw [List.mapM_cons, ← toOption_typeOf s p.type p.span, ← ih]
    show (s.typeOf p.type p.span >>= fun type ↦ s.paramTypes ps >>= fun types ↦
      Except.ok (type :: types)).toOption = _
    cases s.typeOf p.type p.span with
    | error e => rfl
    | ok type => cases s.paramTypes ps <;> rfl

/-- and the classes that are extended or implemented. -/
theorem toOption_supertypeOf (name : String) (span : Span) :
    (s.supertypeOf name span).toOption = s.types.supertype? s.classes name := by
  unfold TypeTable.supertype?
  rw [← toOption_typeOf s (.named name) span]
  unfold supertypeOf
  cases s.typeOf (.named name) span with
  | error e => rfl
  | ok type => cases type <;> rfl

end Session

namespace SessionM

variable {α β : Type} {s : Session} {post : β → Session → Prop}
  {fails : CompileError → Session → Prop}

/-- What follows a reading runs from the session that was read, if something was read. -/
theorem ensures_read_bind {read : Session → Except CompileError α} {next : α → SessionM β}
    {r : Option α} (hread : (read s).toOption = r)
    (hsome : ∀ a, r = some a → Ensures (next a) s post fails)
    (hnone : r = none → ∀ e, fails e s) : Ensures (query read >>= next) s post fails := by
  subst hread
  refine ensures_query_bind (fun a ha ↦ hsome a ?_) fun e he ↦ hnone ?_ e
  · rw [ha]
    rfl
  · rw [he]
    rfl

/-- The supertypes of a class are looked up one after another, and nothing is changed. -/
theorem ensures_supertypesOf (s : Session) (span : Span) (names : List String) :
    Ensures (supertypesOf span names) s
      (fun cs s' ↦ s' = s ∧ names.mapM (s.types.supertype? s.classes) = some cs)
      fun _ _ ↦ names.mapM (s.types.supertype? s.classes) = none := by
  induction names with
  | nil => exact ⟨rfl, rfl⟩
  | cons name names ih =>
    rw [List.mapM_cons]
    refine ensures_read_bind (s.toOption_supertypeOf name span) (fun c hc ↦ ?_) fun hnone _ ↦ ?_
    · rw [hc]
      refine ensures_bind (ih.mono (fun _ _ h ↦ h) fun _ _ h ↦ ?_) ?_
      · rw [h]
        rfl
      · rintro cs _ ⟨rfl, hcs⟩
        refine ⟨rfl, ?_⟩
        rw [hcs]
        rfl
    · rw [hnone]
      rfl

end SessionM

end ScriptBytecode

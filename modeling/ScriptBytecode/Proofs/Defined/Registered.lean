import ScriptBytecode.Proofs.Defined.Installed
import ScriptBytecode.Proofs.Defined.Units

/-!
# What was registered is what is compiled

A script is declared before it is compiled, and both look up the types of its definitions, at
different moments and in type tables that imports keep changing. If no two imports of the script
give one name to different classes, then it does not matter when a type is looked up: the members
and supertypes that were registered are those of the compiled classes. So a call that resolves to a
member of the script names a method that the unit has.

Where two imports disagree, this is lost: the later one is in force for everything registered, but
not for what is compiled before it.

The way to `Compiler.registered_of_compile` goes over

* `Declaration.InForce`, an import that type names reflect, and `itemsOf?_of_inForce`, by which
  definitions amount to the same at any moment while all imports are in force;
* `ClassTable.Gains`, the growth of a class table by items, and `ClassTable.gains_of_installed`;
* `SessionM.yields_declareScript`, which says both of a script that was declared.

`Compiler.notMem_items_reimporting` shows a member that is registered with other types than it is
compiled with.

**When imports agree.** Two imports may give a class any number of names, and the same name to the
same class as often as they like. What is excluded is one name for two classes
(`Script.ImportsAgree`). Imports that come with the options are not concerned: they are made before
all others and are in force for everything unless the script changes them, which shows in both
passes alike.

**What is gained.** `ClassTable.Gains` says that a table has grown by certain items and that names
of classes stand for what they stood for before. Growing is proved for single entries and carried
along the list of what is registered; the two passes meet in the items that this list amounts to.

**Both directions.** All that is written and compiled was registered, and where nothing is passed
over all that was registered is compiled. The last part of `Compiler.registered_of_compile` puts
this to use: what a call resolves to was known before the script, or is a method of the unit with
that very signature.
-/

namespace ScriptBytecode

/-! ### Imports that agree -/

/-- The names that a declaration imports, each with the full name of the class it stands for. -/
def Declaration.imported : Declaration → List (String × String)
  | importDecl full asName _ => (simpleName full :: asName.toList).map (·, full)
  | _ => []

/-- Whether no name is imported for different classes. -/
def Script.ImportsAgree (script : Script) : Prop :=
  ∀ p ∈ script.declarations.flatMap (·.imported),
    ∀ q ∈ script.declarations.flatMap (·.imported), p.1 = q.1 → p.2 = q.2

instance (script : Script) : Decidable script.ImportsAgree :=
  inferInstanceAs (Decidable (∀ p ∈ script.declarations.flatMap (·.imported),
    ∀ q ∈ script.declarations.flatMap (·.imported), p.1 = q.1 → p.2 = q.2))

/-- The name stands for the class of the given full name, which is known. -/
def TypeTable.Imports (types : TypeTable) (classes : ClassTable) (name full : String) : Prop :=
  ∃ c, classes.classRef? full = some c ∧
    ∀ type : SourceType, type.name = name → type.isArray = false →
      types.lookup? type = some (.ref c)

/-- What a declaration imports is in force. -/
def Declaration.InForce (classes : ClassTable) (types : TypeTable) (d : Declaration) : Prop :=
  ∀ p ∈ d.imported, types.Imports classes p.1 p.2

section InForce

variable {classes classes' : ClassTable} {types types' : TypeTable} {d d' : Declaration}

/-- An import gives its short names to the class. -/
theorem imported_importDecl {full : String} {asName : Option String} {span : Span} {name : String}
    (h : name ∈ simpleName full :: asName.toList) :
    (name, full) ∈ (Declaration.importDecl full asName span).imported :=
  List.mem_map.2 ⟨name, h, rfl⟩

/-- An import that is in force already changes nothing. -/
theorem Declaration.InForce.lookup?_typesAfter (h : d.InForce classes types)
    (type : SourceType) : (d.typesAfter classes types).lookup? type = types.lookup? type := by
  cases d with
  | importDecl full asName span =>
    obtain ⟨c, hc, -⟩ := h _ (imported_importDecl (List.mem_cons_self ..))
    refine (TypeTable.lookup?_withImport hc ..).trans ?_
    split
    · next hentry =>
      obtain ⟨c', hc', hlookup⟩ := h _ (imported_importDecl hentry.1)
      obtain rfl := Option.some.inj (hc.symm.trans hc')
      exact (hlookup type rfl hentry.2).symm
    · rfl
  | _ => rfl

/-- An import stays in force in a larger table where type names stand for the same. -/
theorem Declaration.InForce.congr (h : d.InForce classes types)
    (hclasses : ∀ name c, classes.classRef? name = some c → classes'.classRef? name = some c)
    (htypes : ∀ type, types.lookup? type = types'.lookup? type) : d.InForce classes' types' := by
  intro p hp
  obtain ⟨c, hc, hlookup⟩ := h p hp
  exact ⟨c, hclasses _ _ hc, fun type hname harray ↦ (htypes type) ▸ hlookup type hname harray⟩

/-- What a declaration imports, if it is known, is in force right after it. -/
theorem inForce_typesAfter (hknown : ∀ p ∈ d.imported, ∃ c, classes.classRef? p.2 = some c) :
    d.InForce classes (d.typesAfter classes types) := by
  cases d with
  | importDecl full asName span =>
    intro p hp
    obtain ⟨c, hc⟩ := hknown p hp
    obtain ⟨name, hname, rfl⟩ := List.mem_map.1 hp
    refine ⟨c, hc, fun type htype harray ↦ ?_⟩
    exact (TypeTable.lookup?_withImport hc ..).trans (if_pos ⟨htype ▸ hname, harray⟩)
  | _ => exact nofun

/-- It stays in force after other imports that agree with it. -/
theorem Declaration.InForce.typesAfter (h : d.InForce classes types)
    (hagree : ∀ p ∈ d.imported, ∀ q ∈ d'.imported, p.1 = q.1 → p.2 = q.2)
    (hknown : ∀ q ∈ d'.imported, ∃ c, classes.classRef? q.2 = some c) :
    d.InForce classes (d'.typesAfter classes types) := by
  cases d' with
  | importDecl full asName span =>
    intro p hp
    obtain ⟨c, hc, hlookup⟩ := h p hp
    obtain ⟨c', hc'⟩ := hknown _ (imported_importDecl (List.mem_cons_self ..))
    refine ⟨c, hc, fun type htype harray ↦ (TypeTable.lookup?_withImport hc' ..).trans ?_⟩
    split
    · next hentry =>
      have hfull : p.2 = full := hagree p hp _ (imported_importDecl hentry.1) htype.symm
      rw [hfull] at hc
      rw [Option.some.inj (hc.symm.trans hc')]
    · exact hlookup type htype harray
  | _ => exact h

/-- A declaration takes no entry away. -/
theorem Declaration.isSome_lookup?_typesAfter (d : Declaration) {type : SourceType}
    (h : (types.lookup? type).isSome) : ((d.typesAfter classes types).lookup? type).isSome := by
  cases d with
  | importDecl full asName span =>
    show ((types.withImport classes full asName).lookup? type).isSome = true
    cases hc : classes.classRef? full with
    | none =>
      unfold TypeTable.withImport
      rw [hc]
      exact h
    | some c =>
      rw [TypeTable.lookup?_withImport hc]
      split
      · rfl
      · exact h
  | _ => exact h

end InForce

/-- Where a list of partial results is there, it has the result of each element and no others. -/
theorem mem_of_mapM_eq_some {α β : Type} {f : α → Option β} {as : List α} {bs : List β}
    (h : as.mapM f = some bs) {b : β} : b ∈ bs ↔ ∃ a ∈ as, f a = some b := by
  induction as generalizing bs with
  | nil =>
    obtain rfl := Option.some.inj h
    simp
  | cons a as ih =>
    rw [List.mapM_cons] at h
    obtain ⟨first, hfirst, h⟩ := Option.bind_eq_some_iff.1 h
    obtain ⟨rest, hrest, h⟩ := Option.bind_eq_some_iff.1 h
    obtain rfl := Option.some.inj h
    simp [ih hrest, hfirst, eq_comm]

/-- Where all imports are in force, definitions amount to the same at any moment. -/
theorem itemsOf?_of_inForce {classes : ClassTable} {types types' : TypeTable}
    {ds : List Definition} (htypes : ∀ type, types.lookup? type = types'.lookup? type)
    (hforce : ∀ d ∈ Node.written ds, d.InForce classes types) :
    itemsOf? classes types' ds = (ds.mapM (Definition.items? classes types)).map List.flatten := by
  induction ds generalizing types' with
  | nil => rfl
  | cons d ds ih =>
    have hitems : d.items? classes types' = d.items? classes types :=
      d.items?_congr fun type ↦ (TypeTable.resolve?_congr htypes (fun _ _ ↦ rfl) type).symm
    have hrest : ∀ type, types.lookup? type = (d.typesAfter classes types').lookup? type := by
      intro type
      cases d with
      | written d =>
        have hd : d.InForce classes types' :=
          (hforce d (List.mem_cons_self ..)).congr (fun _ _ h ↦ h) htypes
        exact (htypes type).trans (hd.lookup?_typesAfter type).symm
      | implicitConstructor owner | main owner => exact htypes type
    have hwritten : ∀ d' ∈ Node.written ds, d'.InForce classes types := fun d' hd' ↦ by
      cases d with
      | written d => exact hforce d' (List.mem_cons_of_mem _ hd')
      | implicitConstructor owner | main owner => exact hforce d' hd'
    rw [itemsOf?, hitems, ih hrest hwritten, List.mapM_cons]
    cases d.items? classes types with
    | none => rfl
    | some first => cases ds.mapM (Definition.items? classes types) <;> rfl

/-! ### Growing class tables -/

/-- A class and its members. -/
def ClassEntry.items (e : ClassEntry) : List Item :=
  .ofClass { e with members := [] } :: e.members.map .ofMember

namespace ClassTable

/-- The classes and members of a table. -/
def items (t : ClassTable) : List Item := t.classes.flatMap ClassEntry.items

/-- One table has the items beside those of the other, and the classes of the other are known in it
as before. -/
structure Gains (t : ClassTable) (items : List Item) (t' : ClassTable) : Prop where
  mem_items : ∀ i, i ∈ t'.items ↔ i ∈ t.items ∨ i ∈ items
  classRef? : ∀ name c, t.classRef? name = some c → t'.classRef? name = some c

variable {t t' t'' : ClassTable} {items items' : List Item}

namespace Gains

theorem refl (t : ClassTable) : t.Gains [] t := ⟨by simp, fun _ _ h ↦ h⟩

/-- What is gained later adds to what was gained before. -/
theorem trans (h : t.Gains items t') (h' : t'.Gains items' t'') :
    t.Gains (items ++ items') t'' where
  mem_items i := by rw [h'.mem_items, h.mem_items, List.mem_append, or_assoc]
  classRef? name c hc := h'.classRef? name c (h.classRef? name c hc)

end Gains

/-- A class is gained with its members when it is registered. -/
theorem gains_register {e : ClassEntry} (h : t.register e = .ok t') : t.Gains e.items t' := by
  obtain ⟨-, hclasses⟩ := register_eq_ok h
  constructor
  · intro i
    simp [ClassTable.items, hclasses]
  · intro name c hc
    obtain ⟨entry, hentry, rfl⟩ := Option.map_eq_some_iff.1 hc
    have hget : t'.get? name = some entry := by
      unfold ClassTable.get? at hentry ⊢
      rw [hclasses, List.find?_append, hentry]
      rfl
    rw [ClassTable.classRef?, hget]
    rfl

theorem items_addMember (e : ClassEntry) (m : Member) :
    (e.addMember m).items = e.items ++ [.ofMember m] := by
  simp [ClassEntry.items, ClassEntry.addMember]

/-- A member is gained when it is added. -/
theorem gains_addMember {m : Member} (h : t.addMember m = .ok t') :
    t.Gains [.ofMember m] t' := by
  obtain ⟨howner, hclasses⟩ := addMember_eq_ok h
  obtain ⟨entry, hentry, hname⟩ := List.mem_map.1 howner
  constructor
  · intro i
    unfold ClassTable.items
    rw [hclasses, List.flatMap_map]
    constructor
    · intro hi
      obtain ⟨e, he, hi⟩ := List.mem_flatMap.1 hi
      split at hi
      · rw [items_addMember] at hi
        exact (List.mem_append.1 hi).imp_left fun hi ↦ List.mem_flatMap.2 ⟨e, he, hi⟩
      · exact .inl (List.mem_flatMap.2 ⟨e, he, hi⟩)
    · rintro (hi | hi)
      · obtain ⟨e, he, hi⟩ := List.mem_flatMap.1 hi
        refine List.mem_flatMap.2 ⟨e, he, ?_⟩
        split
        · rw [items_addMember]
          exact List.mem_append_left _ hi
        · exact hi
      · refine List.mem_flatMap.2 ⟨entry, hentry, ?_⟩
        rw [if_pos (beq_iff_eq.2 hname), items_addMember]
        exact List.mem_append_right _ hi
  · intro name c hc
    rw [classRef?_addMember h]
    exact hc

end ClassTable

/-! ### Registering -/

/-- What a definition amounts to has classes without members. -/
theorem Definition.members_eq_nil {d : Definition} {classes : ClassTable} {types : TypeTable}
    {items : List Item} (h : d.items? classes types = some items) {e : ClassEntry}
    (he : .ofClass e ∈ items) : e.members = [] := by
  cases d with
  | implicitConstructor owner | main owner =>
    obtain rfl := Option.some.inj h
    cases List.mem_singleton.1 he
  | written d =>
    cases d with
    | importDecl full asName span =>
      obtain rfl := Option.some.inj h
      cases he
    | classDecl name superclass interfaces span =>
      obtain ⟨superclass, -, h⟩ := Option.bind_eq_some_iff.1 h
      obtain ⟨interfaces, -, h⟩ := Option.bind_eq_some_iff.1 h
      obtain rfl := Option.some.inj h
      obtain rfl := Item.ofClass.inj (List.mem_singleton.1 he)
      rfl
    | methodDecl owner name params returnType isStatic span =>
      obtain ⟨params, -, h⟩ := Option.bind_eq_some_iff.1 h
      obtain ⟨returnType, -, h⟩ := Option.bind_eq_some_iff.1 h
      obtain rfl := Option.some.inj h
      cases List.mem_singleton.1 he
    | constructorDecl owner params span =>
      obtain ⟨params, -, h⟩ := Option.bind_eq_some_iff.1 h
      obtain rfl := Option.some.inj h
      cases List.mem_singleton.1 he

namespace ClassTable

variable {t t' : ClassTable}

/-- An item that is installed is gained. -/
theorem gains_install {i : Item} (hi : ∀ e, i = .ofClass e → e.members = [])
    (h : t.install i = .ok t') : t.Gains [i] t' := by
  cases i with
  | ofMember m => exact gains_addMember h
  | ofClass e =>
    have hitems : e.items = [.ofClass e] := by
      obtain ⟨cls, superclass, interfaces, members⟩ := e
      obtain rfl : members = [] := hi _ rfl
      rfl
    exact hitems ▸ gains_register h

/-- So are items that are installed one after another. -/
theorem gains_foldlM_install {items : List Item} (hitems : ∀ e, .ofClass e ∈ items → e.members = [])
    (h : items.foldlM install t = .ok t') : t.Gains items t' := by
  induction items generalizing t with
  | nil =>
    obtain rfl := Except.ok.inj h
    exact .refl t
  | cons i items ih =>
    rw [List.foldlM_cons] at h
    obtain ⟨u, hu, h⟩ := Session.ok_of_bind h
    refine (gains_install (fun e he ↦ hitems e ?_) hu).trans
      (ih (fun e he ↦ hitems e (List.mem_cons_of_mem _ he)) h)
    rw [he]
    exact List.mem_cons_self ..

/-- A table that definitions were installed in has what they amount to. -/
theorem gains_of_installed {classes : ClassTable} {types : TypeTable} {ds : List Definition}
    (h : installed? classes types ds t = some t') :
    ∃ items, ds.mapM (Definition.items? classes types) = some items ∧
      t.Gains items.flatten t' := by
  obtain ⟨items, hitems, h⟩ := Option.bind_eq_some_iff.1 h
  refine ⟨items, hitems, gains_foldlM_install (fun e he ↦ ?_) ?_⟩
  · obtain ⟨is, his, he⟩ := List.mem_flatten.1 he
    obtain ⟨d, -, hd⟩ := (mem_of_mapM_eq_some hitems).1 his
    exact Definition.members_eq_nil hd he
  · cases hinstall : items.flatten.foldlM install t with
    | error reason => rw [hinstall] at h; cases h
    | ok u => rw [hinstall] at h; cases h; rfl

end ClassTable

namespace SessionM

/-! ### A whole script -/

/-- An import enters a known class under its short names. -/
theorem yields_importClass (s : Session) (short : String) (asName : Option String) (full : String)
    (span : Span) : Yields (importClass short asName full span) s fun _ s' ↦
      ∃ c, s.classes.classRef? full = some c ∧ s' = { s with
        types :=
          (short :: asName.toList).foldl (fun t name ↦ t.insertClass name (.ref c)) s.types } := by
  refine ensures_get_bind ?_
  unfold TypeTable.importClass
  split
  · exact ensures_throw_bind trivial
  · next c hc => exact ⟨c, hc, rfl⟩

/-- To declare an import enters the class that it names, which is known. -/
theorem yields_declareImport (d : Declaration) (s : Session) :
    Yields (declareImport d) s fun _ s' ↦ s' = { s with types := d.typesAfter s.classes s.types } ∧
      ∀ p ∈ d.imported, ∃ c, s.classes.classRef? p.2 = some c := by
  cases d with
  | importDecl full asName span =>
    refine ensures_bind (yields_importClass s (simpleName full) asName full span) ?_
    rintro _ _ ⟨c, hc, rfl⟩
    refine ⟨?_, fun p hp ↦ ?_⟩
    · show _ = { s with types := s.types.withImport s.classes full asName }
      unfold TypeTable.withImport
      rw [hc]
    · obtain ⟨name, -, rfl⟩ := List.mem_map.1 hp
      exact ⟨c, hc⟩
  | _ => exact ⟨rfl, nofun⟩

/-- Imports that agree are all in force after they were made. -/
theorem yields_declareImports {decls : List Declaration}
    (hagree : ∀ p ∈ decls.flatMap (·.imported), ∀ q ∈ decls.flatMap (·.imported),
      p.1 = q.1 → p.2 = q.2) (s : Session) :
    Yields (decls.forM declareImport) s fun _ s' ↦ ∀ d ∈ decls, d.InForce s'.classes s'.types := by
  refine yields_forM (fun done s' ↦ ∀ d ∈ decls, d ∈ done → d.InForce s'.classes s'.types) ?_ ?_
    |>.imp fun _ _ hforce d hd ↦ hforce d hd hd
  · rintro done d s' hd hforce
    refine (yields_declareImport d s').imp ?_
    rintro _ _ ⟨rfl, hknown⟩ d' hd' hdone
    obtain hdone | hdone := List.mem_append.1 hdone
    · refine (hforce d' hd' hdone).typesAfter (fun p hp q hq ↦ ?_) hknown
      exact hagree p (List.mem_flatMap.2 ⟨d', hd', hp⟩) q (List.mem_flatMap.2 ⟨d, hd, hq⟩)
    · obtain rfl := List.mem_singleton.1 hdone
      exact inForce_typesAfter hknown
  · exact fun _ _ hd ↦ nomatch hd

/-- A class is entered under its name, and nothing that has an entry loses it. -/
theorem yields_nameClass (name : String) (s : Session) : Yields (nameClass name) s fun _ s' ↦
    s'.classes = s.classes ∧ ∀ type, type = .named name ∨ (s.types.lookup? type).isSome →
      (s'.types.lookup? type).isSome := by
  refine ensures_modify ⟨rfl, fun type htype ↦ ?_⟩
  dsimp only
  rw [TypeTable.lookup?_insertClass]
  obtain rfl | htype := htype
  · rw [if_pos ⟨rfl, rfl⟩]
    rfl
  · split
    · rfl
    · exact htype

/-- Classes get type names, and nothing that has an entry loses it. -/
theorem yields_nameClasses (names : List String) (s : Session) :
    Yields (names.forM nameClass) s fun _ (s' : Session) ↦ s'.classes = s.classes ∧
      ∀ type, (∃ name ∈ names, type = .named name) ∨ (s.types.lookup? type).isSome →
        (s'.types.lookup? type).isSome := by
  refine yields_forM (fun done (s' : Session) ↦ s'.classes = s.classes ∧
    ∀ type, (∃ name ∈ done, type = .named name) ∨ (s.types.lookup? type).isSome →
      (s'.types.lookup? type).isSome) ?_ ⟨rfl, fun type htype ↦ htype.resolve_left (by simp)⟩
  rintro done name s' - ⟨hclasses, hdone⟩
  refine (yields_nameClass name s').imp ?_
  rintro _ s'' ⟨hclasses', hentry⟩
  refine ⟨hclasses'.trans hclasses, fun type htype ↦ hentry type ?_⟩
  obtain ⟨other, hother, rfl⟩ | htype := htype
  · obtain hother | hother := List.mem_append.1 hother
    · exact .inr (hdone _ (.inl ⟨other, hother, rfl⟩))
    · exact .inl (congrArg _ (List.mem_singleton.1 hother))
  · exact .inr (hdone type (.inr htype))

/-- The imports of the options change no class. -/
theorem yields_importOptions (s : Session) :
    Yields importOptions s fun _ s' ↦ s'.classes = s.classes := by
  refine ensures_get_bind (yields_forM (fun _ (s' : Session) ↦ s'.classes = s.classes) ?_ rfl)
  rintro done pair s' - hs'
  refine ensures_bind (yields_importClass s' pair.1 none pair.2 .unknown) ?_
  rintro _ _ ⟨c, -, rfl⟩
  exact hs'

/-- Imports take no entry away. -/
theorem yields_declareImports_kept (decls : List Declaration) (s : Session) :
    Yields (decls.forM declareImport) s fun _ s' ↦ s'.classes = s.classes ∧
      ∀ type, (s.types.lookup? type).isSome → (s'.types.lookup? type).isSome := by
  refine yields_forM (fun _ (s' : Session) ↦ s'.classes = s.classes ∧
    ∀ type, (s.types.lookup? type).isSome → (s'.types.lookup? type).isSome) ?_ ⟨rfl, fun _ h ↦ h⟩
  rintro done d s' - ⟨hclasses, hkept⟩
  refine (yields_declareImport d s').imp ?_
  rintro _ _ ⟨rfl, -⟩
  exact ⟨hclasses, fun type htype ↦ d.isSome_lookup?_typesAfter (hkept type htype)⟩

/-- After its names are settled, the classes of a script have type names. -/
theorem yields_named (script : Script) (s : Session) : Yields (nameScript script) s fun _ s' ↦
    s'.classes = s.classes ∧
      ∀ name ∈ script.name :: script.declarations.filterMap (·.className?),
        (s'.types.lookup? (.named name)).isSome := by
  refine ensures_bind (yields_nameClass script.name s) ?_
  rintro _ s₁ ⟨hs₁, hnamed₁⟩
  refine ensures_bind (yields_nameClasses _ s₁) ?_
  rintro _ s₂ ⟨hs₂, hnamed₂⟩
  refine (yields_declareImports_kept _ s₂).imp ?_
  rintro _ s₃ ⟨hs₃, hkept⟩
  refine ⟨hs₃.trans (hs₂.trans hs₁), fun name hname ↦ hkept _ (hnamed₂ _ ?_)⟩
  obtain rfl | hname := List.mem_cons.1 hname
  · exact .inr (hnamed₁ _ (.inl rfl))
  · exact .inl ⟨name, hname, rfl⟩

/-- After its names are settled, the imports of a script are in force, if they agree. -/
theorem yields_nameScript {script : Script} (hagree : script.ImportsAgree) (s : Session) :
    Yields (nameScript script) s fun _ s' ↦
      ∀ d ∈ script.declarations, d.InForce s'.classes s'.types := by
  refine ensures_bind (yields_nameClass script.name s) fun _ s₁ _ ↦ ?_
  refine ensures_bind (yields_nameClasses _ s₁) fun _ s₂ _ ↦ ?_
  exact (yields_declareImports hagree s₂).imp fun _ _ h ↦ h

/-- What is registered of a script is installed with the types that stand in the end, and its
imports are in force then, if they agree. -/
theorem yields_installed (script : Script) (s : Session) :
    Yields (declareScript script) s fun _ s' ↦
      installed? s'.classes s'.types script.registered s.classes = some s'.classes ∧
      (script.ImportsAgree → ∀ d ∈ script.declarations, d.InForce s'.classes s'.types) := by
  obtain ⟨count, heq⟩ := declareScript_eq script
  rw [heq]
  refine ensures_bind (yields_importOptions s) fun _ s₀ hs₀ ↦ ?_
  have hforces : Yields (nameScript script) s₀ fun _ s' ↦ script.ImportsAgree →
      ∀ d ∈ script.declarations, d.InForce s'.classes s'.types := by
    by_cases hagree : script.ImportsAgree
    · exact (yields_nameScript hagree s₀).imp fun _ _ h _ ↦ h
    · exact (yields_named script s₀).imp fun _ _ _ h ↦ absurd h hagree
  refine ensures_bind (((yields_named script s₀).and hforces).mono (fun _ _ h ↦ h)
    fun _ _ _ ↦ trivial) ?_
  rintro _ s₁ ⟨⟨hs₁, hnamed⟩, hforce⟩
  -- from here on types stand for the same, and the class table grows
  refine ensures_bind (((installs_script s₁.classes hnamed).run (.refl s₁)).mono (fun _ _ h ↦ h)
    fun _ _ _ ↦ trivial) fun _ s' hs' ↦ ensures_pure ⟨?_, fun hagree d hd ↦ ?_⟩
  · have hinstalled := hs'.installed
    rw [hs₁, hs₀] at hinstalled
    rw [hs'.stands.types_eq, installed?_congr hs'.stands.reads, hs₁, hs₀]
    exact hinstalled
  · obtain ⟨_, -, hgains⟩ := ClassTable.gains_of_installed hs'.installed
    exact (hforce hagree d hd).congr hgains.classRef? fun type ↦ by rw [hs'.stands.types_eq]

/-- If its imports agree, what is registered of a script is what its definitions amount to with the
types that stand in the end. -/
theorem yields_declareScript {script : Script} (hagree : script.ImportsAgree) (s : Session) :
    Yields (declareScript script) s fun _ s' ↦
      (∃ items, script.registered.mapM (Definition.items? s'.classes s'.types) = some items ∧
        s.classes.Gains items.flatten s'.classes) ∧
      ∀ d ∈ script.declarations, d.InForce s'.classes s'.types :=
  (yields_installed script s).imp fun _ _ ⟨hinstalled, hforce⟩ ↦
    ⟨ClassTable.gains_of_installed hinstalled, hforce hagree⟩

end SessionM

/-! ### Constructors of all classes -/

/-- Each class that is defined has a constructor, which is implied or written. -/
def HaveConstructors (ds : List Definition) : Prop :=
  ∀ name ∈ ds.filterMap (·.className?),
    .implicitConstructor name ∈ ds ∨ name ∈ (Node.written ds).filterMap (·.constructorOwner?)

namespace HaveConstructors

variable {ds ds' : List Definition}

theorem nil : HaveConstructors [] := nofun

/-- What has constructors in two lists of definitions has them in both together. -/
theorem append (h : HaveConstructors ds) (h' : HaveConstructors ds') :
    HaveConstructors (ds ++ ds') := by
  intro name hname
  rw [List.filterMap_append] at hname
  rw [Node.written_append, List.filterMap_append]
  obtain hname | hname := List.mem_append.1 hname
  · exact (h name hname).imp (List.mem_append_left _) (List.mem_append_left _)
  · exact (h' name hname).imp (List.mem_append_right _) (List.mem_append_right _)

end HaveConstructors

/-- A constructor among the members of a class is one that the class defines. -/
theorem Node.mem_constructorOwners {name : String} {members : List Node}
    (h : members.any (·.isConstructorDef) = true) :
    name ∈ (written (definitionsOf { name, isStaticBody := false } members)).filterMap
      (·.constructorOwner?) := by
  induction members with
  | nil => cases h
  | cons n rest ih =>
    rw [definitionsOf, written_append, List.filterMap_append]
    cases hn : n.isConstructorDef with
    | false =>
      rw [List.any_cons, hn] at h
      exact List.mem_append_right _ (ih h)
    | true =>
      cases n with
      | constructorDef params content span =>
        rw [definitions]
        exact List.mem_append_left _ (List.mem_cons_self ..)
      | _ => cases hn

/-- Each class within a node has a constructor, which is implied or written. -/
theorem Node.haveConstructors_definitions (n : Node) (owner : Owner) :
    HaveConstructors (n.definitions owner) := by
  refine Node.definitions_induction ?nil ?append ?written ?classDecl n owner
  case nil => exact .nil
  case append => exact fun h h' ↦ h.append h'
  case written =>
    intro d hd
    have hwritten : (Definition.written d).className? = none := hd
    intro name hname
    rw [List.filterMap_cons_none hwritten] at hname
    cases hname
  case classDecl =>
    intro name superclass interfaces span members ih other hother
    obtain rfl | hother := List.mem_cons.1 hother
    · split
      · next hconstructor => exact .inr (mem_constructorOwners hconstructor)
      · exact .inl (List.mem_cons_of_mem _ (List.mem_cons_self ..))
    · -- a class further in
      rw [List.filterMap_append] at hother
      obtain hother | hother := List.mem_append.1 hother
      · split at hother <;> cases hother
      · refine (ih other hother).imp (fun h ↦ ?_) fun h ↦ ?_
        · exact List.mem_cons_of_mem _ (List.mem_append_right _ h)
        · show other ∈ (_ :: written _).filterMap Declaration.constructorOwner?
          rw [List.filterMap_cons_none rfl, written_append, List.filterMap_append]
          exact List.mem_append_right _ h

/-- Where nothing is passed over, all that is registered of a script is compiled. -/
theorem Script.mem_definitions_of_mem_registered {script : Script} (h : script.passedOver = [])
    {d : Definition} (hd : d ∈ script.registered) : d ∈ script.definitions := by
  have hwritten : ∀ d ∈ script.declarations, .written d ∈ script.bodyDefinitions := by
    intro d hd
    have hperm := script.perm_declarations
    rw [h, List.append_nil] at hperm
    obtain ⟨d', hd', heq⟩ := List.mem_filterMap.1 (hperm.mem_iff.1 hd)
    cases d' with
    | written d' =>
      obtain rfl := Option.some.inj heq
      exact hd'
    | _ => cases heq
  have hbody : ∀ d ∈ script.bodyDefinitions, d ∈ script.definitions := fun d hd ↦
    List.mem_cons_of_mem _ (List.mem_cons_of_mem _ (List.mem_cons_of_mem _ hd))
  rcases registered_cases hd with rfl | rfl | rfl | ⟨d', hd', rfl⟩ | ⟨name, hname, howner, rfl⟩
  · exact List.mem_cons_self ..
  · exact List.mem_cons_of_mem _ (List.mem_cons_self ..)
  · exact List.mem_cons_of_mem _ (List.mem_cons_of_mem _ (List.mem_cons_self ..))
  · exact hbody _ (hwritten d' hd')
  · -- no constructor of the class is declared, so one is implied
    obtain ⟨d', hd', hclass⟩ := List.mem_filterMap.1 hname
    have hname : name ∈ script.bodyDefinitions.filterMap (·.className?) :=
      List.mem_filterMap.2 ⟨_, hwritten d' hd', hclass⟩
    refine hbody _ ((script.body.haveConstructors_definitions _ name hname).resolve_right
      fun h ↦ ?_)
    obtain ⟨d, hd, hconstructor⟩ := List.mem_filterMap.1 h
    refine howner (List.mem_filterMap.2 ⟨d, ?_, hconstructor⟩)
    exact script.perm_declarations.mem_iff.2 (List.mem_append_left _ hd)

/-- What is compiled of a script was registered, if it is written and no import. -/
theorem Script.mem_registered_of_mem_written {script : Script} {d : Declaration}
    (hd : d ∈ Node.written script.definitions) (himport : d.importPart = []) :
    .written d ∈ script.registered := by
  have hmem : .written d ∈ script.registered ++ script.declarations.flatMap (·.importPart) := by
    rw [script.perm_registered.mem_iff]
    obtain rfl | hd := Script.eq_or_mem_of_mem_written hd
    · exact List.mem_cons_self ..
    · refine List.mem_cons_of_mem _ (List.mem_cons_of_mem _ (List.mem_cons_of_mem _ ?_))
      exact List.mem_append_left _ (List.mem_map_of_mem hd)
  refine (List.mem_append.1 hmem).resolve_right fun hmem ↦ ?_
  obtain ⟨d', -, hmem⟩ := List.mem_flatMap.1 hmem
  cases d' with
  | importDecl =>
    obtain rfl := Definition.written.inj (List.mem_singleton.1 hmem)
    cases himport
  | _ => cases hmem

/-! ### Units -/

/-- Where the imports of a script are in force, its unit has what its definitions amount to with the
types that stand after it was declared. -/
theorem SessionM.CompiledFrom.items_of_inForce {c : Compiler} {script : Script} {s : Session}
    {unit : UnitCode} (h : CompiledFrom c script s unit)
    (hforce : ∀ d ∈ script.declarations, d.InForce s.classes s.types) :
    ∃ items, script.definitions.mapM (Definition.items? s.classes s.types) = some items ∧
      unit.items.Perm items.flatten := by
  have hwritten : ∀ d ∈ Node.written script.definitions, d.InForce s.classes s.types := by
    intro d hd
    obtain rfl | hd := Script.eq_or_mem_of_mem_written hd
    · exact nofun
    · exact hforce d hd
  obtain ⟨items, hitems, hperm⟩ := h.items
  rw [itemsOf?_of_inForce (fun _ ↦ rfl) hwritten] at hitems
  obtain ⟨compiled, hcompiled, rfl⟩ := Option.map_eq_some_iff.1 hitems
  exact ⟨compiled, hcompiled, hperm⟩

namespace Compiler

/-- If the imports of a script agree, what was registered and what was compiled are what the
definitions of the script amount to with the types that stand after it was declared, and all written
definitions that were compiled are among those registered. So where nothing is passed over, a call
names a member of the host or a method that the unit has. -/
theorem registered_of_compile {c : Compiler} {root : Node} {script : Script} {unit : UnitCode}
    (hscript : root.script? = some script) (hagree : script.ImportsAgree)
    (h : c.compile root = .ok unit) :
    ∃ count s, SessionM.declareScript script c.start = .ok count s ∧
      (∃ items, script.registered.mapM (Definition.items? s.classes s.types) = some items ∧
        c.classes.Gains items.flatten s.classes) ∧
      (∃ items, script.definitions.mapM (Definition.items? s.classes s.types) = some items ∧
        unit.items.Perm items.flatten) ∧
      (∀ d ∈ Node.written script.definitions, d.importPart = [] →
        .written d ∈ script.registered) ∧
      (script.passedOver = [] → ∀ receiver name args isStatic span m,
        s.classes.resolve receiver name args isStatic span = .ok m →
          (∃ e ∈ c.classes.classes, m ∈ e.members) ∨
          ∃ code ∈ unit.classes, ∃ method ∈ code.methods, method.member code.name = m) := by
  obtain ⟨count, s, hdeclare, hcompiled⟩ := compiledFrom_of_compile hscript h
  obtain ⟨⟨registered, hregistered, hgains⟩, hforce⟩ :=
    (SessionM.yields_declareScript hagree c.start).of_ok hdeclare
  obtain ⟨compiled, hcompiled, hperm⟩ := hcompiled.items_of_inForce hforce
  refine ⟨count, s, hdeclare, ⟨registered, hregistered, hgains⟩, ⟨compiled, hcompiled, hperm⟩,
    fun d hd himport ↦ Script.mem_registered_of_mem_written hd himport,
    fun hpassed receiver name args isStatic span m hm ↦ ?_⟩
  obtain ⟨e, he, hmem⟩ := ClassTable.mem_members_of_resolve hm
  have hknown : .ofMember m ∈ s.classes.items :=
    List.mem_flatMap.2 ⟨e, he, List.mem_cons_of_mem _ (List.mem_map_of_mem hmem)⟩
  -- A member that resolves is in the table: the host has put it there, or the script has.
  rcases (hgains.mem_items _).1 hknown with hhost | hscript
  · left
    obtain ⟨e, he, hitem⟩ := List.mem_flatMap.1 hhost
    obtain hitem | hitem := List.mem_cons.1 hitem
    · cases hitem
    · obtain ⟨m', hm', heq⟩ := List.mem_map.1 hitem
      exact ⟨e, he, Item.ofMember.inj heq ▸ hm'⟩
  · right
    obtain ⟨items, hitems, hitem⟩ := List.mem_flatten.1 hscript
    -- What the script has registered it also compiles, since nothing is passed over.
    obtain ⟨d, hd, hdefines⟩ := (mem_of_mapM_eq_some hregistered).1 hitems
    have hcompiles := (mem_of_mapM_eq_some hcompiled).2
      ⟨d, Script.mem_definitions_of_mem_registered hpassed hd, hdefines⟩
    have hunit := hperm.mem_iff.2 (List.mem_flatten.2 ⟨items, hcompiles, hitem⟩)
    obtain ⟨code, hcode, hitem⟩ := List.mem_flatMap.1 hunit
    obtain hitem | hitem := List.mem_cons.1 hitem
    · cases hitem
    · obtain ⟨method, hmethod, heq⟩ := List.mem_map.1 hitem
      exact ⟨code, hcode, method, hmethod, Item.ofMember.inj heq⟩

/-- A script that uses an import before and after it is made. -/
def importing : Script where
  name := "Importing"
  body :=
    let int := SourceType.named "int"
    .sequence
      [.selfCall "run" [.literal .null (.named "Task") {}] int {},
        .methodDef "run" [⟨"task", .named "Task", {}⟩] int (.int 1) false {},
        .importDef "java.lang.Runnable" (some "Task") {},
        .classDef "Worker" (some "Object") ["Task"] [] {}]

theorem registered_of_compile_importing : ∃ count s unit,
    SessionM.declareScript importing (Compiler.start {}) = .ok count s ∧
    Compiler.compile {} (.script importing.name importing.body importing.span) = .ok unit ∧
    (∃ items, importing.registered.mapM (Definition.items? s.classes s.types) = some items ∧
      ({} : Compiler).classes.Gains items.flatten s.classes) ∧
    (∃ items, importing.definitions.mapM (Definition.items? s.classes s.types) = some items ∧
      unit.items.Perm items.flatten) ∧
    (∀ d ∈ Node.written importing.definitions, d.importPart = [] →
      .written d ∈ importing.registered) ∧
    ∀ receiver name args isStatic span m,
      s.classes.resolve receiver name args isStatic span = .ok m →
        (∃ e ∈ ({} : Compiler).classes.classes, m ∈ e.members) ∨
        ∃ code ∈ unit.classes, ∃ method ∈ code.methods, method.member code.name = m := by
  have hcompiles : (Compiler.compile {}
      (.script importing.name importing.body importing.span)).toOption.isSome = true := by
    decide +kernel
  obtain ⟨unit, hcompile⟩ := exists_eq_ok_of_isSome hcompiles
  obtain ⟨count, s, hdeclare, hgains, hcompiled, hregistered, hresolves⟩ :=
    registered_of_compile rfl (by decide) hcompile
  exact ⟨count, s, unit, hdeclare, hcompile, hgains, hcompiled, hregistered, hresolves rfl⟩

/-- A script that imports two classes under one name, and has a method between the imports. -/
def reimporting : Script where
  name := "Reimporting"
  body :=
    let int := SourceType.named "int"
    .sequence
      [.importDef "java.lang.Runnable" (some "T") {},
        .methodDef "f" [⟨"x", .named "T", {}⟩] int (.int 1) false {},
        .importDef "java.lang.Comparable" (some "T") {},
        .selfCall "f" [.literal .null (.named "T") {}] int {}]

/-- The method as it is registered, with the class imported last. -/
def reimported : Member :=
  { owner := { name := "Reimporting" }, name := "f"
    params := [.ref { name := "java.lang.Comparable", isInterface := true }], returnType := .int
    flags := { isStatic := true } }

/-- It is compiled with the class imported first, so the unit does not have the method that was
registered. -/
theorem notMem_items_reimporting : ∃ count s unit,
    SessionM.declareScript reimporting (Compiler.start {}) = .ok count s ∧
    Compiler.compile {} (.script reimporting.name reimporting.body reimporting.span) = .ok unit ∧
    .ofMember reimported ∈ s.classes.items ∧ .ofMember reimported ∉ unit.items := by
  have hregisters : (match SessionM.declareScript reimporting (Compiler.start {}) with
      | .ok _ s => s.classes.items.contains (.ofMember reimported)
      | .error _ _ => false) = true := by decide +kernel
  have hcompiles : (Compiler.compile {}
      (.script reimporting.name reimporting.body reimporting.span)).toOption.any
      (!·.items.contains (.ofMember reimported)) = true := by decide +kernel
  cases hdeclare : SessionM.declareScript reimporting (Compiler.start {}) with
  | error e s =>
    rw [hdeclare] at hregisters
    cases hregisters
  | ok count s =>
    rw [hdeclare] at hregisters
    obtain ⟨unit, hcompile, hunit⟩ := exists_eq_ok_of_any hcompiles
    refine ⟨count, s, unit, rfl, hcompile, List.contains_iff_mem.1 hregisters, fun hmem ↦ ?_⟩
    rw [List.contains_iff_mem.2 hmem] at hunit
    cases hunit

end Compiler

end ScriptBytecode

import ScriptBytecode.Proofs.Classes.Members
import ScriptBytecode.Proofs.Defined.Registered
import ScriptBytecode.Proofs.Moving.Additions
import ScriptBytecode.Source.All

/-!
# Declaring in another order

A script without imports may declare its classes and members in any order: it can be declared in one
order if it can in another, and the sessions in which it was declared are alike.

* `Script.DeclaresAlike` says of two scripts that they declare the same in another order;
* `Script.registeredClasses` and `Script.registeredMembers` are what is entered, in two steps;
* `declareScript_alike` says that both scripts can be declared or neither, in sessions that are
  alike.

**Classes before members.** A class is refused if a supertype is not known by name or if it closes a
cycle, and a member if its owner is not there or its signature is taken. Neither depends on the
order within its own pass, and no member is entered before all classes are (`Script.registered_eq`).
So each of the two passes is permuted by itself.

**Alike, not equal.** The tables that come of two orders have the same entries in different orders.
They answer all questions that compilation asks in the same way, up to the words of errors, and this
is what `declareScript_alike` yields.

Imports are excluded from the start: they change type names in the order in which they are declared.
-/

namespace ScriptBytecode

/-! ### Scripts without imports -/

/-- A node is no import. -/
def Node.isNoImport : Node → Bool
  | importDef .. => false
  | _ => true

/-- A declaration is no import. -/
def Declaration.isNoImport : Declaration → Bool
  | importDecl .. => false
  | _ => true

/-- Where no node is an import, no import is declared. -/
theorem Node.isNoImport_declarations {n : Node} (hn : n.all isNoImport = true) {owner : Owner}
    {d : Declaration} (hd : d ∈ n.declarations owner) : d.isNoImport = true := by
  have honly : DeclaresOnly isNoImport (fun _ ↦ True) (·.isNoImport = true) :=
    ⟨fun _ ↦ ⟨trivial, rfl⟩, fun _ _ ↦ rfl, fun _ _ ↦ rfl, fun hn ↦ by cases hn⟩
  exact honly.of_mem hn trivial hd

/-! ### What type names stand for -/

namespace TypeTable

/-- The table with classes entered under their names. -/
def withClasses (t : TypeTable) (names : List String) : TypeTable :=
  names.foldl (fun t name ↦ t.insertClass name (.ofClass name)) t

/-- Named classes stand for themselves, all else for what it did. -/
theorem lookup?_withClasses (t : TypeTable) (names : List String) (type : SourceType) :
    (t.withClasses names).lookup? type =
      if type.name ∈ names ∧ type.isArray = false then some (.ofClass type.name)
      else t.lookup? type :=
  lookup?_foldl_insertClass (fun name ↦ .ofClass name) names t type

/-- A named class has a type name. -/
theorem isSome_lookup?_withClasses (t : TypeTable) {names : List String} {name : String}
    (h : name ∈ names) : ((t.withClasses names).lookup? (.named name)).isSome = true := by
  rw [lookup?_withClasses, if_pos ⟨h, rfl⟩]
  rfl

/-- The order of the names does not matter. -/
theorem lookup?_withClasses_perm (t : TypeTable) {names names' : List String}
    (h : names.Perm names') (type : SourceType) :
    (t.withClasses names).lookup? type = (t.withClasses names').lookup? type := by
  simp only [lookup?_withClasses, h.mem_iff]

end TypeTable

/-- The session in which type names stand for the classes that a script declares. -/
def Session.named (s : Session) (script : Script) : Session :=
  { s with
    types := s.types.withClasses (script.name :: script.declarations.filterMap (·.className?)) }

namespace SessionM

/-- To name classes changes the type table alone. -/
theorem forM_nameClass (names : List String) (s : Session) :
    names.forM nameClass s = .ok ⟨⟩ { s with types := s.types.withClasses names } := by
  induction names generalizing s with
  | nil => rfl
  | cons name names ih => exact ih { s with types := s.types.insertClass name (.ofClass name) }

/-- Where nothing is imported, imports change nothing. -/
theorem forM_declareImport {decls : List Declaration} (h : ∀ d ∈ decls, d.isNoImport = true)
    (s : Session) : decls.forM declareImport s = .ok ⟨⟩ s := by
  induction decls with
  | nil => rfl
  | cons d decls ih =>
    have hrest := ih fun d hd ↦ h d (List.mem_cons_of_mem _ hd)
    cases d with
    | importDecl full asName span => cases h _ (List.mem_cons_self ..)
    | _ => exact hrest

/-- Without imports, only the classes of a script get type names. -/
theorem nameScript_eq {script : Script} (h : ∀ d ∈ script.declarations, d.isNoImport = true)
    (s : Session) : nameScript script s = .ok ⟨⟩ (s.named script) := by
  refine (bind_eq_of_ok (forM_nameClass (script.declarations.filterMap (·.className?))
    { s with types := s.types.insertClass script.name (.ofClass script.name) })).trans ?_
  exact forM_declareImport h _

end SessionM

/-! ### Installing in another order -/

namespace Item

/-- The class that an item is, if it is one. -/
def class? : Item → Option ClassEntry
  | ofClass e => some e
  | ofMember _ => none

end Item

namespace Definition

variable {classes : ClassTable} {types : TypeTable} {d : Definition} {items : List Item} {i : Item}

/-- A class amounts to a class, and all else to members. -/
theorem isSome_class?_of_items? (h : d.items? classes types = some items) (hi : i ∈ items) :
    i.class?.isSome = d.className?.isSome ∧ i.member?.isSome = d.className?.isNone := by
  cases d with
  | implicitConstructor owner | main owner =>
    obtain rfl := Option.some.inj h
    obtain rfl := List.mem_singleton.1 hi
    exact ⟨rfl, rfl⟩
  | written d =>
    cases d with
    | importDecl full asName span =>
      obtain rfl := Option.some.inj h
      cases hi
    | classDecl name superclass interfaces span =>
      obtain ⟨superclass, -, h⟩ := Option.bind_eq_some_iff.1 h
      obtain ⟨interfaces, -, h⟩ := Option.bind_eq_some_iff.1 h
      obtain rfl := Option.some.inj h
      obtain rfl := List.mem_singleton.1 hi
      exact ⟨rfl, rfl⟩
    | methodDecl owner name params returnType isStatic span =>
      obtain ⟨params, -, h⟩ := Option.bind_eq_some_iff.1 h
      obtain ⟨returnType, -, h⟩ := Option.bind_eq_some_iff.1 h
      obtain rfl := Option.some.inj h
      obtain rfl := List.mem_singleton.1 hi
      exact ⟨rfl, rfl⟩
    | constructorDecl owner params span =>
      obtain ⟨params, -, h⟩ := Option.bind_eq_some_iff.1 h
      obtain rfl := Option.some.inj h
      obtain rfl := List.mem_singleton.1 hi
      exact ⟨rfl, rfl⟩

end Definition

/-- Partial results of a list in another order. -/
theorem exists_mapM_of_perm {α β : Type} {f : α → Option β} {as as' : List α} (h : as.Perm as')
    {bs : List β} (hbs : as.mapM f = some bs) : ∃ bs', as'.mapM f = some bs' ∧ bs.Perm bs' := by
  have hcons : ∀ {a as} {bs : List β}, (a :: as).mapM f = some bs ↔
      ∃ b rest, f a = some b ∧ as.mapM f = some rest ∧ bs = b :: rest := by
    intro a as bs
    rw [List.mapM_cons]
    constructor
    · intro h
      obtain ⟨b, hb, h⟩ := Option.bind_eq_some_iff.1 h
      obtain ⟨rest, hrest, h⟩ := Option.bind_eq_some_iff.1 h
      exact ⟨b, rest, hb, hrest, (Option.some.inj h).symm⟩
    · rintro ⟨b, rest, hb, hrest, rfl⟩
      rw [hb, hrest]
      rfl
  induction h generalizing bs with
  | nil => exact ⟨bs, hbs, .refl _⟩
  | cons a _ ih =>
    obtain ⟨b, rest, hb, hrest, rfl⟩ := hcons.1 hbs
    obtain ⟨rest', hrest', hperm⟩ := ih hrest
    exact ⟨b :: rest', hcons.2 ⟨b, rest', hb, hrest', rfl⟩, hperm.cons b⟩
  | swap a a' as =>
    obtain ⟨b, _, hb, hfirst, rfl⟩ := hcons.1 hbs
    obtain ⟨b', rest, hb', hrest, rfl⟩ := hcons.1 hfirst
    exact ⟨_, hcons.2 ⟨b', _, hb', hcons.2 ⟨b, rest, hb, hrest, rfl⟩, rfl⟩, .swap ..⟩
  | trans _ _ ih ih' =>
    obtain ⟨bs', hbs', hperm⟩ := ih hbs
    obtain ⟨bs'', hbs'', hperm'⟩ := ih' hbs'
    exact ⟨bs'', hbs'', hperm.trans hperm'⟩

section Installing

variable {classes : ClassTable} {types : TypeTable} {ds ds' : List Definition} {t t' u : ClassTable}

/-- Items of one kind are installed by the operation for that kind. -/
theorem foldlM_install {β : Type} {part : Item → Option β}
    {add : ClassTable → β → Except RegistrationError ClassTable}
    (hadd : ∀ t i b, part i = some b → t.install i = add t b) {items : List Item}
    (hitems : ∀ i ∈ items, (part i).isSome = true) (t : ClassTable) :
    items.foldlM ClassTable.install t = (items.filterMap part).foldlM add t := by
  induction items generalizing t with
  | nil => rfl
  | cons i items ih =>
    obtain ⟨b, hb⟩ := Option.isSome_iff_exists.1 (hitems i (List.mem_cons_self ..))
    rw [List.filterMap_cons_some hb, List.foldlM_cons, List.foldlM_cons, hadd t i b hb]
    exact congrArg (add t b >>= ·) (funext (ih fun i hi ↦ hitems i (List.mem_cons_of_mem _ hi)))

/-- Definitions are installed by mapping all of them and then entering all items in turn. -/
theorem installed?_eq_some_iff : installed? classes types ds t = some u ↔
    ∃ items, ds.mapM (Definition.items? classes types) = some items ∧
      items.flatten.foldlM ClassTable.install t = .ok u := by
  unfold installed?
  rw [Option.bind_eq_bind, Option.bind_eq_some_iff]
  refine exists_congr fun items ↦ and_congr_right fun _ ↦ ?_
  cases items.flatten.foldlM ClassTable.install t <;> simp [Except.toOption]

/-- The items of definitions all come from the definitions. -/
theorem exists_of_mem_flatten {items : List (List Item)}
    (h : ds.mapM (Definition.items? classes types) = some items) {i : Item}
    (hi : i ∈ items.flatten) :
    ∃ d ∈ ds, i.class?.isSome = d.className?.isSome ∧ i.member?.isSome = d.className?.isNone := by
  obtain ⟨is, his, hi⟩ := List.mem_flatten.1 hi
  obtain ⟨d, hd, hitems⟩ := (mem_of_mapM_eq_some h).1 his
  exact ⟨d, hd, Definition.isSome_class?_of_items? hitems hi⟩

/-- Classes can be installed in any order. -/
theorem installed?_classes_perm (hds : ∀ d ∈ ds, d.className?.isSome = true)
    (hperm : ds.Perm ds') (hclosed : t.hierarchy.Closed)
    (h : installed? classes types ds t = some u) :
    ∃ u', installed? classes types ds' t = some u' ∧ u.Reorders u' := by
  obtain ⟨items, hitems, hfold⟩ := installed?_eq_some_iff.1 h
  obtain ⟨items', hitems', hpermuted⟩ := exists_mapM_of_perm hperm hitems
  have hadd : ∀ (t : ClassTable) i e, Item.class? i = some e → t.install i = t.register e := by
    intro t i e hi
    cases i with
    | ofClass e' =>
      obtain rfl := Option.some.inj hi
      rfl
    | ofMember m => cases hi
  have hall : ∀ i ∈ items.flatten, i.class?.isSome = true := fun i hi ↦ by
    obtain ⟨d, hd, hclass, -⟩ := exists_of_mem_flatten hitems hi
    rw [hclass]
    exact hds d hd
  have hflatten := hpermuted.flatten
  rw [foldlM_install hadd hall] at hfold
  obtain ⟨u', hfold', hreorders, -⟩ :=
    ClassTable.register_perm (hflatten.filterMap Item.class?) hclosed hfold
  refine ⟨u', installed?_eq_some_iff.2 ⟨items', hitems', ?_⟩, hreorders⟩
  rw [foldlM_install hadd fun i hi ↦ hall i (hflatten.mem_iff.2 hi)]
  exact hfold'

/-- Members can be installed in any order. -/
theorem installed?_members_perm (hds : ∀ d ∈ ds, d.className? = none)
    (hperm : ds.Perm ds') (ht : t.Reorders t') (h : installed? classes types ds t = some u) :
    ∃ u', installed? classes types ds' t' = some u' ∧ u.Shuffles u' := by
  obtain ⟨items, hitems, hfold⟩ := installed?_eq_some_iff.1 h
  obtain ⟨items', hitems', hpermuted⟩ := exists_mapM_of_perm hperm hitems
  have hadd : ∀ (t : ClassTable) i m, Item.member? i = some m → t.install i = t.addMember m := by
    intro t i m hi
    cases i with
    | ofClass e => cases hi
    | ofMember m' =>
      obtain rfl := Option.some.inj hi
      rfl
  have hall : ∀ i ∈ items.flatten, i.member?.isSome = true := fun i hi ↦ by
    obtain ⟨d, hd, -, hmember⟩ := exists_of_mem_flatten hitems hi
    rw [hmember, hds d hd]
    rfl
  have hflatten := hpermuted.flatten
  rw [foldlM_install hadd hall] at hfold
  obtain ⟨u', hfold', hshuffles⟩ :=
    ClassTable.addMember_perm ht (hflatten.filterMap Item.member?) hfold
  refine ⟨u', installed?_eq_some_iff.2 ⟨items', hitems', ?_⟩, hshuffles⟩
  rw [foldlM_install hadd fun i hi ↦ hall i (hflatten.mem_iff.2 hi)]
  exact hfold'

end Installing

/-! ### Declaring in another order -/

namespace Script

/-- The classes that are registered of a script, its own first. -/
def registeredClasses (script : Script) : List Definition :=
  .written (.classDecl script.name none [] script.span) ::
    script.declarations.flatMap (·.classPart)

/-- The methods and constructors that are registered of a script, in order. -/
def registeredMembers (script : Script) : List Definition :=
  .main script.name :: (script.declarations.flatMap (·.methodPart) ++
    (script.declarations.flatMap (·.constructorPart) ++ .implicitConstructor script.name ::
      script.declarations.flatMap
        (·.defaultPart (script.declarations.filterMap (·.constructorOwner?)))))

/-- Classes are registered before members. -/
theorem registered_eq (script : Script) :
    script.registered = script.registeredClasses ++ script.registeredMembers := by
  simp [registered, registeredClasses, registeredMembers]

/-- The scripts declare the same, in another order at most, and no imports. -/
structure DeclaresAlike (script script' : Script) : Prop where
  name : script.name = script'.name
  span : script.span = script'.span
  declarations : script.declarations.Perm script'.declarations
  noImports : ∀ d ∈ script.declarations, d.isNoImport = true

namespace DeclaresAlike

variable {script script' : Script}

/-- Scripts that declare alike register the same classes, -/
theorem registeredClasses_perm (h : script.DeclaresAlike script') :
    script.registeredClasses.Perm script'.registeredClasses := by
  unfold registeredClasses
  rw [h.name, h.span]
  exact (h.declarations.flatMap_right _).cons _

/-- and the same members. -/
theorem registeredMembers_perm (h : script.DeclaresAlike script') :
    script.registeredMembers.Perm script'.registeredMembers := by
  have hdefault : Declaration.defaultPart (script.declarations.filterMap (·.constructorOwner?)) =
      Declaration.defaultPart (script'.declarations.filterMap (·.constructorOwner?)) := by
    funext d
    cases d with
    | classDecl name superclass interfaces span =>
      have howners := (h.declarations.filterMap (·.constructorOwner?)).contains_eq (a := name)
      simp only [Declaration.defaultPart, howners]
    | _ => rfl
  unfold registeredMembers
  rw [h.name, hdefault]
  refine List.Perm.cons _ ((h.declarations.flatMap_right _).append ?_)
  exact (h.declarations.flatMap_right _).append ((h.declarations.flatMap_right _).cons _)

end DeclaresAlike

theorem isSome_className?_of_registeredClasses {script : Script} :
    ∀ d ∈ script.registeredClasses, d.className?.isSome = true := by
  intro d hd
  obtain rfl | hd := List.mem_cons.1 hd
  · rfl
  · obtain ⟨d', -, hd⟩ := List.mem_flatMap.1 hd
    cases d' with
    | classDecl name superclass interfaces span =>
      obtain rfl := List.mem_singleton.1 hd
      rfl
    | _ => cases hd

theorem className?_of_registeredMembers {script : Script} :
    ∀ d ∈ script.registeredMembers, d.className? = none := by
  intro d hd
  unfold registeredMembers at hd
  simp only [List.mem_cons, List.mem_append] at hd
  rcases hd with rfl | hd | hd | rfl | hd
  · rfl
  · obtain ⟨d', -, hd⟩ := List.mem_flatMap.1 hd
    cases d' with
    | methodDecl =>
      obtain rfl := List.mem_singleton.1 hd
      rfl
    | _ => cases hd
  · obtain ⟨d', -, hd⟩ := List.mem_flatMap.1 hd
    cases d' with
    | constructorDecl =>
      obtain rfl := List.mem_singleton.1 hd
      rfl
    | _ => cases hd
  · rfl
  · obtain ⟨d', -, hd⟩ := List.mem_flatMap.1 hd
    cases d' with
    | classDecl name superclass interfaces span =>
      replace hd : d ∈ (if (script.declarations.filterMap (·.constructorOwner?)).contains name
        then [] else [Definition.implicitConstructor name]) := hd
      split at hd
      · cases hd
      · obtain rfl := List.mem_singleton.1 hd
        rfl
    | _ => cases hd

/-- What a script declares can be installed in any order. -/
theorem DeclaresAlike.installed? {script script' : Script} (h : script.DeclaresAlike script')
    {classes t u : ClassTable} {types : TypeTable} (hclosed : t.hierarchy.Closed)
    (hu : ScriptBytecode.installed? classes types script.registered t = some u) :
    ∃ u', ScriptBytecode.installed? classes types script'.registered t = some u' ∧
      u.Shuffles u' := by
  rw [registered_eq, installed?_append] at hu
  obtain ⟨v, hv, hu⟩ := Option.bind_eq_some_iff.1 hu
  obtain ⟨v', hv', hreorders⟩ := installed?_classes_perm isSome_className?_of_registeredClasses
    h.registeredClasses_perm hclosed hv
  obtain ⟨u', hu', hshuffles⟩ := installed?_members_perm className?_of_registeredMembers
    h.registeredMembers_perm hreorders hu
  refine ⟨u', ?_, hshuffles⟩
  rw [registered_eq, installed?_append, hv']
  exact hu'

end Script

namespace SessionM

/-- Once its classes are named, what a script declares is installed. -/
theorem installs_named (s : Session) (script : Script) :
    Installs s.classes (s.named script).types (installScript script) script.registered :=
  installs_script s.classes fun _ hname ↦ s.types.isSome_lookup?_withClasses hname

/-- Scripts that declare the same in another order are declared alike: if one of them can be
declared, so can the other, and then the sessions are alike. -/
theorem declareScript_alike {script script' : Script} (h : script.DeclaresAlike script')
    {s u : Session} {count : DeclarationCount} (hclosed : s.classes.hierarchy.Closed)
    (hu : declareScript script s = .ok count u) :
    ∃ count' u', declareScript script' s = .ok count' u' ∧ u.ReadsAlike u' := by
  have hnoImports' : ∀ d ∈ script'.declarations, d.isNoImport = true := fun d hd ↦
    h.noImports d (h.declarations.mem_iff.2 hd)
  obtain ⟨count, heq⟩ := declareScript_eq script
  obtain ⟨count', heq'⟩ := declareScript_eq script'
  rw [heq] at hu
  obtain ⟨_, s₀, hoptions, hu⟩ := exists_of_bind_eq_ok hu
  obtain ⟨_, s₁, hname, hu⟩ := exists_of_bind_eq_ok hu
  obtain ⟨_, s₂, hinstall, hu⟩ := exists_of_bind_eq_ok hu
  cases hu
  rw [nameScript_eq h.noImports] at hname
  cases hname
  have hname' := nameScript_eq hnoImports' s₀
  -- types stand for the same, whatever the order of the classes
  have htypes : ∀ type, (s₀.named script).types.lookup? type =
      (s₀.named script').types.lookup? type := by
    refine s₀.types.lookup?_withClasses_perm ?_
    rw [← h.name]
    exact (h.declarations.filterMap _).cons _
  have hclosed₀ : (s₀.named script).classes.hierarchy.Closed := by
    have hclasses : s₀.classes = s.classes := (yields_importOptions s).of_ok hoptions
    rw [← hclasses] at hclosed
    exact hclosed
  have hinstalled := ((installs_named s₀ script).run (.refl (s₀.named script))).of_ok hinstall
  obtain ⟨classes, hclasses', hshuffles⟩ := h.installed? hclosed₀ hinstalled.installed
  rw [installed?_congr (TypeTable.resolve?_congr htypes fun _ _ ↦ rfl)] at hclasses'
  obtain ⟨_, u', hinstall', hinstalled', rfl⟩ :=
    (installs_named s₀ script').exists_ok (.refl (s₀.named script')) hclasses'
  refine ⟨count', u', ?_, ?_⟩
  · rw [heq', bind_eq_of_ok hoptions, bind_eq_of_ok hname', bind_eq_of_ok hinstall']
    rfl
  · have hsame : u.scopes = u'.scopes ∧ u.options = u'.options := by
      rw [hinstalled.session, hinstalled'.session]
      exact ⟨rfl, rfl⟩
    refine ⟨fun type ↦ ?_, hshuffles.classRef?, fun source target ↦ ?_,
      hshuffles.resolvesAlike, congrArg Scopes.outline hsame.1, congrArg Options.epilogue hsame.2⟩
    · rw [hinstalled.stands.types_eq, hinstalled'.stands.types_eq]
      exact htypes type
    · rw [hshuffles.conversion?]

end SessionM

end ScriptBytecode

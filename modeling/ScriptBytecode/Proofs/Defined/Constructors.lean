import Mathlib.Data.List.Flatten
import Mathlib.Data.List.Perm.Subperm
import ScriptBytecode.Proofs.Moving.Declarations

/-!
# One constructor for each signature

Two places decide whether a class has a constructor. When a script is declared, a class gets one
without parameters if no constructor belongs to it, wherever within the class constructors stand.
When it is compiled, the class gets one if there is none among its members. The two agree for
scripts in which every class that a constructor belongs to has one among its members, and then all
that is compiled was registered, and at least as often (`Script.subperm_registered`). Since no two
members of one signature can be registered, no class of the unit has two methods of one name and
with the same parameters.

A constructor that stands further in is found by the one and missed by the other: its class then has
a constructor that was not registered, which may have the same parameters.

The result is `Compiler.constructors_of_compile`, under `Script.ConstructsDirectly`;
`Compiler.not_nodup_constructingWithin` shows a class that ends up with two constructors.

* `Definition.isConstructor_of_items?` is about single definitions;
* `Compiler.constructors_of_compile` is about units, and `not_nodup_constructingWithin` about a
  class with a constructor within a method.

**Two hypotheses, for two parts.** That what is compiled was registered needs that constructors
stand directly in their classes, and nothing else. That no two methods of a class have the same name
and parameters needs more: registering compares signatures with the types that stand in the end, and
compiling looks types up on the way, so imports have to agree (`Script.ImportsAgree`); and a method
under the name that is reserved for constructors would be told apart from them by nothing
(`Script.NamesMethods`).

**Signatures.** Registering refuses a repeated fingerprint. Members with one owner, name and list of
parameters have one fingerprint, whatever is returned, so different fingerprints are enough
(`nodup_keys`); that different signatures might collide is of no consequence here.
-/

namespace ScriptBytecode

/-! ### Owners of constructors -/

/-- A constructor belongs to a class that is declared. -/
theorem Node.mem_classNames_of_owner (n : Node) (owner : Owner) :
    ∀ name ∈ (n.declarations owner).filterMap (·.constructorOwner?),
      name ∈ (n.declarations owner).filterMap (·.className?) ∨
        name = owner.name ∧ owner.isStaticBody = false := by
  refine Node.declarations_induction (p := fun _ ↦ true)
    (P := fun owner ds ↦ ∀ name ∈ ds.filterMap Declaration.constructorOwner?,
      name ∈ ds.filterMap Declaration.className? ∨ name = owner.name ∧ owner.isStaticBody = false)
    ?nil ?append ?ofClass ?ofMethod ?ofConstructor ?ofImport n (all_of_forall (fun _ ↦ rfl) n) owner
  case nil => exact fun _ ↦ nofun
  case append =>
    intro owner ds ds' h h' name hname
    rw [List.filterMap_append] at hname ⊢
    obtain hname | hname := List.mem_append.1 hname
    · exact (h name hname).imp_left (List.mem_append_left _)
    · exact (h' name hname).imp_left (List.mem_append_right _)
  case ofClass =>
    -- a constructor right in the class belongs to it, and the class is declared
    intro owner name superclass interfaces members span _ hmembers other hother
    obtain hother | ⟨rfl, -⟩ := hmembers other hother
    · exact .inl (List.mem_cons_of_mem _ hother)
    · exact .inl (List.mem_cons_self ..)
  case ofMethod => exact fun _ _ _ _ _ _ _ ↦ nofun
  case ofConstructor =>
    intro owner params content span hbody _ name hname
    obtain rfl := List.mem_singleton.1 hname
    exact .inr ⟨rfl, hbody⟩
  case ofImport => exact fun _ _ _ _ ↦ nofun

namespace Script

variable (script : Script)

/-- Each class that a constructor belongs to has one among its members. -/
def ConstructsDirectly : Prop :=
  script.body.all (fun
    | .classDef name _ _ members _ =>
      !script.constructorOwners.contains name || members.any (·.isConstructorDef)
    | _ => true) = true

instance : Decidable script.ConstructsDirectly := inferInstanceAs (Decidable (_ = true))

end Script

/-! ### What is implied of a class -/

/-- The definitions are what is written among them and constructors that are implied, each for
another one of the classes that they define, and for none of the owners. -/
def ImpliesApart (owners : List String) (ds : List Definition) : Prop :=
  ∃ names : List String,
    names.Sublist ((ds.filterMap (·.className?)).filter (!owners.contains ·)) ∧
    ds.Perm ((Node.written ds).map .written ++ names.map .implicitConstructor)

namespace ImpliesApart

variable {owners : List String} {ds ds' : List Definition}

theorem nil : ImpliesApart owners [] := ⟨[], .refl _, .refl _⟩

/-- What is implied by two lists of definitions is implied by them together. -/
theorem append (h : ImpliesApart owners ds) (h' : ImpliesApart owners ds') :
    ImpliesApart owners (ds ++ ds') := by
  obtain ⟨names, hsub, hperm⟩ := h
  obtain ⟨names', hsub', hperm'⟩ := h'
  refine ⟨names ++ names', ?_, ?_⟩
  · rw [List.filterMap_append, List.filter_append]
    exact hsub.append hsub'
  · rw [Node.written_append, List.map_append, List.map_append]
    exact Node.perm_append_append hperm hperm'

end ImpliesApart

/-- Where constructors are direct, constructors are implied of no class that one belongs to. -/
theorem Script.impliesApart {script : Script} (h : script.ConstructsDirectly) :
    ImpliesApart script.constructorOwners script.bodyDefinitions := by
  refine Node.definitions_induction_of_all (P := ImpliesApart script.constructorOwners)
    ?nil ?append ?written ?classDecl script.body h { name := script.name, isStaticBody := true }
  case nil => exact .nil
  case append => exact fun h h' ↦ h.append h'
  case written =>
    intro d hd
    exact ⟨[], List.nil_sublist _, .refl _⟩
  case classDecl =>
    rintro name superclass interfaces span members hdirect ⟨names, hsub, hperm⟩
    split
    · exact ⟨names, hsub.trans ((List.sublist_cons_self ..).filter _), hperm.cons _⟩
    · next hmembers =>
      -- no constructor belongs to the class
      have howner : (!script.constructorOwners.contains name) = true :=
        (Bool.or_eq_true_iff.1 hdirect).resolve_right hmembers
      refine ⟨name :: names, ?_, ((hperm.cons _).trans List.perm_middle.symm).cons _⟩
      show (name :: names).Sublist ((name :: _).filter (!script.constructorOwners.contains ·))
      rw [List.filter_cons, if_pos howner]
      exact hsub.cons_cons name

/-! ### What is compiled was registered -/

namespace Script

variable (script : Script)

/-- The classes that are compiled within that of a script are among those that it declares. -/
theorem subperm_classNames : (script.bodyDefinitions.filterMap (·.className?)).Subperm
    (script.declarations.filterMap (·.className?)) := by
  rw [classNames_written]
  refine (List.sublist_append_left _ (script.passedOver.filterMap (·.className?))).subperm.trans ?_
  rw [← List.filterMap_append]
  exact (script.perm_declarations.filterMap _).symm.subperm

variable {script}

/-- Where constructors are direct, all that is compiled of a script was registered or is an import,
and nothing is compiled more often than it was registered. -/
theorem subperm_registered (h : script.ConstructsDirectly) :
    script.definitions.Subperm
      (script.registered ++ script.declarations.flatMap (·.importPart)) := by
  obtain ⟨names, hnames, hbody⟩ := script.impliesApart h
  have hdeclared := script.perm_declarations
  have hwritten : (Node.written script.bodyDefinitions).Subperm script.declarations :=
    (List.sublist_append_left ..).subperm.trans hdeclared.symm.subperm
  have hparts : script.bodyDefinitions.Subperm (script.declarations.map .written ++
      ((script.declarations.filterMap (·.className?)).filter
        (!script.constructorOwners.contains ·)).map .implicitConstructor) := by
    refine hbody.subperm.trans (.append (.map (fun _ _ ↦ Definition.written.inj) hwritten) ?_)
    -- a class that a constructor is implied for is one that a constructor was registered for
    refine .map (fun _ _ ↦ Definition.implicitConstructor.inj) ?_
    exact hnames.subperm.trans (script.subperm_classNames.filter _)
  refine List.Subperm.trans ?_ script.perm_registered.symm.subperm
  exact (List.subperm_cons _).2 ((List.subperm_cons _).2 ((List.subperm_cons _).2 hparts))

/-- No import is a constructor that is implied. -/
theorem implicitConstructor_mem_append {name : String} :
    .implicitConstructor name ∈ script.registered ++ script.declarations.flatMap (·.importPart) ↔
      .implicitConstructor name ∈ script.registered := by
  refine ⟨fun h ↦ (List.mem_append.1 h).resolve_right fun hmem ↦ ?_, List.mem_append_left _⟩
  obtain ⟨d, -, hmem⟩ := List.mem_flatMap.1 hmem
  cases d with
  | importDecl => cases List.mem_singleton.1 hmem
  | _ => cases hmem

/-- A constructor is registered for the script and for each class that none belongs to. -/
theorem implicitConstructor_mem_registered {name : String} :
    .implicitConstructor name ∈ script.registered ↔ name = script.name ∨
      name ∈ script.declarations.filterMap (·.className?) ∧ name ∉ script.constructorOwners := by
  rw [← implicitConstructor_mem_append, script.perm_registered.mem_iff]
  simp

/-- Where constructors are direct, a class that is compiled gets a constructor just if one was
registered for it. -/
theorem implicitConstructor_mem_definitions (h : script.ConstructsDirectly) {name : String}
    (hname : name ∈ script.definitions.filterMap (·.className?)) :
    .implicitConstructor name ∈ script.definitions ↔
      .implicitConstructor name ∈ script.registered := by
  constructor
  · exact fun hmem ↦ implicitConstructor_mem_append.1 ((subperm_registered h).subset hmem)
  · intro hmem
    obtain rfl | ⟨-, howner⟩ := implicitConstructor_mem_registered.1 hmem
    · exact List.mem_cons_of_mem _ (List.mem_cons_self ..)
    · obtain rfl | hname := List.mem_cons.1 hname
      · exact List.mem_cons_of_mem _ (List.mem_cons_self ..)
      · -- a constructor among the members would be one that belongs to the class
        have hbody := (script.body.haveConstructors_definitions _ name hname).resolve_right
          fun hwritten ↦ by
            obtain ⟨d, hd, hd'⟩ := List.mem_filterMap.1 hwritten
            have hdeclared := script.perm_declarations.mem_iff.2 (List.mem_append_left _ hd)
            exact howner (List.mem_filterMap.2 ⟨d, hdeclared, hd'⟩)
        exact List.mem_cons_of_mem _ (List.mem_cons_of_mem _ (List.mem_cons_of_mem _ hbody))

/-- Where classes have different names, a class that is compiled has a constructor registered that
it does not declare just if no constructor belongs to it. -/
theorem implicitConstructor_mem_registered_iff
    (hnodup : (script.name :: script.declarations.filterMap (·.className?)).Nodup) {name : String}
    (hname : name ∈ script.definitions.filterMap (·.className?)) :
    .implicitConstructor name ∈ script.registered ↔
      ∀ d ∈ script.declarations, d.constructorOwner? ≠ some name := by
  have howners : (∀ d ∈ script.declarations, d.constructorOwner? ≠ some name) ↔
      name ∉ script.constructorOwners := by
    simp [constructorOwners]
  rw [implicitConstructor_mem_registered, howners]
  obtain rfl | hname := List.mem_cons.1 hname
  · -- a constructor of the class of a script could only stand in a class of the same name
    refine ⟨fun _ hmem ↦ ?_, fun _ ↦ .inl rfl⟩
    obtain hclass | ⟨-, hbody⟩ := script.body.mem_classNames_of_owner _ _ hmem
    · exact (List.nodup_cons.1 hnodup).1 hclass
    · cases hbody
  · have hdeclared := script.subperm_classNames.subset hname
    refine ⟨fun hor ↦ ?_, fun howner ↦ .inr ⟨hdeclared, howner⟩⟩
    obtain rfl | ⟨-, howner⟩ := hor
    · exact absurd hdeclared (List.nodup_cons.1 hnodup).1
    · exact howner

end Script

/-! ### Signatures -/

namespace ClassTable

variable {t t' : ClassTable}

/-- What is new beside more signatures is new beside fewer. -/
theorem Fresh.of_append {signatures more : List Fingerprint} {ms : List Member}
    (h : Fresh (signatures ++ more) ms) : Fresh signatures ms :=
  ⟨h.1, fun m hm hmem ↦ h.2 m hm (List.mem_append_left _ hmem)⟩

/-- A class that is registered adds the signatures of its members. -/
theorem signatures_register {e : ClassEntry} (h : t.register e = .ok t') :
    t'.signatures = t.signatures ++ e.members.map Member.fingerprint := by
  unfold register at h
  split at h
  · cases h
  · split at h
    · cases h
    · split at h
      · cases h
      · obtain rfl := Except.ok.inj h
        rfl

/-- Members that are installed have signatures that are new, and none of them twice. -/
theorem fresh_of_foldlM_install {items : List Item} (h : items.foldlM install t = .ok t') :
    Fresh t.signatures (items.filterMap Item.member?) := by
  induction items generalizing t with
  | nil => exact ⟨.nil, nofun⟩
  | cons i items ih =>
    rw [List.foldlM_cons] at h
    obtain ⟨u, hu, h⟩ := Session.ok_of_bind h
    have hrest := ih h
    cases i with
    | ofClass e =>
      rw [signatures_register hu] at hrest
      exact hrest.of_append
    | ofMember m =>
      obtain ⟨-, hnew, rfl⟩ := addMember_eq_ok_iff.1 hu
      -- the signature of the member is taken for those that come after it
      exact fresh_cons_iff.2 ⟨hnew, hrest⟩

end ClassTable

/-- What tells the methods of all classes apart: the owner, the name and the parameters. -/
def Item.key? : Item → Option (String × String × List MachineType)
  | .ofClass _ => none
  | .ofMember m => some (m.owner.name, m.name, m.params)

/-- Members of different signatures have different keys, if constructors and no others have the name
that is reserved for them. -/
theorem nodup_keys {items : List Item} {signatures : List Fingerprint}
    (hnames : ∀ m, .ofMember m ∈ items → m.flags.isConstructor = (m.name == constructorName))
    (h : ClassTable.Fresh signatures (items.filterMap Item.member?)) :
    (items.filterMap Item.key?).Nodup := by
  -- a signature can be read off the key, so members of one key would have one signature
  let signature : String × String × List MachineType → Fingerprint := fun (owner, name, params) ↦
    if name == constructorName then .ofConstructor owner (params.map MachineType.fingerprint)
    else .ofMethod owner name (params.map MachineType.fingerprint)
  have hsignature : (items.filterMap Item.key?).map signature =
      (items.filterMap Item.member?).map Member.fingerprint := by
    rw [List.map_filterMap, List.map_filterMap]
    refine List.filterMap_congr fun i hi ↦ ?_
    cases i with
    | ofClass e => rfl
    | ofMember m =>
      show some (signature (m.owner.name, m.name, m.params)) = some m.fingerprint
      unfold Member.fingerprint
      rw [hnames m hi]
  exact List.Nodup.of_map signature (hsignature ▸ h.1)

/-! ### Units -/

/-- The name of the method that is declared, if it is one. -/
def Declaration.methodName? : Declaration → Option String
  | methodDecl _ name .. => some name
  | _ => none

/-- No method has the name that is reserved for constructors. -/
def Script.NamesMethods (script : Script) : Prop :=
  ∀ d ∈ script.declarations, d.methodName? ≠ some constructorName

instance (script : Script) : Decidable script.NamesMethods :=
  inferInstanceAs (Decidable (∀ d ∈ script.declarations, d.methodName? ≠ some constructorName))

section Items

variable {classes : ClassTable} {types : TypeTable}

/-- A partial map over a list, flattened. -/
theorem flatten_of_mapM {α β : Type} {f : α → Option (List β)} {as : List α} {bs : List (List β)}
    (h : as.mapM f = some bs) : bs.flatten = as.flatMap fun a ↦ (f a).getD [] := by
  induction as generalizing bs with
  | nil =>
    obtain rfl := Option.some.inj h
    rfl
  | cons a as ih =>
    rw [List.mapM_cons] at h
    obtain ⟨first, hfirst, h⟩ := Option.bind_eq_some_iff.1 h
    obtain ⟨rest, hrest, h⟩ := Option.bind_eq_some_iff.1 h
    obtain rfl := Option.some.inj h
    rw [List.flatten_cons, List.flatMap_cons, ih hrest, hfirst]
    rfl

/-- A member that a definition amounts to is a constructor if it has the name reserved for them. -/
theorem Definition.isConstructor_of_items? {d : Definition} {items : List Item}
    (hname : ∀ d', d = .written d' → d'.methodName? ≠ some constructorName)
    (h : d.items? classes types = some items) {m : Member} (hm : .ofMember m ∈ items) :
    m.flags.isConstructor = (m.name == constructorName) := by
  cases d with
  | implicitConstructor owner =>
    obtain rfl := Option.some.inj h
    obtain rfl := Item.ofMember.inj (List.mem_singleton.1 hm)
    exact (beq_self_eq_true constructorName).symm
  | main owner =>
    obtain rfl := Option.some.inj h
    obtain rfl := Item.ofMember.inj (List.mem_singleton.1 hm)
    show false = (mainName == constructorName)
    decide
  | written d =>
    cases d with
    | importDecl full asName span =>
      obtain rfl := Option.some.inj h
      cases hm
    | classDecl name superclass interfaces span =>
      obtain ⟨superclass, -, h⟩ := Option.bind_eq_some_iff.1 h
      obtain ⟨interfaces, -, h⟩ := Option.bind_eq_some_iff.1 h
      obtain rfl := Option.some.inj h
      cases List.mem_singleton.1 hm
    | methodDecl owner name params returnType isStatic span =>
      obtain ⟨params, -, h⟩ := Option.bind_eq_some_iff.1 h
      obtain ⟨returnType, -, h⟩ := Option.bind_eq_some_iff.1 h
      obtain rfl := Option.some.inj h
      obtain rfl := Item.ofMember.inj (List.mem_singleton.1 hm)
      -- The one case that needs the hypothesis: a method may be named like a constructor.
      have hother : name ≠ constructorName := fun heq ↦ hname _ rfl (congrArg some heq)
      exact (beq_eq_false_iff_ne.2 hother).symm
    | constructorDecl owner params span =>
      obtain ⟨params, -, h⟩ := Option.bind_eq_some_iff.1 h
      obtain rfl := Option.some.inj h
      obtain rfl := Item.ofMember.inj (List.mem_singleton.1 hm)
      exact (beq_self_eq_true constructorName).symm

namespace Script

variable {script : Script} {registered compiled : List (List Item)}

/-- Where constructors are direct, each item that is compiled was registered, at least as often. -/
theorem subperm_items (h : script.ConstructsDirectly)
    (hregistered : script.registered.mapM (Definition.items? classes types) = some registered)
    (hcompiled : script.definitions.mapM (Definition.items? classes types) = some compiled) :
    compiled.flatten.Subperm registered.flatten := by
  let itemsOf : Definition → List Item := fun d ↦ (d.items? classes types).getD []
  -- imports amount to nothing, so it does not matter that they are not registered
  have himports : (script.declarations.flatMap (·.importPart)).flatMap itemsOf = [] := by
    refine List.flatMap_eq_nil_iff.2 fun d hd ↦ ?_
    obtain ⟨d', -, hd⟩ := List.mem_flatMap.1 hd
    cases d' with
    | importDecl =>
      obtain rfl := List.mem_singleton.1 hd
      rfl
    | _ => cases hd
  have hall : (script.registered ++ script.declarations.flatMap (·.importPart)).flatMap itemsOf =
      script.registered.flatMap itemsOf := by
    rw [List.flatMap_append, himports, List.append_nil]
  obtain ⟨ds, hperm, hsub⟩ := subperm_registered h
  rw [flatten_of_mapM hcompiled, flatten_of_mapM hregistered, ← hall]
  exact ⟨_, hperm.flatMap_right _, hsub.flatMap _⟩

/-- What is registered of a script has different keys, if no method has the name of constructors. -/
theorem nodup_keys_registered (hnames : script.NamesMethods) {t t' : ClassTable}
    (hregistered : script.registered.mapM (Definition.items? classes types) = some registered)
    (h : installed? classes types script.registered t = some t') :
    (registered.flatten.filterMap Item.key?).Nodup := by
  obtain ⟨items, hitems, hfold⟩ := installed?_eq_some_iff.1 h
  obtain rfl := Option.some.inj (hregistered.symm.trans hitems)
  refine nodup_keys (fun m hm ↦ ?_) (ClassTable.fresh_of_foldlM_install hfold)
  obtain ⟨items, hitems, hm⟩ := List.mem_flatten.1 hm
  obtain ⟨d, hd, hdefines⟩ := (mem_of_mapM_eq_some hregistered).1 hitems
  refine Definition.isConstructor_of_items? ?_ hdefines hm
  rintro d' rfl
  rcases registered_cases hd with heq | heq | heq | ⟨d, hd', heq⟩ | ⟨_, -, -, heq⟩
  · rw [Definition.written.inj heq]
    nofun
  · cases heq
  · cases heq
  · obtain rfl := Definition.written.inj heq
    exact hnames d' hd'
  · cases heq

end Script

end Items

/-- Where its methods have different keys, a class has no two methods of one name with the same
parameters. -/
theorem ClassCode.nodup_methods {code : ClassCode} (h : (code.items.filterMap Item.key?).Nodup) :
    (code.methods.map fun m ↦ (m.name, m.params)).Nodup := by
  have hkeys : code.items.filterMap Item.key? =
      (code.methods.map fun m ↦ (m.name, m.params)).map (code.name, ·) := by
    rw [ClassCode.items, List.filterMap_cons_none rfl, List.filterMap_map, List.map_map]
    exact congrFun List.filterMap_eq_map code.methods
  exact List.Nodup.of_map _ (hkeys ▸ h)

namespace Compiler

/-- Where each class that a constructor belongs to has one among its members, a class of the unit
has a constructor that is implied just if one was registered, which is if no constructor belongs to
the class. No class has two methods of one name and with the same parameters then, if imports agree
and no method has the name of constructors. -/
theorem constructors_of_compile {c : Compiler} {root : Node} {script : Script} {unit : UnitCode}
    (hscript : root.script? = some script) (hdirect : script.ConstructsDirectly)
    (h : c.compile root = .ok unit) :
    ∃ count s, SessionM.declareScript script c.start = .ok count s ∧
      installed? s.classes s.types script.registered c.classes = some s.classes ∧
      (∃ items, itemsOf? s.classes s.types script.definitions = some items ∧
        unit.items.Perm items) ∧
      (∀ code ∈ unit.classes,
        (.implicitConstructor code.name ∈ script.definitions ↔
          .implicitConstructor code.name ∈ script.registered) ∧
        (.implicitConstructor code.name ∈ script.registered ↔
          ∀ d ∈ script.declarations, d.constructorOwner? ≠ some code.name)) ∧
      (script.ImportsAgree → script.NamesMethods →
        ∀ code ∈ unit.classes, (code.methods.map fun m ↦ (m.name, m.params)).Nodup) := by
  obtain ⟨count, s, hdeclare, hcompiled⟩ := compiledFrom_of_compile hscript h
  obtain ⟨hinstalled, hforce⟩ := (SessionM.yields_installed script c.start).of_ok hdeclare
  refine ⟨count, s, hdeclare, hinstalled, hcompiled.items, fun code hcode ↦ ?_,
    fun hagree hnames code hcode ↦ ?_⟩
  · have hname : code.name ∈ script.definitions.filterMap (·.className?) := by
      rw [← hcompiled.classNames]
      exact List.mem_map_of_mem hcode
    exact ⟨Script.implicitConstructor_mem_definitions hdirect hname,
      Script.implicitConstructor_mem_registered_iff hcompiled.declared.nodup hname⟩
  · -- the methods of the unit are among the members that were registered
    obtain ⟨registered, hregistered, -⟩ := ClassTable.gains_of_installed hinstalled
    obtain ⟨compiled, hitems, hperm⟩ := hcompiled.items_of_inForce (hforce hagree)
    obtain ⟨items, hpermuted, hsub⟩ := Script.subperm_items hdirect hregistered hitems
    have hkeys : (unit.items.filterMap Item.key?).Nodup := by
      refine ((hperm.trans hpermuted.symm).filterMap Item.key?).nodup_iff.2 ?_
      exact (Script.nodup_keys_registered hnames hregistered hinstalled).sublist
        (hsub.filterMap Item.key?)
    rw [UnitCode.items, List.filterMap_flatMap] at hkeys
    exact ClassCode.nodup_methods ((List.nodup_flatMap.1 hkeys).1 code hcode)

/-- A script with a class that has a constructor among its members, and another one further in, and
with a class that has none. -/
def constructing : Script where
  name := "Constructing"
  body :=
    let int := SourceType.named "int"
    let inner := Node.constructorDef [⟨"x", int, {}⟩] (.noop {}) {}
    .sequence
      [.classDef "Direct" none [] [.constructorDef [] (.noop {}) {},
          .methodDef "make" [] int (.sequence [inner, .int 1]) false {}] {},
        .classDef "Implied" none [] [.methodDef "make" [] int (.int 1) false {}] {}]

theorem constructors_of_compile_constructing : ∃ count s unit,
    SessionM.declareScript constructing (Compiler.start {}) = .ok count s ∧
    Compiler.compile {} (.script constructing.name constructing.body constructing.span) = .ok unit ∧
    installed? s.classes s.types constructing.registered ({} : Compiler).classes = some s.classes ∧
    (∃ items, itemsOf? s.classes s.types constructing.definitions = some items ∧
      unit.items.Perm items) ∧
    ∀ code ∈ unit.classes,
      (.implicitConstructor code.name ∈ constructing.definitions ↔
        .implicitConstructor code.name ∈ constructing.registered) ∧
      (.implicitConstructor code.name ∈ constructing.registered ↔
        ∀ d ∈ constructing.declarations, d.constructorOwner? ≠ some code.name) ∧
      (code.methods.map fun m ↦ (m.name, m.params)).Nodup := by
  have hcompiles : (Compiler.compile {}
      (.script constructing.name constructing.body constructing.span)).toOption.isSome = true := by
    decide +kernel
  obtain ⟨unit, hcompile⟩ := exists_eq_ok_of_isSome hcompiles
  obtain ⟨count, s, hdeclare, hinstalled, hitems, himplied, hnodup⟩ :=
    constructors_of_compile rfl (by decide) hcompile
  refine ⟨count, s, unit, hdeclare, hcompile, hinstalled, hitems, fun code hcode ↦ ?_⟩
  exact ⟨(himplied code hcode).1, (himplied code hcode).2,
    hnodup (by decide) (by decide) code hcode⟩

/-- A script whose class has its only constructor within a method. -/
def constructingWithin : Script where
  name := "ConstructingWithin"
  body :=
    let inner := Node.constructorDef [] (.noop {}) {}
    .sequence [.classDef "C" none []
      [.methodDef "make" [] (.named "int") (.sequence [inner, .int 1]) false {}] {}]

/-- The class gets another constructor, which was not registered. -/
theorem not_nodup_constructingWithin : ∃ unit,
    Compiler.compile {} (.script constructingWithin.name constructingWithin.body
      constructingWithin.span) = .ok unit ∧
    (∃ code ∈ unit.classes, ¬(code.methods.map fun m ↦ (m.name, m.params)).Nodup) ∧
    .implicitConstructor "C" ∈ constructingWithin.definitions ∧
    .implicitConstructor "C" ∉ constructingWithin.registered := by
  have hcompiles : (Compiler.compile {} (.script constructingWithin.name constructingWithin.body
      constructingWithin.span)).toOption.map (·.classes.map fun code ↦
        (code.name, code.methods.map fun m ↦ (m.name, m.params))) =
      some [("ConstructingWithin", [("<init>", []), ("main", [mainArgs])]),
        ("C", [("<init>", []), ("<init>", []), ("make", [])])] := by decide +kernel
  obtain ⟨unit, hcompile, hclasses⟩ := exists_eq_ok_of_map hcompiles
  refine ⟨unit, hcompile, ?_, by decide, by decide⟩
  have hmem : ("C", [("<init>", []), ("<init>", []), ("make", [])]) ∈
      unit.classes.map fun code ↦ (code.name, code.methods.map fun m ↦ (m.name, m.params)) := by
    rw [hclasses]
    exact List.mem_cons_of_mem _ (List.mem_cons_self ..)
  obtain ⟨code, hcode, hmethods⟩ := List.mem_map.1 hmem
  refine ⟨code, hcode, ?_⟩
  rw [(Prod.mk.inj hmethods).2]
  decide

end Compiler

end ScriptBytecode

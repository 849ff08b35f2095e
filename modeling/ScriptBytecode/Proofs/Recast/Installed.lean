import ScriptBytecode.Proofs.Moving.Declarations
import ScriptBytecode.Proofs.Recast.Aside

/-!
# Installing with a class aside

Nodes that do not mention a class declare nothing that does, so what they declare amounts to the
same whether the class is known or not. Then it can be installed in a table with the class aside
just as well, unless a member has a signature of the class (`ClassTable.Aside.installed?`).

* `items?_written` says that what is written amounts to the same with the class aside;
* `ClassTable.Aside.installed?` says that it can be installed just if it can be without.

**Signatures are the exception.** Members are told apart by fingerprints, and a table refuses a
member whose fingerprint it has. So a member of the class aside could stand in the way of a member
of the script with the same fingerprint. With different owners this would take a collision, which
cannot be excluded, so it is a hypothesis that there is none.
-/

namespace ScriptBytecode

/-! ### Declarations that do not mention a class -/

namespace Declaration

/-- The names of types and classes that a declaration is written with, its owner included. -/
def mentioned : Declaration → List String
  | importDecl full asName _ => full :: asName.toList
  | classDecl name superclass interfaces _ => name :: (superclass.toList ++ interfaces)
  | methodDecl owner _ params returnType _ _ =>
    owner :: (params.flatMap (·.type.mentioned) ++ returnType.mentioned)
  | constructorDecl owner params _ => owner :: params.flatMap (·.type.mentioned)

end Declaration

/-- The names of types and classes that a definition is written with, its owner included. -/
def Definition.mentioned : Definition → List String
  | written d => d.mentioned
  | implicitConstructor owner | main owner => [owner]

/-- Nodes that do not mention a class declare nothing that does. -/
theorem Node.declaresOnly_avoiding (cls : String) :
    DeclaresOnly (names (· != cls)) (· ≠ cls) (cls ∉ ·.mentioned) := by
  have havoids : ∀ {n : Node}, n.names (· != cls) = true → cls ∉ n.mentioned := fun hn hmem ↦
    bne_iff_ne.1 (List.all_eq_true.1 hn _ hmem) rfl
  refine ⟨fun hn ↦ ⟨fun heq ↦ ?_, havoids hn⟩, fun howner hn hmem ↦ ?_,
    fun howner hn hmem ↦ ?_, havoids⟩
  · exact havoids hn (heq ▸ List.mem_cons_self ..)
  · exact (List.mem_cons.1 hmem).elim (fun heq ↦ howner heq.symm) (havoids hn)
  · exact (List.mem_cons.1 hmem).elim (fun heq ↦ howner heq.symm) (havoids hn)

/-- So does a script that does not mention it. -/
theorem Script.notMem_mentioned {script : Script} {cls : String} (hname : script.name ≠ cls)
    (hbody : script.body.all (Node.names (· != cls)) = true) {d : Definition}
    (hd : d ∈ script.registered) : cls ∉ d.mentioned := by
  have hdeclarations : ∀ d ∈ script.declarations, cls ∉ d.mentioned := fun d hd ↦
    (Node.declaresOnly_avoiding cls).of_mem hbody hname hd
  have howner : cls ∉ [script.name] := fun hmem ↦ hname (List.mem_singleton.1 hmem).symm
  rcases registered_cases hd with rfl | rfl | rfl | ⟨d', hd', rfl⟩ | ⟨name, hclass, -, rfl⟩
  · exact howner
  · exact howner
  · exact howner
  · exact hdeclarations d' hd'
  · obtain ⟨d', hd', hclass⟩ := List.mem_filterMap.1 hclass
    have hdeclared := hdeclarations d' hd'
    cases d' with
    | classDecl other superclass interfaces span =>
      obtain rfl := Option.some.inj hclass
      exact fun hmem ↦ hdeclared (List.mem_singleton.1 hmem ▸ List.mem_cons_self ..)
    | _ => cases hclass

/-! ### What declarations amount to -/

/-- The item is a class without members or a member, and does not mention the class. -/
def Item.Avoids (cls : String) : Item → Prop
  | .ofClass e => e.members = [] ∧ e.name ≠ cls ∧ cls ∉ e.supertypes
  | .ofMember m => cls ∉ m.classNames

theorem mapM_congr {α β : Type} {f g : α → Option β} {as : List α} (h : ∀ a ∈ as, f a = g a) :
    as.mapM f = as.mapM g := by
  induction as with
  | nil => rfl
  | cons a as ih =>
    obtain ⟨ha, hrest⟩ := List.forall_mem_cons.1 h
    rw [List.mapM_cons, List.mapM_cons, ha, ih hrest]

namespace ClassTable

variable {t u : ClassTable}

/-- What is installed in a consistent table leaves it consistent, and is there to stay. -/
theorem Consistent.install (h : t.Consistent) {i : Item} (hu : t.install i = .ok u) :
    u.Consistent ∧ t.signatures ⊆ u.signatures := by
  cases i with
  | ofClass e =>
    obtain ⟨haccepts, rfl⟩ := (register_eq_ok_iff h.closed).1 hu
    exact ⟨h.withClass haccepts, List.subset_append_left ..⟩
  | ofMember m =>
    obtain ⟨howner, hnew, rfl⟩ := addMember_eq_ok_iff.1 hu
    exact ⟨h.withMember howner hnew, List.subset_append_left ..⟩

theorem Consistent.foldlM_install (h : t.Consistent) {items : List Item}
    (hu : items.foldlM ClassTable.install t = .ok u) :
    u.Consistent ∧ t.signatures ⊆ u.signatures := by
  induction items generalizing t with
  | nil =>
    obtain rfl := Except.ok.inj hu
    exact ⟨h, List.Subset.refl _⟩
  | cons i items ih =>
    rw [List.foldlM_cons] at hu
    obtain ⟨v, hv, hu⟩ := Session.ok_of_bind hu
    obtain ⟨hconsistent, hgrows⟩ := h.install hv
    obtain ⟨hconsistent', hgrows'⟩ := ih hconsistent hu
    exact ⟨hconsistent', List.Subset.trans hgrows hgrows'⟩

end ClassTable

namespace ClassTable.Aside

variable {d : ClassEntry} {t t' u : ClassTable} {types : TypeTable}

section Items

variable (h : Aside d t t') (htypes : types.Avoids d.name)

include h htypes

theorem supertype? {name : String} (hne : name ≠ d.name) :
    types.supertype? t' name = types.supertype? t name ∧
      ∀ c, types.supertype? t name = some c → c.name ≠ d.name := by
  have hmentioned : d.name ∉ (SourceType.named name).mentioned := by
    unfold SourceType.mentioned
    split
    · exact List.not_mem_nil
    · exact fun hmem ↦ hne (List.mem_singleton.1 hmem).symm
  obtain ⟨hsame, hfamiliar⟩ := h.resolve? htypes hmentioned
  unfold TypeTable.supertype?
  rw [hsame]
  refine ⟨rfl, fun c hc ↦ ?_⟩
  split at hc
  · next c' hresolve =>
    obtain rfl := Option.some.inj hc
    exact fun heq ↦ hfamiliar _ hresolve (List.mem_singleton.2 heq.symm)
  · cases hc

theorem superclass? {superclass : Option String} (hne : d.name ∉ superclass.toList) :
    types.superclass? t' superclass = types.superclass? t superclass ∧
      ∀ c, types.superclass? t superclass = some c → c.name ≠ d.name := by
  cases superclass with
  | some name => exact h.supertype? htypes fun heq ↦ hne (List.mem_singleton.2 heq.symm)
  | none =>
    refine ⟨rfl, fun c hc heq ↦ h.ne_root (heq.symm.trans ?_)⟩
    obtain rfl := Option.some.inj hc
    rfl

theorem paramTypes? {params : List Param} (hparams : d.name ∉ params.flatMap (·.type.mentioned)) :
    types.paramTypes? t' params = types.paramTypes? t params ∧
      ∀ machines, types.paramTypes? t params = some machines →
        ∀ machine ∈ machines, d.name ∉ machine.classNames := by
  have hresolve : ∀ p ∈ params, _ := fun p hp ↦
    h.resolve? htypes fun hmem ↦ hparams (List.mem_flatMap.2 ⟨p, hp, hmem⟩)
  refine ⟨mapM_congr fun p hp ↦ (hresolve p hp).1, fun machines hmachines machine hmem ↦ ?_⟩
  obtain ⟨p, hp, hmachine⟩ := (mem_of_mapM_eq_some hmachines).1 hmem
  exact (hresolve p hp).2 machine hmachine

theorem interfaces? {names : List String} (hnames : d.name ∉ names) :
    names.mapM (types.supertype? t') = names.mapM (types.supertype? t) ∧
      ∀ cs, names.mapM (types.supertype? t) = some cs → ∀ c ∈ cs, c.name ≠ d.name := by
  have hsupertype : ∀ name ∈ names, _ := fun name hname ↦
    h.supertype? htypes fun heq ↦ hnames (heq ▸ hname)
  refine ⟨mapM_congr fun name hname ↦ (hsupertype name hname).1, fun cs hcs c hc ↦ ?_⟩
  obtain ⟨name, hname, hfound⟩ := (mem_of_mapM_eq_some hcs).1 hc
  exact (hsupertype name hname).2 c hfound

/-- A declaration that does not mention the class amounts to the same with the class aside, and to
nothing that mentions it. -/
theorem items?_written {decl : Declaration} (hdecl : d.name ∉ decl.mentioned) :
    decl.items? t' types = decl.items? t types ∧
      ∀ items, decl.items? t types = some items → ∀ i ∈ items, i.Avoids d.name := by
  -- Each look-up is the same with the class aside, and nothing it yields mentions the class.
  cases decl with
  | importDecl full asName span =>
    refine ⟨rfl, fun items hitems i hi ↦ ?_⟩
    obtain rfl := Option.some.inj hitems
    cases hi
  | classDecl name superclass interfaces span =>
    obtain ⟨hname, hsupertypes⟩ := not_or.1 (mt List.mem_cons.2 hdecl)
    obtain ⟨hsuperclass, hinterfaces⟩ := not_or.1 (mt List.mem_append.2 hsupertypes)
    obtain ⟨hsameSuper, hsuper⟩ := h.superclass? htypes hsuperclass
    obtain ⟨hsameInterfaces, hothers⟩ := h.interfaces? htypes hinterfaces
    refine ⟨?_, fun items hitems i hi ↦ ?_⟩
    · simp only [Declaration.items?, hsameSuper, hsameInterfaces]
    · obtain ⟨c, hc, hitems⟩ := Option.bind_eq_some_iff.1 hitems
      obtain ⟨cs, hcs, hitems⟩ := Option.bind_eq_some_iff.1 hitems
      obtain rfl := Option.some.inj hitems
      obtain rfl := List.mem_singleton.1 hi
      refine ⟨rfl, fun heq ↦ hname heq.symm, fun hmem ↦ ?_⟩
      change d.name ∈ c.name :: cs.map (·.name) at hmem
      obtain heq | hmem := List.mem_cons.1 hmem
      · exact hsuper c hc heq.symm
      · obtain ⟨c', hc', heq⟩ := List.mem_map.1 hmem
        exact hothers cs hcs c' hc' heq
  | methodDecl owner name params returnType isStatic span =>
    obtain ⟨howner, htypesOf⟩ := not_or.1 (mt List.mem_cons.2 hdecl)
    obtain ⟨hparams, hreturn⟩ := not_or.1 (mt List.mem_append.2 htypesOf)
    obtain ⟨hsameParams, hparams⟩ := h.paramTypes? htypes hparams
    obtain ⟨hsameReturn, hreturn⟩ := h.resolve? htypes hreturn
    refine ⟨?_, fun items hitems i hi ↦ ?_⟩
    · simp only [Declaration.items?, hsameParams, hsameReturn]
    · obtain ⟨params, hp, hitems⟩ := Option.bind_eq_some_iff.1 hitems
      obtain ⟨returnType, hr, hitems⟩ := Option.bind_eq_some_iff.1 hitems
      obtain rfl := Option.some.inj hitems
      obtain rfl := List.mem_singleton.1 hi
      exact Member.notMem_classNames howner (hparams params hp) (hreturn returnType hr)
  | constructorDecl owner params span =>
    obtain ⟨howner, hparams⟩ := not_or.1 (mt List.mem_cons.2 hdecl)
    obtain ⟨hsameParams, hparams⟩ := h.paramTypes? htypes hparams
    refine ⟨?_, fun items hitems i hi ↦ ?_⟩
    · simp only [Declaration.items?, hsameParams]
    · obtain ⟨params, hp, hitems⟩ := Option.bind_eq_some_iff.1 hitems
      obtain rfl := Option.some.inj hitems
      obtain rfl := List.mem_singleton.1 hi
      exact Member.notMem_classNames howner (hparams params hp) List.not_mem_nil

/-- So does a definition. -/
theorem items? {definition : Definition} (hdefinition : d.name ∉ definition.mentioned) :
    definition.items? t' types = definition.items? t types ∧
      ∀ items, definition.items? t types = some items → ∀ i ∈ items, i.Avoids d.name := by
  cases definition with
  | written decl => exact h.items?_written htypes hdefinition
  | implicitConstructor owner =>
    refine ⟨rfl, fun items hitems i hi ↦ ?_⟩
    obtain rfl := Option.some.inj hitems
    obtain rfl := List.mem_singleton.1 hi
    exact Member.notMem_classNames (List.ne_of_not_mem_cons hdefinition)
      (fun _ hparam ↦ absurd hparam List.not_mem_nil) List.not_mem_nil
  | main owner =>
    refine ⟨rfl, fun items hitems i hi ↦ ?_⟩
    obtain rfl := Option.some.inj hitems
    obtain rfl := List.mem_singleton.1 hi
    refine Member.notMem_classNames (List.ne_of_not_mem_cons hdefinition) (fun param hparam ↦ ?_)
      List.not_mem_nil
    obtain rfl := List.mem_singleton.1 hparam
    exact fun hmem ↦ h.ne_string (List.mem_singleton.1 hmem)

end Items

/-! ### Installing -/

/-- Items that do not mention the class are installed in both tables alike, as long as no signature
of the class is among those that are there in the end. -/
theorem foldlM_install {items : List Item} (h : Aside d t t')
    (hitems : ∀ i ∈ items, i.Avoids d.name) (hu : items.foldlM install t = .ok u)
    (hapart : ∀ m ∈ d.members, m.fingerprint ∉ u.signatures) :
    ∃ u', items.foldlM install t' = .ok u' ∧ Aside d u u' := by
  induction items generalizing t t' with
  | nil =>
    obtain rfl := Except.ok.inj hu
    exact ⟨t', rfl, h⟩
  | cons i items ih =>
    rw [List.foldlM_cons] at hu
    obtain ⟨v, hv, hrest⟩ := Session.ok_of_bind hu
    obtain ⟨hi, hitems⟩ := List.forall_mem_cons.1 hitems
    have hstep : ∃ v', t'.install i = .ok v' ∧ Aside d v v' := by
      cases i with
      | ofClass e => exact h.register hv hi.1 hi.2.1 hi.2.2
      | ofMember m =>
        refine h.addMember hv hi fun hmem ↦ ?_
        obtain ⟨m', hm', heq⟩ := List.mem_map.1 hmem
        -- the signature of the member is there to stay
        obtain ⟨hconsistent, -⟩ := h.consistent.install hv
        refine hapart m' hm' (heq ▸ (hconsistent.foldlM_install hrest).2 ?_)
        obtain ⟨-, -, rfl⟩ := addMember_eq_ok_iff.1 hv
        exact List.mem_append_right _ (List.mem_singleton_self _)
    obtain ⟨v', hv', haside⟩ := hstep
    obtain ⟨u', hu', haside'⟩ := ih haside hitems hrest
    refine ⟨u', ?_, haside'⟩
    rw [List.foldlM_cons, hv']
    exact hu'

/-- If no member that is new has a signature of the class, then no member has. -/
theorem apart (h : Aside d t t') (hu : u.Consistent)
    (hapart : ∀ m ∈ u.members, m ∉ t.members → m.fingerprint ∉ d.members.map Member.fingerprint) :
    ∀ m ∈ d.members, m.fingerprint ∉ u.signatures := by
  intro m hm hmem
  obtain ⟨m', hm', heq⟩ := List.mem_map.1 (hu.signatures.mem_iff.1 hmem)
  by_cases hold : m' ∈ t.members
  · -- the class was registered although the member was there
    refine h.accepts.signatures.2 m hm (h.consistent.signatures.mem_iff.2 ?_)
    exact List.mem_map.2 ⟨m', hold, heq⟩
  · exact hapart m' hm' hold (List.mem_map.2 ⟨m, hm, heq.symm⟩)

/-- What can be installed can be installed with the class aside. -/
theorem installed? {definitions : List Definition} (h : Aside d t t')
    (htypes : types.Avoids d.name)
    (hdefinitions : ∀ definition ∈ definitions, d.name ∉ definition.mentioned)
    (hu : ScriptBytecode.installed? t types definitions t = some u)
    (hapart : ∀ m ∈ u.members, m ∉ t.members → m.fingerprint ∉ d.members.map Member.fingerprint) :
    ∃ u', ScriptBytecode.installed? t' types definitions t' = some u' ∧ Aside d u u' := by
  obtain ⟨items, hitems, hfold⟩ := installed?_eq_some_iff.1 hu
  have hsame : definitions.mapM (Definition.items? t' types) = some items := by
    rw [← hitems]
    exact mapM_congr fun definition hmem ↦ (h.items? htypes (hdefinitions definition hmem)).1
  have havoids : ∀ i ∈ items.flatten, i.Avoids d.name := by
    intro i hi
    obtain ⟨is, his, hi⟩ := List.mem_flatten.1 hi
    obtain ⟨definition, hmem, hamounts⟩ := (mem_of_mapM_eq_some hitems).1 his
    exact (h.items? htypes (hdefinitions definition hmem)).2 is hamounts i hi
  have hconsistent := (h.consistent.foldlM_install hfold).1
  obtain ⟨u', hu', haside⟩ := h.foldlM_install havoids hfold (h.apart hconsistent hapart)
  exact ⟨u', installed?_eq_some_iff.2 ⟨items, hsame, hu'⟩, haside⟩

end ClassTable.Aside

end ScriptBytecode

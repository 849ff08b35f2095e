import ScriptBytecode.Proofs.Classes.Linearization

/-!
# Which declaration hides the other

Where a class and some of its supertypes declare members with the same name and parameters, one of
these is visible on the class. It is the one that the search for supertypes meets first: that of the
nearest supertype and, among those that are equally near, of the one whose edges come first on the
way (`Hierarchy.MetFirst`). The others are hidden (`notMem_visibleMembers_of_metBefore`).

A declaration need not be nearer than the one that it overrides. It is if all ways to the overridden
one lead past it (`metBefore_of_leads_past`), as they do along a chain of superclasses. But a class
that implements an interface in its own right is one edge away from it, whatever its superclass
makes of that interface, and then the declaration of the interface is the one that is visible
(`visibleMembers_shapes`).

**What decides is the search.** For any two supertypes it is said which of them is met first, by
distance and by the order of edges alone (`MetBefore`); the linearization is used in the proof only
(`metBefore_iff`). So it can be decided which declaration is hidden without searching.

**What overriding would ask for** is that the declaration of a subtype hides that of its supertype
on every class below both. The last part of `notMem_visibleMembers_of_metBefore` gives the case in
which this is so: no way leads around the subtype. Where some way does, the supertype may be nearer,
and is in `visibleMembers_shapes`.
-/

namespace ScriptBytecode

namespace Hierarchy

variable {h : Hierarchy} {a b c : String} {n : Nat}

/-- Edges lead from the one name to the other, and none of them leaves `past`. -/
abbrev LeadsAround (h : Hierarchy) (past : String) : String → String → Prop :=
  Relation.ReflTransGen fun sub sup ↦ sub ≠ past ∧ h.Below sub sup

/-- A walk passes a name on its way or leads around it. -/
theorem Walk.passes_or_leadsAround (hwalk : h.Walk n c b) (a : String) :
    (∃ k < n, h.Walk k c a ∧ h.Leads a b) ∨ h.LeadsAround a c b := by
  induction n generalizing c with
  | zero =>
    obtain rfl : c = b := hwalk
    exact .inr .refl
  | succ n ih =>
    obtain ⟨sup, hsup, hwalk⟩ := hwalk
    by_cases hc : c = a
    · subst hc
      exact .inl ⟨0, by omega, rfl, leads_iff_exists_walk.2 ⟨n + 1, sup, hsup, hwalk⟩⟩
    · rcases ih hwalk with ⟨k, hk, hwalk, hleads⟩ | haround
      · exact .inl ⟨k + 1, by omega, ⟨sup, hsup, hwalk⟩, hleads⟩
      · exact .inr (.head ⟨hc, mem_supertypes.1 hsup⟩ haround)

/-- A name that all ways to another one lead past is nearer, and leads to the other. -/
theorem distance_lt_of_leads_past (hleads : h.Leads c b) (hpast : ¬h.LeadsAround a c b) :
    h.distance c a < h.distance c b ∧ h.Leads a b := by
  obtain ⟨k, hk, hwalk, hleads⟩ :=
    ((walk_distance hleads).passes_or_leadsAround a).resolve_right hpast
  have := hwalk.distance_le
  exact ⟨by omega, hleads⟩

end Hierarchy

namespace ClassTable

variable {t : ClassTable} {a b cls name : String} {isStatic : Bool} {m m' : Member}

/-! ### What comes first -/

/-- Of two elements of a list one comes before the other. -/
theorem pair_sublist_or {α : Type} {l : List α} {x y : α} (hx : x ∈ l) (hy : y ∈ l) (hne : x ≠ y) :
    [x, y].Sublist l ∨ [y, x].Sublist l := by
  obtain ⟨before, after, rfl⟩ := List.append_of_mem hy
  rcases List.mem_append.1 hx with hx | hx
  · exact .inl (List.cons_sublist_iff.2 ⟨before, _, rfl, hx, by simp⟩)
  · have hx : x ∈ after := (List.mem_cons.1 hx).resolve_left hne
    refine .inr (List.cons_sublist_iff.2 ⟨before ++ [y], after, by simp, by simp, ?_⟩)
    exact List.singleton_sublist.2 hx

/-- Searching the supertypes of a class, one name is met before another: it is nearer or, at the
same distance, met first by the order of edges. The root class is met last. -/
def MetBefore (t : ClassTable) (cls a b : String) : Prop :=
  a ≠ objectName ∧ (b = objectName ∨
    t.hierarchy.distance cls a < t.hierarchy.distance cls b ∨
    t.hierarchy.distance cls a = t.hierarchy.distance cls b ∧
      t.hierarchy.MetFirst cls (t.hierarchy.distance cls a) a b)

/-- What is met before is listed before. -/
theorem metBefore_iff (hclosed : t.hierarchy.Closed) (ha : a ∈ t.linearize cls)
    (hb : b ∈ t.linearize cls) (hne : a ≠ b) :
    t.MetBefore cls a b ↔ [a, b].Sublist (t.linearize cls) := by
  have hpair := pairwise_linearize hclosed cls
  rw [List.pairwise_iff_forall_sublist] at hpair
  constructor
  · rintro ⟨hroot, hfirst⟩
    rcases pair_sublist_or ha hb hne with hsub | hsub
    · exact hsub
    · -- if the other were listed first, it would be met first
      obtain ⟨hroot', hother⟩ := hpair hsub
      obtain ⟨hle, hother⟩ := hother hroot
      rcases hfirst with heq | hlt | ⟨heq, hfirst⟩
      · exact absurd heq hroot'
      · omega
      · exact absurd (hother heq.symm) (heq ▸ hfirst.asymm)
  · intro hsub
    obtain ⟨hroot, hfirst⟩ := hpair hsub
    by_cases hroot' : b = objectName
    · exact ⟨hroot, .inl hroot'⟩
    · obtain ⟨hle, hfirst⟩ := hfirst hroot'
      rcases Nat.lt_or_eq_of_le hle with hlt | heq
      · exact ⟨hroot, .inr (.inl hlt)⟩
      · exact ⟨hroot, .inr (.inr ⟨heq, hfirst heq⟩)⟩

/-- A name that all ways to a supertype lead past is a subtype of it and met before it. -/
theorem metBefore_of_leads_past (hclosed : t.hierarchy.Closed) (hroot : a ≠ objectName)
    (hb : t.isSubtype cls b = true) (hpast : ¬t.hierarchy.LeadsAround a cls b) :
    t.isSubtype a b = true ∧ t.MetBefore cls a b := by
  obtain ⟨hlt, hleads⟩ :=
    Hierarchy.distance_lt_of_leads_past ((isSubtype_iff hclosed).1 hb) hpast
  exact ⟨(isSubtype_iff hclosed).2 hleads, hroot, .inr (.inl hlt)⟩

/-! ### What is visible -/

/-- A member is declared by one class only. -/
theorem Consistent.eq_of_mem_declared (h : t.Consistent) (ha : m ∈ t.declared a name isStatic)
    (hb : m ∈ t.declared b name isStatic) : a = b := by
  obtain ⟨e, hget, hm, -⟩ := mem_declared_iff.1 ha
  obtain ⟨e', hget', hm', -⟩ := mem_declared_iff.1 hb
  obtain ⟨he, rfl⟩ := (get?_eq_some_iff h.nodup_names).1 hget
  obtain ⟨he', rfl⟩ := (get?_eq_some_iff h.nodup_names).1 hget'
  obtain ⟨-, hdisjoint⟩ := List.nodup_flatMap.1 (List.Nodup.of_map _ h.nodup_signatures)
  by_contra hne
  have hne : e ≠ e' := fun heq ↦ hne (congrArg ClassEntry.name heq)
  rcases pair_sublist_or he he' hne with hsub | hsub
  · exact List.pairwise_iff_forall_sublist.1 hdisjoint hsub hm hm'
  · exact List.pairwise_iff_forall_sublist.1 hdisjoint hsub hm' hm

/-- What is listed before hides what comes later. -/
theorem Consistent.notMem_visibleMembers (h : t.Consistent) (hname : name ≠ constructorName)
    (hsub : [a, b].Sublist (t.linearize cls)) (hm : m ∈ t.declared a name isStatic)
    (hm' : m' ∈ t.declared b name isStatic) (hparams : m.params = m'.params) :
    m' ∉ t.visibleMembers cls name isStatic := by
  obtain ⟨before, after, hsplit, ha, hb⟩ := List.cons_sublist_iff.1 hsub
  have hdisjoint := List.disjoint_of_nodup_append (hsplit ▸ nodup_linearize h.closed cls)
  have hb : b ∈ after := List.singleton_sublist.1 hb
  unfold visibleMembers
  rw [if_neg fun heq ↦ hname (beq_iff_eq.1 heq), mem_hideOverridden_iff, hsplit,
    List.flatMap_append, List.find?_append]
  cases hfind : (before.flatMap (t.declared · name isStatic)).find? (·.params == m'.params) with
  | none =>
    have hmem : m ∈ before.flatMap (t.declared · name isStatic) := List.mem_flatMap.2 ⟨a, ha, hm⟩
    exact absurd hparams (by simpa using List.find?_eq_none.1 hfind m hmem)
  | some found =>
    -- what was found is a member of another class
    obtain ⟨owner, howner, hfound⟩ := List.mem_flatMap.1 (List.mem_of_find?_eq_some hfind)
    intro heq
    obtain rfl := Option.some.inj heq
    obtain rfl := h.eq_of_mem_declared hfound hm'
    exact hdisjoint howner hb

/-- Of two members with the same parameters that a class has from two of its supertypes (or declares
itself), the one that is not met first is not visible. So where all ways to a supertype lead past a
subtype of it, what the subtype declares is the one that hides the other. -/
theorem notMem_visibleMembers_of_metBefore (hbuilt : t.Built) (hname : name ≠ constructorName)
    (ha : t.isSubtype cls a = true) (hb : t.isSubtype cls b = true) (hne : a ≠ b)
    (hm : m ∈ t.declared a name isStatic) (hm' : m' ∈ t.declared b name isStatic)
    (hparams : m.params = m'.params) :
    (t.MetBefore cls a b → m' ∉ t.visibleMembers cls name isStatic) ∧
      (¬t.MetBefore cls a b → m ∉ t.visibleMembers cls name isStatic) ∧
      (a ≠ objectName → ¬t.hierarchy.LeadsAround a cls b →
        t.isSubtype a b = true ∧ m' ∉ t.visibleMembers cls name isStatic) := by
  have h := hbuilt.consistent
  obtain ⟨e, hget, -⟩ := mem_declared_iff.1 hm
  obtain ⟨e', hget', -⟩ := mem_declared_iff.1 hm'
  have hlisted := h.mem_linearize hget ha
  have hlisted' := h.mem_linearize hget' hb
  have hiff := metBefore_iff hbuilt.closed hlisted hlisted' hne
  have hhides : t.MetBefore cls a b → m' ∉ t.visibleMembers cls name isStatic := fun hmet ↦
    h.notMem_visibleMembers hname (hiff.1 hmet) hm hm' hparams
  refine ⟨hhides, fun hmet ↦ ?_, fun hroot hpast ↦ ?_⟩
  · have hsub := (pair_sublist_or hlisted hlisted' hne).resolve_left (mt hiff.2 hmet)
    exact h.notMem_visibleMembers hname hsub hm' hm hparams.symm
  · obtain ⟨hsubtype, hmet⟩ := metBefore_of_leads_past hbuilt.closed hroot hb hpast
    exact ⟨hsubtype, hhides hmet⟩

/-- The method that an interface of `shapes` declares. -/
def areaOf (interface : String) : Member where
  owner := { name := interface, isInterface := true }
  name := "area"
  returnType := .int
  flags := { isInterface := true }

/-- On the interface that overrides a method of another, its own is met first and the other hidden:
all edges to the other leave it. -/
theorem notMem_visibleMembers_shapes :
    shapes.Built ∧ shapes.isSubtype "Solid" "Solid" = true ∧
      shapes.isSubtype "Solid" "Shape" = true ∧
      areaOf "Solid" ∈ shapes.declared "Solid" "area" false ∧
      areaOf "Shape" ∈ shapes.declared "Shape" "area" false ∧
      shapes.MetBefore "Solid" "Solid" "Shape" ∧
      ¬shapes.hierarchy.LeadsAround "Solid" "Solid" "Shape" ∧
      areaOf "Shape" ∉ shapes.visibleMembers "Solid" "area" false := by
  have hbuilt : shapes.Built := .run .empty _
  have hself : shapes.isSubtype "Solid" "Solid" = true := by decide
  have hsubtype : shapes.isSubtype "Solid" "Shape" = true := by decide
  have hsolid : areaOf "Solid" ∈ shapes.declared "Solid" "area" false := by decide
  have hshape : areaOf "Shape" ∈ shapes.declared "Shape" "area" false := by decide
  have hmet : shapes.MetBefore "Solid" "Solid" "Shape" :=
    (metBefore_iff hbuilt.closed (by decide) (by decide) (by decide)).2 (by decide)
  have hpast : ¬shapes.hierarchy.LeadsAround "Solid" "Solid" "Shape" := fun haround ↦ by
    rcases Relation.ReflTransGen.cases_head haround with heq | ⟨_, ⟨hother, -⟩, -⟩
    · exact absurd heq (by decide)
    · exact hother rfl
  obtain ⟨-, -, hhidden⟩ := notMem_visibleMembers_of_metBefore hbuilt (by decide) hself hsubtype
    (by decide) hsolid hshape rfl
  exact ⟨hbuilt, hself, hsubtype, hsolid, hshape, hmet, hpast, (hhidden (by decide) hpast).2⟩

/-- On the class that implements the first interface in its own right, the overridden method is
visible instead of the one that overrides it. -/
theorem visibleMembers_shapes :
    shapes.Built ∧ shapes.isSubtype "Cube" "Solid" = true ∧ shapes.isSubtype "Cube" "Shape" = true ∧
      shapes.isSubtype "Solid" "Shape" = true ∧
      areaOf "Solid" ∈ shapes.declared "Solid" "area" false ∧
      areaOf "Shape" ∈ shapes.declared "Shape" "area" false ∧
      (areaOf "Solid").params = (areaOf "Shape").params ∧
      shapes.visibleMembers "Cube" "area" false = [areaOf "Shape"] :=
  ⟨.run .empty _, by decide⟩

end ClassTable

end ScriptBytecode

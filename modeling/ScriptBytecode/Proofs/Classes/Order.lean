import ScriptBytecode.Proofs.Classes.Reachability
import ScriptBytecode.Proofs.Declaring

/-!
# The order of registration

Classes may be registered in any order. A class that mentions another does not wait for it, since
names have nodes as soon as they are mentioned; and whether a class closes a cycle comes out the
same in the end, whichever class of the cycle is the last. So if a list of classes can be
registered, it can be in every other order, with tables that answer everything alike
(`register_perm`).

* `Hierarchy.Reorders` and `ClassTable.Reorders` relate what differs in order only;
* `ClassTable.Accepts` says when a class can be registered, and `register_eq_ok_iff` that this
  decides;
* `reorders_withClass_comm` exchanges two classes, which is all that an order takes.

**Only neighbours are exchanged.** Every order can be made from every other by exchanging two
classes that follow each other, so `foldlM_perm` asks for two things only: that a class can be added
to two tables that differ in order if it can be added to one (`Reorders.withClass`), and that two
classes can be exchanged (`reorders_withClass_comm`).

**What has to stay in order.** The supertypes of each single name keep their order
(`Hierarchy.Reorders`), because a linearization depends on it. Nodes and edges of different names
may come in any order.

**The case that matters** is that of two classes that mention each other. The second one of them is
refused for a cycle in either order, so there is nothing to exchange; if they do not close a cycle,
the question asked of the second has the same answer before and after the first (`leads_swap`).
-/

namespace ScriptBytecode

/-! ### Folding over a permutation -/

/-- A pass over a list can be made in any order, if each step respects a relation between states and
two steps can be swapped. -/
theorem foldlM_perm {ε σ α : Type} {f : σ → α → Except ε σ} {R : σ → σ → Prop}
    (hright : ∀ {s s'}, R s s' → R s' s') (htrans : ∀ {s s' s''}, R s s' → R s' s'' → R s s'')
    (hstep : ∀ {s s' t a}, R s s' → f s a = .ok t → ∃ t', f s' a = .ok t' ∧ R t t')
    (hswap : ∀ {s t u a b}, R s s → f s a = .ok t → f t b = .ok u →
      ∃ t' u', f s b = .ok t' ∧ f t' a = .ok u' ∧ R u u')
    {as bs : List α} (hperm : as.Perm bs) {s s' t : σ} (hs : R s s')
    (h : as.foldlM f s = .ok t) : ∃ t', bs.foldlM f s' = .ok t' ∧ R t t' := by
  have hcons : ∀ {a as s t}, (a :: as).foldlM f s = .ok t ↔
      ∃ u, f s a = .ok u ∧ as.foldlM f u = .ok t := by
    intro a as s t
    rw [List.foldlM_cons]
    constructor
    · exact Session.ok_of_bind
    · rintro ⟨u, hu, ht⟩
      rw [hu]
      exact ht
  -- The same steps in the same order keep related states related; this is used behind each swap.
  have hsame : ∀ (as : List α) {s s' t : σ}, R s s' → as.foldlM f s = .ok t →
      ∃ t', as.foldlM f s' = .ok t' ∧ R t t' := by
    intro as
    induction as with
    | nil =>
      intro s s' t hs h
      obtain rfl := Except.ok.inj h
      exact ⟨s', rfl, hs⟩
    | cons a as ih =>
      intro s s' t hs h
      obtain ⟨u, hu, ht⟩ := hcons.1 h
      obtain ⟨u', hu', hru⟩ := hstep hs hu
      obtain ⟨t', ht', hrt⟩ := ih hru ht
      exact ⟨t', hcons.2 ⟨u', hu', ht'⟩, hrt⟩
  induction hperm generalizing s s' t with
  | nil => exact hsame [] hs h
  | cons a _ ih =>
    obtain ⟨u, hu, ht⟩ := hcons.1 h
    obtain ⟨u', hu', hru⟩ := hstep hs hu
    obtain ⟨t', ht', hrt⟩ := ih hru ht
    exact ⟨t', hcons.2 ⟨u', hu', ht'⟩, hrt⟩
  -- Both steps are first made in the second state, in the old order, and changed places there.
  | swap a b as =>
    obtain ⟨t', ht', hrt⟩ := hsame (b :: a :: as) hs h
    obtain ⟨u, hu, h⟩ := hcons.1 ht'
    obtain ⟨v, hv, h⟩ := hcons.1 h
    obtain ⟨u', v', hu', hv', hrv⟩ := hswap (hright hs) hu hv
    obtain ⟨w, hw, hrw⟩ := hsame as hrv h
    exact ⟨w, hcons.2 ⟨u', hu', hcons.2 ⟨v', hv', hw⟩⟩, htrans hrt hrw⟩
  | trans _ _ ih₁ ih₂ =>
    obtain ⟨t₁, h₁, hr₁⟩ := ih₁ hs h
    obtain ⟨t₂, h₂, hr₂⟩ := ih₂ (hright hs) h₁
    exact ⟨t₂, h₂, htrans hr₁ hr₂⟩

/-! ### Hierarchies -/

namespace Hierarchy

/-- The hierarchies have the same nodes and edges, in another order; but the supertypes of each name
are in the same order. -/
structure Reorders (h h' : Hierarchy) : Prop where
  nodes : h.nodes.Perm h'.nodes
  edges : h.edges.Perm h'.edges
  supertypes : h.supertypes = h'.supertypes

namespace Reorders

variable {h h' h'' : Hierarchy}

theorem refl (h : Hierarchy) : h.Reorders h := ⟨.refl _, .refl _, rfl⟩

theorem symm (hh : h.Reorders h') : h'.Reorders h :=
  ⟨hh.nodes.symm, hh.edges.symm, hh.supertypes.symm⟩

theorem trans (hh : h.Reorders h') (hh' : h'.Reorders h'') : h.Reorders h'' :=
  ⟨hh.nodes.trans hh'.nodes, hh.edges.trans hh'.edges, hh.supertypes.trans hh'.supertypes⟩

/-- Hierarchies that differ in order only have the same paths. -/
theorem reaches (hh : h.Reorders h') : h.reaches = h'.reaches := by
  funext source target
  unfold Hierarchy.reaches
  rw [hh.supertypes, hh.edges.length_eq, hh.nodes.contains_eq, hh.nodes.contains_eq]

/-- They have the same ancestors, in the same order. -/
theorem ancestors (hh : h.Reorders h') : h.ancestors = h'.ancestors := by
  funext name
  unfold Hierarchy.ancestors
  rw [hh.supertypes, hh.nodes.length_eq, hh.nodes.contains_eq]

/-- In both or in neither do all edges have nodes. -/
theorem closed (hh : h.Reorders h') (hclosed : h.Closed) : h'.Closed := fun e he ↦
  (hclosed e (hh.edges.mem_iff.2 he)).imp hh.nodes.mem_iff.1 hh.nodes.mem_iff.1

end Reorders

variable {h h' : Hierarchy} {name name' : String} {sups sups' : List String}

/-- A class is given its supertypes behind those that it had. -/
theorem supertypes_addClass (h : Hierarchy) (name : String) (sups : List String) (a : String) :
    (h.addClass name sups).supertypes a = h.supertypes a ++ if a = name then sups else [] := by
  unfold supertypes
  rw [edges_addClass, List.filter_append, List.map_append]
  refine congrArg _ ?_
  split
  · next heq =>
    subst heq
    simp [List.filter_map, Function.comp_def]
  · next hne => simp [List.filter_map, Function.comp_def, Ne.symm hne]

/-- A class adds the names that it mentions, each once. -/
theorem nodes_addClass (h : Hierarchy) (name : String) (sups : List String) :
    (h.addClass name sups).nodes.Perm ((name :: sups) ∪ h.nodes) := by
  have hnode : ∀ (h : Hierarchy) (a : String), (h.addNode a).nodes.Perm (h.nodes.insert a) := by
    intro h a
    unfold addNode
    split
    · next ha => rw [List.insert_of_mem (List.contains_iff_mem.1 ha)]
    · next ha =>
      rw [List.insert_of_not_mem fun hmem ↦ ha (List.contains_iff_mem.2 hmem)]
      exact List.perm_append_singleton a h.nodes
  have hfold : ∀ (sups : List String) (h : Hierarchy),
      (sups.foldl (·.addEdge name ·) h).nodes.Perm (sups ∪ h.nodes) := by
    intro sups
    induction sups with
    | nil => exact fun h ↦ .refl _
    | cons sup sups ih =>
      intro h
      have hedge : (h.addEdge name sup).nodes.Perm ([sup] ∪ h.nodes) := hnode h sup
      have hsplit : sups ∪ ([sup] ∪ h.nodes) = (sups ++ [sup]) ∪ h.nodes :=
        List.foldr_append.symm
      rw [List.foldl_cons]
      refine (ih _).trans ((hedge.union_left sups).trans ?_)
      rw [hsplit]
      exact (List.perm_append_singleton sup sups).union_right _
  have hsplit : sups ∪ ([name] ∪ h.nodes) = (sups ++ [name]) ∪ h.nodes := List.foldr_append.symm
  refine (hfold sups _).trans (((hnode h name).union_left sups).trans ?_)
  refine (List.Perm.of_eq hsplit).trans ?_
  exact (List.perm_append_singleton name sups).union_right _

/-- The same class can be added to both. -/
theorem Reorders.addClass (hh : h.Reorders h') (name : String) (sups : List String) :
    (h.addClass name sups).Reorders (h'.addClass name sups) where
  nodes := (nodes_addClass ..).trans ((hh.nodes.union_left _).trans (nodes_addClass ..).symm)
  edges := by
    rw [edges_addClass, edges_addClass]
    exact hh.edges.append_right _
  supertypes := by
    funext a
    rw [supertypes_addClass, supertypes_addClass, hh.supertypes]

/-- Two classes can be added in either order. -/
theorem reorders_addClass_comm (h : Hierarchy) (hne : name ≠ name') (sups sups' : List String) :
    ((h.addClass name sups).addClass name' sups').Reorders
      ((h.addClass name' sups').addClass name sups) where
  nodes := by
    have htwice : ∀ (name name' : String) (sups sups' : List String),
        ((h.addClass name sups).addClass name' sups').nodes.Perm
          (((name' :: sups') ++ (name :: sups)) ∪ h.nodes) := by
      intro name name' sups sups'
      have hsplit : (name' :: sups') ∪ ((name :: sups) ∪ h.nodes) =
          ((name' :: sups') ++ (name :: sups)) ∪ h.nodes := List.foldr_append.symm
      refine (nodes_addClass ..).trans (((nodes_addClass ..).union_left _).trans ?_)
      exact .of_eq hsplit
    exact (htwice ..).trans ((List.perm_append_comm.union_right _).trans (htwice ..).symm)
  edges := by
    simp only [edges_addClass, List.append_assoc]
    exact List.perm_append_comm.append_left _
  supertypes := by
    funext a
    simp only [supertypes_addClass, List.append_assoc]
    refine congrArg _ ?_
    split
    · next heq =>
      subst heq
      rw [if_neg hne, List.append_nil, List.nil_append]
    · rw [List.append_nil, List.nil_append]

end Hierarchy

/-! ### Tables -/

namespace ClassTable

/-- The tables have the same classes, with their members in the same order, and differ in the order
of the classes at most. -/
structure Reorders (t t' : ClassTable) : Prop where
  get? : ∀ name, t.get? name = t'.get? name
  hierarchy : t.hierarchy.Reorders t'.hierarchy
  signatures : t.signatures.Perm t'.signatures

namespace Reorders

variable {t t' t'' : ClassTable}

theorem refl (t : ClassTable) : t.Reorders t := ⟨fun _ ↦ rfl, .refl _, .refl _⟩

theorem trans (h : t.Reorders t') (h' : t'.Reorders t'') : t.Reorders t'' :=
  ⟨fun name ↦ (h.get? name).trans (h'.get? name), h.hierarchy.trans h'.hierarchy,
    h.signatures.trans h'.signatures⟩

end Reorders

variable {t t' : ClassTable} {e e' : ClassEntry}

/-- A name is that of a class if the table finds one. -/
theorem mem_names_iff {name : String} : name ∈ t.names ↔ ∃ e, t.get? name = some e := by
  rw [← Option.isSome_iff_exists, ← not_iff_not, ← contains_eq_false_iff, Bool.not_eq_true]
  rfl

/-- Signatures are new, and there is none of them twice. -/
def Fresh (signatures : List Fingerprint) (ms : List Member) : Prop :=
  (ms.map Member.fingerprint).Nodup ∧ ∀ m ∈ ms, m.fingerprint ∉ signatures

/-- There is no first duplicate just if all signatures are new and different. -/
theorem firstDuplicate?_eq_none_iff {signatures : List Fingerprint} {ms : List Member} :
    firstDuplicate? signatures ms = none ↔ Fresh signatures ms := by
  induction ms generalizing signatures with
  | nil => simp [firstDuplicate?, Fresh]
  | cons m ms ih =>
    rw [firstDuplicate?]
    split
    · next hm =>
      refine ⟨nofun, fun hfresh ↦ ?_⟩
      exact absurd (List.contains_iff_mem.1 hm) (hfresh.2 m (List.mem_cons_self ..))
    · next hm =>
      rw [ih]
      have hm : m.fingerprint ∉ signatures := fun hmem ↦ hm (List.contains_iff_mem.2 hmem)
      unfold Fresh
      rw [List.map_cons, List.nodup_cons, List.forall_mem_cons]
      simp only [List.mem_cons, not_or, List.mem_map, not_exists, not_and]
      constructor
      · rintro ⟨hnodup, hfresh⟩
        exact ⟨⟨fun m' hm' ↦ (hfresh m' hm').1, hnodup⟩, hm, fun m' hm' ↦ (hfresh m' hm').2⟩
      · rintro ⟨⟨hother, hnodup⟩, -, hfresh⟩
        exact ⟨hnodup, fun m' hm' ↦ ⟨hother m' hm', hfresh m' hm'⟩⟩

/-- Members are new if the first are, and the others beside them. -/
theorem fresh_append_iff {signatures : List Fingerprint} {ms ms' : List Member} :
    Fresh signatures (ms ++ ms') ↔
      Fresh signatures ms ∧ Fresh (signatures ++ ms.map Member.fingerprint) ms' := by
  unfold Fresh
  rw [List.map_append, List.nodup_append]
  constructor
  · rintro ⟨⟨hnodup, hnodup', hdisjoint⟩, hnew⟩
    refine ⟨⟨hnodup, fun m hm ↦ hnew m (List.mem_append_left _ hm)⟩, hnodup', fun m hm hmem ↦ ?_⟩
    rcases List.mem_append.1 hmem with hmem | hmem
    · exact hnew m (List.mem_append_right _ hm) hmem
    · exact hdisjoint _ hmem _ (List.mem_map_of_mem hm) rfl
  · rintro ⟨⟨hnodup, hnew⟩, hnodup', hnew'⟩
    refine ⟨⟨hnodup, hnodup', fun f hf f' hf' heq ↦ ?_⟩, fun m hm hmem ↦ ?_⟩
    · obtain ⟨m, hm, rfl⟩ := List.mem_map.1 hf'
      exact hnew' m hm (List.mem_append_right _ (heq ▸ hf))
    · rcases List.mem_append.1 hm with hm | hm
      · exact hnew m hm hmem
      · exact hnew' m hm (List.mem_append_left _ hmem)

/-- A member is new if its signature is. -/
theorem fresh_cons_iff {signatures : List Fingerprint} {m : Member} {ms : List Member} :
    Fresh signatures (m :: ms) ↔
      m.fingerprint ∉ signatures ∧ Fresh (signatures ++ [m.fingerprint]) ms := by
  have hsingle : Fresh signatures [m] ↔ m.fingerprint ∉ signatures := by simp [Fresh]
  show Fresh signatures ([m] ++ ms) ↔ _
  rw [fresh_append_iff, hsingle]
  rfl

/-- The table with a class added. -/
def withClass (t : ClassTable) (e : ClassEntry) : ClassTable where
  classes := t.classes ++ [e]
  hierarchy := t.hierarchy.addClass e.name e.supertypes
  signatures := t.signatures ++ e.members.map Member.fingerprint

/-- A class added to a table leaves no edge without nodes. -/
theorem closed_withClass (hclosed : t.hierarchy.Closed) (e : ClassEntry) :
    (t.withClass e).hierarchy.Closed :=
  hclosed.addClass e.name e.supertypes

/-- A class can be added if its name and signatures are new and it is not a supertype of itself. -/
structure Accepts (t : ClassTable) (e : ClassEntry) : Prop where
  fresh : t.get? e.name = none
  acyclic : ∀ sup ∈ e.supertypes, ¬t.hierarchy.Leads sup e.name
  signatures : Fresh t.signatures e.members

/-- In a closed hierarchy the question for cycles is one about paths. -/
theorem closesCycle_iff (hclosed : t.hierarchy.Closed) {name sup : String} :
    t.closesCycle name sup = true ↔ t.hierarchy.Leads sup name := by
  unfold closesCycle
  rw [Bool.or_eq_true, beq_iff_eq]
  by_cases heq : sup = name
  · subst heq
    exact ⟨fun _ ↦ .refl, fun _ ↦ .inl rfl⟩
  · rw [hclosed.reaches_iff heq]
    exact or_iff_right heq

/-- A class is registered just if the table accepts it, and then it is added. -/
theorem register_eq_ok_iff (hclosed : t.hierarchy.Closed) :
    t.register e = .ok t' ↔ t.Accepts e ∧ t' = t.withClass e := by
  have hcycle : e.supertypes.any (t.closesCycle e.name) = true ↔
      ¬∀ sup ∈ e.supertypes, ¬t.hierarchy.Leads sup e.name := by
    rw [List.any_eq_true]
    simp only [closesCycle_iff hclosed, not_forall, not_not, exists_prop]
  have hknown : t.contains e.name = true ↔ t.get? e.name ≠ none := by
    unfold contains
    rw [Option.isSome_iff_ne_none]
  -- The checks are made in this order: name, cycle, signatures. Each refusal contradicts one part.
  unfold register
  split
  · next hname =>
    exact ⟨nofun, fun h ↦ absurd h.1.fresh (hknown.1 hname)⟩
  · next hname =>
    split
    · next hany => exact ⟨nofun, fun h ↦ absurd h.1.acyclic (hcycle.1 hany)⟩
    · next hany =>
      split
      · next m hm =>
        refine ⟨nofun, fun h ↦ ?_⟩
        rw [firstDuplicate?_eq_none_iff.2 h.1.signatures] at hm
        cases hm
      · next hnone =>
        have haccepts : t.Accepts e := by
          refine ⟨?_, ?_, firstDuplicate?_eq_none_iff.1 hnone⟩
          · exact not_not.1 fun hne ↦ hname (hknown.2 hne)
          · exact not_not.1 fun hne ↦ hany (hcycle.2 hne)
        constructor
        · intro h
          exact ⟨haccepts, (Except.ok.inj h).symm⟩
        · rintro ⟨-, rfl⟩
          rfl

/-- The new class is found under its name, and the others as before. -/
theorem get?_withClass (hfresh : t.get? e.name = none) (name : String) :
    (t.withClass e).get? name = if name = e.name then some e else t.get? name := by
  unfold withClass get? at *
  dsimp only
  rw [List.find?_append]
  split
  · next heq =>
    subst heq
    rw [hfresh]
    simp
  · next hne => simp [Ne.symm hne]

/-- Tables that differ in order accept the same classes, and then still differ in order. -/
theorem Reorders.accepts (h : t.Reorders t') (haccepts : t.Accepts e) : t'.Accepts e where
  fresh := (h.get? _).symm.trans haccepts.fresh
  acyclic sup hsup hleads := by
    refine haccepts.acyclic sup hsup (Relation.ReflTransGen.mono (fun a b hbelow ↦ ?_) _ _ hleads)
    exact h.hierarchy.edges.mem_iff.2 hbelow
  signatures :=
    ⟨haccepts.signatures.1, fun m hm hmem ↦
      haccepts.signatures.2 m hm (h.signatures.mem_iff.2 hmem)⟩

/-- The same new class can be added to tables that differ in order only. -/
theorem Reorders.withClass (h : t.Reorders t') (hfresh : t.get? e.name = none) :
    (t.withClass e).Reorders (t'.withClass e) where
  get? name := by
    rw [get?_withClass hfresh, get?_withClass ((h.get? _).symm.trans hfresh), h.get?]
  hierarchy := h.hierarchy.addClass ..
  signatures := h.signatures.append_right _

/-- Two classes that are accepted one after another are accepted the other way round. -/
theorem accepts_comm (haccepts : t.Accepts e) (haccepts' : (t.withClass e).Accepts e') :
    t.Accepts e' ∧ (t.withClass e').Accepts e := by
  have hfresh := haccepts'.fresh
  rw [get?_withClass haccepts.fresh] at hfresh
  split at hfresh
  · cases hfresh
  · next hne =>
    obtain ⟨hacyclic, hacyclic'⟩ := Hierarchy.leads_swap haccepts.acyclic haccepts'.acyclic
    obtain ⟨hnodup, hnew⟩ := haccepts.signatures
    obtain ⟨hnodup', hnew'⟩ := haccepts'.signatures
    refine ⟨⟨hfresh, hacyclic, hnodup', fun m hm hmem ↦ ?_⟩,
      ⟨?_, hacyclic', hnodup, fun m hm hmem ↦ ?_⟩⟩
    · exact hnew' m hm (List.mem_append_left _ hmem)
    · rw [get?_withClass hfresh, if_neg (Ne.symm hne)]
      exact haccepts.fresh
    · rcases List.mem_append.1 hmem with hmem | hmem
      · exact hnew m hm hmem
      · obtain ⟨m', hm', heq⟩ := List.mem_map.1 hmem
        refine hnew' m' hm' (List.mem_append_right _ ?_)
        rw [heq]
        exact List.mem_map_of_mem hm

/-- Of two classes that are accepted one after the other, either can be added first. -/
theorem reorders_withClass_comm (haccepts : t.Accepts e) (haccepts' : (t.withClass e).Accepts e') :
    ((t.withClass e).withClass e').Reorders ((t.withClass e').withClass e) := by
  obtain ⟨hfirst, hsecond⟩ := accepts_comm haccepts haccepts'
  have hne : e.name ≠ e'.name := by
    intro heq
    have hfresh := hsecond.fresh
    rw [get?_withClass hfirst.fresh, if_pos heq] at hfresh
    cases hfresh
  refine ⟨fun name ↦ ?_, Hierarchy.reorders_addClass_comm _ hne _ _, ?_⟩
  · rw [get?_withClass haccepts'.fresh, get?_withClass haccepts.fresh,
      get?_withClass hsecond.fresh, get?_withClass hfirst.fresh]
    split
    · next heq =>
      subst heq
      rw [if_neg (Ne.symm hne)]
    · rfl
  · show ((t.signatures ++ _) ++ _).Perm ((t.signatures ++ _) ++ _)
    rw [List.append_assoc, List.append_assoc]
    exact List.perm_append_comm.append_left _

/-- Classes that can be registered one after another can be registered in any order. -/
theorem register_perm {es es' : List ClassEntry} (hperm : es.Perm es')
    (hclosed : t.hierarchy.Closed) (h : es.foldlM register t = .ok t') :
    ∃ t'', es'.foldlM register t = .ok t'' ∧ t'.Reorders t'' ∧ t''.hierarchy.Closed := by
  let R (t t' : ClassTable) : Prop := t.Reorders t' ∧ t'.hierarchy.Closed
  have hstep : ∀ {t t' u e}, R t t' → t.register e = .ok u →
      ∃ u', t'.register e = .ok u' ∧ R u u' := by
    rintro t t' u e ⟨hreorders, hclosed'⟩ hu
    obtain ⟨haccepts, rfl⟩ := (register_eq_ok_iff (hreorders.hierarchy.symm.closed hclosed')).1 hu
    refine ⟨t'.withClass e, (register_eq_ok_iff hclosed').2 ⟨hreorders.accepts haccepts, rfl⟩, ?_⟩
    exact ⟨hreorders.withClass haccepts.fresh, closed_withClass hclosed' e⟩
  have hswap : ∀ {t u v e e'}, R t t → t.register e = .ok u → u.register e' = .ok v →
      ∃ u' v', t.register e' = .ok u' ∧ u'.register e = .ok v' ∧ R v v' := by
    rintro t u v e e' ⟨-, hclosed⟩ hu hv
    obtain ⟨haccepts, rfl⟩ := (register_eq_ok_iff hclosed).1 hu
    obtain ⟨haccepts', rfl⟩ := (register_eq_ok_iff (closed_withClass hclosed e)).1 hv
    obtain ⟨hfirst, hsecond⟩ := accepts_comm haccepts haccepts'
    refine ⟨t.withClass e', (t.withClass e').withClass e,
      (register_eq_ok_iff hclosed).2 ⟨hfirst, rfl⟩,
      (register_eq_ok_iff (closed_withClass hclosed e')).2 ⟨hsecond, rfl⟩, ?_⟩
    exact ⟨reorders_withClass_comm haccepts haccepts',
      closed_withClass (closed_withClass hclosed e') e⟩
  exact foldlM_perm (f := register) (R := R) (fun h ↦ ⟨.refl _, h.2⟩)
    (fun h h' ↦ ⟨h.1.trans h'.1, h'.2⟩) hstep hswap hperm ⟨.refl t, hclosed⟩ h

end ClassTable

end ScriptBytecode

import ScriptBytecode.Proofs.Classes.Consistent

/-!
# Members in another order

The members of a class may have been added in any order: with the class or after it, among those of
other classes or not. Two tables that have the same classes with the same members, each class
perhaps in another order, are built over the same hierarchy, since this is what the classes declare.
If every member is in the class that owns it, the members of a class can be told apart, so the
tables differ in nothing that a call depends on (`Permutes.shuffles`).

* `ClassTable.Permutes` relates two such tables;
* `Permutes.reorders` compares their hierarchies, and `Permutes.shuffles` all that calls depend on;
* `permutes_of_addMember` says that a member may be added with its class or after it.

**Members and hierarchy do not touch.** A member adds no edge and no node, so two tables with the
same classes have hierarchies that differ in the order of classes only (`Permutes.reorders`),
however their members were added.

That every member stands in the class that owns it (`OwnsMembers`) is a property of tables that were
built. It is what makes a signature, which includes the owner, tell the members of one class apart.
-/

namespace ScriptBytecode

/-- Entries of the same class, with the same members up to order. -/
structure ClassEntry.Permutes (e e' : ClassEntry) : Prop where
  cls : e.cls = e'.cls
  supertypes : e.supertypes = e'.supertypes
  members : e.members.Perm e'.members

/-- An edge is there as often as the supertype is listed. -/
theorem Hierarchy.count_supertypes (h : Hierarchy) (a b : String) :
    (h.supertypes a).count b = h.edges.count (a, b) := by
  unfold supertypes
  rw [List.count, List.countP_map, List.countP_filter, List.count]
  refine List.countP_congr fun e _ ↦ ?_
  simp [Prod.ext_iff, and_comm]

namespace ClassTable

variable {t t' : ClassTable}

/-- Every member is in the class that owns it. -/
def OwnsMembers (t : ClassTable) : Prop := ∀ e ∈ t.classes, ∀ m ∈ e.members, m.owner.name = e.name

instance (t : ClassTable) : Decidable t.OwnsMembers :=
  inferInstanceAs (Decidable (∀ e ∈ t.classes, ∀ m ∈ e.members, _))

/-- The tables have the same classes, and these have the same members up to order. -/
def Permutes (t t' : ClassTable) : Prop :=
  ∀ name, Option.Rel ClassEntry.Permutes (t.get? name) (t'.get? name)

namespace Permutes

/-- The relation goes both ways. -/
theorem symm (h : t.Permutes t') : t'.Permutes t := by
  intro name
  rcases rel_cases (h name) with ⟨hget, hget'⟩ | ⟨e, e', hget, hget', hentry⟩
  · rw [hget, hget']
    exact .none
  · rw [hget, hget']
    exact .some ⟨hentry.cls.symm, hentry.supertypes.symm, hentry.members.symm⟩

/-- The hierarchies of the two tables have the same nodes. -/
theorem mem_nodes (h : t.Permutes t') (ht : t.Consistent) (ht' : t'.Consistent) {name : String}
    (hname : name ∈ t.hierarchy.nodes) : name ∈ t'.hierarchy.nodes := by
  obtain ⟨e, he, hmentions⟩ := (ht.mem_nodes name).1 hname
  have hget := (get?_eq_some_iff ht.nodup_names).2 ⟨he, rfl⟩
  rcases rel_cases (h e.name) with ⟨hnone, -⟩ | ⟨e₁, e', hget₁, hget', hentry⟩
  · rw [hget] at hnone
    cases hnone
  · obtain rfl := Option.some.inj (hget.symm.trans hget₁)
    obtain ⟨he', heq⟩ := (get?_eq_some_iff ht'.nodup_names).1 hget'
    rw [← heq, hentry.supertypes] at hmentions
    exact (ht'.mem_nodes name).2 ⟨e', he', hmentions⟩

/-- The hierarchies of the two tables differ in order only. -/
theorem reorders (h : t.Permutes t') (ht : t.Consistent) (ht' : t'.Consistent) :
    t.hierarchy.Reorders t'.hierarchy := by
  have hsupertypes : t.hierarchy.supertypes = t'.hierarchy.supertypes := by
    funext name
    rw [ht.supertypes, ht'.supertypes]
    rcases rel_cases (h name) with ⟨hget, hget'⟩ | ⟨e, e', hget, hget', hentry⟩
    · rw [hget, hget']
    · rw [hget, hget']
      exact hentry.supertypes
  refine ⟨(List.perm_ext_iff_of_nodup ht.nodup_nodes ht'.nodup_nodes).2 fun name ↦ ?_,
    List.perm_iff_count.2 fun ⟨a, b⟩ ↦ ?_, hsupertypes⟩
  · exact ⟨h.mem_nodes ht ht', h.symm.mem_nodes ht' ht⟩
  · rw [← Hierarchy.count_supertypes, ← Hierarchy.count_supertypes, hsupertypes]

/-- Members of classes that own them can be told apart, so their order does not matter. -/
theorem shuffles (h : t.Permutes t') (ht : t.Consistent) (ht' : t'.Consistent)
    (howns : t.OwnsMembers) : t.Shuffles t' := by
  refine ⟨fun name ↦ ?_, h.reorders ht ht'⟩
  rcases rel_cases (h name) with ⟨hget, hget'⟩ | ⟨e, e', hget, hget', hentry⟩
  · rw [hget, hget']
    exact .none
  · obtain ⟨he, -⟩ := (get?_eq_some_iff ht.nodup_names).1 hget
    have hfresh : Fresh [] e.members := ⟨ht.nodup_fingerprints he, nofun⟩
    have hdistinct := distinct_of_fresh hfresh e.name
    rw [List.filter_eq_self.2 fun m hm ↦ beq_iff_eq.2 (howns e he m hm)] at hdistinct
    rw [hget, hget']
    exact .some ⟨hentry.cls, [], e.members, e'.members, rfl, rfl, hentry.members, hdistinct⟩

end Permutes

/-- Adding members in another order comes to the same. -/
theorem permutes_of_addMember {u u' : ClassTable} {ms ms' : List Member} (hperm : ms.Perm ms')
    (h : ms.foldlM addMember t = .ok u) (h' : ms'.foldlM addMember t = .ok u') : u.Permutes u' := by
  obtain ⟨-, -, rfl⟩ := foldlM_addMember_iff.1 h
  obtain ⟨-, -, rfl⟩ := foldlM_addMember_iff.1 h'
  intro name
  rw [get?_withMembers, get?_withMembers]
  cases t.get? name with
  | none => exact .none
  | some e => exact .some ⟨rfl, rfl, (hperm.filter _).append_left e.members⟩

end ClassTable

end ScriptBytecode

import ScriptBytecode.Classes.Standard
import ScriptBytecode.Proofs.Classes.BreadthFirst
import ScriptBytecode.Proofs.Classes.Consistent

/-!
# The order of supertypes

The linearization of a class is what a breadth-first search along the edges of the hierarchy finds,
with the root class put last, whether it was found or not. Whether one class is a subtype of another
is decided by a search of its own, a depth-first one. The two agree: up to the root class, a
linearization lists just the supertypes, each once and nearest first (`linearize_supertypes`).

* `mem_linearize_iff_isSubtype` says which names are there, and `pairwise_linearize` that their
  order keeps to the distance;
* `linearize_supertypes` puts together all that is known of the order.

**Two searches.** The order is found breadth first and asks for nodes only; subtypes are decided
depth first, and a name is a subtype of itself also without a node. Both come down to paths
(`mem_linearize_iff`, `isSubtype_iff`), which is how they are compared, and not step by step.

**The root class is an exception throughout.** It is listed last although it may be near, and is
listed for interfaces and for unknown names, which do not lead to it. Every statement about
membership or order therefore has it set apart; among all other names nothing is changed by it.
-/

namespace ScriptBytecode.ClassTable

variable {t : ClassTable} {e : ClassEntry} {name x y : String}

/-- In a closed hierarchy a subtype is one that leads to the supertype. -/
theorem isSubtype_iff (hclosed : t.hierarchy.Closed) :
    t.isSubtype x y = true ↔ t.hierarchy.Leads x y :=
  closesCycle_iff hclosed

/-! ### What is listed -/

/-- The root class is always listed. -/
theorem objectName_mem_linearize (t : ClassTable) (name : String) :
    objectName ∈ t.linearize name :=
  List.mem_append_right _ (List.mem_singleton_self _)

/-- All else that is listed was found by the search. -/
theorem mem_linearize_iff (hne : x ≠ objectName) :
    x ∈ t.linearize name ↔ x ∈ t.hierarchy.ancestors name := by
  unfold linearize
  simp [hne]

/-- What a node has among its supertypes is listed. -/
theorem mem_linearize_iff_isSubtype (hclosed : t.hierarchy.Closed)
    (hname : name ∈ t.hierarchy.nodes) (hne : x ≠ objectName) :
    x ∈ t.linearize name ↔ t.isSubtype name x = true := by
  rw [mem_linearize_iff hne, (Hierarchy.sweep_ancestors hclosed hname).mem_iff,
    isSubtype_iff hclosed]

/-- So is a class that a name has among its supertypes, be the name a node or not. -/
theorem Consistent.mem_linearize (h : t.Consistent) (hget : t.get? x = some e)
    (hsubtype : t.isSubtype name x = true) : x ∈ t.linearize name := by
  by_cases hne : x = objectName
  · rw [hne]
    exact t.objectName_mem_linearize name
  · refine (mem_linearize_iff_isSubtype h.closed ?_ hne).2 hsubtype
    rcases Relation.ReflTransGen.cases_head ((isSubtype_iff h.closed).1 hsubtype) with
      rfl | ⟨_, hbelow, -⟩
    · exact h.mem_nodes_of_get? hget
    · exact (h.closed _ hbelow).1

/-! ### In what order -/

/-- Nothing is listed twice. -/
theorem nodup_linearize (hclosed : t.hierarchy.Closed) (name : String) :
    (t.linearize name).Nodup := by
  have hnodup : (t.hierarchy.ancestors name).Nodup := by
    by_cases hname : name ∈ t.hierarchy.nodes
    · have hsweep := (Hierarchy.sweep_ancestors hclosed hname).nodup
      rwa [List.append_nil] at hsweep
    · rw [Hierarchy.ancestors_eq_nil hname]
      exact .nil
  refine (hnodup.filter _).append (List.nodup_singleton _) (List.disjoint_singleton.2 fun hmem ↦ ?_)
  simpa using (List.mem_filter.1 hmem).2

/-- A class comes before its supertypes. -/
theorem head?_linearize (hname : name ∈ t.hierarchy.nodes) (hne : name ≠ objectName) :
    (t.linearize name).head? = some name := by
  obtain ⟨sups, hsups⟩ := Hierarchy.prefix_ancestors hname
  unfold linearize
  rw [← hsups, List.singleton_append, List.filter_cons_of_pos (by simpa using hne)]
  rfl

/-- Supertypes are listed nearest first and, at the same distance, in the order in which they are
met, and the root class after all others. -/
theorem pairwise_linearize (hclosed : t.hierarchy.Closed) (name : String) :
    (t.linearize name).Pairwise fun x y ↦ x ≠ objectName ∧ (y ≠ objectName →
      t.hierarchy.distance name x ≤ t.hierarchy.distance name y ∧
      (t.hierarchy.distance name x = t.hierarchy.distance name y →
        t.hierarchy.MetFirst name (t.hierarchy.distance name x) x y)) := by
  have hsorted : (t.hierarchy.ancestors name).Pairwise fun x y ↦
      t.hierarchy.distance name x ≤ t.hierarchy.distance name y ∧
      (t.hierarchy.distance name x = t.hierarchy.distance name y →
        t.hierarchy.MetFirst name (t.hierarchy.distance name x) x y) := by
    by_cases hname : name ∈ t.hierarchy.nodes
    · have hsweep := Hierarchy.sweep_ancestors hclosed hname
      have hpairs := hsweep.sorted.and hsweep.ordered
      rwa [List.append_nil] at hpairs
    · rw [Hierarchy.ancestors_eq_nil hname]
      exact .nil
  have hne : ∀ x ∈ (t.hierarchy.ancestors name).filter (· != objectName), x ≠ objectName :=
    fun x hx ↦ by simpa using (List.mem_filter.1 hx).2
  refine List.pairwise_append.2 ⟨?_, List.pairwise_singleton .., ?_⟩
  · exact (hsorted.filter _).imp_of_mem fun hx _ hle ↦ ⟨hne _ hx, fun _ ↦ hle⟩
  · intro x hx y hy
    exact ⟨hne x hx, fun hroot ↦ absurd (List.mem_singleton.1 hy) hroot⟩

/-- In a table that can be built, the linearization of a node lists nothing twice, ends with the
root class, begins with the node unless that is the root class, and has, up to the root class, just
the supertypes of the node in it, in the order of their distance. -/
theorem linearize_supertypes (hbuilt : t.Built) (hname : name ∈ t.hierarchy.nodes) :
    (t.linearize name).Nodup ∧ (t.linearize name).getLast? = some objectName ∧
      (name ≠ objectName → (t.linearize name).head? = some name) ∧
      (∀ x, x ≠ objectName → (x ∈ t.linearize name ↔ t.isSubtype name x = true)) ∧
      (t.linearize name).Pairwise fun x y ↦ y ≠ objectName →
        t.hierarchy.distance name x ≤ t.hierarchy.distance name y :=
  ⟨nodup_linearize hbuilt.closed name, List.getLast?_concat, head?_linearize hname,
    fun _ ↦ mem_linearize_iff_isSubtype hbuilt.closed hname,
    (pairwise_linearize hbuilt.closed name).imp fun hpair hne ↦ (hpair.2 hne).1⟩

/-- An interface, another one that extends it and overrides its method, a class that implements the
second, and a class below that one that implements the first in its own right. -/
def shapes : ClassTable :=
  let shape := ClassEntry.ofInterface "Shape" |>.method "area" [] .int
  let solid := ClassEntry.ofInterface "Solid" |>.implements "Shape" |>.method "area" [] .int
  let block := ClassEntry.ofClass "Block" |>.implements "Solid"
  let cube := { ClassEntry.ofClass "Cube" with superclass := some "Block" } |>.implements "Shape"
  empty.run [.ofClass shape, .ofClass solid, .ofClass block, .ofClass cube]

/-- Walks of one edge and of three lead from the last class to the first interface. It is listed
once, before the second one, which is two edges away. -/
theorem linearize_shapes :
    "Cube" ∈ shapes.hierarchy.nodes ∧
      shapes.linearize "Cube" = ["Cube", "Shape", "Block", "Solid", objectName] ∧
      (shapes.linearize "Cube").Nodup ∧ (shapes.linearize "Cube").getLast? = some objectName ∧
      (shapes.linearize "Cube").head? = some "Cube" ∧
      (∀ x, x ≠ objectName → (x ∈ shapes.linearize "Cube" ↔ shapes.isSubtype "Cube" x = true)) ∧
      shapes.hierarchy.distance "Cube" "Shape" ≤ shapes.hierarchy.distance "Cube" "Solid" := by
  have hlist : shapes.linearize "Cube" = ["Cube", "Shape", "Block", "Solid", objectName] := by
    decide
  have hname : "Cube" ∈ shapes.hierarchy.nodes := by decide
  obtain ⟨hnodup, hlast, hhead, hmem, hsorted⟩ := linearize_supertypes (.run .empty _) hname
  have hpair : ["Shape", "Solid"].Sublist (shapes.linearize "Cube") := by
    rw [hlist]
    decide
  have hle := List.pairwise_iff_forall_sublist.1 hsorted hpair
  exact ⟨hname, hlist, hnodup, hlast, hhead (by decide), hmem, hle (by decide)⟩

end ScriptBytecode.ClassTable

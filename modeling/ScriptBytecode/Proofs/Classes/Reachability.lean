import Mathlib.Data.List.Perm.Basic
import Mathlib.Logic.Relation
import ScriptBytecode.Classes.Hierarchy

/-!
# Paths in the hierarchy

One name leads to another if edges of the hierarchy do. The search that decides it never runs out of
fuel: it takes one step for each name on its stack, and a name puts its supertypes there only once,
so as many steps as there are edges are enough, and one for the name to start from. So `reaches`
decides whether there is a path (`reaches_iff`).

Where both ends of every edge have nodes, that is also what adding a class asks about cycles, and
whether two classes can be added does not depend on which of them comes first (`leads_swap`).

**The measure.** A step takes a name off the stack and may put several there, so the stack does not
shrink. What shrinks is the number of names on the stack and of edges out of names that were not
visited (`pending`): a name that is visited uses up its edges, and one that was visited before only
leaves the stack.

**Sound and complete apart.** `leads_of_mem_depthFirst` says that what is found is led to, for any
fuel; `closed_depthFirst` says that with enough fuel what is found is closed under edges. Both
together give `reaches_iff`.

**Names without nodes** are found by no search, though an edge may lead to them in a hierarchy that
is not `Closed`. Every hierarchy that is built by adding classes is closed.
-/

namespace ScriptBytecode.Hierarchy

variable {h : Hierarchy} {a b name : String} {sups : List String}

/-- There is an edge from the one name to the other. -/
def Below (h : Hierarchy) (sub sup : String) : Prop := (sub, sup) ∈ h.edges

/-- Edges lead from the one name to the other. -/
abbrev Leads (h : Hierarchy) : String → String → Prop := Relation.ReflTransGen h.Below

/-- The supertypes of a name are what it has edges to. -/
theorem mem_supertypes : b ∈ h.supertypes a ↔ h.Below a b := by
  unfold supertypes Below
  simp

/-! ### The search -/

/-- How many steps a search can still take: one for each name on its stack, and one for each edge
out of a name that has not been visited. -/
def pending (h : Hierarchy) (stack visited : List String) : Nat :=
  stack.length + h.edges.countP fun e ↦ !visited.contains e.1

/-- A name that is visited puts its supertypes on the stack, and its edges are used up. -/
theorem pending_visit (h : Hierarchy) (stack : List String) {visited : List String}
    (ha : visited.contains a = false) :
    h.pending (h.supertypes a ++ stack) (a :: visited) + 1 = h.pending (a :: stack) visited := by
  have hsplit : h.edges.countP (fun e ↦ !visited.contains e.1) =
      h.edges.countP (·.1 == a) + h.edges.countP fun e ↦ !(a :: visited).contains e.1 := by
    induction h.edges with
    | nil => rfl
    | cons e edges ih =>
      by_cases he : e.1 = a
      · simp_all
        omega
      · by_cases hv : e.1 ∈ visited
        · simp_all
        · simp_all
          omega
  have hlength : (h.supertypes a).length = h.edges.countP (·.1 == a) := by
    simp [supertypes, List.countP_eq_length_filter]
  unfold pending
  rw [List.length_append, hlength, hsplit, List.length_cons]
  omega

/-- Whatever is found was visited before or is led to by the stack. -/
theorem leads_of_mem_depthFirst {fuel : Nat} {stack visited : List String} {x : String}
    (hx : x ∈ depthFirst h.supertypes fuel stack visited) :
    x ∈ visited ∨ ∃ s ∈ stack, h.Leads s x := by
  induction fuel generalizing stack visited with
  | zero => exact .inl hx
  | succ fuel ih =>
    cases stack with
    | nil => exact .inl hx
    | cons a stack =>
      unfold depthFirst at hx
      split at hx
      · rcases ih hx with hv | ⟨s, hs, hleads⟩
        · exact .inl hv
        · exact .inr ⟨s, List.mem_cons_of_mem _ hs, hleads⟩
      · rcases ih hx with hv | ⟨s, hs, hleads⟩
        · rcases List.mem_cons.1 hv with rfl | hv
          · exact .inr ⟨x, List.mem_cons_self .., .refl⟩
          · exact .inl hv
        · rcases List.mem_append.1 hs with hsup | hs
          · exact .inr ⟨a, List.mem_cons_self .., hleads.head (mem_supertypes.1 hsup)⟩
          · exact .inr ⟨s, List.mem_cons_of_mem _ hs, hleads⟩

/-- A search with enough fuel finds what was visited and what is on the stack, and with each name
the supertypes of that name. -/
theorem closed_depthFirst {fuel : Nat} {stack visited : List String}
    (hfuel : h.pending stack visited ≤ fuel)
    (hvisited : ∀ a ∈ visited, ∀ b, h.Below a b → b ∈ visited ∨ b ∈ stack) :
    (∀ x, x ∈ visited ∨ x ∈ stack → x ∈ depthFirst h.supertypes fuel stack visited) ∧
      ∀ a ∈ depthFirst h.supertypes fuel stack visited, ∀ b, h.Below a b →
        b ∈ depthFirst h.supertypes fuel stack visited := by
  -- `pending` counts what can still be visited, so no fuel means that nothing waits.
  induction fuel generalizing stack visited with
  | zero =>
    have hstack : stack = [] := by
      unfold pending at hfuel
      exact List.length_eq_zero_iff.1 (by omega)
    subst hstack
    exact ⟨fun x hx ↦ hx.resolve_right List.not_mem_nil, fun a ha b hb ↦
      (hvisited a ha b hb).resolve_right List.not_mem_nil⟩
  | succ fuel ih =>
    cases stack with
    | nil =>
      exact ⟨fun x hx ↦ hx.resolve_right List.not_mem_nil, fun a ha b hb ↦
        (hvisited a ha b hb).resolve_right List.not_mem_nil⟩
    | cons a stack =>
      unfold depthFirst
      split
      · -- `a` was visited before, and is only taken off.
        next ha =>
        have hmem : a ∈ visited := List.contains_iff_mem.1 ha
        have hless : h.pending stack visited ≤ fuel := by
          unfold pending at hfuel ⊢
          rw [List.length_cons] at hfuel
          omega
        obtain ⟨hfound, hclosed⟩ := ih hless fun x hx b hb ↦ by
          rcases hvisited x hx b hb with hb | hb
          · exact .inl hb
          · rcases List.mem_cons.1 hb with rfl | hb
            · exact .inl hmem
            · exact .inr hb
        refine ⟨fun x hx ↦ hfound x ?_, hclosed⟩
        rcases hx with hx | hx
        · exact .inl hx
        · rcases List.mem_cons.1 hx with rfl | hx
          · exact .inl hmem
          · exact .inr hx
      · -- `a` is new: its supertypes wait now, which takes less than what they are counted with.
        next ha =>
        have hless : h.pending (h.supertypes a ++ stack) (a :: visited) ≤ fuel := by
          have hpending := pending_visit h stack (Bool.eq_false_iff.2 ha)
          omega
        obtain ⟨hfound, hclosed⟩ := ih hless fun x hx b hb ↦ by
          rcases List.mem_cons.1 hx with rfl | hx
          · exact .inr (List.mem_append_left _ (mem_supertypes.2 hb))
          · rcases hvisited x hx b hb with hb | hb
            · exact .inl (List.mem_cons_of_mem _ hb)
            · rcases List.mem_cons.1 hb with rfl | hb
              · exact .inl (List.mem_cons_self ..)
              · exact .inr (List.mem_append_right _ hb)
        refine ⟨fun x hx ↦ hfound x ?_, hclosed⟩
        rcases hx with hx | hx
        · exact .inl (List.mem_cons_of_mem _ hx)
        · rcases List.mem_cons.1 hx with rfl | hx
          · exact .inl (List.mem_cons_self ..)
          · exact .inr (List.mem_append_right _ hx)

/-- Reaching a name is having a path to it, between names that have nodes. -/
theorem reaches_iff : h.reaches a b = true ↔ a ∈ h.nodes ∧ b ∈ h.nodes ∧ h.Leads a b := by
  have hfuel : h.pending [a] [] ≤ h.edges.length + 1 := by
    unfold pending
    have := List.countP_le_length (p := fun e : String × String ↦ !([] : List String).contains e.1)
      (l := h.edges)
    rw [List.length_singleton]
    omega
  obtain ⟨hfound, hclosed⟩ := closed_depthFirst hfuel fun _ ha ↦ absurd ha List.not_mem_nil
  have hsearch : (depthFirst h.supertypes (h.edges.length + 1) [a] []).contains b = true ↔
      h.Leads a b := by
    rw [List.contains_iff_mem]
    constructor
    · intro hb
      rcases leads_of_mem_depthFirst hb with hb | ⟨s, hs, hleads⟩
      · cases hb
      · obtain rfl := List.mem_singleton.1 hs
        exact hleads
    · intro hleads
      induction hleads with
      | refl => exact hfound a (.inr (List.mem_singleton_self a))
      | tail _ hbelow ih => exact hclosed _ ih _ hbelow
  unfold reaches
  rw [Bool.and_eq_true, Bool.and_eq_true, hsearch, List.contains_iff_mem, List.contains_iff_mem,
    and_assoc]

/-! ### Adding a class -/

/-- A node adds no edge. -/
@[simp] theorem edges_addNode (h : Hierarchy) (name : String) :
    (h.addNode name).edges = h.edges := by
  unfold addNode
  split <;> rfl

/-- It is the only node added. -/
@[simp] theorem mem_nodes_addNode : a ∈ (h.addNode name).nodes ↔ a ∈ h.nodes ∨ a = name := by
  unfold addNode
  split
  · next hname =>
    constructor
    · exact .inl
    · rintro (ha | rfl)
      · exact ha
      · exact List.contains_iff_mem.1 hname
  · simp

/-- A class adds the edges to its supertypes behind all others. -/
theorem edges_addClass (h : Hierarchy) (name : String) (sups : List String) :
    (h.addClass name sups).edges = h.edges ++ sups.map (name, ·) := by
  have hfold : ∀ (sups : List String) (h : Hierarchy),
      (sups.foldl (·.addEdge name ·) h).edges = h.edges ++ sups.map (name, ·) := by
    intro sups
    induction sups with
    | nil => simp
    | cons sup sups ih =>
      intro h
      rw [List.foldl_cons, ih]
      simp [addEdge]
  exact (hfold sups _).trans (by rw [edges_addNode])

/-- A class adds nodes for itself and for its supertypes. -/
theorem mem_nodes_addClass :
    a ∈ (h.addClass name sups).nodes ↔ a ∈ h.nodes ∨ a = name ∨ a ∈ sups := by
  have hfold : ∀ (sups : List String) (h : Hierarchy),
      a ∈ (sups.foldl (·.addEdge name ·) h).nodes ↔ a ∈ h.nodes ∨ a ∈ sups := by
    intro sups
    induction sups with
    | nil => simp
    | cons sup sups ih =>
      intro h
      rw [List.foldl_cons, ih]
      have hedge : a ∈ (h.addEdge name sup).nodes ↔ a ∈ h.nodes ∨ a = sup := mem_nodes_addNode
      rw [hedge, List.mem_cons, or_assoc]
  exact (hfold sups _).trans (by rw [mem_nodes_addNode, or_assoc])

/-- The new edges lead from the class to its supertypes. -/
theorem below_addClass : (h.addClass name sups).Below a b ↔ h.Below a b ∨ a = name ∧ b ∈ sups := by
  unfold Below
  rw [edges_addClass, List.mem_append]
  refine or_congr_right ?_
  simp [and_comm, eq_comm]

/-- Paths stay when a class is added. -/
theorem Leads.addClass (hleads : h.Leads a b) (name : String) (sups : List String) :
    (h.addClass name sups).Leads a b :=
  Relation.ReflTransGen.mono (fun _ _ hbelow ↦ below_addClass.2 (.inl hbelow)) _ _ hleads

/-- A path that a class has opened goes to that class and on from one of its supertypes. -/
theorem leads_of_addClass (hleads : (h.addClass name sups).Leads a b) :
    h.Leads a b ∨ h.Leads a name ∧ ∃ sup ∈ sups, h.Leads sup b := by
  induction hleads using Relation.ReflTransGen.head_induction_on with
  | refl => exact .inl .refl
  | head hbelow _ ih =>
    rcases below_addClass.1 hbelow with hbelow | ⟨rfl, hsup⟩
    · exact ih.imp (.head hbelow) (And.imp_left (.head hbelow))
    · refine .inr ⟨.refl, ?_⟩
      rcases ih with hleads | ⟨-, hfrom⟩
      · exact ⟨_, hsup, hleads⟩
      · exact hfrom

/-- If two classes can be added one after another without closing a cycle, so they can the other way
round. -/
theorem leads_swap {name' : String} {sups' : List String} (hfirst : ∀ sup ∈ sups, ¬h.Leads sup name)
    (hsecond : ∀ sup ∈ sups', ¬(h.addClass name sups).Leads sup name') :
    (∀ sup ∈ sups', ¬h.Leads sup name') ∧
      ∀ sup ∈ sups, ¬(h.addClass name' sups').Leads sup name := by
  refine ⟨fun sup hsup hleads ↦ hsecond sup hsup (hleads.addClass name sups), ?_⟩
  intro sup hsup hleads
  rcases leads_of_addClass hleads with hleads | ⟨hto, sup', hsup', hfrom⟩
  · exact hfirst sup hsup hleads
  · -- back along the first class: from the second's supertype to the first, and on to the second
    have hedge : (h.addClass name sups).Below name sup := below_addClass.2 (.inr ⟨rfl, hsup⟩)
    exact hsecond sup' hsup'
      ((hfrom.addClass name sups).trans (.head hedge (hto.addClass name sups)))

/-! ### Closed hierarchies -/

/-- Both ends of every edge have nodes. -/
def Closed (h : Hierarchy) : Prop := ∀ e ∈ h.edges, e.1 ∈ h.nodes ∧ e.2 ∈ h.nodes

instance (h : Hierarchy) : Decidable h.Closed :=
  inferInstanceAs (Decidable (∀ e ∈ h.edges, _))

/-- A class leaves no edge without nodes. -/
theorem Closed.addClass (hclosed : h.Closed) (name : String) (sups : List String) :
    (h.addClass name sups).Closed := by
  intro e he
  rw [mem_nodes_addClass, mem_nodes_addClass]
  rw [edges_addClass] at he
  rcases List.mem_append.1 he with he | he
  · exact (hclosed e he).imp .inl .inl
  · obtain ⟨sup, hsup, rfl⟩ := List.mem_map.1 he
    exact ⟨.inr (.inl rfl), .inr (.inr hsup)⟩

/-- All that a node of a closed hierarchy leads to are nodes. -/
theorem Closed.mem_nodes (hclosed : h.Closed) (ha : a ∈ h.nodes) (hleads : h.Leads a b) :
    b ∈ h.nodes := by
  rcases Relation.ReflTransGen.cases_tail hleads with rfl | ⟨_, -, hbelow⟩
  · exact ha
  · exact (hclosed _ hbelow).2

/-- In a closed hierarchy a path between different names is one between nodes. -/
theorem Closed.reaches_iff (hclosed : h.Closed) (hne : a ≠ b) :
    h.reaches a b = true ↔ h.Leads a b := by
  rw [Hierarchy.reaches_iff]
  refine ⟨fun hreaches ↦ hreaches.2.2, fun hleads ↦ ⟨?_, ?_, hleads⟩⟩
  · rcases Relation.ReflTransGen.cases_head hleads with rfl | ⟨_, hbelow, -⟩
    · exact absurd rfl hne
    · exact (hclosed _ hbelow).1
  · rcases Relation.ReflTransGen.cases_tail hleads with rfl | ⟨_, -, hbelow⟩
    · exact absurd rfl hne
    · exact (hclosed _ hbelow).2

end ScriptBytecode.Hierarchy

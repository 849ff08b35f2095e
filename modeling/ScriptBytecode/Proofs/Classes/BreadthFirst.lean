import Mathlib.Data.List.Perm.Subperm
import Mathlib.Order.Lattice.Nat
import ScriptBytecode.Proofs.Classes.Reachability

/-!
# Searching breadth first

A breadth-first search keeps what it has discovered in one list, of which the front part has been
expanded and the rest is waiting. Expanding a name retires it and adds its neighbours that are new
at the end (`discoveries`). So nothing is discovered twice, and a search among finitely many names
comes to an end when it has taken one step for each (`breadthFirst_eq`).

In a hierarchy the search follows distance. The `distance` between two names is the number of edges
of a shortest walk, and `Sweep` says what holds of a search from some source at any time:

* what has been expanded has its supertypes discovered,
* names are discovered nearest first and, at the same distance, in the order of the names that lead
  to them (`MetFirst`), and
* what waits is at most one edge nearer than whatever has been discovered.

Expanding a name keeps this (`Sweep.expand`): a name that is new is farther away than all that were
expanded, since every walk to it leads through a waiting name. A search that has come to an end has
therefore discovered all that the source leads to, nearest first (`sweep_ancestors`).

**Distance is defined apart from the search.** `distance` is the length of a shortest walk and
mentions neither queue nor order. That the search follows it is what is proved, and the proof needs
the order in which names wait: the nearest ones have to come first at any time for new names to be
farther away than all that came before (`Sweep.distance_lt`).

**Ties.** At one distance the order of discovery is that of the edges, in two ways. Names with
different predecessors are met in the order of these; of names with the same first predecessor, the
one is met first that an edge was added to last (`pairwise_discoveries`). `MetFirst` puts this as a
recursion on the length of walks, again without a search.

**Fuel.** A search takes a step for each name that it discovers, and discovers only nodes. So as
many steps as there are nodes are enough (`breadthFirst_eq`), and the fuel never decides an answer.
-/

namespace ScriptBytecode

/-! ### Expanding a name -/

section Search

variable {α : Type} [BEq α]

/-- The neighbours of `a` that are new when it is expanded. -/
def discoveries (next : α → List α) (done : List α) (a : α) (queue : List α) : List α :=
  ((next a).filter fun b ↦ !(done ++ a :: queue).contains b).eraseDups

/-- One step of a search expands the name that has waited longest. -/
theorem breadthFirst_cons (next : α → List α) (fuel : Nat) (done : List α) (a : α)
    (queue : List α) : breadthFirst next (fuel + 1) done (a :: queue) =
      breadthFirst next fuel (done ++ [a]) (queue ++ discoveries next done a queue) := rfl

/-- A search with nothing left to expand has come to its end. -/
@[simp] theorem breadthFirst_nil (next : α → List α) (fuel : Nat) (done : List α) :
    breadthFirst next fuel done [] = done := by
  cases fuel <;> exact List.append_nil done

/-- Expanding a name puts what is new behind all that has been discovered. -/
theorem append_discoveries (next : α → List α) (done : List α) (a : α) (queue : List α) :
    (done ++ [a]) ++ (queue ++ discoveries next done a queue) =
      (done ++ a :: queue) ++ discoveries next done a queue := by
  simp

/-- What has been discovered stays in front. -/
theorem prefix_breadthFirst (next : α → List α) (fuel : Nat) (done queue : List α) :
    done ++ queue <+: breadthFirst next fuel done queue := by
  induction fuel generalizing done queue with
  | zero => exact List.prefix_refl _
  | succ fuel ih =>
    cases queue with
    | nil => simp
    | cons a queue =>
      rw [breadthFirst_cons]
      refine List.IsPrefix.trans ?_ (ih _ _)
      rw [append_discoveries]
      exact List.prefix_append _ _

variable [LawfulBEq α]

/-- What a filter leaves stays in order. -/
theorem idxOf_lt_of_filter {p : α → Bool} {l : List α} {x y : α} (hx : p x = true) (hy : p y = true)
    (h : (l.filter p).idxOf x < (l.filter p).idxOf y) : l.idxOf x < l.idxOf y := by
  induction l with
  | nil => cases h
  | cons c l ih =>
    cases hc : p c with
    | false =>
      have hother : ∀ {z}, p z = true → c ≠ z := by
        rintro z hz rfl
        exact absurd (hc.symm.trans hz) Bool.false_ne_true
      rw [List.filter_cons_of_neg (by simp [hc])] at h
      rw [List.idxOf_cons_ne l (hother hx), List.idxOf_cons_ne l (hother hy)]
      exact Nat.succ_lt_succ (ih h)
    | true =>
      rw [List.filter_cons_of_pos hc] at h
      have hcy : c ≠ y := by
        rintro rfl
        rw [List.idxOf_cons_self] at h
        exact Nat.not_lt_zero _ h
      rw [List.idxOf_cons_ne l hcy]
      rw [List.idxOf_cons_ne _ hcy] at h
      by_cases hcx : c = x
      · rw [List.idxOf_cons_eq l hcx]
        exact Nat.succ_pos _
      · rw [List.idxOf_cons_ne _ hcx] at h
        rw [List.idxOf_cons_ne l hcx]
        exact Nat.succ_lt_succ (ih (Nat.succ_lt_succ_iff.1 h))

/-- Without repetitions, a list has its elements in the order in which they first stand in it. -/
theorem pairwise_eraseDups (l : List α) : l.eraseDups.Pairwise fun x y ↦ l.idxOf x < l.idxOf y := by
  induction hlength : l.length using Nat.strongRecOn generalizing l with
  | ind length ih =>
    cases l with
    | nil => exact .nil
    | cons a l =>
      have hkept : ∀ x ∈ (l.filter fun b ↦ !b == a).eraseDups, (!x == a) = true := fun x hx ↦
        (List.mem_filter.1 (List.mem_eraseDups.1 hx)).2
      have hother : ∀ x ∈ (l.filter fun b ↦ !b == a).eraseDups, a ≠ x := by
        rintro x hx rfl
        simpa using hkept a hx
      have hlt : (l.filter fun b ↦ !b == a).length < length := by
        rw [← hlength, List.length_cons]
        exact Nat.lt_succ_of_le (List.length_filter_le ..)
      rw [List.eraseDups_cons]
      refine List.pairwise_cons.2 ⟨fun x hx ↦ ?_, (ih _ hlt _ rfl).imp_of_mem ?_⟩
      · rw [List.idxOf_cons_self, List.idxOf_cons_ne l (hother x hx)]
        exact Nat.succ_pos _
      · intro x y hx hy hfirst
        rw [List.idxOf_cons_ne l (hother x hx), List.idxOf_cons_ne l (hother y hy)]
        exact Nat.succ_lt_succ (idxOf_lt_of_filter (hkept x hx) (hkept y hy) hfirst)

/-- Without repetitions, a list has nothing twice. -/
theorem nodup_eraseDups (l : List α) : l.eraseDups.Nodup := by
  refine (pairwise_eraseDups l).imp fun hlt ↦ ?_
  rintro rfl
  exact Nat.lt_irrefl _ hlt

variable {next : α → List α} {done queue : List α} {a b : α}

/-- What is new is next to the name and not discovered yet. -/
theorem mem_discoveries :
    b ∈ discoveries next done a queue ↔ b ∈ next a ∧ b ∉ done ++ a :: queue := by
  unfold discoveries
  rw [List.mem_eraseDups, List.mem_filter, Bool.not_eq_true', ← Bool.not_eq_true,
    List.contains_iff_mem]

/-- Nothing is discovered twice. -/
theorem nodup_append_discoveries (next : α → List α) (hnodup : (done ++ a :: queue).Nodup) :
    ((done ++ a :: queue) ++ discoveries next done a queue).Nodup :=
  hnodup.append (nodup_eraseDups _) fun _ hb hb' ↦ (mem_discoveries.1 hb').2 hb

/-- What is new is discovered in the order in which it first stands among the neighbours. -/
theorem pairwise_discoveries (next : α → List α) (done : List α) (a : α) (queue : List α) :
    (discoveries next done a queue).Pairwise fun x y ↦ (next a).idxOf x < (next a).idxOf y := by
  refine (pairwise_eraseDups _).imp_of_mem fun hx hy hlt ↦ ?_
  exact idxOf_lt_of_filter (List.mem_filter.1 (List.mem_eraseDups.1 hx)).2
    (List.mem_filter.1 (List.mem_eraseDups.1 hy)).2 hlt

/-! ### Searching among more names -/

/-- A search among names that it does not leave finds the same with any fuel that is enough for all
of them, whatever the neighbours of other names are. -/
theorem breadthFirst_eq {next' : α → List α} {nodes : List α}
    (hnext : ∀ a ∈ nodes, next' a = next a) (hclosed : ∀ a ∈ nodes, next a ⊆ nodes)
    {fuel fuel' : Nat} (hnodup : (done ++ queue).Nodup)
    (hsub : done ++ queue ⊆ nodes) (hfuel : nodes.length ≤ done.length + fuel)
    (hfuel' : nodes.length ≤ done.length + fuel') :
    breadthFirst next' fuel' done queue = breadthFirst next fuel done queue := by
  have hlength : (done ++ queue).length ≤ nodes.length :=
    (List.subperm_of_subset hnodup hsub).length_le
  rw [List.length_append] at hlength
  -- What is done or waits has no duplicates and is among the nodes, so with fuel for all nodes the
  -- queue is empty before the fuel is.
  induction fuel generalizing fuel' done queue with
  | zero =>
    obtain rfl : queue = [] := List.length_eq_zero_iff.1 (by omega)
    simp
  | succ fuel ih =>
    cases queue with
    | nil => simp
    | cons a queue =>
      rw [List.length_cons] at hlength
      obtain ⟨fuel', rfl⟩ : ∃ k, fuel' = k + 1 := ⟨fuel' - 1, by omega⟩
      have ha : a ∈ nodes := hsub (List.mem_append_right _ (List.mem_cons_self ..))
      have hsame : discoveries next' done a queue = discoveries next done a queue := by
        unfold discoveries
        rw [hnext a ha]
      rw [breadthFirst_cons, breadthFirst_cons, hsame]
      have hsplit := append_discoveries next done a queue
      have hnodup' := hsplit ▸ nodup_append_discoveries next hnodup
      have hsub' : (done ++ [a]) ++ (queue ++ discoveries next done a queue) ⊆ nodes := by
        rw [hsplit]
        exact List.append_subset.2 ⟨hsub, fun b hb ↦ hclosed a ha (mem_discoveries.1 hb).1⟩
      have hdone : (done ++ [a]).length = done.length + 1 := by simp
      refine ih hnodup' hsub' (by omega) (by omega) ?_
      have hlength' := (List.subperm_of_subset hnodup' hsub').length_le
      rwa [List.length_append] at hlength'

end Search

namespace Hierarchy

variable {h : Hierarchy} {source a b c : String} {n : Nat} {done queue : List String}

/-! ### Walks and distances -/

/-- A walk along so many edges leads from the one name to the other. -/
def Walk (h : Hierarchy) : Nat → String → String → Prop
  | 0, a, b => a = b
  | n + 1, a, b => ∃ sup ∈ h.supertypes a, h.Walk n sup b

instance decidableWalk (h : Hierarchy) : ∀ n a b, Decidable (h.Walk n a b)
  | 0, a, b => inferInstanceAs (Decidable (a = b))
  | n + 1, a, b =>
    have := h.decidableWalk n
    inferInstanceAs (Decidable (∃ sup ∈ h.supertypes a, h.Walk n sup b))

/-- A walk can be followed by an edge. -/
theorem Walk.snoc (hwalk : h.Walk n a b) (hbelow : h.Below b c) : h.Walk (n + 1) a c := by
  induction n generalizing a with
  | zero =>
    obtain rfl : a = b := hwalk
    exact ⟨c, mem_supertypes.2 hbelow, rfl⟩
  | succ n ih =>
    obtain ⟨sup, hsup, hwalk⟩ := hwalk
    exact ⟨sup, hsup, ih hwalk⟩

/-- One name leads to another if some walk does. -/
theorem leads_iff_exists_walk : h.Leads a b ↔ ∃ n, h.Walk n a b := by
  constructor
  · intro hleads
    induction hleads with
    | refl => exact ⟨0, rfl⟩
    | tail _ hbelow ih =>
      obtain ⟨n, hwalk⟩ := ih
      exact ⟨n + 1, hwalk.snoc hbelow⟩
  · rintro ⟨n, hwalk⟩
    induction n generalizing a with
    | zero =>
      obtain rfl : a = b := hwalk
      exact .refl
    | succ n ih =>
      obtain ⟨sup, hsup, hwalk⟩ := hwalk
      exact .head (mem_supertypes.1 hsup) (ih hwalk)

/-- How many edges a shortest walk takes; zero if there is no walk. -/
noncomputable def distance (h : Hierarchy) (a b : String) : Nat := sInf {n | h.Walk n a b}

/-- No walk is shorter than the distance. -/
theorem Walk.distance_le (hwalk : h.Walk n a b) : h.distance a b ≤ n := Nat.sInf_le hwalk

/-- Some walk is as short as the distance. -/
theorem walk_distance (hleads : h.Leads a b) : h.Walk (h.distance a b) a b :=
  Nat.sInf_mem (leads_iff_exists_walk.1 hleads)

/-- An edge leads at most one edge farther. -/
theorem distance_le_of_below (hleads : h.Leads a b) (hbelow : h.Below b c) :
    h.distance a c ≤ h.distance a b + 1 :=
  ((walk_distance hleads).snoc hbelow).distance_le

/-! ### What is met first -/

/-- Among the edges from a name, the last one to the first of two others was added after all to the
second. -/
def AddedAfter (h : Hierarchy) (a b c : String) : Prop :=
  (h.supertypes a).reverse.idxOf b < (h.supertypes a).reverse.idxOf c

/-- Of two names that walks of `n` edges lead to, the one that is met first: some such walk to it
ends in an edge from a name that is met before all from which edges lead to the other, or from the
same name but added after. -/
def MetFirst (h : Hierarchy) (source : String) : Nat → String → String → Prop
  | 0, _, _ => False
  | n + 1, b, c => ∃ a, h.Walk n source a ∧ h.Below a b ∧
      ∀ a', h.Walk n source a' → h.Below a' c →
        h.MetFirst source n a a' ∨ a = a' ∧ h.AddedAfter a b c

/-- Of two names, only one is met first. -/
theorem MetFirst.asymm (hfirst : h.MetFirst source n b c) : ¬h.MetFirst source n c b := by
  induction n generalizing b c with
  | zero => exact hfirst.elim
  | succ n ih =>
    rintro ⟨a', hwalk', hbelow', hothers'⟩
    obtain ⟨a, hwalk, hbelow, hothers⟩ := hfirst
    rcases hothers a' hwalk' hbelow' with hbefore | ⟨rfl, hadded⟩
    · rcases hothers' a hwalk hbelow with hbefore' | ⟨rfl, -⟩
      · exact ih hbefore hbefore'
      · exact ih hbefore hbefore
    · rcases hothers' a hwalk hbelow with hbefore' | ⟨-, hadded'⟩
      · exact ih hbefore' hbefore'
      · exact Nat.lt_asymm hadded hadded'

/-! ### Sweeps -/

/-- What holds of a search from `source` when the names in `done` have been expanded and those in
`queue` are waiting. -/
structure Sweep (h : Hierarchy) (source : String) (done queue : List String) : Prop where
  /-- Nothing is discovered twice. -/
  nodup : (done ++ queue).Nodup
  /-- The source has been discovered. -/
  source_mem : source ∈ done ++ queue
  /-- What is discovered is led to. -/
  leads : ∀ x ∈ done ++ queue, h.Leads source x
  /-- What has been expanded has its supertypes discovered. -/
  expanded : ∀ x ∈ done, ∀ y, h.Below x y → y ∈ done ++ queue
  /-- What is discovered, apart from the source, was discovered when a name one edge nearer was
  expanded. -/
  discovered : ∀ x ∈ done ++ queue, x = source ∨
    ∃ a ∈ done, h.Below a x ∧ h.distance source x = h.distance source a + 1
  /-- Names are discovered nearest first. -/
  sorted : (done ++ queue).Pairwise fun x y ↦ h.distance source x ≤ h.distance source y
  /-- At the same distance, they are discovered in the order of the names that lead to them. -/
  ordered : (done ++ queue).Pairwise fun x y ↦ h.distance source x = h.distance source y →
    h.MetFirst source (h.distance source x) x y
  /-- What waits is at most one edge nearer than whatever has been discovered. -/
  span : ∀ x ∈ queue, ∀ y ∈ done ++ queue, h.distance source y ≤ h.distance source x + 1

namespace Sweep

/-- At first only the source is waiting. -/
theorem start (h : Hierarchy) (source : String) : h.Sweep source [] [source] where
  nodup := List.nodup_singleton source
  source_mem := List.mem_singleton_self source
  leads x hx := by
    obtain rfl := List.mem_singleton.1 hx
    exact .refl
  expanded := nofun
  discovered x hx := .inl (List.mem_singleton.1 hx)
  sorted := List.pairwise_singleton ..
  ordered := List.pairwise_singleton ..
  span x hx y hy := by
    obtain rfl := List.mem_singleton.1 hx
    obtain rfl := List.mem_singleton.1 hy
    omega

/-- A walk to a name that has not been discovered leads through one that is waiting. -/
theorem exists_waiting (hs : h.Sweep source done queue) (hwalk : h.Walk n a b)
    (ha : a ∈ done ++ queue) (hb : b ∉ done ++ queue) :
    ∃ x ∈ queue, ∃ k < n, h.Walk k a x := by
  induction n generalizing a with
  | zero =>
    obtain rfl : a = b := hwalk
    exact absurd ha hb
  | succ n ih =>
    rcases List.mem_append.1 ha with hdone | hqueue
    · obtain ⟨sup, hsup, hwalk⟩ := hwalk
      obtain ⟨x, hx, k, hk, hwalk⟩ := ih hwalk (hs.expanded a hdone sup (mem_supertypes.1 hsup))
      exact ⟨x, hx, k + 1, by omega, sup, hsup, hwalk⟩
    · exact ⟨a, hqueue, 0, by omega, rfl⟩

/-- A name that waits is at least as far away as the one that has waited longest, and at the same
distance met after it. -/
theorem waits (hs : h.Sweep source done (a :: queue)) (hb : b ∈ queue) :
    h.distance source a ≤ h.distance source b ∧ (h.distance source a = h.distance source b →
      h.MetFirst source (h.distance source a) a b) :=
  ⟨List.rel_of_pairwise_cons (List.pairwise_append.1 hs.sorted).2.1 hb,
    List.rel_of_pairwise_cons (List.pairwise_append.1 hs.ordered).2.1 hb⟩

/-- A name that has not been discovered is farther away than the one that has waited longest. -/
theorem distance_lt (hs : h.Sweep source done (a :: queue)) (hleads : h.Leads source b)
    (hb : b ∉ done ++ a :: queue) : h.distance source a < h.distance source b := by
  obtain ⟨x, hx, k, hk, hwalk⟩ := hs.exists_waiting (walk_distance hleads) hs.source_mem hb
  have hfirst : h.distance source a ≤ h.distance source x := by
    rcases List.mem_cons.1 hx with rfl | hx
    · exact Nat.le_refl _
    · exact (hs.waits hx).1
  have := hwalk.distance_le
  omega

/-- What leads to a name that has not been discovered, and is as near as the one that has waited
longest, is that one or waits behind it. -/
theorem mem_of_below (hs : h.Sweep source done (a :: queue)) {a' : String}
    (hwalk : h.Walk (h.distance source a) source a') (hbelow : h.Below a' b)
    (hb : b ∉ done ++ a :: queue) : a' ∈ a :: queue := by
  by_contra hwaits
  have hleads : h.Leads source a' := leads_iff_exists_walk.2 ⟨_, hwalk⟩
  by_cases hdone : a' ∈ done
  · exact hb (hs.expanded a' hdone b hbelow)
  · have hlt := hs.distance_lt hleads fun hmem ↦ (List.mem_append.1 hmem).elim hdone hwaits
    have := hwalk.distance_le
    omega

section Expanding

variable {next : String → List String}

/-- What is new is one edge farther away than the name that is expanded. -/
theorem distance_of_new (hs : h.Sweep source done (a :: queue))
    (hnext : next a = (h.supertypes a).reverse) (hb : b ∈ discoveries next done a queue) :
    h.Below a b ∧ h.Leads source b ∧ h.distance source b = h.distance source a + 1 := by
  obtain ⟨hbelow, hb⟩ := mem_discoveries.1 hb
  have hbelow : h.Below a b := mem_supertypes.1 (List.mem_reverse.1 (hnext ▸ hbelow))
  have hleads := hs.leads a (List.mem_append_right _ (List.mem_cons_self ..))
  have hle := distance_le_of_below hleads hbelow
  have hlt := hs.distance_lt (hleads.tail hbelow) hb
  exact ⟨hbelow, hleads.tail hbelow, by omega⟩

/-- What was discovered at the distance of what is new is met before it. -/
theorem metFirst_of_new (hs : h.Sweep source done (a :: queue))
    (hnext : next a = (h.supertypes a).reverse) (hb : b ∈ done ++ a :: queue)
    (hdistance : h.distance source b = h.distance source a + 1)
    (hc : c ∈ discoveries next done a queue) : h.MetFirst source (h.distance source a + 1) b c := by
  rcases hs.discovered b hb with rfl | ⟨p, hp, hbelow, hdistance'⟩
  · have hzero : h.distance b b ≤ 0 := Walk.distance_le (n := 0) rfl
    omega
  · have hsame : h.distance source p = h.distance source a := by omega
    have hleads := hs.leads p (List.mem_append_left _ hp)
    refine ⟨p, hsame ▸ walk_distance hleads, hbelow, fun a' hwalk hbelow' ↦ .inl ?_⟩
    -- what leads to the new name waits, so it was discovered after what has been expanded
    have hwaits := hs.mem_of_below hwalk hbelow' (mem_discoveries.1 hc).2
    have hle : h.distance source a ≤ h.distance source a' := by
      rcases List.mem_cons.1 hwaits with rfl | hwaits
      · exact Nat.le_refl _
      · exact (hs.waits hwaits).1
    have hge := hwalk.distance_le
    have hfirst := (List.pairwise_append.1 hs.ordered).2.2 p hp a' hwaits (by omega)
    rwa [hsame] at hfirst

/-- Of two new names, the one whose edge was added after is met first. -/
theorem pairwise_metFirst (hs : h.Sweep source done (a :: queue))
    (hnext : next a = (h.supertypes a).reverse) :
    (discoveries next done a queue).Pairwise (h.MetFirst source (h.distance source a + 1)) := by
  refine (pairwise_discoveries next done a queue).imp_of_mem fun hb hc hlt ↦ ?_
  rw [hnext] at hlt
  have hleads := hs.leads a (List.mem_append_right _ (List.mem_cons_self ..))
  refine ⟨a, walk_distance hleads, (hs.distance_of_new hnext hb).1, fun a' hwalk hbelow ↦ ?_⟩
  rcases List.mem_cons.1 (hs.mem_of_below hwalk hbelow (mem_discoveries.1 hc).2) with rfl | hwaits
  · exact .inr ⟨rfl, hlt⟩
  · obtain ⟨hle, hfirst⟩ := hs.waits hwaits
    have := hwalk.distance_le
    exact .inl (hfirst (by omega))

/-- Expanding the name that has waited longest keeps to the distance. -/
theorem expand (hs : h.Sweep source done (a :: queue))
    (hnext : next a = (h.supertypes a).reverse) :
    h.Sweep source (done ++ [a]) (queue ++ discoveries next done a queue) := by
  have ha : a ∈ done ++ a :: queue := List.mem_append_right _ (List.mem_cons_self ..)
  have hsplit := append_discoveries next done a queue
  have hbound : ∀ y ∈ (done ++ a :: queue) ++ discoveries next done a queue,
      h.distance source y ≤ h.distance source a + 1 := by
    intro y hy
    rcases List.mem_append.1 hy with hy | hy
    · exact hs.span a (List.mem_cons_self ..) y hy
    · rw [(hs.distance_of_new hnext hy).2.2]
  -- Everything but the order among equals follows from where the new ones stand: one step behind
  -- `a`.
  constructor
  case nodup =>
    rw [hsplit]
    exact nodup_append_discoveries next hs.nodup
  case source_mem =>
    rw [hsplit]
    exact List.mem_append_left _ hs.source_mem
  case leads =>
    intro x hx
    rw [hsplit] at hx
    rcases List.mem_append.1 hx with hx | hx
    · exact hs.leads x hx
    · exact (hs.distance_of_new hnext hx).2.1
  case expanded =>
    intro x hx y hbelow
    rw [hsplit, List.mem_append]
    rcases List.mem_append.1 hx with hx | hx
    · exact .inl (hs.expanded x hx y hbelow)
    · obtain rfl := List.mem_singleton.1 hx
      by_cases hy : y ∈ done ++ x :: queue
      · exact .inl hy
      · refine .inr (mem_discoveries.2 ⟨?_, hy⟩)
        rw [hnext, List.mem_reverse]
        exact mem_supertypes.2 hbelow
  case discovered =>
    intro x hx
    rw [hsplit] at hx
    rcases List.mem_append.1 hx with hx | hx
    · exact (hs.discovered x hx).imp_right fun ⟨p, hp, hx⟩ ↦ ⟨p, List.mem_append_left _ hp, hx⟩
    · obtain ⟨hbelow, -, hdistance⟩ := hs.distance_of_new hnext hx
      exact .inr ⟨a, List.mem_append_right _ (List.mem_singleton_self a), hbelow, hdistance⟩
  case sorted =>
    rw [hsplit, List.pairwise_append]
    refine ⟨hs.sorted, List.pairwise_of_forall_mem_list ?_, ?_⟩
    · intro x hx y hy
      rw [(hs.distance_of_new hnext hx).2.2, (hs.distance_of_new hnext hy).2.2]
    · intro x hx y hy
      rw [(hs.distance_of_new hnext hy).2.2]
      exact hbound x (List.mem_append_left _ hx)
  case ordered =>
    rw [hsplit, List.pairwise_append]
    -- Two new ones come in the order of the edges of `a`. One that waited already at this distance
    -- was met from a node before `a`.
    refine ⟨hs.ordered, (hs.pairwise_metFirst hnext).imp_of_mem fun hx _ hfirst _ ↦ ?_, ?_⟩
    · rwa [(hs.distance_of_new hnext hx).2.2]
    · intro x hx y hy heq
      rw [(hs.distance_of_new hnext hy).2.2] at heq
      rw [heq]
      exact hs.metFirst_of_new hnext hx heq hy
  case span =>
    intro x hx y hy
    rw [hsplit] at hy
    have hle : h.distance source a ≤ h.distance source x := by
      rcases List.mem_append.1 hx with hx | hx
      · exact (hs.waits hx).1
      · rw [(hs.distance_of_new hnext hx).2.2]
        omega
    have := hbound y hy
    omega

end Expanding

/-- A search with one step for each node goes on to its end. -/
theorem breadthFirst (hclosed : h.Closed) (hsource : source ∈ h.nodes)
    (hs : h.Sweep source done queue) {fuel : Nat} (hfuel : h.nodes.length ≤ done.length + fuel) :
    h.Sweep source
      (ScriptBytecode.breadthFirst (fun a ↦ (h.supertypes a).reverse) fuel done queue) [] := by
  induction fuel generalizing done queue with
  | zero =>
    -- all nodes have been expanded, so none is left to wait
    have hsub : done ++ queue ⊆ h.nodes := fun x hx ↦ hclosed.mem_nodes hsource (hs.leads x hx)
    have hlength := (List.subperm_of_subset hs.nodup hsub).length_le
    rw [List.length_append] at hlength
    obtain rfl : queue = [] := List.length_eq_zero_iff.1 (by omega)
    rwa [breadthFirst_nil]
  | succ fuel ih =>
    cases queue with
    | nil => rwa [breadthFirst_nil]
    | cons a queue =>
      rw [breadthFirst_cons]
      refine ih (hs.expand rfl) ?_
      rw [List.length_append, List.length_singleton]
      omega

/-- A search that has come to an end has found all that the source leads to. -/
theorem mem_iff (hs : h.Sweep source done []) : b ∈ done ↔ h.Leads source b := by
  constructor
  · intro hb
    exact hs.leads b (List.mem_append_left _ hb)
  · intro hleads
    by_contra hb
    rw [← List.append_nil done] at hb
    obtain ⟨x, hx, -⟩ := hs.exists_waiting (walk_distance hleads) hs.source_mem hb
    cases hx

end Sweep

/-- A name without a node has no ancestors. -/
theorem ancestors_eq_nil (ha : a ∉ h.nodes) : h.ancestors a = [] :=
  if_neg fun hmem ↦ ha (List.contains_iff_mem.1 hmem)

/-- The ancestors of a node are the outcome of such a search. -/
theorem sweep_ancestors (hclosed : h.Closed) (ha : a ∈ h.nodes) :
    h.Sweep a (h.ancestors a) [] := by
  unfold ancestors
  rw [if_pos (List.contains_iff_mem.2 ha)]
  exact (Sweep.start h a).breadthFirst hclosed ha (by simp)

/-- The first of them is the node itself. -/
theorem prefix_ancestors (ha : a ∈ h.nodes) : [a] <+: h.ancestors a := by
  unfold ancestors
  rw [if_pos (List.contains_iff_mem.2 ha)]
  exact prefix_breadthFirst _ _ [] [a]

end Hierarchy

end ScriptBytecode

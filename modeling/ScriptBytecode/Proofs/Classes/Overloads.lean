import Mathlib.Data.List.Perm.Basic
import ScriptBytecode.Classes.Overload

/-!
# Choosing among members in any order

Which member of a list is strictly more specific than all the others does not depend on the order of
the list. Hiding overridden members does: of those with the same parameters the first is kept
(`mem_hideOverridden_iff`). But it does not depend on the order in which one class declares its
members, as long as they can be told apart by their parameters.

* `mostSpecific?_perm` says that the most specific of some members does not depend on their order;
* `hideOverridden_perm` says so of the members that hiding leaves.

The choice among members is made by a walk through the list, and hiding by another one that carries
along what it has kept. Both are replaced here by a description of the outcome: a member wins if it
beats all that remain when it is taken out (`winners_eq_filter`), and it is kept if none before it
has its parameters (`mem_hide_iff`). What does not depend on the order can then be read off.

Nothing is assumed of the comparison of members, not even that it is transitive.
-/

namespace ScriptBytecode.ClassTable

variable {t : ClassTable}

/-! ### The most specific member -/

/-- A member wins if it is strictly more specific than all that remain without it. -/
theorem winners_eq_filter (t : ClassTable) (before after : List Member) :
    t.winners before after = after.filter fun m ↦
      ((before ++ after).erase m).all (t.isStrictlyMoreSpecific m) := by
  induction after generalizing before with
  | nil => rfl
  | cons m after ih =>
    have hothers : ((before ++ m :: after).erase m).all (t.isStrictlyMoreSpecific m) =
        (before ++ after).all (t.isStrictlyMoreSpecific m) := by
      have hperm : ((before ++ m :: after).erase m).Perm ((m :: (before ++ after)).erase m) :=
        List.perm_middle.erase m
      rw [List.erase_cons_head] at hperm
      exact hperm.all_eq
    have hrest := ih (before ++ [m])
    rw [List.append_assoc, List.singleton_append] at hrest
    rw [winners, hrest, List.filter_cons, hothers]

/-- The most specific member does not depend on the order of the list. -/
theorem mostSpecific?_perm {ms ms' : List Member} (h : ms.Perm ms') :
    t.mostSpecific? ms = t.mostSpecific? ms' := by
  have hwinners : (t.winners [] ms).Perm (t.winners [] ms') := by
    rw [winners_eq_filter, winners_eq_filter]
    have hsame : (fun m ↦ (([] ++ ms).erase m).all (t.isStrictlyMoreSpecific m)) =
        fun m ↦ (([] ++ ms').erase m).all (t.isStrictlyMoreSpecific m) :=
      funext fun m ↦ (h.erase m).all_eq
    rw [hsame]
    exact h.filter _
  unfold mostSpecific?
  generalize t.winners [] ms = ws at hwinners
  generalize t.winners [] ms' = ws' at hwinners
  have hlength := hwinners.length_eq
  rcases ws with _ | ⟨m, _ | ⟨m₁, ws⟩⟩ <;> rcases ws' with _ | ⟨m', _ | ⟨m₁', ws'⟩⟩
  case cons.nil.cons.nil => rw [List.singleton_perm_singleton.1 hwinners]
  all_goals first | rfl | simp at hlength

/-! ### Members that are declared -/

/-- The members that a class declares under a name are its own, constructors apart. -/
theorem mem_declared_iff {owner name : String} {isStatic : Bool} {m : Member} :
    m ∈ t.declared owner name isStatic ↔ ∃ e, t.get? owner = some e ∧ m ∈ e.members ∧
      m.name = name ∧ m.flags.isConstructor = false ∧ m.flags.isStatic = isStatic := by
  unfold declared
  cases t.get? owner with
  | none => simp
  | some e => simp [and_assoc]

/-! ### Hiding overridden members -/

/-- Goes through members and keeps those whose parameters were not found before. -/
def hide (found ms : List Member) : List Member :=
  ms.foldl (fun found m ↦
    if found.any (·.params == m.params) then found else found ++ [m]) found

/-- Members can be hidden in two goes. -/
theorem hide_append (found ms ms' : List Member) :
    hide found (ms ++ ms') = hide (hide found ms) ms' :=
  List.foldl_append ..

/-- A member is kept if none before it has the same parameters. -/
theorem hide_cons (found : List Member) (m : Member) (ms : List Member) :
    hide found (m :: ms) =
      hide (if found.any (·.params == m.params) then found else found ++ [m]) ms := rfl

/-- What has been kept may stand in any order. -/
theorem hide_perm_left {found found' : List Member} (h : found.Perm found') (ms : List Member) :
    (hide found ms).Perm (hide found' ms) := by
  induction ms generalizing found found' with
  | nil => exact h
  | cons m ms ih =>
    rw [hide_cons, hide_cons, h.any_eq]
    split
    · exact ih h
    · exact ih (h.append_right [m])

/-- What is kept of some members, besides what was found before, is the first one with its
parameters, unless such parameters were found before. -/
theorem mem_hide_iff {found ms : List Member} {m : Member} : m ∈ hide found ms ↔
    m ∈ found ∨ found.any (·.params == m.params) = false ∧
      ms.find? (·.params == m.params) = some m := by
  induction ms generalizing found with
  | nil => exact ⟨.inl, fun h ↦ h.resolve_right nofun⟩
  | cons a ms ih =>
    rw [hide_cons, ih]
    by_cases hparams : a.params = m.params
    · rw [hparams, List.find?_cons_of_pos (by simp [hparams])]
      cases hfound : found.any (·.params == m.params) with
      | true => simp [hfound]
      | false => simp [hparams, eq_comm]
    · have hne : m ≠ a := fun heq ↦ hparams (congrArg Member.params heq).symm
      rw [List.find?_cons_of_neg (by simp [hparams])]
      split
      · rfl
      · simp [hparams, hne]

/-- Of members with the same parameters, the first is kept. -/
theorem mem_hideOverridden_iff {ms : List Member} {m : Member} :
    m ∈ hideOverridden ms ↔ ms.find? (·.params == m.params) = some m :=
  mem_hide_iff.trans ⟨fun h ↦ (h.resolve_left nofun).2, fun h ↦ .inr ⟨rfl, h⟩⟩

/-- Members that can be told apart by their parameters do not hide one another. -/
theorem hide_of_nodup {ms : List Member} (hnodup : (ms.map (·.params)).Nodup)
    (found : List Member) :
    hide found ms = found ++ ms.filter fun m ↦ !found.any (·.params == m.params) := by
  induction ms generalizing found with
  | nil => exact (List.append_nil _).symm
  | cons m ms ih =>
    obtain ⟨hm, hms⟩ := List.nodup_cons.1 hnodup
    rw [hide_cons]
    split
    · next hfound => rw [ih hms, List.filter_cons_of_neg (by simp [hfound])]
    · next hfresh =>
      have hothers : ∀ m' ∈ ms, (!(found ++ [m]).any (·.params == m'.params)) =
          !found.any (·.params == m'.params) := by
        intro m' hm'
        have hne : (m.params == m'.params) = false :=
          beq_false_of_ne fun heq ↦ hm (List.mem_map.2 ⟨m', hm', heq.symm⟩)
        simp [hne]
      rw [ih hms, List.filter_congr hothers, List.filter_cons_of_pos (by simp [hfresh]),
        List.append_assoc]
      rfl

/-- Two lists of members that differ in the order of some that can be told apart. -/
def Shuffled (ms ms' : List Member) : Prop :=
  ∃ common own own', ms = common ++ own ∧ ms' = common ++ own' ∧ own.Perm own' ∧
    (own.map (·.params)).Nodup

/-- The members of each class may stand in any order, if they can be told apart. -/
theorem Shuffled.hide_perm {ms ms' found found' : List Member} (h : Shuffled ms ms')
    (hfound : found.Perm found') : (hide found ms).Perm (hide found' ms') := by
  obtain ⟨common, own, own', rfl, rfl, hperm, hnodup⟩ := h
  have hcommon := hide_perm_left hfound common
  rw [hide_append, hide_append]
  rw [hide_of_nodup hnodup, hide_of_nodup ((hperm.map _).nodup hnodup)]
  have hsame : (fun m : Member ↦ !(hide found common).any (·.params == m.params)) =
      fun m ↦ !(hide found' common).any (·.params == m.params) :=
    funext fun m ↦ congrArg _ hcommon.any_eq
  rw [hsame]
  exact hcommon.append (hperm.filter _)

/-- What is left of the members of several classes is the same, up to order. -/
theorem hideOverridden_perm {declared declared' : String → List Member}
    (h : ∀ owner, Shuffled (declared owner) (declared' owner)) (owners : List String) :
    (hideOverridden (owners.flatMap declared)).Perm
      (hideOverridden (owners.flatMap declared')) := by
  have hfold : ∀ found found' : List Member, found.Perm found' →
      (hide found (owners.flatMap declared)).Perm (hide found' (owners.flatMap declared')) := by
    induction owners with
    | nil => exact fun _ _ hfound ↦ hfound
    | cons owner owners ih =>
      intro found found' hfound
      rw [List.flatMap_cons, List.flatMap_cons, hide_append, hide_append]
      exact ih _ _ ((h owner).hide_perm hfound)
  exact hfold [] [] (.refl _)

end ScriptBytecode.ClassTable

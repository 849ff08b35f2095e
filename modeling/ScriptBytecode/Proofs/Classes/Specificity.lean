import ScriptBytecode.Proofs.Classes.Assignability
import ScriptBytecode.Proofs.Classes.Permuted

/-!
# The member that a call refers to

A member `Surpasses` another one if each of its parameters can stand where the other's is expected
and not conversely. Among the members that are applicable to a call at most one surpasses all
others, and that is the one that the call resolves to (`StandsOut`). Without it the call is
ambiguous.

This depends on the table as a set of members only, not on the order in which a class declares them
(`Permutes`). And it goes along with conversions: with arguments that convert to those of another
call, what was applicable still is, so the call resolves to the same member or to one that surpasses
it, if it resolves.

* `resolve_standsOut` states the three outcomes of a call and that order plays no part;
* `resolve_monotone` compares a call with one on arguments that convert to its own.

**Parameter lists are compared as a whole.** A member surpasses another one if its parameters can
stand where those of the other are expected, one by one, and this is not so the other way round.
Parameters that the two have in common do not stand in the way, and two members whose lists convert
to each other do not surpass each other at all.

**At most one stands out**, because no two members surpass each other (`Surpasses.asymm`); nothing
else is needed of conversions. A list in which a member stood twice would have no winner, so
candidates have to be known to be different (`Consistent.nodup_applicable`).

**What `resolve_monotone` does not say** is that a call with more precise arguments resolves if the
other one does. It may have more candidates, and none of them may stand out. That it is applicable,
and that it resolves to the same or to a member that surpasses it if it resolves, is all that holds.
-/

namespace ScriptBytecode

namespace ClassTable

variable {t t' : ClassTable} {ms : List Member} {m m' : Member}

/-! ### Standing out -/

/-- Each parameter of the one member can stand where that of the other is expected, and not
conversely. -/
def Surpasses (t : ClassTable) (m m' : Member) : Prop :=
  List.Forall₂ (t.isAssignable · ·) m.params m'.params ∧
    ¬List.Forall₂ (t.isAssignable · ·) m'.params m.params

/-- A member is strictly more specific than another just if it surpasses it. -/
theorem isStrictlyMoreSpecific_iff : t.isStrictlyMoreSpecific m m' = true ↔ t.Surpasses m m' := by
  unfold isStrictlyMoreSpecific isMoreSpecific Surpasses
  rw [Bool.and_eq_true, Bool.not_eq_true', ← Bool.not_eq_true, areAssignable_iff, areAssignable_iff]

/-- No two members surpass each other. -/
theorem Surpasses.asymm (h : t.Surpasses m m') : ¬t.Surpasses m' m := fun h' ↦ h.2 h'.1

/-- The member is one of the candidates and surpasses all others. -/
def StandsOut (t : ClassTable) (candidates : List Member) (m : Member) : Prop :=
  m ∈ candidates ∧ ∀ m' ∈ candidates, m' ≠ m → t.Surpasses m m'

/-- No two members stand out. -/
theorem StandsOut.eq (h : t.StandsOut ms m) (h' : t.StandsOut ms m') : m = m' := by
  by_contra hne
  exact (h.2 m' h'.1 (Ne.symm hne)).asymm (h'.2 m h.1 hne)

/-- Among different members, a winner is one that stands out. -/
theorem mem_winners_iff (hnodup : ms.Nodup) : m ∈ t.winners [] ms ↔ t.StandsOut ms m := by
  rw [winners_eq_filter, List.nil_append, List.mem_filter, List.all_eq_true]
  refine and_congr_right fun _ ↦ forall_congr' fun m' ↦ ?_
  rw [hnodup.mem_erase_iff, isStrictlyMoreSpecific_iff, and_comm, and_imp]

/-- The most specific member is the one that stands out. -/
theorem mostSpecific?_eq_some_iff (hnodup : ms.Nodup) :
    t.mostSpecific? ms = some m ↔ t.StandsOut ms m := by
  constructor
  · intro h
    unfold mostSpecific? at h
    split at h
    · next hwinners =>
      obtain rfl := Option.some.inj h
      exact (mem_winners_iff hnodup).1 (hwinners ▸ List.mem_singleton_self _)
    · cases h
  · intro h
    have hwinners : t.winners [] ms = [m] := by
      have hfilter : (t.winners [] ms).Nodup := by
        rw [winners_eq_filter]
        exact hnodup.filter _
      refine List.perm_singleton.1
        ((List.perm_ext_iff_of_nodup hfilter (List.nodup_singleton m)).2 ?_)
      intro m'
      rw [mem_winners_iff hnodup, List.mem_singleton]
      exact ⟨fun h' ↦ h'.eq h, fun heq ↦ heq ▸ h⟩
    unfold mostSpecific?
    rw [hwinners]

/-! ### Candidates -/

/-- Members that are kept differ in their parameters. -/
theorem nodup_params_hide {found : List Member} (hfound : (found.map (·.params)).Nodup)
    (ms : List Member) : ((hide found ms).map (·.params)).Nodup := by
  induction ms generalizing found with
  | nil => exact hfound
  | cons m ms ih =>
    rw [hide_cons]
    split
    · exact ih hfound
    · next hfresh =>
      refine ih ?_
      rw [List.map_append]
      refine hfound.append (List.nodup_singleton _) (List.disjoint_singleton.2 fun hmem ↦ hfresh ?_)
      obtain ⟨m', hm', heq⟩ := List.mem_map.1 hmem
      exact List.any_eq_true.2 ⟨m', hm', beq_iff_eq.2 heq⟩

/-- No member is applicable twice. -/
theorem Consistent.nodup_applicable (h : t.Consistent) (cls name : String)
    (args : List MachineType) (isStatic : Bool) : (t.applicable cls name args isStatic).Nodup := by
  refine List.Nodup.filter _ ?_
  unfold visibleMembers
  split
  · cases hget : t.get? cls with
    | none => exact .nil
    | some e =>
      have he := List.mem_of_find?_eq_some hget
      exact (List.Nodup.of_map _ (h.nodup_fingerprints he)).filter _
  · have hnone : (([] : List Member).map (·.params)).Nodup := .nil
    exact List.Nodup.of_map _ (nodup_params_hide hnone _)

/-! ### Outcomes -/

variable {cls : ClassRef} {name : String} {args : List MachineType} {isStatic : Bool} {span : Span}

/-- A call is refused because there are no candidates or because none stands out, or resolves to the
one that does. -/
theorem resolve_cases (h : t.Consistent) (cls : ClassRef) (name : String) (args : List MachineType)
    (isStatic : Bool) (span : Span) :
    t.applicable cls.name name args isStatic = [] ∧
        t.resolve cls name args isStatic span = .error (.located span
          (.noApplicableMethod cls.name name (MachineType.renderList args))) ∨
      (∃ m, t.StandsOut (t.applicable cls.name name args isStatic) m ∧
        t.resolve cls name args isStatic span = .ok m) ∨
      t.applicable cls.name name args isStatic ≠ [] ∧
        (¬∃ m, t.StandsOut (t.applicable cls.name name args isStatic) m) ∧
        t.resolve cls name args isStatic span = .error (.located span
          (.ambiguousCall cls.name name (MachineType.renderList args) (" or ".intercalate
            ((t.applicable cls.name name args isStatic).map Member.render)))) := by
  have hspecific := fun m ↦
    mostSpecific?_eq_some_iff (t := t) (m := m) (h.nodup_applicable cls.name name args isStatic)
  unfold resolve
  dsimp only
  generalize t.applicable cls.name name args isStatic = candidates at hspecific
  cases candidates with
  | nil => exact .inl ⟨rfl, rfl⟩
  | cons c cs =>
    cases hm : t.mostSpecific? (c :: cs) with
    | some m => exact .inr (.inl ⟨m, (hspecific m).1 hm, rfl⟩)
    | none =>
      refine .inr (.inr ⟨nofun, ?_, rfl⟩)
      rintro ⟨m, hstands⟩
      rw [(hspecific m).2 hstands] at hm
      cases hm

/-- A call fails for want of a member just if none is applicable. -/
theorem resolve_eq_notApplicable_iff (h : t.Consistent) :
    t.resolve cls name args isStatic span = .error (.located span
        (.noApplicableMethod cls.name name (MachineType.renderList args))) ↔
      t.applicable cls.name name args isStatic = [] := by
  rcases resolve_cases h cls name args isStatic span with
    ⟨hnone, hresolve⟩ | ⟨m, hstands, hresolve⟩ | ⟨hsome, -, hresolve⟩
  · exact ⟨fun _ ↦ hnone, fun _ ↦ hresolve⟩
  · rw [hresolve]
    exact ⟨nofun, fun hnone ↦ absurd hstands.1 (hnone ▸ List.not_mem_nil)⟩
  · rw [hresolve]
    exact ⟨nofun, fun hnone ↦ absurd hnone hsome⟩

/-- A call resolves to a member just if it stands out among those applicable. -/
theorem resolve_eq_ok_iff (h : t.Consistent) : t.resolve cls name args isStatic span = .ok m ↔
    t.StandsOut (t.applicable cls.name name args isStatic) m := by
  rcases resolve_cases h cls name args isStatic span with
    ⟨hnone, hresolve⟩ | ⟨m', hstands, hresolve⟩ | ⟨-, hnone, hresolve⟩
  · rw [hresolve, hnone]
    exact ⟨nofun, fun hstands ↦ absurd hstands.1 List.not_mem_nil⟩
  · rw [hresolve]
    constructor
    · intro heq
      rwa [← Except.ok.inj heq]
    · intro hstands'
      rw [hstands.eq hstands']
  · rw [hresolve]
    exact ⟨nofun, fun hstands ↦ absurd ⟨m, hstands⟩ hnone⟩

/-- A call is ambiguous just if some member is applicable and none stands out. -/
theorem resolve_eq_ambiguous_iff (h : t.Consistent) :
    t.resolve cls name args isStatic span = .error (.located span
        (.ambiguousCall cls.name name (MachineType.renderList args) (" or ".intercalate
          ((t.applicable cls.name name args isStatic).map Member.render)))) ↔
      t.applicable cls.name name args isStatic ≠ [] ∧
        ¬∃ m, t.StandsOut (t.applicable cls.name name args isStatic) m := by
  rcases resolve_cases h cls name args isStatic span with
    ⟨hnone, hresolve⟩ | ⟨m, hstands, hresolve⟩ | ⟨hsome, hnone, hresolve⟩
  · rw [hresolve]
    exact ⟨nofun, fun hsome ↦ absurd hnone hsome.1⟩
  · rw [hresolve]
    exact ⟨nofun, fun hnone ↦ absurd ⟨m, hstands⟩ hnone.2⟩
  · exact ⟨fun _ ↦ ⟨hsome, hnone⟩, fun _ ↦ hresolve⟩

/-- Whatever the words of the error: a call is refused as not applicable if there are no
candidates. -/
theorem isNotApplicable_resolve_iff (h : t.Consistent) :
    isNotApplicable (t.resolve cls name args isStatic span) = true ↔
      t.applicable cls.name name args isStatic = [] := by
  rcases resolve_cases h cls name args isStatic span with
    ⟨hnone, hresolve⟩ | ⟨m, hstands, hresolve⟩ | ⟨hsome, -, hresolve⟩
  · rw [hresolve]
    exact ⟨fun _ ↦ hnone, fun _ ↦ rfl⟩
  · rw [hresolve]
    exact ⟨nofun, fun hnone ↦ absurd hstands.1 (hnone ▸ List.not_mem_nil)⟩
  · rw [hresolve]
    exact ⟨nofun, fun hnone ↦ absurd hnone hsome⟩

/-- Two calls come out alike: they resolve to the same member or are refused for the same reason. An
ambiguous call may list its candidates in another order. -/
inductive SameOutcome : Except CompileError Member → Except CompileError Member → Prop
  | chosen (m : Member) : SameOutcome (.ok m) (.ok m)
  | notApplicable (span : Span) (owner name args : String) :
      SameOutcome (.error (.located span (.noApplicableMethod owner name args)))
        (.error (.located span (.noApplicableMethod owner name args)))
  | ambiguous (span : Span) (owner name args candidates candidates' : String) :
      SameOutcome (.error (.located span (.ambiguousCall owner name args candidates)))
        (.error (.located span (.ambiguousCall owner name args candidates')))

/-- Tables that differ in the order of members let calls come out alike. -/
theorem Shuffles.sameOutcome (h : t.Shuffles t') (ht : t.Consistent) (ht' : t'.Consistent)
    (cls : ClassRef) (name : String) (args : List MachineType) (isStatic : Bool) (span : Span) :
    SameOutcome (t.resolve cls name args isStatic span)
      (t'.resolve cls name args isStatic span) := by
  obtain ⟨hmember, hnotApplicable⟩ := h.resolvesAlike cls name args isStatic span
  rcases resolve_cases ht cls name args isStatic span with
    ⟨-, hresolve⟩ | ⟨m, -, hresolve⟩ | ⟨-, -, hresolve⟩ <;>
  rcases resolve_cases ht' cls name args isStatic span with
    ⟨-, hresolve'⟩ | ⟨m', -, hresolve'⟩ | ⟨-, -, hresolve'⟩ <;>
  rw [hresolve, hresolve'] at hmember hnotApplicable ⊢
  case inl.inl => exact .notApplicable ..
  case inr.inl.inr.inl =>
    obtain rfl := Option.some.inj hmember
    exact .chosen m
  case inr.inr.inr.inr => exact .ambiguous ..
  -- what is left are different outcomes
  case inl.inr.inr | inr.inr.inl => cases hnotApplicable
  all_goals cases hmember

/-- In a table that can be built, a call is refused as not applicable just when there are no
candidates, resolves to a member just when this one stands out among them, and is refused as
ambiguous otherwise. At most one member stands out, and if the classes own their members, the call
comes out alike in any table that has the members of these classes in another order. -/
theorem resolve_standsOut (hbuilt : t.Built) (cls : ClassRef) (name : String)
    (args : List MachineType) (isStatic : Bool) (span : Span) :
    let candidates := t.applicable cls.name name args isStatic
    let outcome := t.resolve cls name args isStatic span
    let types := MachineType.renderList args
    (outcome = .error (.located span (.noApplicableMethod cls.name name types)) ↔
        candidates = []) ∧
      (∀ m, outcome = .ok m ↔ t.StandsOut candidates m) ∧
      (outcome = .error (.located span (.ambiguousCall cls.name name types
        (" or ".intercalate (candidates.map Member.render)))) ↔
          candidates ≠ [] ∧ ¬∃ m, t.StandsOut candidates m) ∧
      (∀ m m', t.StandsOut candidates m → t.StandsOut candidates m' → m = m') ∧
      (t.OwnsMembers → ∀ t' : ClassTable, t'.Built → t.Permutes t' →
        SameOutcome outcome (t'.resolve cls name args isStatic span)) := by
  intro candidates outcome types
  have h := hbuilt.consistent
  refine ⟨resolve_eq_notApplicable_iff h, fun _ ↦ resolve_eq_ok_iff h, resolve_eq_ambiguous_iff h,
    fun _ _ ↦ StandsOut.eq, fun howns t' hbuilt' hpermutes ↦ ?_⟩
  exact (hpermutes.shuffles h hbuilt'.consistent howns).sameOutcome h hbuilt'.consistent ..

/-- What `resolve_standsOut` says of a class with two functions, declared in either order. -/
theorem resolve_doubling :
    let cls : ClassEntry := ClassEntry.ofClass "Doubling"
    let ofInt : Member :=
      { owner := cls.cls, name := "twice", params := [.int], returnType := .int
        flags := { isStatic := true } }
    let ofLong : Member := { ofInt with params := [.long], returnType := .long }
    let t := empty.run [.ofClass cls, .ofMember ofInt, .ofMember ofLong]
    let t' := empty.run [.ofClass cls, .ofMember ofLong, .ofMember ofInt]
    t.Built ∧ t.OwnsMembers ∧ t'.Built ∧ t.Permutes t' ∧
      t.applicable "Doubling" "twice" [.int] true = [ofInt, ofLong] ∧
      t.resolve cls.cls "twice" [.int] true Span.unknown = .ok ofInt ∧
      t.StandsOut [ofInt, ofLong] ofInt ∧
      t.resolve cls.cls "twice" [.boolean] true Span.unknown = .error (.located Span.unknown
        (.noApplicableMethod "Doubling" "twice" (MachineType.renderList [.boolean]))) ∧
      SameOutcome (t.resolve cls.cls "twice" [.int] true Span.unknown)
        (t'.resolve cls.cls "twice" [.int] true Span.unknown) := by
  intro cls ofInt ofLong t t'
  have hbuilt : t.Built := .run .empty _
  have hbuilt' : t'.Built := .run .empty _
  have howns : t.OwnsMembers := by decide
  have hperm : [ofInt, ofLong].Perm [ofLong, ofInt] := .swap ..
  have hpermutes : t.Permutes t' :=
    permutes_of_addMember (t := empty.run [.ofClass cls]) hperm (by decide) (by decide)
  have hcandidates : t.applicable "Doubling" "twice" [.int] true = [ofInt, ofLong] := by decide
  have hresolve : t.resolve cls.cls "twice" [.int] true Span.unknown = .ok ofInt := by decide
  obtain ⟨-, hok, -, -, halike⟩ := resolve_standsOut hbuilt cls.cls "twice" [.int] true .unknown
  obtain ⟨hnone, -⟩ := resolve_standsOut hbuilt cls.cls "twice" [.boolean] true .unknown
  have hstands := (hok ofInt).1 hresolve
  exact ⟨hbuilt, howns, hbuilt', hpermutes, hcandidates, hresolve, hcandidates ▸ hstands,
    hnone.2 (by decide), halike howns t' hbuilt' hpermutes⟩

/-! ### Conversions of arguments -/

/-- With more precise arguments no candidate is lost. -/
theorem applicable_subset (hclosed : t.hierarchy.Closed) (hrooted : t.hierarchy.Rooted)
    {args' : List MachineType} (hargs : List.Forall₂ (t.isAssignable · ·) args' args)
    (cls name : String) (isStatic : Bool) :
    t.applicable cls name args isStatic ⊆ t.applicable cls name args' isStatic :=
  (List.monotone_filter_right _ fun _ hm ↦ areAssignable_trans hclosed hrooted hargs hm).subset

/-- Whatever has been added to the standard classes: a call with arguments that convert to those of
another call is applicable if the other one is, and if both resolve, then to the same member, or the
first to one that surpasses that of the second. -/
theorem resolve_monotone (additions : List Addition) (cls : ClassRef) (name : String)
    (isStatic : Bool) (span span' : Span) {args args' : List MachineType}
    (hargs : List.Forall₂ ((standard.run additions).isAssignable · ·) args' args) :
    let t := standard.run additions
    (isNotApplicable (t.resolve cls name args isStatic span) = false →
        isNotApplicable (t.resolve cls name args' isStatic span') = false) ∧
      ∀ m m', t.resolve cls name args isStatic span = .ok m →
        t.resolve cls name args' isStatic span' = .ok m' → m' = m ∨ t.Surpasses m' m := by
  intro t
  have h : t.Consistent := (built_standard.run additions).consistent
  have hsubset := applicable_subset h.closed (rooted_run additions) hargs cls.name name isStatic
  constructor
  · intro happlicable
    rw [← Bool.not_eq_true, isNotApplicable_resolve_iff h] at happlicable ⊢
    intro hnone
    rw [hnone] at hsubset
    exact happlicable (List.subset_nil.1 hsubset)
  · intro m m' hm hm'
    have hstands := (resolve_eq_ok_iff h).1 hm
    have hstands' := (resolve_eq_ok_iff h).1 hm'
    by_cases heq : m = m'
    · exact .inl heq.symm
    · exact .inr (hstands'.2 m (hsubset hstands.1) heq)

/-- An absolute value is that of a long integer, unless it is asked of an integer. -/
theorem resolve_abs :
    let math : ClassRef := { name := "java.lang.Math" }
    let ofInt : Member :=
      { owner := math, name := "abs", params := [.int], returnType := .int
        flags := { isStatic := true } }
    let ofLong : Member := { ofInt with params := [.long], returnType := .long }
    let t := standard.run []
    List.Forall₂ (t.isAssignable · ·) [.int] [.long] ∧
      t.resolve math "abs" [.long] true Span.unknown = .ok ofLong ∧
      t.resolve math "abs" [.int] true Span.unknown = .ok ofInt ∧
      isNotApplicable (t.resolve math "abs" [.int] true Span.unknown) = false ∧
      t.Surpasses ofInt ofLong := by
  intro math ofInt ofLong t
  have hargs : List.Forall₂ (t.isAssignable · ·) [.int] [.long] := .cons rfl .nil
  have hlong : t.resolve math "abs" [.long] true Span.unknown = .ok ofLong := by decide +kernel
  have hint : t.resolve math "abs" [.int] true Span.unknown = .ok ofInt := by decide +kernel
  obtain ⟨happlicable, hprecise⟩ := resolve_monotone [] math "abs" true .unknown .unknown hargs
  refine ⟨hargs, hlong, hint, happlicable ?_, ?_⟩
  · show isNotApplicable (t.resolve math "abs" [.long] true Span.unknown) = false
    rw [hlong]
    rfl
  · exact (hprecise ofLong ofInt hlong hint).resolve_left (by decide)

end ClassTable

end ScriptBytecode

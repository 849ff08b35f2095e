import ScriptBytecode.Proofs.Classes.Linearization

/-!
# Registering several classes

A host registers classes one after another. A class may mention others that come later, so the table
in between is a different one in every order, and so are the questions that are asked about it. Of
two classes that are each other's superclass it is always the second that is refused.

Whether any class is refused is another matter. It is a property of the classes taken together
(`AcceptsAll`): their names and their signatures are new and different, and the hierarchy with the
edges of all of them has no cycle. The question for cycles that each registration asks about the
edges so far comes to the same as one question about all of them in the end, since a cycle has an
edge that is added last (`registersAll_iff`).

So classes that can all be registered can be registered in any order, and the tables differ in
nothing that can be asked of them (`registersAll_perm`).

**What a refusal depends on.** Taken in some order, the first class that is refused depends on the
order. Whether there is one does not, which is what `registersAll_perm` says; it does not say that
the same class is refused, and this would not be true.

**Cycles.** That a cycle has an edge that was added last is not used as it stands. The proof goes
along the list: a class that closes a cycle with what is there closes it with everything
(`Acyclic.of_addClasses`), and if all edges together have no cycle then those of a part have none.

* `foldlM_register_eq_ok_iff` leads from trying classes in turn to adding all of them;
* `Consistent.acceptsAll_cons` is the step, `Consistent.registersAll_iff` the induction on the list;
* `Reorders.answersAlike` is what can be asked of a table in the end.
-/

namespace ScriptBytecode

namespace Hierarchy

/-- The hierarchy with several classes added. -/
def addClasses (h : Hierarchy) (es : List ClassEntry) : Hierarchy :=
  es.foldl (fun h e ↦ h.addClass e.name e.supertypes) h

/-- Cycles stay when classes are added. -/
theorem Acyclic.of_addClasses {h : Hierarchy} {es : List ClassEntry}
    (hacyclic : (h.addClasses es).Acyclic) : h.Acyclic := by
  induction es generalizing h with
  | nil => exact hacyclic
  | cons e es ih =>
    intro a hcycle
    refine ih hacyclic a (Relation.TransGen.mono (fun sub sup hbelow ↦ ?_) _ _ hcycle)
    exact below_addClass.2 (.inl hbelow)

end Hierarchy

namespace ClassTable

variable {t u : ClassTable} {e : ClassEntry} {es es' : List ClassEntry}

/-! ### One class after another -/

/-- Each of the classes is registered when they are tried in turn. -/
def RegistersAll (t : ClassTable) : List ClassEntry → Prop
  | [] => True
  | e :: es => (∃ u, perform (.ofClass e) t = .ok () u) ∧ (t.after (.ofClass e)).RegistersAll es

/-- In place, a class is registered just when it can be, with the table that registering it
yields. -/
theorem perform_ofClass_eq_ok_iff : perform (.ofClass e) t = .ok () u ↔ t.register e = .ok u := by
  rw [perform, InPlace.register_eq, InPlace.whole_eq_ok_iff]

/-- After a class that can be registered there is the table with the class. -/
theorem after_ofClass (h : t.register e = .ok u) : t.after (.ofClass e) = u := by
  rw [after, perform_ofClass_eq_ok_iff.2 h]

/-- Trying the classes in turn without a refusal is adding all of them. -/
theorem foldlM_register_eq_ok_iff :
    es.foldlM register t = .ok u ↔ t.RegistersAll es ∧ t.run (es.map .ofClass) = u := by
  induction es generalizing t with
  | nil =>
    constructor
    · intro h
      exact ⟨trivial, Except.ok.inj h⟩
    · rintro ⟨-, rfl⟩
      rfl
  | cons e es ih =>
    rw [List.foldlM_cons]
    constructor
    · intro h
      obtain ⟨v, hv, hrest⟩ := Session.ok_of_bind h
      obtain ⟨hall, hrun⟩ := ih.1 hrest
      rw [← after_ofClass hv] at hall hrun
      exact ⟨⟨⟨v, perform_ofClass_eq_ok_iff.2 hv⟩, hall⟩, hrun⟩
    · rintro ⟨⟨⟨v, hv⟩, hall⟩, hrun⟩
      have hv := perform_ofClass_eq_ok_iff.1 hv
      have hrun : (t.after (.ofClass e)).run (es.map .ofClass) = u := hrun
      rw [after_ofClass hv] at hall hrun
      rw [hv]
      exact ih.2 ⟨hall, hrun⟩

/-! ### All classes together -/

/-- Nothing speaks against the classes when they are taken together. -/
structure AcceptsAll (t : ClassTable) (es : List ClassEntry) : Prop where
  /-- No two of them have the same name. -/
  names : (es.map ClassEntry.name).Nodup
  /-- None of the names is taken. -/
  fresh : ∀ e ∈ es, t.get? e.name = none
  /-- The signatures of all their members are new, and there is none of them twice. -/
  signatures : Fresh t.signatures (es.flatMap (·.members))
  /-- Their edges and those that are there close no cycle. -/
  acyclic : (t.hierarchy.addClasses es).Acyclic

/-- Taking classes together or one of them first comes to the same. -/
theorem Consistent.acceptsAll_cons (h : t.Consistent) :
    t.AcceptsAll (e :: es) ↔ t.Accepts e ∧ (t.withClass e).AcceptsAll es := by
  constructor
  · rintro ⟨hnames, hfresh, hsignatures, hacyclic⟩
    obtain ⟨hname, hnames⟩ := List.nodup_cons.1 hnames
    obtain ⟨hfirst, hfresh⟩ := List.forall_mem_cons.1 hfresh
    rw [List.flatMap_cons, fresh_append_iff] at hsignatures
    -- the edges of the first class close no cycle, since they would close it in the end as well
    have hcycle := (Hierarchy.acyclic_addClass_iff h.acyclic).1 (.of_addClasses hacyclic)
    refine ⟨⟨hfirst, hcycle, hsignatures.1⟩, hnames, fun e' he' ↦ ?_, hsignatures.2, hacyclic⟩
    rw [get?_withClass hfirst, if_neg fun heq ↦ hname (List.mem_map.2 ⟨e', he', heq⟩)]
    exact hfresh e' he'
  · rintro ⟨haccepts, hnames, hfresh, hsignatures, hacyclic⟩
    have hother : ∀ e' ∈ es, e'.name ≠ e.name ∧ t.get? e'.name = none := by
      intro e' he'
      have hnone := hfresh e' he'
      rw [get?_withClass haccepts.fresh] at hnone
      split at hnone
      · cases hnone
      · next hne => exact ⟨hne, hnone⟩
    refine ⟨?_, ?_, ?_, hacyclic⟩
    · refine List.nodup_cons.2 ⟨fun hmem ↦ ?_, hnames⟩
      obtain ⟨e', he', heq⟩ := List.mem_map.1 hmem
      exact (hother e' he').1 heq
    · exact List.forall_mem_cons.2 ⟨haccepts.fresh, fun e' he' ↦ (hother e' he').2⟩
    · rw [List.flatMap_cons, fresh_append_iff]
      exact ⟨haccepts.signatures, hsignatures⟩

/-- Classes are registered one after another if nothing speaks against all of them together, and
only then. -/
theorem Consistent.registersAll_iff (h : t.Consistent) : t.RegistersAll es ↔ t.AcceptsAll es := by
  induction es generalizing t with
  | nil => exact ⟨fun _ ↦ ⟨.nil, nofun, ⟨.nil, nofun⟩, h.acyclic⟩, fun _ ↦ trivial⟩
  | cons e es ih =>
    rw [h.acceptsAll_cons]
    constructor
    · rintro ⟨⟨v, hv⟩, hall⟩
      have hv := perform_ofClass_eq_ok_iff.1 hv
      rw [after_ofClass hv] at hall
      obtain ⟨haccepts, rfl⟩ := (register_eq_ok_iff h.closed).1 hv
      exact ⟨haccepts, (ih (h.withClass haccepts)).1 hall⟩
    · rintro ⟨haccepts, hall⟩
      have hv := (register_eq_ok_iff h.closed).2 ⟨haccepts, rfl⟩
      refine ⟨⟨_, perform_ofClass_eq_ok_iff.2 hv⟩, ?_⟩
      rw [after_ofClass hv]
      exact (ih (h.withClass haccepts)).2 hall

/-! ### Any order -/

/-- The tables give the same answers. -/
structure AnswersAlike (t t' : ClassTable) : Prop where
  get? : ∀ name, t.get? name = t'.get? name
  isSubtype : ∀ sub sup, t.isSubtype sub sup = t'.isSubtype sub sup
  linearize : ∀ name, t.linearize name = t'.linearize name
  visibleMembers : ∀ cls name isStatic,
    t.visibleMembers cls name isStatic = t'.visibleMembers cls name isStatic

/-- What can be asked does not depend on the order of classes. -/
theorem Reorders.answersAlike {t t' : ClassTable} (h : t.Reorders t') : t.AnswersAlike t' := by
  have hlinear : t.linearize = t'.linearize := by
    funext name
    rw [ClassTable.linearize, ClassTable.linearize, h.hierarchy.ancestors]
  have hdeclared : t.declared = t'.declared := by
    funext owner name isStatic
    rw [declared, declared, h.get?]
  refine ⟨h.get?, fun sub sup ↦ ?_, congrFun hlinear, fun cls name isStatic ↦ ?_⟩
  · rw [ClassTable.isSubtype, ClassTable.isSubtype, h.hierarchy.reaches]
  · rw [ClassTable.visibleMembers, ClassTable.visibleMembers, hlinear, hdeclared, h.get?]

/-- Registering some classes succeeds for all of them in every order or in none. It succeeds just
when nothing speaks against the classes taken together, and then the tables give the same
answers. -/
theorem registersAll_perm (hbuilt : t.Built) (hperm : es.Perm es') :
    (t.RegistersAll es ↔ t.RegistersAll es') ∧ (t.RegistersAll es ↔ t.AcceptsAll es) ∧
      (t.RegistersAll es →
        (t.run (es.map .ofClass)).AnswersAlike (t.run (es'.map .ofClass))) := by
  have hreorder : ∀ {es es' : List ClassEntry}, es.Perm es' → t.RegistersAll es →
      t.RegistersAll es' ∧
        (t.run (es.map .ofClass)).AnswersAlike (t.run (es'.map .ofClass)) := by
    intro es es' hperm hall
    have hregister := foldlM_register_eq_ok_iff.2 ⟨hall, rfl⟩
    obtain ⟨u, hregister', hreorders, -⟩ := register_perm hperm hbuilt.closed hregister
    obtain ⟨hall', rfl⟩ := foldlM_register_eq_ok_iff.1 hregister'
    exact ⟨hall', hreorders.answersAlike⟩
  refine ⟨⟨fun h ↦ (hreorder hperm h).1, fun h ↦ (hreorder hperm.symm h).1⟩,
    hbuilt.consistent.registersAll_iff, fun h ↦ (hreorder hperm h).2⟩

/-- A class that mentions its superclass and an interface before either is there. -/
def mentioningFirst : List ClassEntry :=
  [{ ClassEntry.ofClass "Circle" with superclass := some "Round" } |>.implements "Shape",
    ClassEntry.ofInterface "Shape" |>.method "area" [] .int,
    ClassEntry.ofClass "Round" |>.implements "Shape" |>.method "area" [] .int]

/-- The classes can be registered the other way round as well, and the class that was the first has
the same supertypes, in the same order. -/
theorem registersAll_mentioningFirst :
    empty.Built ∧ mentioningFirst.Perm mentioningFirst.reverse ∧
      empty.RegistersAll mentioningFirst ∧ empty.RegistersAll mentioningFirst.reverse ∧
      (empty.run (mentioningFirst.map .ofClass)).linearize "Circle" =
        ["Circle", "Shape", "Round", objectName] ∧
      (empty.run (mentioningFirst.reverse.map .ofClass)).linearize "Circle" =
        ["Circle", "Shape", "Round", objectName] := by
  have hperm : mentioningFirst.Perm mentioningFirst.reverse := (List.reverse_perm _).symm
  have hall : empty.RegistersAll mentioningFirst := ⟨⟨_, rfl⟩, ⟨_, rfl⟩, ⟨_, rfl⟩, trivial⟩
  have hlist : (empty.run (mentioningFirst.map .ofClass)).linearize "Circle" =
      ["Circle", "Shape", "Round", objectName] := by decide
  obtain ⟨hiff, -, halike⟩ := registersAll_perm .empty hperm
  exact ⟨.empty, hperm, hall, hiff.1 hall, hlist, (halike hall).linearize "Circle" ▸ hlist⟩

end ClassTable

end ScriptBytecode

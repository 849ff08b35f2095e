import Mathlib.Data.List.Nodup
import ScriptBytecode.Proofs.Classes.Order
import ScriptBytecode.Proofs.Classes.Overloads
import ScriptBytecode.Proofs.Discipline.Readings

/-!
# The order of members

Members may be added to the classes of a table in any order. Tables that differ in this order, and
in the order of their classes, have the same conversions, and a call resolves to the same member in
both (`Shuffles.resolvesAlike`).

* `ClassTable.Shuffles` relates two such tables, and `Shuffles.resolvesAlike` is what it is for;
* `ClassTable.withMembers` adds several members without asking, and `addMember_eq_ok_iff` says when
  a member is added at all.

**Why the order does not matter.** A call looks at members in three steps. It collects what each
class declares under the name, hides what has been declared with the same parameters nearer by, and
takes the one that is more specific than the rest. The order of classes is the same in both tables,
and within one class no two members of a name have the same parameters (`Member.Distinct`), so
hiding takes no notice of it either.

**What may differ** is the wording of an error: an ambiguous call lists its candidates in their
order. `Shuffles.resolvesAlike` therefore compares the kinds of failures and not their texts.

* `ClassEntry.Shuffles` relates single classes;
* `addMember_perm` says that members which can be added can be added in any order;
* `Built` are the tables that come about by additions that were made.
-/

namespace ScriptBytecode

/-! ### Entries and tables -/

/-- Related entries are both there or both missing. -/
theorem rel_cases {α : Type} {R : α → α → Prop} {entry entry' : Option α}
    (h : Option.Rel R entry entry') :
    entry = none ∧ entry' = none ∨ ∃ e e', entry = some e ∧ entry' = some e' ∧ R e e' := by
  cases h with
  | none => exact .inl ⟨rfl, rfl⟩
  | some hentry => exact .inr ⟨_, _, rfl, rfl, hentry⟩

/-- Methods that can be told apart by their names and parameters. -/
def Member.Distinct (ms : List Member) : Prop :=
  ((ms.filter (!·.flags.isConstructor)).map fun m ↦ (m.name, m.params)).Nodup

/-- Entries of the same class that differ in the order of some of its members, which can be told
apart. -/
structure ClassEntry.Shuffles (e e' : ClassEntry) : Prop where
  cls : e.cls = e'.cls
  members : ∃ common own own', e.members = common ++ own ∧ e'.members = common ++ own' ∧
    own.Perm own' ∧ Member.Distinct own

namespace ClassTable

/-- The tables have the same classes and members, and differ in their order at most. -/
structure Shuffles (t t' : ClassTable) : Prop where
  get? : ∀ name, Option.Rel ClassEntry.Shuffles (t.get? name) (t'.get? name)
  hierarchy : t.hierarchy.Reorders t'.hierarchy

variable {t t' : ClassTable}

/-! ### Conversions -/

namespace Shuffles

/-- A name is known in both tables or in none. -/
theorem get?_cases (h : t.Shuffles t') (name : String) :
    t.get? name = none ∧ t'.get? name = none ∨
      ∃ e e', t.get? name = some e ∧ t'.get? name = some e' ∧ e.Shuffles e' :=
  rel_cases (h.get? name)

/-- Tables that differ in order only know the same names. -/
theorem classRef? (h : t.Shuffles t') (name : String) : t.classRef? name = t'.classRef? name := by
  unfold ClassTable.classRef?
  rcases h.get?_cases name with ⟨he, he'⟩ | ⟨e, e', he, he', hentry⟩
  · rw [he, he']
  · rw [he, he']
    exact congrArg some hentry.cls

/-- They know the same conversions. -/
theorem conversion? (h : t.Shuffles t') : t.conversion? = t'.conversion? := by
  have hsubtype : t.isSubtype = t'.isSubtype := by
    funext sub sup
    unfold isSubtype
    rw [h.hierarchy.reaches]
  funext source target
  cases source <;> cases target <;> simp only [ClassTable.conversion?, hsubtype]

/-- So they do for lists of arguments. -/
theorem areAssignable (h : t.Shuffles t') : t.areAssignable = t'.areAssignable := by
  funext args params
  induction args generalizing params with
  | nil => cases params <;> rfl
  | cons arg args ih =>
    cases params with
    | nil => rfl
    | cons param params =>
      simp only [ClassTable.areAssignable, isAssignable, h.conversion?, ih]

/-! ### Members -/

/-- What a class declares under a name can be told apart by its parameters. -/
theorem shuffled_declared (h : t.Shuffles t') (owner name : String) (isStatic : Bool) :
    Shuffled (t.declared owner name isStatic) (t'.declared owner name isStatic) := by
  unfold declared
  rcases h.get?_cases owner with ⟨he, he'⟩ | ⟨e, e', he, he', hentry⟩
  · rw [he, he']
    exact ⟨[], [], [], rfl, rfl, .refl _, .nil⟩
  · obtain ⟨common, own, own', hown, hown', hperm, hdistinct⟩ := hentry.members
    rw [he, he']
    dsimp only
    rw [hown, hown', List.filter_append, List.filter_append]
    refine ⟨_, _, _, rfl, rfl, hperm.filter _, ?_⟩
    let p (m : Member) : Bool :=
      m.name == name && !m.flags.isConstructor && m.flags.isStatic == isStatic
    have hp : ∀ {m}, p m = true → m.name = name ∧ (!m.flags.isConstructor) = true := by
      intro m hm
      obtain ⟨hm, -⟩ := Bool.and_eq_true_iff.1 hm
      exact (Bool.and_eq_true_iff.1 hm).imp_left beq_iff_eq.1
    have hsub : (own.filter p).Sublist (own.filter (!·.flags.isConstructor)) :=
      List.monotone_filter_right own fun m hm ↦ (hp hm).2
    have hnames : (own.filter p).map (fun m ↦ (m.name, m.params)) =
        ((own.filter p).map (·.params)).map (name, ·) := by
      rw [List.map_map]
      refine List.map_congr_left fun m hm ↦ ?_
      exact Prod.ext (hp (List.mem_filter.1 hm).2).1 rfl
    have hnodup := hdistinct.sublist (hsub.map _)
    rw [hnames] at hnodup
    exact List.Nodup.of_map _ hnodup

/-- The same members are visible on a class, in some order. -/
theorem visibleMembers_perm (h : t.Shuffles t') (cls name : String) (isStatic : Bool) :
    (t.visibleMembers cls name isStatic).Perm (t'.visibleMembers cls name isStatic) := by
  have hlinear : t.linearize cls = t'.linearize cls := by
    unfold linearize
    rw [h.hierarchy.ancestors]
  unfold visibleMembers
  split
  · rcases h.get?_cases cls with ⟨he, he'⟩ | ⟨e, e', he, he', hentry⟩
    · rw [he, he']
    · obtain ⟨common, own, own', hown, hown', hperm, -⟩ := hentry.members
      rw [he, he']
      dsimp only
      rw [hown, hown']
      exact (hperm.append_left common).filter _
  · rw [hlinear]
    exact hideOverridden_perm (fun owner ↦ h.shuffled_declared owner name isStatic) _

/-- A call resolves to the same member, or fails for a reason of the same kind. -/
theorem resolvesAlike (h : t.Shuffles t') (cls : ClassRef) (name : String)
    (args : List MachineType) (isStatic : Bool) (span : Span) :
    ResolvesAlike (t.resolve cls name args isStatic span)
      (t'.resolve cls name args isStatic span) := by
  -- The candidates are the same up to order,
  have happlicable : (t.applicable cls.name name args isStatic).Perm
      (t'.applicable cls.name name args isStatic) := by
    have hsame : (t.isApplicable · args) = (t'.isApplicable · args) := by
      funext m
      unfold isApplicable
      rw [h.areAssignable]
    unfold applicable
    rw [hsame]
    exact (h.visibleMembers_perm cls.name name isStatic).filter _
  -- and which of some candidates is the most specific does not depend on their order.
  have hspecific : t.mostSpecific? (t'.applicable cls.name name args isStatic) =
      t'.mostSpecific? (t'.applicable cls.name name args isStatic) := by
    have hstrict : t.isStrictlyMoreSpecific = t'.isStrictlyMoreSpecific := by
      funext a b
      unfold isStrictlyMoreSpecific isMoreSpecific
      rw [h.areAssignable]
    unfold mostSpecific?
    rw [winners_eq_filter, winners_eq_filter, hstrict]
  unfold resolve
  dsimp only
  rw [mostSpecific?_perm happlicable, hspecific]
  generalize t.applicable cls.name name args isStatic = candidates at happlicable
  generalize t'.applicable cls.name name args isStatic = candidates' at happlicable
  -- Which error it is depends only on whether there are candidates at all.
  cases candidates with
  | nil =>
    rw [happlicable.nil_eq]
    exact ⟨rfl, rfl⟩
  | cons m ms =>
    cases candidates' with
    | nil => cases happlicable.eq_nil
    | cons m' ms' => cases t'.mostSpecific? (m' :: ms') <;> exact ⟨rfl, rfl⟩

end Shuffles

end ClassTable

/-! ### Adding members -/

/-- The entry with those of the members that belong to it. -/
def ClassEntry.withMembers (e : ClassEntry) (ms : List Member) : ClassEntry :=
  { e with members := e.members ++ ms.filter (·.owner.name == e.name) }

namespace ClassTable

/-- The table with members added to the classes that own them. -/
def withMembers (t : ClassTable) (ms : List Member) : ClassTable where
  classes := t.classes.map (·.withMembers ms)
  hierarchy := t.hierarchy
  signatures := t.signatures ++ ms.map Member.fingerprint

variable {t t' u : ClassTable} {m : Member} {ms ms' : List Member}

/-- A class is found with the members added to it. -/
theorem get?_withMembers (t : ClassTable) (ms : List Member) (name : String) :
    (t.withMembers ms).get? name = (t.get? name).map (·.withMembers ms) := by
  unfold withMembers get?
  dsimp only
  rw [List.find?_map]
  rfl

/-- To add no members changes nothing. -/
@[simp] theorem withMembers_nil (t : ClassTable) : t.withMembers [] = t := by
  simp [withMembers, ClassEntry.withMembers]

/-- Members can be added in two goes. -/
theorem withMembers_withMembers (t : ClassTable) (ms ms' : List Member) :
    (t.withMembers ms).withMembers ms' = t.withMembers (ms ++ ms') := by
  simp [withMembers, ClassEntry.withMembers, ClassEntry.name, Function.comp_def]

/-- A member can be added if its owner is known and its signature is new. -/
theorem addMember_eq_ok_iff : t.addMember m = .ok u ↔
    (∃ e, t.get? m.owner.name = some e) ∧ m.fingerprint ∉ t.signatures ∧ u = t.withMembers [m] := by
  have hadded : (t.classes.map fun e ↦ if e.name == m.owner.name then e.addMember m else e) =
      t.classes.map (·.withMembers [m]) := by
    refine List.map_congr_left fun e _ ↦ ?_
    unfold ClassEntry.addMember ClassEntry.withMembers
    by_cases howner : e.name = m.owner.name
    · simp [howner]
    · simp [howner, Ne.symm howner]
  have hknown : t.contains m.owner.name = true ↔ ∃ e, t.get? m.owner.name = some e :=
    Option.isSome_iff_exists
  unfold addMember
  split
  · next hunknown =>
    refine ⟨nofun, fun h ↦ ?_⟩
    rw [hknown.2 h.1] at hunknown
    cases hunknown
  · next hcontains =>
    have hcontains : t.contains m.owner.name = true := by simpa using hcontains
    split
    · next hmem => exact ⟨nofun, fun h ↦ absurd (List.contains_iff_mem.1 hmem) h.2.1⟩
    · next hmem =>
      rw [hadded]
      constructor
      · intro h
        exact ⟨hknown.1 hcontains, fun h' ↦ hmem (List.contains_iff_mem.2 h'),
          (Except.ok.inj h).symm⟩
      · rintro ⟨-, -, rfl⟩
        rfl

/-- Members can be added one after another if their owners are known and their signatures are
new. -/
theorem foldlM_addMember_iff : ms.foldlM addMember t = .ok u ↔
    (∀ m ∈ ms, ∃ e, t.get? m.owner.name = some e) ∧ Fresh t.signatures ms ∧
      u = t.withMembers ms := by
  induction ms generalizing t with
  | nil =>
    rw [withMembers_nil]
    refine ⟨fun h ↦ ⟨nofun, ⟨.nil, nofun⟩, (Except.ok.inj h).symm⟩, ?_⟩
    rintro ⟨-, -, rfl⟩
    rfl
  | cons m ms ih =>
    have hknown : ∀ m' : Member, (∃ e, (t.withMembers [m]).get? m'.owner.name = some e) ↔
        ∃ e, t.get? m'.owner.name = some e := by
      intro m'
      rw [get?_withMembers, ← Option.isSome_iff_exists, ← Option.isSome_iff_exists,
        Option.isSome_map]
    rw [List.foldlM_cons, List.forall_mem_cons, fresh_cons_iff]
    constructor
    · intro h
      obtain ⟨v, hv, h⟩ := Session.ok_of_bind h
      obtain ⟨howner, hnew, rfl⟩ := addMember_eq_ok_iff.1 hv
      obtain ⟨howners, hfresh, rfl⟩ := ih.1 h
      exact ⟨⟨howner, fun m' hm' ↦ (hknown m').1 (howners m' hm')⟩, ⟨hnew, hfresh⟩,
        withMembers_withMembers ..⟩
    · rintro ⟨⟨howner, howners⟩, ⟨hnew, hfresh⟩, rfl⟩
      rw [addMember_eq_ok_iff.2 ⟨howner, hnew, rfl⟩]
      exact ih.2 ⟨fun m' hm' ↦ (hknown m').2 (howners m' hm'), hfresh,
        (withMembers_withMembers t [m] ms).symm⟩

/-- Members of one class with different signatures can be told apart. -/
theorem distinct_of_fresh {signatures : List Fingerprint} (h : Fresh signatures ms)
    (name : String) :
    Member.Distinct (ms.filter (·.owner.name == name)) := by
  unfold Member.Distinct
  let methods := (ms.filter (·.owner.name == name)).filter (!·.flags.isConstructor)
  have hsignature : methods.map Member.fingerprint = (methods.map fun m ↦ (m.name, m.params)).map
      fun p ↦ .ofMethod name p.1 (p.2.map MachineType.fingerprint) := by
    rw [List.map_map]
    refine List.map_congr_left fun m hm ↦ ?_
    obtain ⟨hm, hmethod⟩ := List.mem_filter.1 hm
    have howner : m.owner.name = name := beq_iff_eq.1 (List.mem_filter.1 hm).2
    have hconstructor : m.flags.isConstructor = false := by simpa using hmethod
    simp [Member.fingerprint, hconstructor, howner]
  have hsub : (methods.map Member.fingerprint).Sublist (ms.map Member.fingerprint) :=
    (List.filter_sublist.trans List.filter_sublist).map _
  have hnodup := h.1.sublist hsub
  rw [hsignature] at hnodup
  exact List.Nodup.of_map _ hnodup

/-- Members that can be added one after another can be added in any order. -/
theorem addMember_perm (ht : t.Reorders t') (hperm : ms.Perm ms')
    (h : ms.foldlM addMember t = .ok u) :
    ∃ u', ms'.foldlM addMember t' = .ok u' ∧ u.Shuffles u' := by
  obtain ⟨howners, hfresh, rfl⟩ := foldlM_addMember_iff.1 h
  have hknown : ∀ m ∈ ms', ∃ e, t'.get? m.owner.name = some e := by
    intro m hm
    rw [← ht.get?]
    exact howners m (hperm.mem_iff.2 hm)
  have hfresh' : Fresh t'.signatures ms' :=
    ⟨(hperm.map _).nodup hfresh.1, fun m hm hmem ↦
      hfresh.2 m (hperm.mem_iff.2 hm) (ht.signatures.mem_iff.2 hmem)⟩
  refine ⟨_, foldlM_addMember_iff.2 ⟨hknown, hfresh', rfl⟩, fun name ↦ ?_, ht.hierarchy⟩
  rw [get?_withMembers, get?_withMembers, ← ht.get?]
  cases t.get? name with
  | none => exact .none
  | some e =>
    exact .some ⟨rfl, e.members, _, _, rfl, rfl, hperm.filter _, distinct_of_fresh hfresh _⟩

/-! ### Tables that can be built -/

/-- The table was built from the empty one by registering classes and adding members. -/
inductive Built : ClassTable → Prop
  | empty : Built .empty
  | register {t t' : ClassTable} {e : ClassEntry} (ht : Built t) (h : t.register e = .ok t') :
    Built t'
  | addMember {t t' : ClassTable} {m : Member} (ht : Built t) (h : t.addMember m = .ok t') :
    Built t'

/-- All names that a class mentions have nodes in the hierarchy of such a table. -/
theorem Built.closed (h : t.Built) : t.hierarchy.Closed := by
  induction h with
  | empty => exact nofun
  | register _ h ih =>
    obtain ⟨-, rfl⟩ := (register_eq_ok_iff ih).1 h
    exact closed_withClass ih _
  | addMember _ h ih =>
    obtain ⟨-, -, rfl⟩ := addMember_eq_ok_iff.1 h
    exact ih

/-- The standard classes are registered one after another. -/
theorem built_standard : standard.Built := by
  have hfold : ∀ (es : List ClassEntry) {t : ClassTable}, t.Built →
      (es.foldl registerIfNew t).Built := by
    intro es
    induction es with
    | nil => exact fun h ↦ h
    | cons e es ih =>
      intro t ht
      refine ih ?_
      unfold registerIfNew
      split
      · next hregister => exact ht.register hregister
      · exact ht
  exact hfold _ .empty

end ClassTable

end ScriptBytecode

import Mathlib.Data.List.Nodup
import ScriptBytecode.Proofs.Classes.InPlace
import ScriptBytecode.Proofs.Classes.Members

/-!
# What always holds of a class table

The classes of a table, the hierarchy of their names and the signatures of their members are three
lists that have to agree. That they do is an invariant of additions, made or refused.

* `Hierarchy.Acyclic` says that no name leads back to itself.
* `ClassTable.Consistent` says how the three lists of a table hang together.
* `ClassTable.run` makes additions one after another, going on with the table that a refusal leaves.

An addition that is made keeps a table consistent (`Consistent.withClass`, `Consistent.withMember`),
so every table that can be built is consistent (`Built.consistent`), and a refusal changes nothing.
A class is refused for a cycle just when its edges would close one (`acyclic_addClass_iff`).

**Refusals are part of the statement.** `run` goes on with whatever table an addition leaves, made
or refused, so the invariant covers a host that ignores errors. That a refusal leaves the table as
it was is a fact about additions made in place, and is where the order of checks and changes matters
(`eq_of_perform_eq_error`).

**Cycles, exactly.** `acyclic_addClass_iff` has both directions. If a class were refused for a cycle
that is none, nothing would break; so the direction that says that refusals are justified does not
follow from the invariant and is proved apart.

**Fingerprints stand for signatures.** The third list holds words of 64 bits, and a collision is
treated as a repetition. What is consistent about a table is said of these words and not of the
signatures that they were computed from.
-/

namespace ScriptBytecode

/-! ### Hierarchies without cycles -/

namespace Hierarchy

variable {h : Hierarchy} {name : String} {sups : List String}

/-- No name leads back to itself. -/
def Acyclic (h : Hierarchy) : Prop := ∀ a, ¬Relation.TransGen h.Below a a

/-- A class closes a cycle if one of its supertypes leads to it already, and only then. -/
theorem acyclic_addClass_iff (hacyclic : h.Acyclic) :
    (h.addClass name sups).Acyclic ↔ ∀ sup ∈ sups, ¬h.Leads sup name := by
  constructor
  · intro hadded sup hsup hleads
    have hedge : (h.addClass name sups).Below name sup := below_addClass.2 (.inr ⟨rfl, hsup⟩)
    exact hadded name (.head' hedge (hleads.addClass name sups))
  · intro hsups a hcycle
    -- a cycle with a new edge passes through the class, so one of its supertypes leads back to it
    obtain ⟨b, hbelow, hback⟩ := Relation.TransGen.head'_iff.1 hcycle
    rcases below_addClass.1 hbelow with hbelow | ⟨rfl, hb⟩
    · rcases leads_of_addClass hback with hback | ⟨hname, sup, hsup, hback⟩
      · exact hacyclic a (.head' hbelow hback)
      · exact hsups sup hsup (hback.trans (.head hbelow hname))
    · rcases leads_of_addClass hback with hback | ⟨-, sup, hsup, hback⟩
      · exact hsups b hb hback
      · exact hsups sup hsup hback

end Hierarchy

namespace ClassTable

variable {t u : ClassTable} {e : ClassEntry} {m : Member}

/-! ### Consistency -/

/-- The members of all classes. -/
def members (t : ClassTable) : List Member := t.classes.flatMap (·.members)

/-- The classes, the hierarchy and the signatures of a table agree. -/
structure Consistent (t : ClassTable) : Prop where
  /-- The hierarchy has no cycles. -/
  acyclic : t.hierarchy.Acyclic
  /-- No name has two nodes. -/
  nodup_nodes : t.hierarchy.nodes.Nodup
  /-- The nodes are the classes and the supertypes that they mention. -/
  mem_nodes : ∀ name, name ∈ t.hierarchy.nodes ↔
    ∃ e ∈ t.classes, name = e.name ∨ name ∈ e.supertypes
  /-- No name has two classes. -/
  nodup_names : t.names.Nodup
  /-- The edges out of a name are those that its class declares, if there is one. -/
  supertypes : ∀ name, t.hierarchy.supertypes name =
    match t.get? name with
    | some e => e.supertypes
    | none => []
  /-- The signatures are those of the members. -/
  signatures : t.signatures.Perm (t.members.map Member.fingerprint)
  /-- No two members have the same signature. -/
  nodup_signatures : (t.members.map Member.fingerprint).Nodup

/-- Where names are different, a name finds the class that has it. -/
theorem get?_eq_some_iff (hnames : t.names.Nodup) {name : String} :
    t.get? name = some e ↔ e ∈ t.classes ∧ e.name = name := by
  constructor
  · intro hget
    exact ⟨List.mem_of_find?_eq_some hget, by simpa using List.find?_some hget⟩
  · rintro ⟨he, rfl⟩
    obtain ⟨e', hget⟩ := mem_names_iff.1 (List.mem_map_of_mem (f := ClassEntry.name) he)
    have hname : e'.name = e.name := by simpa using List.find?_some hget
    rw [hget, List.inj_on_of_nodup_map hnames (List.mem_of_find?_eq_some hget) he hname]

namespace Consistent

/-- In a consistent table both ends of every edge have nodes. -/
theorem closed (h : t.Consistent) : t.hierarchy.Closed := by
  rintro ⟨a, b⟩ hedge
  have hb : b ∈ t.hierarchy.supertypes a := Hierarchy.mem_supertypes.2 hedge
  rw [h.supertypes] at hb
  cases hget : t.get? a with
  | none =>
    rw [hget] at hb
    cases hb
  | some e =>
    rw [hget] at hb
    obtain ⟨he, hname⟩ := (get?_eq_some_iff h.nodup_names).1 hget
    exact ⟨(h.mem_nodes a).2 ⟨e, he, .inl hname.symm⟩, (h.mem_nodes b).2 ⟨e, he, .inr hb⟩⟩

/-- A class has a node. -/
theorem mem_nodes_of_get? (h : t.Consistent) {name : String} (hget : t.get? name = some e) :
    name ∈ t.hierarchy.nodes := by
  obtain ⟨he, heq⟩ := (get?_eq_some_iff h.nodup_names).1 hget
  exact (h.mem_nodes name).2 ⟨e, he, .inl heq.symm⟩

/-- A name without a node is not that of a class. -/
theorem get?_eq_none (h : t.Consistent) {name : String} (hname : name ∉ t.hierarchy.nodes) :
    t.get? name = none :=
  Option.eq_none_iff_forall_ne_some.2 fun _ hget ↦ hname (h.mem_nodes_of_get? hget)

/-- The members of a class have different signatures. -/
theorem nodup_fingerprints (h : t.Consistent) (he : e ∈ t.classes) :
    (e.members.map Member.fingerprint).Nodup := by
  have hnodup := h.nodup_signatures
  unfold members at hnodup
  rw [List.map_flatMap] at hnodup
  exact (List.nodup_flatMap.1 hnodup).1 e he

/-- The empty table is consistent. -/
theorem empty : ClassTable.empty.Consistent where
  acyclic _ hcycle := by
    obtain ⟨_, hbelow, -⟩ := Relation.TransGen.head'_iff.1 hcycle
    cases hbelow
  nodup_nodes := .nil
  mem_nodes _ := ⟨nofun, nofun⟩
  nodup_names := .nil
  supertypes _ := rfl
  signatures := .refl _
  nodup_signatures := .nil

/-- A class that is accepted fits in. -/
theorem withClass (h : t.Consistent) (haccepts : t.Accepts e) : (t.withClass e).Consistent where
  acyclic := (Hierarchy.acyclic_addClass_iff h.acyclic).2 haccepts.acyclic
  nodup_nodes := (Hierarchy.nodes_addClass ..).nodup_iff.2 (h.nodup_nodes.union _)
  mem_nodes name := by
    show name ∈ (t.hierarchy.addClass e.name e.supertypes).nodes ↔ ∃ e' ∈ t.classes ++ [e], _
    rw [Hierarchy.mem_nodes_addClass, h.mem_nodes]
    simp only [List.mem_append, List.mem_singleton, or_and_right, exists_or, exists_eq_left]
  nodup_names := by
    show ((t.classes ++ [e]).map ClassEntry.name).Nodup
    rw [List.map_append]
    refine h.nodup_names.append (List.nodup_singleton _) (List.disjoint_singleton.2 fun hmem ↦ ?_)
    -- A name that is there already would not be fresh.
    obtain ⟨e', hget⟩ := mem_names_iff.1 hmem
    rw [haccepts.fresh] at hget
    cases hget
  supertypes name := by
    show (t.hierarchy.addClass e.name e.supertypes).supertypes name = _
    rw [Hierarchy.supertypes_addClass, h.supertypes, get?_withClass haccepts.fresh]
    by_cases hname : name = e.name
    · rw [if_pos hname, if_pos hname, hname, haccepts.fresh]
      rfl
    · rw [if_neg hname, if_neg hname, List.append_nil]
  signatures := by
    show (t.signatures ++ _).Perm (((t.classes ++ [e]).flatMap ClassEntry.members).map _)
    rw [List.flatMap_append, List.map_append, List.flatMap_singleton]
    exact h.signatures.append_right _
  nodup_signatures := by
    show (((t.classes ++ [e]).flatMap ClassEntry.members).map Member.fingerprint).Nodup
    rw [List.flatMap_append, List.map_append, List.flatMap_singleton]
    obtain ⟨hnodup, hnew⟩ := haccepts.signatures
    refine h.nodup_signatures.append hnodup fun f hf hf' ↦ ?_
    obtain ⟨m, hm, rfl⟩ := List.mem_map.1 hf'
    exact hnew m hm (h.signatures.mem_iff.2 hf)

/-- Of classes with different names, one gets the new member. -/
theorem members_perm {classes : List ClassEntry} (hnames : (classes.map ClassEntry.name).Nodup)
    (howner : m.owner.name ∈ classes.map ClassEntry.name) :
    ((classes.map (·.withMembers [m])).flatMap ClassEntry.members).Perm
      (classes.flatMap ClassEntry.members ++ [m]) := by
  induction classes with
  | nil => cases howner
  | cons e classes ih =>
    obtain ⟨hfresh, hnames⟩ := List.nodup_cons.1 hnames
    rw [List.map_cons, List.flatMap_cons, List.flatMap_cons, List.append_assoc]
    rcases List.mem_cons.1 howner with he | howner
    · -- the owner comes first, and the others are other classes
      have hothers : classes.map (·.withMembers [m]) = classes := by
        refine (List.map_congr_left fun e' he' ↦ ?_).trans (List.map_id classes)
        have hne : m.owner.name ≠ e'.name := by
          intro heq
          exact hfresh (List.mem_map.2 ⟨e', he', heq.symm.trans he⟩)
        simp [ClassEntry.withMembers, hne]
      have hown : (e.withMembers [m]).members = e.members ++ [m] := by
        simp [ClassEntry.withMembers, he]
      rw [hothers, hown, List.append_assoc]
      exact List.perm_append_comm.append_left _
    · have hne : m.owner.name ≠ e.name := fun heq ↦ hfresh (heq ▸ howner)
      have hsame : (e.withMembers [m]).members = e.members := by
        simp [ClassEntry.withMembers, hne]
      rw [hsame]
      exact (ih hnames howner).append_left _

/-- So does a member whose owner is there. -/
theorem withMember (h : t.Consistent) (howner : ∃ e, t.get? m.owner.name = some e)
    (hnew : m.fingerprint ∉ t.signatures) : (t.withMembers [m]).Consistent := by
  have hnames : (t.withMembers [m]).names = t.names := List.map_map ..
  have hperm : ((t.withMembers [m]).members.map Member.fingerprint).Perm
      (t.members.map Member.fingerprint ++ [m.fingerprint]) := by
    rw [← List.map_singleton, ← List.map_append]
    exact (members_perm h.nodup_names (mem_names_iff.2 howner)).map _
  refine { h with mem_nodes := fun name ↦ ?_, nodup_names := hnames ▸ h.nodup_names,
                  supertypes := fun name ↦ ?_, signatures := ?_, nodup_signatures := ?_ }
  · show name ∈ t.hierarchy.nodes ↔ ∃ e ∈ t.classes.map (·.withMembers [m]), _
    simp only [h.mem_nodes, List.mem_map, exists_exists_and_eq_and]
    rfl
  · show t.hierarchy.supertypes name = _
    rw [get?_withMembers, h.supertypes]
    cases t.get? name <;> rfl
  · exact (h.signatures.append_right _).trans hperm.symm
  · refine hperm.nodup_iff.2 (h.nodup_signatures.append (List.nodup_singleton _) ?_)
    exact List.disjoint_singleton.2 fun hmem ↦ hnew (h.signatures.mem_iff.2 hmem)

end Consistent

/-- Every table that can be built is consistent. -/
theorem Built.consistent (h : t.Built) : t.Consistent := by
  induction h with
  | empty => exact .empty
  | register _ hregister ih =>
    obtain ⟨haccepts, rfl⟩ := (register_eq_ok_iff ih.closed).1 hregister
    exact ih.withClass haccepts
  | addMember _ hadd ih =>
    obtain ⟨howner, hnew, rfl⟩ := addMember_eq_ok_iff.1 hadd
    exact ih.withMember howner hnew

/-! ### Making additions -/

/-- What can be added to a table. -/
inductive Addition where
  /-- A class together with the members it carries. -/
  | ofClass (e : ClassEntry)
  /-- A member of a class that is there. -/
  | ofMember (m : Member)

/-- Makes an addition in place. -/
def perform : Addition → InPlace Unit
  | .ofClass e => InPlace.register e
  | .ofMember m => InPlace.addMember m

/-- The table that an addition leaves, whether it is made or refused. -/
def after (t : ClassTable) (a : Addition) : ClassTable :=
  match perform a t with
  | .ok _ t' => t'
  | .error _ t' => t'

/-- The table that is left when some additions have been tried in turn. -/
def run (t : ClassTable) (as : List Addition) : ClassTable := as.foldl after t

/-- A refusal leaves the table as it was. -/
theorem eq_of_perform_eq_error {a : Addition} {err : RegistrationError}
    (h : perform a t = .error err u) : u = t := by
  cases a with
  | ofClass e =>
    rw [perform, InPlace.register_eq] at h
    exact (InPlace.whole_eq_error_iff.1 h).2
  | ofMember m =>
    rw [perform, InPlace.addMember_eq] at h
    exact (InPlace.whole_eq_error_iff.1 h).2

/-- A table that can be built can be built further. -/
theorem Built.after (h : t.Built) (a : Addition) : (t.after a).Built := by
  unfold ClassTable.after
  split
  · next hperform =>
    cases a with
    | ofClass e =>
      rw [perform, InPlace.register_eq] at hperform
      exact h.register (InPlace.whole_eq_ok_iff.1 hperform)
    | ofMember m =>
      rw [perform, InPlace.addMember_eq] at hperform
      exact h.addMember (InPlace.whole_eq_ok_iff.1 hperform)
  · next hperform =>
    rw [eq_of_perform_eq_error hperform]
    exact h

/-- So it can by several additions. -/
theorem Built.run (h : t.Built) (as : List Addition) : (t.run as).Built := by
  induction as generalizing t with
  | nil => exact h
  | cons a as ih => exact ih (h.after a)

/-- An addition leaves the table as it was, or with a class or a member more. -/
theorem Built.after_cases (h : t.Built) (a : Addition) :
    t.after a = t ∨ (∃ e, t.Accepts e ∧ t.after a = t.withClass e) ∨
      ∃ m, t.after a = t.withMembers [m] := by
  unfold ClassTable.after
  split
  · next hperform =>
    cases a with
    | ofClass e =>
      rw [perform, InPlace.register_eq] at hperform
      obtain ⟨haccepts, rfl⟩ :=
        (register_eq_ok_iff h.closed).1 (InPlace.whole_eq_ok_iff.1 hperform)
      exact .inr (.inl ⟨e, haccepts, rfl⟩)
    | ofMember m =>
      rw [perform, InPlace.addMember_eq] at hperform
      obtain ⟨-, -, rfl⟩ := addMember_eq_ok_iff.1 (InPlace.whole_eq_ok_iff.1 hperform)
      exact .inr (.inr ⟨m, rfl⟩)
  · next hperform => exact .inl (eq_of_perform_eq_error hperform)

/-- What is tried leaves the supertypes of a class as they are. -/
theorem supertypes_run (ht : t.Built) {name : String} (hname : name ∈ t.names)
    (as : List Addition) :
    (t.run as).hierarchy.supertypes name = t.hierarchy.supertypes name := by
  induction as generalizing t with
  | nil => rfl
  | cons a as ih =>
    show ((t.after a).run as).hierarchy.supertypes name = _
    rcases ht.after_cases a with heq | ⟨e, haccepts, heq⟩ | ⟨m, heq⟩
    · rw [heq]
      exact ih ht hname
    · have hne : name ≠ e.name := by
        rintro rfl
        obtain ⟨e', hget⟩ := mem_names_iff.1 hname
        rw [haccepts.fresh] at hget
        cases hget
      have hnames : name ∈ (t.after a).names := by
        rw [heq]
        show name ∈ (t.classes ++ [e]).map ClassEntry.name
        rw [List.map_append]
        exact List.mem_append_left _ hname
      rw [ih (ht.after a) hnames, heq]
      show (t.hierarchy.addClass e.name e.supertypes).supertypes name = _
      rw [Hierarchy.supertypes_addClass, if_neg hne, List.append_nil]
    · have hnames : (t.after a).names = t.names := by
        rw [heq]
        exact List.map_map ..
      rw [ih (ht.after a) (hnames ▸ hname), heq]
      rfl

/-- A class whose name is new is refused for a cycle just when it would close one. -/
theorem Consistent.perform_eq_circular_iff (h : t.Consistent) (hfresh : t.get? e.name = none) :
    (∃ name u, perform (.ofClass e) t = .error (.circularInheritance name) u) ↔
      ¬(t.hierarchy.addClass e.name e.supertypes).Acyclic := by
  have hcycle : e.supertypes.any (t.closesCycle e.name) = true ↔
      ¬(t.hierarchy.addClass e.name e.supertypes).Acyclic := by
    rw [Hierarchy.acyclic_addClass_iff h.acyclic, List.any_eq_true]
    simp only [closesCycle_iff h.closed, not_forall, not_not, exists_prop]
  have hunknown : ¬t.contains e.name = true := by simp [contains, hfresh]
  have hregister : t.register e = _ := if_neg hunknown
  rw [← hcycle, perform, InPlace.register_eq]
  constructor
  · rintro ⟨name, u, hrefused⟩
    obtain ⟨hrefused, -⟩ := InPlace.whole_eq_error_iff.1 hrefused
    rw [hregister] at hrefused
    by_contra hany
    rw [if_neg hany] at hrefused
    split at hrefused <;> cases hrefused
  · intro hany
    exact ⟨e.name, t, InPlace.whole_of_error (hregister.trans (if_pos hany))⟩

/-- Whatever additions are tried, and whichever of them are refused: the table stays consistent, a
class with a new name is refused for a cycle just when it would close one, and a refusal changes
nothing. -/
theorem consistent_run {start : ClassTable} (hstart : start = .empty ∨ start = .standard)
    (as : List Addition) :
    (start.run as).Consistent ∧
      (∀ e : ClassEntry, (start.run as).get? e.name = none →
        ((∃ name u, perform (.ofClass e) (start.run as) = .error (.circularInheritance name) u) ↔
          ¬((start.run as).hierarchy.addClass e.name e.supertypes).Acyclic)) ∧
      ∀ a err u, perform a (start.run as) = .error err u → u = start.run as := by
  have hbuilt : start.Built := by
    rcases hstart with hstart | hstart
    · rw [hstart]
      exact .empty
    · rw [hstart]
      exact built_standard
  have hconsistent := (hbuilt.run as).consistent
  exact ⟨hconsistent, fun e ↦ hconsistent.perform_eq_circular_iff, fun _ _ _ ↦
    eq_of_perform_eq_error⟩

/-- Two classes cannot be each other's superclass: the second is refused, although the first was
registered before it and mentions it. -/
theorem mutual_superclasses_refused :
    let first : ClassEntry := { cls := { name := "First" }, superclass := some "Second" }
    let second : ClassEntry := { cls := { name := "Second" }, superclass := some "First" }
    let t := ClassTable.empty.run [.ofClass first]
    t.Consistent ∧ t.get? second.name = none ∧
      ¬(t.hierarchy.addClass second.name second.supertypes).Acyclic ∧
      perform (.ofClass second) t = .error (.circularInheritance "Second") t ∧
      t.run [.ofClass second] = t := by
  intro first second t
  have hfresh : t.get? second.name = none := by decide
  have hrefused : perform (.ofClass second) t = .error (.circularInheritance "Second") t := rfl
  have hleft : perform (.ofClass second) t =
      .error (.circularInheritance "Second") (t.run [.ofClass second]) := rfl
  obtain ⟨hconsistent, hcycle, hsame⟩ := consistent_run (.inl rfl) [.ofClass first]
  exact ⟨hconsistent, hfresh, (hcycle second hfresh).1 ⟨_, _, hrefused⟩, hrefused,
    hsame _ _ _ hleft⟩

end ClassTable

end ScriptBytecode

import ScriptBytecode.Proofs.Classes.BreadthFirst
import ScriptBytecode.Proofs.Classes.Consistent

/-!
# A class that nothing mentions

A table may have one class more without anyone noticing. `ClassTable.Aside` says that a table is
another one with a class aside: the class is not mentioned in the other table, neither in its
hierarchy nor by a member. The class may mention whatever it likes: it may extend classes of the
table, and even make names nodes of the hierarchy that were none before.

No path leads to such a class, so a class other than it has the same supertypes, the same members
are visible on it, and calls on it resolve alike. What is added to the one table can be added to the
other, as long as it does not mention the class and has none of its signatures
(`Aside.register`, `Aside.addMember`).

* `Aside.isSubtype`, `Aside.conversion?` and `Aside.visibleMembers` compare single answers of the
  two tables;
* `Aside.resolve` says that calls resolve alike;
* `Aside.register` and `Aside.addMember` say that additions keep the one table the other with the
  class aside.

**A mention counts, not a use.** The class must not occur in the other table as a supertype, as an
owner, or in a parameter or result type. That is more than needed for any one answer and what is
needed for all of them: a mere node without a class would already take part in questions about
cycles.

**Signatures are asked for apart.** A member of the class aside may collide with one that is added
later, by accident of its fingerprint. So `Aside.addMember` asks for new signatures in so many
words; nothing in the names of two classes excludes it.

**The root class and the class of texts** are never the class aside (`Aside.ne_root`,
`Aside.ne_string`), since both are known in the other table. They are mentioned by code that
mentions no class at all.
-/

namespace ScriptBytecode

/-! ### Types and members that mention a class -/

/-- The names of the classes that a type is made of. -/
def MachineType.classNames : MachineType → List String
  | void | primitive _ => []
  | ref c => [c.name]
  | array element => element.classNames

/-- The names of the classes that a member mentions. -/
def Member.classNames (m : Member) : List String :=
  m.owner.name :: (m.params.flatMap (·.classNames) ++ m.returnType.classNames)

namespace Member

variable {cls : String}

/-- A member mentions no class besides its owner and those of its types. -/
theorem notMem_classNames {m : Member} (howner : cls ≠ m.owner.name)
    (hparams : ∀ param ∈ m.params, cls ∉ param.classNames)
    (hreturn : cls ∉ m.returnType.classNames) :
    cls ∉ m.classNames := by
  intro hmem
  rcases List.mem_cons.1 hmem with heq | hmem
  · exact howner heq
  rcases List.mem_append.1 hmem with hmem | hmem
  · obtain ⟨param, hparam, hmem⟩ := List.mem_flatMap.1 hmem
    exact hparams param hparam hmem
  · exact hreturn hmem

theorem notMem_params (m : Member) (h : cls ∉ m.classNames) :
    ∀ param ∈ m.params, cls ∉ param.classNames := fun param hparam hmem ↦
  h (List.mem_cons_of_mem _ (List.mem_append_left _ (List.mem_flatMap.2 ⟨param, hparam, hmem⟩)))

theorem notMem_returnType (m : Member) (h : cls ∉ m.classNames) : cls ∉ m.returnType.classNames :=
  fun hmem ↦ h (List.mem_cons_of_mem _ (List.mem_append_right _ hmem))

end Member

namespace Hierarchy

variable {h : Hierarchy} {a b name : String}

/-- No path leads to a name without a node, except from itself. -/
theorem Closed.eq_of_leads (hclosed : h.Closed) (hname : name ∉ h.nodes) (hleads : h.Leads a name) :
    a = name := by
  rcases Relation.ReflTransGen.cases_tail hleads with heq | ⟨_, -, hbelow⟩
  · exact heq.symm
  · exact absurd (hclosed _ hbelow).2 hname

/-- A class with a new name opens no path between others. -/
theorem leads_addClass_iff (hclosed : h.Closed) (hname : name ∉ h.nodes) (hne : a ≠ name)
    (sups : List String) : (h.addClass name sups).Leads a b ↔ h.Leads a b := by
  refine ⟨fun hleads ↦ ?_, fun hleads ↦ hleads.addClass name sups⟩
  rcases leads_of_addClass hleads with hleads | ⟨hto, -⟩
  · exact hleads
  · exact absurd (hclosed.eq_of_leads hname hto) hne

/-- The supertypes of a node of a closed hierarchy are nodes. -/
theorem Closed.supertypes_subset (hclosed : h.Closed) (a : String) : h.supertypes a ⊆ h.nodes :=
  fun _ hb ↦ (hclosed _ (mem_supertypes.1 hb)).2

end Hierarchy

namespace ClassTable

/-- Members that are visible are members of classes of the table. -/
theorem mem_members_of_mem_visibleMembers {t : ClassTable} {cls name : String} {isStatic : Bool}
    {m : Member} (hm : m ∈ t.visibleMembers cls name isStatic) : m ∈ t.members := by
  unfold visibleMembers at hm
  split at hm
  · cases hget : t.get? cls with
    | none =>
      rw [hget] at hm
      cases hm
    | some e =>
      rw [hget] at hm
      exact List.mem_flatMap.2 ⟨e, List.mem_of_find?_eq_some hget, (List.mem_filter.1 hm).1⟩
  · obtain ⟨owner, -, hm⟩ := List.mem_flatMap.1 (mem_of_mem_hideOverridden hm)
    obtain ⟨e, hget, hm, -⟩ := mem_declared_iff.1 hm
    exact List.mem_flatMap.2 ⟨e, List.mem_of_find?_eq_some hget, hm⟩

/-- The most specific of some members depends on how these compare only. -/
theorem mostSpecific?_congr {t t' : ClassTable} {ms : List Member}
    (h : ∀ m ∈ ms, ∀ m' ∈ ms, t'.isStrictlyMoreSpecific m m' = t.isStrictlyMoreSpecific m m') :
    t'.mostSpecific? ms = t.mostSpecific? ms := by
  have hwinners : t'.winners [] ms = t.winners [] ms := by
    rw [winners_eq_filter, winners_eq_filter]
    refine List.filter_congr fun m hm ↦ ?_
    rw [Bool.eq_iff_iff, List.all_eq_true, List.all_eq_true]
    refine forall₂_congr fun m' hm' ↦ ?_
    rw [h m hm m' (List.mem_of_mem_erase hm')]
  unfold mostSpecific?
  rw [hwinners]

variable {d e : ClassEntry} {m : Member} {t t' u : ClassTable} {name : String}

/-- The second table is the first one, up to order, with a class aside that the first one does not
mention. -/
structure Aside (d : ClassEntry) (t t' : ClassTable) : Prop where
  consistent : t.Consistent
  accepts : t.Accepts d
  unmentioned : d.name ∉ t.hierarchy.nodes
  root : objectName ∈ t.hierarchy.nodes
  string : stringName ∈ t.hierarchy.nodes
  members : ∀ m ∈ t.members, d.name ∉ m.classNames
  reorders : (t.withClass d).Reorders t'

namespace Aside

variable (h : Aside d t t')

include h

/-- The class is not the root class. -/
theorem ne_root : d.name ≠ objectName := fun heq ↦ h.unmentioned (heq ▸ h.root)

/-- Nor is it the class of texts. -/
theorem ne_string : d.name ≠ stringName := fun heq ↦ h.unmentioned (heq ▸ h.string)

/-! ### Looking up -/

/-- Every other class is in both tables. -/
theorem get? (hne : name ≠ d.name) : t'.get? name = t.get? name := by
  rw [← h.reorders.get?, get?_withClass h.accepts.fresh, if_neg hne]

/-- Every other name stands for the same class in both tables. -/
theorem classRef? (hne : name ≠ d.name) : t'.classRef? name = t.classRef? name := by
  unfold ClassTable.classRef?
  rw [h.get? hne]

/-- Classes other than that have the same supertypes. -/
theorem isSubtype {sub sup : String} (hne : sub ≠ d.name) :
    t'.isSubtype sub sup = t.isSubtype sub sup := by
  unfold ClassTable.isSubtype
  rw [← h.reorders.hierarchy.reaches]
  by_cases heq : sub = sup
  · simp [heq]
  · have hreaches : (t.withClass d).hierarchy.reaches sub sup = t.hierarchy.reaches sub sup := by
      rw [Bool.eq_iff_iff, (closed_withClass h.consistent.closed d).reaches_iff heq,
        h.consistent.closed.reaches_iff heq]
      exact Hierarchy.leads_addClass_iff h.consistent.closed h.unmentioned hne _
    rw [hreaches]

/-- What does not mention the class converts to the same types in both tables. -/
theorem conversion? {source : MachineType} (hsource : d.name ∉ source.classNames)
    (target : MachineType) : t'.conversion? source target = t.conversion? source target := by
  cases source with
  | ref c =>
    have hne : c.name ≠ d.name := fun heq ↦ hsource (List.mem_singleton.2 heq.symm)
    cases target with
    | ref c' => simp only [ClassTable.conversion?, h.isSubtype hne]
    | _ => rfl
  | _ => cases target <;> rfl

/-- So do arguments that do not mention it. -/
theorem areAssignable {sources : List MachineType}
    (hsources : ∀ source ∈ sources, d.name ∉ source.classNames) (targets : List MachineType) :
    t'.areAssignable sources targets = t.areAssignable sources targets := by
  induction sources generalizing targets with
  | nil => cases targets <;> rfl
  | cons source sources ih =>
    obtain ⟨hsource, hsources⟩ := List.forall_mem_cons.1 hsources
    cases targets with
    | nil => rfl
    | cons target targets =>
      unfold ClassTable.areAssignable isAssignable
      rw [h.conversion? hsource, ih hsources]

/-! ### Members that are visible -/

/-- Every other class declares the same members in both tables. -/
theorem declared {owner : String} (hne : owner ≠ d.name) (name : String) (isStatic : Bool) :
    t'.declared owner name isStatic = t.declared owner name isStatic := by
  unfold ClassTable.declared
  rw [h.get? hne]

/-- A class of the one table has the same ancestors in the other. -/
theorem ancestors (hname : name ∈ t.hierarchy.nodes) :
    t'.hierarchy.ancestors name = t.hierarchy.ancestors name := by
  have hlarger : t.hierarchy.nodes ⊆ (t.withClass d).hierarchy.nodes := fun a ha ↦
    Hierarchy.mem_nodes_addClass.2 (.inl ha)
  have hlength : t.hierarchy.nodes.length ≤ (t.withClass d).hierarchy.nodes.length :=
    (List.subperm_of_subset h.consistent.nodup_nodes hlarger).length_le
  have hnext : ∀ a ∈ t.hierarchy.nodes, ((t.withClass d).hierarchy.supertypes a).reverse =
      (t.hierarchy.supertypes a).reverse := by
    intro a ha
    have hne : a ≠ d.name := fun heq ↦ h.unmentioned (heq ▸ ha)
    show ((t.hierarchy.addClass d.name d.supertypes).supertypes a).reverse = _
    rw [Hierarchy.supertypes_addClass, if_neg hne, List.append_nil]
  have hclosed : ∀ a ∈ t.hierarchy.nodes,
      (t.hierarchy.supertypes a).reverse ⊆ t.hierarchy.nodes := fun a _ b hb ↦
    h.consistent.closed.supertypes_subset a (List.mem_reverse.1 hb)
  rw [← h.reorders.hierarchy.ancestors]
  unfold Hierarchy.ancestors
  rw [if_pos (List.contains_iff_mem.2 hname), if_pos (List.contains_iff_mem.2 (hlarger hname))]
  exact breadthFirst_eq hnext hclosed (List.nodup_singleton name) (by simpa using hname) (by simp)
    (by simpa using hlength)

/-- What has no class of its own in the one table has no ancestors but itself in the other. -/
theorem ancestors_of_get?_eq_none (hne : name ≠ d.name) (hget : t.get? name = none) :
    t'.hierarchy.ancestors name ⊆ [name] := by
  have hsupertypes : (t.withClass d).hierarchy.supertypes name = [] := by
    show (t.hierarchy.addClass d.name d.supertypes).supertypes name = _
    rw [Hierarchy.supertypes_addClass, if_neg hne, h.consistent.supertypes, hget]
    rfl
  rw [← h.reorders.hierarchy.ancestors]
  unfold Hierarchy.ancestors
  split
  · cases (t.withClass d).hierarchy.nodes.length with
    | zero => exact List.Subset.refl _
    | succ n =>
      unfold breadthFirst
      rw [hsupertypes]
      cases n <;> exact List.Subset.refl _
  · exact List.nil_subset _

/-- What classes declare under a name is the same, in the order in which they hide each other. -/
theorem flatMap_declared {cls : String} (hne : cls ≠ d.name) (name : String) (isStatic : Bool) :
    ((t'.linearize cls).flatMap fun owner ↦ t'.declared owner name isStatic) =
      (t.linearize cls).flatMap fun owner ↦ t.declared owner name isStatic := by
  have hsame : ∀ {owners : List String}, owners ⊆ t.hierarchy.nodes →
      (owners.flatMap fun owner ↦ t'.declared owner name isStatic) =
        owners.flatMap fun owner ↦ t.declared owner name isStatic := by
    intro owners howners
    refine List.flatMap_congr fun owner howner ↦ h.declared (fun heq ↦ ?_) name isStatic
    exact h.unmentioned (heq ▸ howners howner)
  have hroot := hsame (List.cons_subset.2 ⟨h.root, List.nil_subset _⟩)
  unfold linearize
  rw [List.flatMap_append, List.flatMap_append, hroot]
  refine congrArg (· ++ _) ?_
  by_cases hcls : cls ∈ t.hierarchy.nodes
  · rw [h.ancestors hcls]
    refine hsame fun owner howner ↦ ?_
    have hsweep := Hierarchy.sweep_ancestors h.consistent.closed hcls
    exact h.consistent.closed.mem_nodes hcls (hsweep.mem_iff.1 (List.mem_filter.1 howner).1)
  · -- in neither table the name has a class, so it declares nothing
    have hget : t.get? cls = none := h.consistent.get?_eq_none hcls
    rw [Hierarchy.ancestors_eq_nil hcls, List.filter_nil, List.flatMap_nil, List.flatMap_eq_nil_iff]
    intro owner howner
    have howner := h.ancestors_of_get?_eq_none hne hget (List.mem_filter.1 howner).1
    obtain rfl := List.mem_singleton.1 howner
    unfold ClassTable.declared
    rw [h.get? hne, hget]

/-- The same members are visible on classes other than that. -/
theorem visibleMembers {cls : String} (hne : cls ≠ d.name) (name : String) (isStatic : Bool) :
    t'.visibleMembers cls name isStatic = t.visibleMembers cls name isStatic := by
  unfold ClassTable.visibleMembers
  rw [h.get? hne, h.flatMap_declared hne]

/-! ### Calls -/

/-- Members compare alike in both tables. -/
theorem isStrictlyMoreSpecific {m m' : Member} (hm : d.name ∉ m.classNames)
    (hm' : d.name ∉ m'.classNames) :
    t'.isStrictlyMoreSpecific m m' = t.isStrictlyMoreSpecific m m' := by
  unfold ClassTable.isStrictlyMoreSpecific isMoreSpecific
  rw [h.areAssignable (m.notMem_params hm), h.areAssignable (m'.notMem_params hm')]

/-- A call that does not mention the class resolves alike in both tables. -/
theorem resolve {cls : ClassRef} (hne : cls.name ≠ d.name) {args : List MachineType}
    (hargs : ∀ arg ∈ args, d.name ∉ arg.classNames) (name : String) (isStatic : Bool)
    (span : Span) :
    t'.resolve cls name args isStatic span = t.resolve cls name args isStatic span := by
  have happlicable : t'.applicable cls.name name args isStatic =
      t.applicable cls.name name args isStatic := by
    unfold applicable
    rw [h.visibleMembers hne]
    exact List.filter_congr fun m _ ↦ h.areAssignable hargs m.params
  have hmembers : ∀ m ∈ t.applicable cls.name name args isStatic, d.name ∉ m.classNames := by
    intro m hm
    exact h.members m (mem_members_of_mem_visibleMembers (List.mem_filter.1 hm).1)
  have hspecific := mostSpecific?_congr fun m hm m' hm' ↦
    h.isStrictlyMoreSpecific (hmembers m hm) (hmembers m' hm')
  unfold ClassTable.resolve
  dsimp only
  rw [happlicable, hspecific]

/-! ### Adding -/

/-- A class can be added to both tables if it can be added to the first and mentions the class aside
nowhere. -/
theorem register (hu : t.register e = .ok u) (hmembers : e.members = []) (hname : e.name ≠ d.name)
    (hsupertypes : d.name ∉ e.supertypes) : ∃ u', t'.register e = .ok u' ∧ Aside d u u' := by
  have hclosed := h.consistent.closed
  obtain ⟨haccepts, rfl⟩ := (register_eq_ok_iff hclosed).1 hu
  -- the class aside is accepted after the new class as well, and then they can trade places
  have hunmentioned : d.name ∉ (t.withClass e).hierarchy.nodes := by
    intro hmem
    rcases Hierarchy.mem_nodes_addClass.1 hmem with hmem | heq | hmem
    · exact h.unmentioned hmem
    · exact hname heq.symm
    · exact hsupertypes hmem
  have hacceptsAside : (t.withClass e).Accepts d := by
    refine ⟨?_, fun sup hsup hleads ↦ ?_, h.accepts.signatures.1, fun m hm hmem ↦ ?_⟩
    · rw [get?_withClass haccepts.fresh, if_neg hname.symm]
      exact h.accepts.fresh
    · obtain rfl := (closed_withClass hclosed e).eq_of_leads hunmentioned hleads
      exact h.accepts.acyclic _ hsup .refl
    · change m.fingerprint ∈ t.signatures ++ e.members.map Member.fingerprint at hmem
      rw [hmembers, List.map_nil, List.append_nil] at hmem
      exact h.accepts.signatures.2 m hm hmem
  obtain ⟨-, hacceptsClass⟩ := accepts_comm haccepts hacceptsAside
  have hclosed' := h.reorders.hierarchy.closed (closed_withClass hclosed d)
  refine ⟨t'.withClass e,
    (register_eq_ok_iff hclosed').2 ⟨h.reorders.accepts hacceptsClass, rfl⟩, ?_⟩
  refine ⟨h.consistent.withClass haccepts, hacceptsAside, hunmentioned, ?_, ?_, fun m hm ↦ ?_, ?_⟩
  · exact Hierarchy.mem_nodes_addClass.2 (.inl h.root)
  · exact Hierarchy.mem_nodes_addClass.2 (.inl h.string)
  · change m ∈ (t.classes ++ [e]).flatMap (·.members) at hm
    rw [List.flatMap_append, List.flatMap_singleton, hmembers, List.append_nil] at hm
    exact h.members m hm
  · exact (reorders_withClass_comm haccepts hacceptsAside).trans
      (h.reorders.withClass hacceptsClass.fresh)

/-- A member can be added to both tables if it can be added to the first, does not mention the class
aside and has none of its signatures. -/
theorem addMember (hu : t.addMember m = .ok u) (hm : d.name ∉ m.classNames)
    (hnew : m.fingerprint ∉ d.members.map Member.fingerprint) :
    ∃ u', t'.addMember m = .ok u' ∧ Aside d u u' := by
  obtain ⟨howner, hfresh, rfl⟩ := addMember_eq_ok_iff.1 hu
  -- the member belongs to another class, so the class aside stays as it is
  have hne : m.owner.name ≠ d.name := fun heq ↦ hm (heq ▸ List.mem_cons_self ..)
  have hkept : d.withMembers [m] = d := by simp [ClassEntry.withMembers, hne]
  have hnone : (t.withMembers [m]).get? d.name = none := by
    rw [get?_withMembers, h.accepts.fresh]
    rfl
  have hfresh' : m.fingerprint ∉ t'.signatures := fun hmem ↦
    (List.mem_append.1 (h.reorders.signatures.mem_iff.2 hmem)).elim hfresh hnew
  have howner' : ∃ e, t'.get? m.owner.name = some e := by
    rw [h.get? hne]
    exact howner
  refine ⟨t'.withMembers [m], addMember_eq_ok_iff.2 ⟨howner', hfresh', rfl⟩, ?_⟩
  refine ⟨h.consistent.withMember howner hfresh, ⟨hnone, h.accepts.acyclic,
    h.accepts.signatures.1, fun m' hm' hmem ↦ ?_⟩, h.unmentioned, h.root, h.string,
    fun m' hm' ↦ ?_,
    fun name ↦ ?_, h.reorders.hierarchy, ?_⟩
  · rcases List.mem_append.1 hmem with hmem | hmem
    · exact h.accepts.signatures.2 m' hm' hmem
    · exact hnew (List.mem_map.2 ⟨m', hm', List.mem_singleton.1 hmem⟩)
  · have hperm := Consistent.members_perm h.consistent.nodup_names (mem_names_iff.2 howner)
    rcases List.mem_append.1 (hperm.mem_iff.1 hm') with hm' | hm'
    · exact h.members m' hm'
    · obtain rfl := List.mem_singleton.1 hm'
      exact hm
  · rw [get?_withClass hnone, get?_withMembers, get?_withMembers, ← h.reorders.get?,
      get?_withClass h.accepts.fresh]
    split
    · rw [Option.map_some, hkept]
    · rfl
  · show ((t.signatures ++ [m.fingerprint]) ++ _).Perm (t'.signatures ++ [m.fingerprint])
    have hperm : (t.signatures ++ d.members.map Member.fingerprint).Perm t'.signatures :=
      h.reorders.signatures
    rw [List.append_assoc]
    refine ((List.perm_append_comm).append_left t.signatures).trans ?_
    rw [← List.append_assoc]
    exact hperm.append_right _

end Aside

end ClassTable

end ScriptBytecode

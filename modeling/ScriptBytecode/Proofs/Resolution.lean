import ScriptBytecode.Compile.Definitions
import ScriptBytecode.Proofs.Classes.Overloads
import ScriptBytecode.Proofs.Stack.Verifier
import ScriptBytecode.Source.Induction

/-!
# What is read from a session

Before code is emitted for a node, types and members are looked up in the session. This is what the
code can rely on: a value has a type other than `void`, and a member that a call resolves to accepts
the arguments of the call, so that it has as many parameters, each of which can have a value.

Where a lookup fails, the program is at fault and not the compiler: the lookup is `Blameless`.

* `ClassTable.areAssignable_of_resolve` and `ClassTable.method_of_resolve` say what is known of a
  member that a call resolves to;
* `Session.valueType_ne_void` that a value has a type which is one of values;
* `Blameless.valueType` that only the program can be at fault.

**One direction only.** Here a lookup has succeeded and something is known because of it. When a
lookup succeeds, and which of several members it finds, is not asked; code that is emitted needs to
know that the arguments fit and that the result can be put on a stack, and no more.

**Blameless lookups.** That no lookup fails with an internal error is proved by going through all of
them once (`Blameless`). Whoever makes a lookup in a longer action gets both facts together, what
its success means and that its failure is the program's.

The induction for `Session.valueType` is on the node: the type of a call depends on those of its
receiver and its arguments, which are nodes again.
-/

namespace ScriptBytecode

/-- Types that can have values have kinds. -/
theorem exists_kindsOf? {types : List MachineType} (h : ∀ type ∈ types, type ≠ .void) :
    ∃ kinds, kindsOf? types = some kinds := by
  induction types with
  | nil => exact ⟨[], rfl⟩
  | cons type types ih =>
    obtain ⟨htype, htypes⟩ := List.forall_mem_cons.1 h
    obtain ⟨kinds, hkinds⟩ := ih htypes
    obtain ⟨kind, hkind⟩ :=
      Option.ne_none_iff_exists'.1 (MachineType.kind?_eq_none_iff.not.2 htype)
    exact ⟨kind :: kinds, by simp [kindsOf?, hkind, hkinds]⟩

/-! ### Members that a call resolves to -/

namespace ClassTable

variable {t : ClassTable} {args params : List MachineType} {m : Member}

/-- Nothing is assignable to a parameter that could have no value. -/
theorem ne_void_of_areAssignable (h : t.areAssignable args params = true) :
    ∀ type ∈ params, type ≠ .void := by
  induction args generalizing params with
  | nil =>
    cases params with
    | nil => exact nofun
    | cons param params => cases h
  | cons arg args ih =>
    cases params with
    | nil => cases h
    | cons param params =>
      obtain ⟨hparam, hparams⟩ := Bool.and_eq_true_iff.1 h
      refine List.forall_mem_cons.2 ⟨?_, ih hparams⟩
      rintro rfl
      simp [isAssignable] at hparam

/-- A member that wins is one of the candidates. -/
theorem winners_subset {before after : List Member} (h : m ∈ t.winners before after) :
    m ∈ after := by
  rw [winners_eq_filter] at h
  exact (List.mem_filter.1 h).1

/-- So is the most specific one. -/
theorem mem_of_mostSpecific? {candidates : List Member} (h : t.mostSpecific? candidates = some m) :
    m ∈ candidates := by
  unfold mostSpecific? at h
  split at h
  · next heq =>
    obtain rfl := Option.some.inj h
    exact winners_subset (heq ▸ List.mem_singleton_self _)
  · cases h

variable {cls : ClassRef} {name : String} {isStatic : Bool} {span : Span}

/-- A call resolves to one of the members that are applicable to it. -/
theorem mem_applicable_of_resolve (h : t.resolve cls name args isStatic span = .ok m) :
    m ∈ t.applicable cls.name name args isStatic := by
  unfold resolve at h
  dsimp only at h
  split at h
  · cases h
  · next heq _ =>
    obtain rfl := Except.ok.inj h
    exact mem_of_mostSpecific? heq
  · cases h

/-- The member that a call resolves to accepts the arguments of the call. -/
theorem areAssignable_of_resolve (h : t.resolve cls name args isStatic span = .ok m) :
    t.areAssignable args m.params = true :=
  (List.mem_filter.1 (mem_applicable_of_resolve h)).2

/-- A construction resolves to a constructor of a class of the table. -/
theorem constructor_of_resolve
    (h : t.resolve cls constructorName args isStatic span = .ok m) :
    ∃ e ∈ t.classes, m ∈ e.members ∧ m.flags.isConstructor = true := by
  have hvisible := (List.mem_filter.1 (mem_applicable_of_resolve h)).1
  unfold visibleMembers at hvisible
  rw [if_pos (beq_self_eq_true _)] at hvisible
  cases hget : t.get? cls.name with
  | none =>
    rw [hget] at hvisible
    cases hvisible
  | some e =>
    rw [hget] at hvisible
    obtain ⟨hmem, hconstructor⟩ := List.mem_filter.1 hvisible
    exact ⟨e, List.mem_of_find?_eq_some hget, hmem, hconstructor⟩

/-- What is not hidden was there before. -/
theorem mem_of_mem_hideOverridden {members : List Member} (h : m ∈ hideOverridden members) :
    m ∈ members :=
  List.mem_of_find?_eq_some (mem_hideOverridden_iff.1 h)

/-- A call of a method resolves to a method of that name of a class of the table, static if that is
asked for. -/
theorem method_of_resolve (hname : name ≠ constructorName)
    (h : t.resolve cls name args isStatic span = .ok m) : m.name = name ∧
    ∃ e ∈ t.classes, m ∈ e.members ∧ m.flags.isConstructor = false ∧
      m.flags.isStatic = isStatic := by
  have hvisible := (List.mem_filter.1 (mem_applicable_of_resolve h)).1
  unfold visibleMembers at hvisible
  rw [if_neg fun heq ↦ hname (beq_iff_eq.1 heq)] at hvisible
  obtain ⟨owner, -, hdeclared⟩ := List.mem_flatMap.1 (mem_of_mem_hideOverridden hvisible)
  obtain ⟨e, hget, hmem, hname, hflags⟩ := mem_declared_iff.1 hdeclared
  exact ⟨hname, e, List.mem_of_find?_eq_some hget, hmem, hflags⟩

/-- Whatever a call resolves to is a member of a class of the table. -/
theorem mem_members_of_resolve (h : t.resolve cls name args isStatic span = .ok m) :
    ∃ e ∈ t.classes, m ∈ e.members := by
  by_cases hname : name = constructorName
  · obtain ⟨e, he, hm, -⟩ := constructor_of_resolve (hname ▸ h)
    exact ⟨e, he, hm⟩
  · obtain ⟨-, e, he, hm, -⟩ := method_of_resolve hname h
    exact ⟨e, he, hm⟩

/-- A class is known under its own name. -/
theorem name_of_classRef? {name : String} {c : ClassRef} (h : t.classRef? name = some c) :
    c.name = name := by
  obtain ⟨e, he, rfl⟩ := Option.map_eq_some_iff.1 h
  exact beq_iff_eq.1 (List.find?_some (p := fun e : ClassEntry ↦ e.name == name) he)

/-- Constructors have no result. -/
def VoidConstructors (t : ClassTable) : Prop :=
  ∀ e ∈ t.classes, ∀ m ∈ e.members, m.flags.isConstructor = true → m.returnType = .void

instance (t : ClassTable) : Decidable t.VoidConstructors :=
  inferInstanceAs (Decidable (∀ e ∈ t.classes, ∀ m ∈ e.members, _))

/-- The standard library has no constructor with a result. -/
theorem voidConstructors_standard : standard.VoidConstructors := by
  decide +kernel

/-- A member that a construction resolves to has no result. -/
theorem VoidConstructors.returnType_of_resolve (h : t.VoidConstructors)
    (hm : t.resolve cls constructorName args isStatic span = .ok m) : m.returnType = .void := by
  obtain ⟨e, he, hmem, hconstructor⟩ := constructor_of_resolve hm
  exact h e he m hmem hconstructor

end ClassTable

/-! ### Types of values -/

namespace Session

variable {s : Session} {span : Span}

/-- What stands in for a missing result is a value. -/
theorem resultType_ne_void {m : Member} {standIn : MachineType} (h : standIn ≠ .void) :
    resultType m standIn ≠ .void := by
  unfold resultType
  split
  · exact h
  · next hvoid => exact fun heq ↦ hvoid (MachineType.isVoid_iff.2 heq)

/-- If two steps succeed one after the other, both do. -/
theorem ok_of_bind {α β ε : Type} {r : Except ε α} {next : α → Except ε β} {b : β}
    (h : (r >>= next) = .ok b) : ∃ a, r = .ok a ∧ next a = .ok b := by
  cases r with
  | ok a => exact ⟨a, rfl, h⟩
  | error e => cases h

/-- A value is never of type `void`. -/
theorem valueType_ne_void {n : Node} {type : MachineType} (h : s.valueType n = .ok type) :
    type ≠ .void := by
  induction n using Node.inductionOn generalizing type with
  | call receiver name args inferred span ihreceiver _ =>
    rw [valueType] at h
    obtain ⟨inferred, -, h⟩ := ok_of_bind h
    split at h
    · -- A type that is given is only passed on if it is not `void`.
      next hvoid =>
      obtain rfl := Except.ok.inj h
      rintro rfl
      cases hvoid
    · split at h
      · obtain ⟨cls, -, h⟩ := ok_of_bind h
        split at h
        · obtain rfl := Except.ok.inj h
          simp
        · obtain ⟨types, -, h⟩ := ok_of_bind h
          obtain ⟨m, -, h⟩ := ok_of_bind h
          obtain rfl := Except.ok.inj h
          exact resultType_ne_void (by simp [MachineType.object])
      · obtain ⟨receiverType, hreceiver, h⟩ := ok_of_bind h
        split at h
        · obtain rfl := Except.ok.inj h
          simp [MachineType.object]
        · obtain ⟨cls, -, h⟩ := ok_of_bind h
          obtain ⟨types, -, h⟩ := ok_of_bind h
          obtain ⟨m, -, h⟩ := ok_of_bind h
          obtain rfl := Except.ok.inj h
          exact resultType_ne_void (ihreceiver hreceiver)
  | selfCall name args inferred span _ =>
    rw [valueType] at h
    obtain ⟨inferred, -, h⟩ := ok_of_bind h
    split at h
    · next hvoid =>
      obtain rfl := Except.ok.inj h
      rintro rfl
      cases hvoid
    · obtain ⟨⟨cls, m⟩, -, h⟩ := ok_of_bind h
      obtain rfl := Except.ok.inj h
      refine resultType_ne_void ?_
      split <;> simp [MachineType.object]
  | _ =>
    obtain ⟨inferred, -, h⟩ := ok_of_bind h
    obtain rfl := Except.ok.inj h
    split
    · simp [MachineType.object]
    · next hvoid => exact fun heq ↦ hvoid (MachineType.isVoid_iff.2 heq)

/-- Every node is worth something. -/
theorem valueTypes_ne_void {nodes : List Node} {types : List MachineType}
    (h : s.valueTypes nodes = .ok types) : ∀ type ∈ types, type ≠ .void := by
  induction nodes generalizing types with
  | nil =>
    obtain rfl := Except.ok.inj h
    exact nofun
  | cons n nodes ih =>
    rw [valueTypes] at h
    obtain ⟨type, htype, h⟩ := ok_of_bind h
    obtain ⟨types', htypes, h⟩ := ok_of_bind h
    obtain rfl := Except.ok.inj h
    exact List.forall_mem_cons.2 ⟨valueType_ne_void htype, ih htypes⟩

/-- There are as many types as values. -/
theorem length_valueTypes {nodes : List Node} {types : List MachineType}
    (h : s.valueTypes nodes = .ok types) : types.length = nodes.length := by
  induction nodes generalizing types with
  | nil =>
    obtain rfl := Except.ok.inj h
    rfl
  | cons n nodes ih =>
    rw [valueTypes] at h
    obtain ⟨type, -, h⟩ := ok_of_bind h
    obtain ⟨types', htypes, h⟩ := ok_of_bind h
    obtain rfl := Except.ok.inj h
    rw [List.length_cons, List.length_cons, ih htypes]

/-- A member that accepts the arguments of a call has as many parameters, each of which can have a
value. -/
theorem params_of_areAssignable {nodes : List Node} {types params : List MachineType}
    (htypes : s.valueTypes nodes = .ok types) (h : s.classes.areAssignable types params = true) :
    params.length = nodes.length ∧ ∃ kinds, kindsOf? params = some kinds := by
  refine ⟨?_, exists_kindsOf? (ClassTable.ne_void_of_areAssignable h)⟩
  rw [← ClassTable.length_eq_of_areAssignable h, length_valueTypes htypes]

/-- What has members of its own, or those of the root class, is a reference. -/
theorem kind?_of_receiverClass {receiver : MachineType} {name : String} {cls : ClassRef}
    (h : receiverClass receiver name span = .ok cls) (hne : receiver ≠ .void) :
    receiver.kind? = some .reference := by
  cases receiver with
  | void => exact absurd rfl hne
  | primitive p => cases h
  | ref c => rfl
  | array element => rfl

/-- A call without a receiver is resolved on the current class, and to a static member if there is
no current instance. -/
theorem resolve_of_selfCallee {name : String} {args : Except CompileError (List MachineType)}
    {cls : ClassRef} {m : Member} (h : s.selfCallee name args span = .ok (cls, m)) :
    ∃ scope types isStatic, s.scopes.currentClass? = some scope ∧ scope.cls = cls ∧
      args = .ok types ∧ s.classes.resolve cls name types isStatic span = .ok m ∧
      (s.scopes.isStatic = true → isStatic = true) := by
  unfold selfCallee at h
  split at h
  · next scope hscope =>
    obtain ⟨types, hargs, h⟩ := ok_of_bind h
    split at h
    · obtain ⟨m', hresolve, h⟩ := ok_of_bind h
      obtain ⟨rfl, rfl⟩ := Prod.mk.inj (Except.ok.inj h)
      exact ⟨scope, types, true, hscope, rfl, hargs, hresolve, fun _ ↦ rfl⟩
    · next hinstance =>
      dsimp only at h
      split at h
      · next hresolve =>
        obtain ⟨rfl, rfl⟩ := Prod.mk.inj (Except.ok.inj h)
        exact ⟨scope, types, false, hscope, rfl, hargs, hresolve, fun h ↦ absurd h hinstance⟩
      · split at h
        · next hresolve _ =>
          obtain ⟨rfl, rfl⟩ := Prod.mk.inj (Except.ok.inj h)
          exact ⟨scope, types, true, hscope, rfl, hargs, hresolve, fun _ ↦ rfl⟩
        · cases h
  · cases h

/-- The member that a call without a receiver resolves to accepts the arguments of the call. -/
theorem areAssignable_of_selfCallee {name : String} {args : Except CompileError (List MachineType)}
    {cls : ClassRef} {m : Member} (h : s.selfCallee name args span = .ok (cls, m)) :
    ∃ types, args = .ok types ∧ s.classes.areAssignable types m.params = true := by
  obtain ⟨scope, types, isStatic, -, -, hargs, hresolve, -⟩ := resolve_of_selfCallee h
  exact ⟨types, hargs, ClassTable.areAssignable_of_resolve hresolve⟩

end Session

/-! ### Failing lookups -/

/-- If it fails, then not by a fault of the compiler. -/
structure Blameless {α : Type} (r : Except CompileError α) : Prop where
  isInternal_eq_false : ∀ e, r = .error e → e.isInternal = false

namespace Blameless

variable {α β : Type} {s : Session} {span : Span}

theorem ok (a : α) : Blameless (.ok a) := by
  constructor
  intro e h
  cases h

theorem located (span : Span) (problem : Problem) :
    Blameless (.error (.located span problem) : Except CompileError α) := by
  constructor
  intro e h
  obtain rfl := Except.error.inj h
  rfl

/-- Look-ups follow each other. -/
theorem bind {r : Except CompileError α} {next : α → Except CompileError β} (h : Blameless r)
    (hnext : ∀ a, r = .ok a → Blameless (next a)) : Blameless (r >>= next) := by
  constructor
  intro e he
  cases r with
  | ok a => exact (hnext a rfl).isInternal_eq_false e he
  | error e' =>
    obtain rfl := Except.error.inj he
    exact h.isInternal_eq_false _ rfl

theorem typeOf (s : Session) (type : SourceType) (span : Span) :
    Blameless (s.typeOf type span) := by
  unfold Session.typeOf TypeTable.resolve
  split
  · exact ok _
  · exact located ..

theorem supertypeOf (s : Session) (name : String) (span : Span) :
    Blameless (s.supertypeOf name span) := by
  refine bind (typeOf ..) fun type _ ↦ ?_
  split
  · exact ok _
  · exact located ..

theorem resolve (t : ClassTable) (cls : ClassRef) (name : String) (args : List MachineType)
    (isStatic : Bool) (span : Span) : Blameless (t.resolve cls name args isStatic span) := by
  unfold ClassTable.resolve
  dsimp only
  split
  · exact located ..
  · exact ok _
  · exact located ..

theorem metaClass (s : Session) (type : SourceType) (typeSpan : Span) (name : String)
    (span : Span) : Blameless (s.metaClass type typeSpan name span) := by
  refine bind (typeOf ..) fun type _ ↦ ?_
  split
  · exact ok _
  · exact located ..
  · exact located ..

theorem receiverClass (receiver : MachineType) (name : String) (span : Span) :
    Blameless (Session.receiverClass receiver name span) := by
  unfold Session.receiverClass
  split
  · exact ok _
  · exact ok _
  · exact ok _
  · exact located ..

theorem selfCallee (s : Session) (name : String) {args : Except CompileError (List MachineType)}
    (span : Span) (hargs : Blameless args) : Blameless (s.selfCallee name args span) := by
  unfold Session.selfCallee
  split
  · refine bind hargs fun types _ ↦ ?_
    split
    · exact bind (resolve ..) fun _ _ ↦ ok _
    · dsimp only
      split
      · exact ok _
      · next e herr =>
        have hblameless := (resolve ..).isInternal_eq_false e herr
        split
        · exact ok _
        · refine ⟨fun e' he' ↦ ?_⟩
          rw [← Except.error.inj he']
          exact hblameless
  · exact located ..

/-- The types of several values are looked up one after another. -/
theorem valueTypes_of_forall {nodes : List Node} (h : ∀ n ∈ nodes, Blameless (s.valueType n)) :
    Blameless (s.valueTypes nodes) := by
  induction nodes with
  | nil => exact ok _
  | cons n nodes ih =>
    rw [Session.valueTypes]
    refine bind (h n (List.mem_cons_self ..)) fun _ _ ↦ ?_
    exact bind (ih fun n hn ↦ h n (List.mem_cons_of_mem _ hn)) fun _ _ ↦ ok _

/-- No fault of the compiler comes up when the type of a value is looked up. The induction is on the
value. -/
theorem valueType (s : Session) (n : Node) : Blameless (s.valueType n) := by
  induction n using Node.inductionOn with
  | call receiver name args inferred span ihreceiver ihargs =>
    rw [Session.valueType]
    refine bind (typeOf ..) fun inferred _ ↦ ?_
    split
    · exact ok _
    · split
      · refine bind (metaClass ..) fun cls _ ↦ ?_
        split
        · exact ok _
        · refine bind (valueTypes_of_forall ihargs) fun types _ ↦ ?_
          exact bind (resolve ..) fun _ _ ↦ ok _
      · refine bind ihreceiver fun receiverType _ ↦ ?_
        split
        · exact ok _
        · refine bind (receiverClass ..) fun cls _ ↦ ?_
          refine bind (valueTypes_of_forall ihargs) fun types _ ↦ ?_
          exact bind (resolve ..) fun _ _ ↦ ok _
  | selfCall name args inferred span ihargs =>
    rw [Session.valueType]
    refine bind (typeOf ..) fun inferred _ ↦ ?_
    split
    · exact ok _
    · exact bind (selfCallee _ _ _ (valueTypes_of_forall ihargs)) fun _ _ ↦ ok _
  | _ => exact bind (typeOf ..) fun _ _ ↦ ok _

/-- Nor does one with several values. -/
theorem valueTypes (s : Session) (nodes : List Node) : Blameless (s.valueTypes nodes) :=
  valueTypes_of_forall fun n _ ↦ valueType s n

theorem plan (width : Width) (name : String) (types : List MachineType) (span : Span) :
    Blameless (Arithmetic.plan width name types span) := by
  unfold Arithmetic.plan
  split
  · exact ok _
  · exact located ..

theorem definingClass (s : Session) (span : Span) : Blameless (s.definingClass span) := by
  unfold Session.definingClass
  split
  · exact ok _
  · exact located ..

theorem paramTypes (s : Session) (params : List Param) : Blameless (s.paramTypes params) := by
  induction params with
  | nil => exact ok _
  | cons p ps ih =>
    refine bind (typeOf ..) fun _ _ ↦ ?_
    exact bind ih fun _ _ ↦ ok _

theorem importClass (types : TypeTable) (classes : ClassTable) (short : List String)
    (full : String) (span : Span) : Blameless (types.importClass classes short full span) := by
  unfold TypeTable.importClass
  split
  · exact located ..
  · exact ok _

theorem kindOf (type : MachineType) (name : String) (span : Span) :
    Blameless (Locals.kindOf type name span) := by
  unfold Locals.kindOf
  split
  · exact ok _
  · exact located ..

theorem declareParam (l : Locals) (name : String) (type : MachineType) (span : Span) :
    Blameless (l.declareParam name type span) := by
  unfold Locals.declareParam
  split
  · exact located ..
  · split
    · exact ok _
    · next e he => exact ⟨fun e' he' ↦ Except.error.inj he' ▸ (kindOf ..).isInternal_eq_false e he⟩

theorem declareStore (l : Locals) (name : String) (type : MachineType) (span : Span) :
    Blameless (l.declareStore name type span) := by
  unfold Locals.declareStore
  split
  · next e he => exact ⟨fun e' he' ↦ Except.error.inj he' ▸ (kindOf ..).isInternal_eq_false e he⟩
  · repeat' split
    all_goals exact ok _

end Blameless

end ScriptBytecode

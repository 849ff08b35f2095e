import ScriptBytecode.Proofs.Classes.Aside
import ScriptBytecode.Proofs.LocalSlots
import ScriptBytecode.Proofs.Lookups
import ScriptBytecode.Proofs.Recast.Nodes

/-!
# Compiling with a class aside

A session in which nothing mentions a class may as well know it. The types that a program comes
across do not mention it either, as long as the program does not, and then nothing that is read from
the session depends on whether the class is there.

* `Locals.Avoids`, `TypeTable.Avoids` and `Session.Avoids` say that nothing mentions the class;
* `Recast.aside` is the change, and `faithful` says that it leaves alone what is read.

**Mentioning.** A type mentions the class if it is of the class or of arrays of it. What is open may
not mention it either, since the types of locals and of the receiver are read from there. Names of
members, of locals and of parameters may be the same as the name of the class; only names of types
and classes count.

**Why subtyping is not changed.** The class may extend known classes, and then it is a subtype of
these. But no known class has it among its supertypes, so between types that do not mention it
nothing is different, and the members which are visible from these types are the same ones.
-/

namespace ScriptBytecode

/-! ### Sessions that do not mention a class -/

/-- No variable has a type that mentions the class. -/
def Locals.Avoids (l : Locals) (cls : String) : Prop :=
  ∀ name v, l.get? name = some v → cls ∉ v.type.classNames

/-- What is open does not mention the class. -/
def Frame.Avoids (cls : String) : Frame → Prop
  | .ofClass c => c.cls.name ≠ cls ∧ c.superclass.name ≠ cls
  | .ofMethod m => m.locals.Avoids cls

/-- No type name stands for a type that mentions the class, and the type of constructs without a
value does not depend on the known classes. -/
structure TypeTable.Avoids (types : TypeTable) (cls : String) : Prop where
  entries : ∀ type machine, types.lookup? type = some machine → cls ∉ machine.classNames
  none : (types.lookup? .none).isSome = true

/-- Neither the type names of a session nor what is open mention the class. -/
structure Session.Avoids (s : Session) (cls : String) : Prop where
  types : s.types.Avoids cls
  frames : ∀ frame ∈ s.scopes.frames, frame.Avoids cls

namespace Locals.Avoids

variable {l l' : Locals} {cls : String} {type : MachineType}

theorem empty (cls : String) : Avoids {} cls := by
  intro name v hv
  cases hv

/-- A variable is declared whose type does not mention the class. -/
theorem allocate (h : l.Avoids cls) (htype : cls ∉ type.classNames) (name : String)
    (k : StackKind) : (l.allocate name type k).Avoids cls := by
  intro other v hv
  by_cases hname : name = other
  · rw [← hname, get?_allocate_self] at hv
    obtain rfl := Option.some.inj hv
    exact htype
  · rw [get?_allocate_of_ne l type k hname] at hv
    exact h other v hv

/-- So is one that is stored. -/
theorem declareStore (h : l.Avoids cls) (htype : cls ∉ type.classNames) {name : String}
    {span : Span} {v : LocalVar} (hstore : l.declareStore name type span = .ok (v, l')) :
    l'.Avoids cls := by
  obtain ⟨hv, -, hself, hothers, -⟩ := declareStore_cases hstore
  intro other w hw
  by_cases hname : other = name
  · rw [hname, hself] at hw
    obtain rfl := Option.some.inj hw
    exact hv ▸ htype
  · rw [hothers other hname] at hw
    exact h other w hw

end Locals.Avoids

namespace TypeTable

variable {types : TypeTable} {cls name : String} {machine : MachineType}

/-- What a name stands for is entered somewhere. -/
theorem mem_of_lookup? {type : SourceType} (h : types.lookup? type = some machine) :
    machine ∈ types.entries.map (·.2) := by
  obtain ⟨entries⟩ := types
  change entries.lookup type = some machine at h
  induction entries with
  | nil => cases h
  | cons entry entries ih =>
    rw [List.lookup_cons] at h
    split at h
    · exact List.mem_map.2 ⟨entry, List.mem_cons_self .., Option.some.inj h⟩
    · exact List.mem_cons_of_mem _ (ih h)

theorem notMem_pair {a b c : String} (ha : c ≠ a) (hb : c ≠ b) : c ∉ [a, b] := by
  simp [ha, hb]

/-- The built-in names mention the classes of objects and of strings only. -/
theorem avoids_builtin (hroot : cls ≠ objectName) (hstring : cls ≠ stringName) :
    builtin.Avoids cls where
  entries type machine h := by
    have hbuiltin : ∀ machine ∈ builtin.entries.map (·.2),
        machine.classNames ⊆ [objectName, stringName] := by decide
    exact fun hmem ↦ notMem_pair hroot hstring (hbuiltin machine (mem_of_lookup? h) hmem)
  none := by decide

/-- Names may be entered for types that do not mention the class. -/
theorem Avoids.insertClasses (h : types.Avoids cls) {entered : String → MachineType}
    (hentered : ∀ name, cls ∉ (entered name).classNames) (names : List String) :
    (names.foldl (fun t name ↦ t.insertClass name (entered name)) types).Avoids cls where
  entries type machine hlookup := by
    rw [lookup?_foldl_insertClass] at hlookup
    split at hlookup
    · obtain rfl := Option.some.inj hlookup
      exact hentered type.name
    · exact h.entries type machine hlookup
  none := by
    rw [lookup?_foldl_insertClass]
    split
    · rfl
    · exact h.none

end TypeTable

namespace Session.Avoids

variable {s : Session} {cls : String} {l : Locals}

theorem locals (h : s.Avoids cls) : s.locals.Avoids cls := by
  obtain ⟨classes, types, ⟨frames⟩, options, entered, finished⟩ := s
  cases frames with
  | nil => exact .empty cls
  | cons frame frames =>
    cases frame with
    | ofClass c => exact .empty cls
    | ofMethod m => exact h.frames (.ofMethod m) (List.mem_cons_self ..)

/-- Locals may be put that do not mention the class. -/
theorem withLocals (h : s.Avoids cls) (hl : l.Avoids cls) : (s.withLocals l).Avoids cls := by
  obtain ⟨classes, types, ⟨frames⟩, options, entered, finished⟩ := s
  cases frames with
  | nil => exact ⟨h.types, h.frames⟩
  | cons frame frames =>
    cases frame with
    | ofClass c => exact ⟨h.types, h.frames⟩
    | ofMethod m =>
      exact ⟨h.types, List.forall_mem_cons.2 ⟨hl, (List.forall_mem_cons.1 h.frames).2⟩⟩

/-- Neither the current class nor its superclass is the one aside. -/
theorem currentClass? (h : s.Avoids cls) {c : ClassScope} (hc : s.scopes.currentClass? = some c) :
    c.cls.name ≠ cls ∧ c.superclass.name ≠ cls := by
  obtain ⟨frame, hframe, hclass⟩ := List.exists_of_findSome?_eq_some hc
  cases frame with
  | ofClass c' =>
    obtain rfl := Option.some.inj hclass
    exact h.frames _ hframe
  | ofMethod m => cases hclass

/-- A method that is left is added to a class, which mentions no other classes then. -/
theorem leaveMethod (h : s.Avoids cls) {m : MethodScope} {scopes : Scopes} (done : MethodCode)
    (hscopes : s.scopes = (scopes.enterMethod m).2) :
    (s.withScopes (scopes.addMethod done)).Avoids cls := by
  obtain ⟨frames⟩ := scopes
  have hframes : ∀ frame ∈ frames, frame.Avoids cls := fun frame hframe ↦
    h.frames frame (hscopes ▸ List.mem_cons_of_mem _ hframe)
  refine ⟨h.types, ?_⟩
  show ∀ frame ∈ Scopes.addMethodTo done frames, frame.Avoids cls
  clear hscopes
  induction frames with
  | nil => exact hframes
  | cons frame frames ih =>
    obtain ⟨hframe, hrest⟩ := List.forall_mem_cons.1 hframes
    cases frame with
    | ofClass c => exact List.forall_mem_cons.2 ⟨hframe, hrest⟩
    | ofMethod m => exact List.forall_mem_cons.2 ⟨hframe, ih hrest⟩

end Session.Avoids

/-! ### What is read -/

namespace ClassTable.Aside

variable {d : ClassEntry} {t t' : ClassTable} {types : TypeTable} {name : String}

/-- A type that mentions other classes only is another than that of the class. -/
theorem notMem_classNames {c : ClassRef} (hne : c.name ≠ name) :
    name ∉ (MachineType.ref c).classNames :=
  fun hmem ↦ hne (List.mem_singleton.1 hmem).symm

variable (h : Aside d t t') (htypes : types.Avoids d.name)

include h htypes

/-- Another name stands for the same with and without the class, and for nothing that mentions
it. -/
theorem resolveName? (hne : name ≠ d.name) :
    types.resolveName? t' name = types.resolveName? t name ∧
      ∀ machine, types.resolveName? t name = some machine → d.name ∉ machine.classNames := by
  unfold TypeTable.resolveName?
  rw [h.classRef? hne]
  refine ⟨rfl, fun machine hmachine ↦ ?_⟩
  cases hlookup : types.lookup? (.named name) with
  | some found =>
    rw [hlookup] at hmachine
    obtain rfl := Option.some.inj hmachine
    exact htypes.entries _ found hlookup
  | none =>
    rw [hlookup] at hmachine
    obtain ⟨c, hc, rfl⟩ := Option.map_eq_some_iff.1 hmachine
    exact notMem_classNames (name_of_classRef? hc ▸ hne)

/-- A type that is written without the name of the class stands for the same in both tables. -/
theorem resolve? {type : SourceType} (htype : d.name ∉ type.mentioned) :
    types.resolve? t' type = types.resolve? t type ∧
      ∀ machine, types.resolve? t type = some machine → d.name ∉ machine.classNames := by
  unfold TypeTable.resolve?
  cases hlookup : types.lookup? type with
  | some found =>
    refine ⟨rfl, fun machine hmachine ↦ ?_⟩
    obtain rfl := Option.some.inj hmachine
    exact htypes.entries type found hlookup
  | none =>
    have hne : type.name ≠ d.name := by
      intro heq
      unfold SourceType.mentioned SourceType.isNone at htype
      split at htype
      · next hnone =>
        have hsome := htypes.none
        rw [← beq_iff_eq.1 hnone, hlookup] at hsome
        cases hsome
      · exact htype (List.mem_singleton.2 heq.symm)
    obtain ⟨hsame, hfamiliar⟩ := h.resolveName? htypes hne
    dsimp only
    rw [hsame]
    refine ⟨rfl, fun machine hmachine ↦ ?_⟩
    split at hmachine
    · obtain ⟨element, helement, rfl⟩ := Option.map_eq_some_iff.1 hmachine
      exact hfamiliar element helement
    · exact hfamiliar machine hmachine

end ClassTable.Aside

/-! ### The change -/

/-- Sessions with the one table, which do not mention the class, are to know the other. -/
def Recast.aside (d : ClassEntry) (t t' : ClassTable) : Recast where
  classes _ := t'
  options := id
  method := id
  allows name := name != d.name
  familiar type := d.name ∉ type.classNames
  valid s := s.classes = t ∧ s.Avoids d.name

namespace ClassTable.Aside

variable {d : ClassEntry} {t t' : ClassTable}

/-- Nothing that a program reads depends on whether the class is known. -/
theorem faithful (h : Aside d t t') : (Recast.aside d t t').Faithful where
  builtin type htype := by
    have hbuiltin : ∀ type ∈ [MachineType.void, .boolean, .int, .long, .string, .object, mainArgs],
        type.classNames ⊆ [objectName, stringName] := by decide
    exact fun hmem ↦ TypeTable.notMem_pair h.ne_root h.ne_string (hbuiltin type htype hmem)
  ofClass hname := notMem_classNames (bne_iff_ne.1 hname)
  typeOf {type} span hmentioned := by
    have htype : d.name ∉ type.mentioned := fun hmem ↦ bne_iff_ne.1 (hmentioned _ hmem) rfl
    refine ⟨fun {s} hs ↦ ?_, fun {s machine} hs hmachine ↦ ?_⟩
    · show s.types.resolve t' type span = s.types.resolve s.classes type span
      unfold TypeTable.resolve
      rw [hs.1, (h.resolve? hs.2.types htype).1]
    · change s.types.resolve s.classes type span = .ok machine at hmachine
      unfold TypeTable.resolve at hmachine
      rw [hs.1] at hmachine
      split at hmachine
      · next found hfound =>
        obtain rfl := Except.ok.inj hmachine
        exact (h.resolve? hs.2.types htype).2 found hfound
      · cases hmachine
  conversion? hs hsource _ := by
    rw [hs.1]
    exact h.conversion? hsource _
  classRef? hs hname := by
    have hne := bne_iff_ne.1 hname
    rw [hs.1]
    exact ⟨h.classRef? hne, fun c hc ↦ notMem_classNames (name_of_classRef? hc ▸ hne)⟩
  resolve {cls args} name isStatic span hcls hargs := by
    have hne : cls.name ≠ d.name := fun heq ↦ hcls (List.mem_singleton.2 heq.symm)
    refine ⟨fun {s} hs ↦ ?_, fun {s m} hs hm ↦ ?_⟩
    · show t'.resolve cls name args isStatic span = s.classes.resolve cls name args isStatic span
      rw [hs.1]
      exact h.resolve hne hargs name isStatic span
    · obtain ⟨e, he, hmem⟩ := mem_members_of_resolve hm
      rw [hs.1] at he
      have hmentions := h.members m (List.mem_flatMap.2 ⟨e, he, hmem⟩)
      exact ⟨m.notMem_returnType hmentions, m.notMem_params hmentions⟩
  current hs hc := by
    obtain ⟨hcls, hsuperclass⟩ := hs.2.currentClass? hc
    exact ⟨notMem_classNames hcls, notMem_classNames hsuperclass⟩
  localType hs hv := hs.2.locals _ _ hv
  declareThis hs hcls hdeclare := by
    obtain ⟨-, rfl⟩ := Locals.declareThis_eq_ok hdeclare
    exact ⟨hs.1, hs.2.withLocals (hs.2.locals.allocate hcls _ _)⟩
  declareParam hs htype hdeclare := by
    obtain ⟨k, -, -, rfl⟩ := Locals.declareParam_eq_ok hdeclare
    exact ⟨hs.1, hs.2.withLocals (hs.2.locals.allocate htype _ _)⟩
  declareStore hs htype hdeclare :=
    ⟨hs.1, hs.2.withLocals (hs.2.locals.declareStore htype hdeclare)⟩
  importClass short hs hc := ⟨hs.1, hs.2.types.insertClasses (fun _ ↦ hc) short, hs.2.frames⟩
  openMethod hs hm := by
    refine ⟨hs.1, hs.2.types, List.forall_mem_cons.2 ⟨?_, hs.2.frames⟩⟩
    show Locals.Avoids _ _
    rw [hm]
    exact .empty _
  openClass hs _ hcls hsuperclass := by
    refine ⟨hs.1, hs.2.types, List.forall_mem_cons.2 ⟨⟨?_, ?_⟩, hs.2.frames⟩⟩
    · exact fun heq ↦ hcls (List.mem_singleton.2 heq.symm)
    · exact fun heq ↦ hsuperclass (List.mem_singleton.2 heq.symm)
  leaveClass hs hscopes := by
    refine ⟨hs.1, hs.2.types, fun frame hframe ↦ hs.2.frames frame ?_⟩
    rw [hscopes]
    exact List.mem_cons_of_mem _ hframe

/-- The change leaves methods as they are. -/
theorem keepsMethods (d : ClassEntry) (t t' : ClassTable) : (Recast.aside d t t').KeepsMethods where
  method _ := rfl
  epilogue _ := rfl
  leaveMethod done hs hscopes := ⟨hs.1, hs.2.leaveMethod done hscopes⟩

end ClassTable.Aside

end ScriptBytecode

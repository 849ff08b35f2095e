import ScriptBytecode.Proofs.Stack.Values

/-!
# Verified methods

A definition opens its method, gives slots to receiver and parameters, and emits the body with an
assembler of its own. The body leaves the result of the method on the stack, so the return at the
end finds it there and the code is verified. Then the method is closed again and belongs to the
class around it: a definition `Establishes` a good session, whatever was open before it.

* `GoodSince` is what is kept from one step of a definition to the next;
* `makesCode_assemble` is where the code of a whole method comes from;
* `establishes_defineMethod`, `establishes_defineConstructor` and `establishes_defineClass` are the
  definitions.

**Every method starts afresh.** Code of a method around a definition and the code of the method it
defines have different assemblers, so the outset of the latter is an empty one (`Outset.fresh`,
`Ready.empty`) whatever is known of the former. What goes through is the session: the method in the
middle of which the definition stands is still open, and still the same.

**The return finds its value.** A body is received at the declared type, so a value of that type
lies on the stack, alone, when the epilogue begins; `returns_exit` and `returns_epilogue` say that
each way to end a method returns it. A constructor and the method of a script have no result and end
with the stack empty.

**Failures.** If the body fails, the method is left all the same, and the failure is passed on with
the same classes and methods open as before (`FailedSince`).
-/

namespace ScriptBytecode

/-! ### Actions on sessions -/

/-- From a good session the action gets to a good session in which the same is open. -/
structure Establishes {α : Type} (act : SessionM α) : Prop where
  run : ∀ {fine : MethodCode → Prop} {s : Session}, s.Good fine →
    Ensures act s (fun _ s' ↦ GoodSince fine s s') (FailedSince s)

/-- An action may follow whatever has kept the session good. -/
theorem Establishes.after {α : Type} {act : SessionM α} (h : Establishes act)
    {fine : MethodCode → Prop} {s s' : Session} (hs : GoodSince fine s s') :
    Ensures act s' (fun _ s'' ↦ GoodSince fine s s'') (FailedSince s) :=
  (h.run hs.good).mono (fun _ _ h' ↦ hs.trans h') fun _ _ h' ↦
    ⟨h'.1, hs.continues.trans h'.2⟩

/-! ### Leaving a good session good -/

namespace Session.Good

variable {s s' : Session} {fine : MethodCode → Prop}

/-- A session stays good when a method is opened, -/
theorem openMethod (h : s.Good fine) {m : MethodScope} (hm : m.locals = {}) :
    (s.openMethod m).2.Good fine where
  constructors := h.constructors
  verified := h.verified
  frames := by
    intro frame hframe
    obtain rfl | hframe := List.mem_cons.1 hframe
    · show m.locals.Typed
      rw [hm]
      exact Locals.Typed.empty
    · exact h.frames frame hframe
  finished := h.finished

/-- or a class. -/
theorem openClass (h : s.Good fine) {c : ClassScope} (hc : c.methods = []) :
    (s.openClass c).Good fine where
  constructors := h.constructors
  verified := h.verified
  frames := by
    intro frame hframe
    obtain rfl | hframe := List.mem_cons.1 hframe
    · show ∀ m ∈ c.methods, fine m
      rw [hc]
      exact nofun
    · exact h.frames frame hframe
  finished := h.finished

theorem mem_addMethodTo {m : MethodCode} (hm : fine m) {frames : List Frame}
    (h : ∀ frame ∈ frames, frame.Good fine) :
    ∀ frame ∈ Scopes.addMethodTo m frames, frame.Good fine := by
  induction frames with
  | nil => exact h
  | cons head frames ih =>
    have hhead := h head (List.mem_cons_self ..)
    have hframes : ∀ frame ∈ frames, frame.Good fine := fun frame hframe ↦
      h frame (List.mem_cons_of_mem _ hframe)
    cases head with
    | ofClass c =>
      intro frame hframe
      obtain rfl | hframe := List.mem_cons.1 hframe
      · intro m' hm'
        obtain hm' | hm' := List.mem_append.1 hm'
        · exact hhead m' hm'
        · obtain rfl := List.mem_singleton.1 hm'
          exact hm
      · exact hframes frame hframe
    | ofMethod scope =>
      intro frame hframe
      obtain rfl | hframe := List.mem_cons.1 hframe
      · exact hhead
      · exact ih hframes frame hframe

/-- A method that is left belongs to the class around it. -/
theorem leaveMethod (h : s'.Good fine) {m : MethodScope} {t : Scopes}
    (hscopes : s'.scopes = (t.enterMethod m).2) {done : MethodCode} (hdone : fine done) :
    (s'.withScopes (t.addMethod done)).Good fine where
  constructors := h.constructors
  verified := h.verified
  frames := by
    refine mem_addMethodTo hdone fun frame hframe ↦ h.frames frame ?_
    rw [hscopes]
    exact List.mem_cons_of_mem _ hframe
  finished := h.finished

/-- A class that is left is finished. -/
theorem leaveClass (h : s'.Good fine) {c : ClassScope} {t : Scopes}
    (hscopes : s'.scopes = t.enterClass c) :
    Session.Good { s'.withScopes t with finished := c.done :: s'.finished } fine where
  constructors := h.constructors
  verified := h.verified
  frames := by
    intro frame hframe
    refine h.frames frame ?_
    rw [hscopes]
    exact List.mem_cons_of_mem _ hframe
  finished := by
    intro code hcode
    obtain rfl | hcode := List.mem_cons.1 hcode
    · refine h.frames (.ofClass c) ?_
      rw [hscopes]
      exact List.mem_cons_self ..
    · exact h.finished code hcode

end Session.Good

namespace SessionM

variable {s : Session} {fine : MethodCode → Prop}

/-- The code of a method of the given result, and what its making leaves of the session. -/
def MakesCode (fine : MethodCode → Prop) (s : Session) (returnType : MachineType) (code : Code)
    (s' : Session) : Prop :=
  GoodSince fine s s' ∧ ∃ shapes, VerifiedBy code.instructions returnType code.maxStack shapes

/-- A session is good after a method if its code is made, and the method is left in any case. -/
theorem goodSince_inMethod {m : MethodScope} {act : SessionM Code}
    (hclass : s.scopes.currentClass?.isSome = true)
    (h : Ensures act (s.openMethod m).2 (MakesCode fine (s.openMethod m).2 m.returnType)
      (FailedSince (s.openMethod m).2)) :
    Ensures (inMethod m act) s (fun _ s' ↦ GoodSince fine s s') (FailedSince s) := by
  refine ensures_inMethod hclass (h.mono ?_ ?_)
  · rintro code s' ⟨hgood, hverified⟩
    refine ⟨hgood.continues, fun locals t ht hscopes ↦ ⟨⟨hgood.continues.classes, ?_⟩, ?_⟩⟩
    · exact (Scopes.outline_addMethod ..).trans ht
    · exact hgood.good.leaveMethod hscopes (hgood.good.verified _ hverified)
  · rintro e s' ⟨hinternal, hcontinues⟩
    exact ⟨hcontinues, fun locals t ht _ ↦ ⟨hinternal, hcontinues.classes, ht⟩⟩

/-- So it is after a class, if what is in it leaves it good. -/
theorem goodSince_inClass {α : Type} {c : ClassScope} {act : SessionM α}
    (h : Ensures act (s.openClass c) (fun _ s' ↦ GoodSince fine (s.openClass c) s')
      (FailedSince (s.openClass c))) :
    Ensures (inClass c act) s (fun _ s' ↦ GoodSince fine s s') (FailedSince s) := by
  refine ensures_inClass (h.mono ?_ ?_)
  · rintro a s' hgood
    refine ⟨hgood.continues, fun methods t ht hscopes ↦ ⟨⟨hgood.continues.classes, ht⟩, ?_⟩⟩
    exact hgood.good.leaveClass hscopes
  · rintro e s' ⟨hinternal, hcontinues⟩
    exact ⟨hcontinues, fun methods t ht _ ↦ ⟨hinternal, hcontinues.classes, ht⟩⟩

/-! ### Slots of receiver and parameters -/

/-- In a method without locals so far the receiver gets its slot. -/
theorem goodSince_declareThis {s' : Session} (h : GoodSince fine s s') {m : MethodScope}
    (hm : s'.scopes.currentMethod? = some m) (hlocals : m.locals = {}) (cls : ClassRef) :
    Ensures (declareThis cls) s' (fun _ s'' ↦ GoodSince fine s s'') (FailedSince s) := by
  have hempty : s'.locals = {} := by simp [Session.locals, hm, hlocals]
  have hdeclare : Ensures (declareLocal (.internal .noMethodScope) fun l ↦
      (l.declareThis cls).mapError .internal) s' (fun _ s'' ↦ GoodSince fine s s'')
      (FailedSince s) := by
    refine ensures_declareLocal ?_ ?_ ?_
    · rw [hempty]
      intro v l hdeclared _
      obtain ⟨-, rfl⟩ := Prod.mk.inj (Except.ok.inj hdeclared)
      exact h.withLocals (Locals.Typed.empty.allocate rfl)
    · rw [hempty]
      intro e he
      cases he
    · intro hnone
      rw [hm] at hnone
      cases hnone
  exact ensures_bind hdeclare fun _ _ h' ↦ h'

theorem goodSince_declareParam {s' : Session} (h : GoodSince fine s s')
    (hm : s.scopes.currentMethod?.isSome = true) (name : String) (type : MachineType)
    (span : Span) :
    Ensures (declareParam name type span) s' (fun _ s'' ↦ GoodSince fine s s'')
      (FailedSince s) := by
  have hdeclare : Ensures (declareLocal (.internal .noMethodScope) (·.declareParam name type span))
      s' (fun _ s'' ↦ GoodSince fine s s'') (FailedSince s) := by
    refine ensures_declareLocal (fun v l hdeclared _ ↦ ?_) (h.failed (.declareParam ..)) ?_
    · obtain ⟨k, hk, -, rfl⟩ := Locals.declareParam_eq_ok hdeclared
      exact h.withLocals (h.good.locals.allocate hk)
    · intro hnone
      rw [h.continues.currentMethod?_isSome, hnone] at hm
      cases hm
  exact ensures_bind hdeclare fun _ _ h' ↦ h'

/-- Parameters are declared one by one. -/
theorem goodSince_declareParams {s' : Session} (h : GoodSince fine s s')
    (hm : s.scopes.currentMethod?.isSome = true) (params : List Param)
    (types : List MachineType) :
    Ensures (declareParams params types) s' (fun _ s'' ↦ GoodSince fine s s'') (FailedSince s) := by
  induction params generalizing s' types with
  | nil => exact h
  | cons p ps ih =>
    cases types with
    | nil => exact h
    | cons type types =>
      exact ensures_bind (goodSince_declareParam h hm p.name type p.span) fun _ _ h' ↦ ih h' types

/-! ### The code of a method -/

/-- Code for a method leaves the result of the method and ends with its return. -/
def Returns (o : Outset) (returnType : MachineType) (g : GenState) : Prop :=
  ∃ g', Ready o {} g' returnType.kind?.toList ∧
    g = { g' with asm := g'.asm.emit (exitOf returnType) }

/-- Code that returns is made into verified code. -/
theorem makesCode_assemble {s' : Session} (h : GoodSince fine s s') {returnType : MachineType}
    {act : Gen Unit} (hact : ∀ g, Ready (.fresh fine s) {} g [] →
      Ensures act g (fun _ g' ↦ Returns (.fresh fine s) returnType g') (Failed (.fresh fine s))) :
    Ensures (Gen.assemble act) s' (MakesCode fine s returnType) (FailedSince s) := by
  refine Gen.ensures_assemble ((hact _ (.empty h)).mono ?_ fun _ _ hfailed ↦ hfailed)
  rintro _ _ ⟨g, hready, rfl⟩
  obtain ⟨code, hfinish, hverified⟩ := (hready.typed trivial).finish fun l state hget ↦
    hready.labels.bound (by simp [LabelTable.get?]) hget
  dsimp only
  rw [hfinish]
  exact ⟨hready.session, hverified⟩

end SessionM

namespace Gen

variable {o : Outset} {g : GenState}

/-- The last instruction finds the result on the stack. -/
theorem returns_exit (returnType : MachineType) (h : Ready o {} g returnType.kind?.toList) :
    Ensures (emit (exitOf returnType)) g (fun _ g' ↦ SessionM.Returns o returnType g')
      (Failed o) :=
  ⟨g, h, rfl⟩

/-- However a method is ended, it returns its result. -/
theorem returns_epilogue {returnType : MachineType}
    (h : Ready o {} g returnType.kind?.toList) (isStatic : Bool) (style : Epilogue) :
    Ensures (emitAll (epilogue returnType isStatic style)) g
      (fun _ g' ↦ SessionM.Returns o returnType g') (Failed o) := by
  have hexit : Ensures (emitAll [exitOf returnType]) g
      (fun _ g' ↦ SessionM.Returns o returnType g') (Failed o) :=
    ensures_emitAll ⟨g, h, rfl⟩
  unfold epilogue
  unfold exitOf at hexit
  cases hkind : returnType.kind? with
  | none =>
    rw [hkind] at hexit
    exact hexit
  | some kind =>
    rw [hkind] at hexit
    cases kind with
    | int | long => exact hexit
    | reference =>
      cases style with
      | corrected => exact hexit
      | legacy =>
        dsimp only
        split
        · -- There is no receiver to return in a static method.
          exact hexit
        · rw [hkind] at h
          have h' : Ready o {} g ([.reference] ++ []) := h
          -- The result is dropped and the receiver loaded in its place.
          have hpop := h'.emit (i := .pop .reference) rfl rfl
          have hload := hpop.emit_push (i := .load .reference 0) rfl rfl
          refine ensures_emitAll ⟨g.emits [.pop .reference, .load .reference 0], ?_, ?_⟩
          · rw [hkind]
            exact hload
          · unfold exitOf
            rw [hkind]
            rfl

/-- The code of a method leaves the value of its body, and is ended then. -/
theorem returns_method (h : Ready o {} g []) {body : Destination → Gen MachineType}
    (hbody : Delivers body) (returnType : MachineType) (bodySpan : Span) (isStatic : Bool) :
    Ensures (do
      receive returnType bodySpan body
      emitAll (epilogue returnType isStatic (← get).session.options.epilogue)) g
      (fun _ g' ↦ SessionM.Returns o returnType g') (Failed o) := by
  refine ensures_bind (ready_receive hbody h returnType bodySpan) fun _ g' hg' ↦ ?_
  rw [List.append_nil] at hg'
  exact ensures_get_bind (returns_epilogue hg' _ _)

/-- The constructor of the superclass takes no arguments and leaves nothing. -/
theorem ready_callSuper {t : LabelTable} {base : List StackKind} (h : Ready o t g base)
    (hclass : o.session.scopes.currentClass?.isSome = true) (span : Span) :
    Ensures (callSuper span) g (fun _ g' ↦ Ready o t g' base) (Failed o) := by
  obtain ⟨c, hc⟩ := Option.isSome_iff_exists.1 hclass
  obtain ⟨methods, hcurrent⟩ := h.session.continues.currentClass? hc
  refine ensures_get_bind ?_
  rw [hcurrent]
  refine ensures_query_bind (fun m hm ↦ ?_) (h.failed (.resolve ..))
  have hvoid : m.returnType = .void := h.session.good.constructors.returnType_of_resolve hm
  have hparams : m.params = [] := by
    have hlength := ClassTable.length_eq_of_areAssignable (ClassTable.areAssignable_of_resolve hm)
    exact List.length_eq_zero_iff.1 hlength.symm
  have htakes : (Instruction.invokeSpecial m.toRef).takes? = some [.reference] := by
    simp [Instruction.takes?, Member.toRef, hparams, kindsOf?]
  have hleaves : (Instruction.invokeSpecial m.toRef).leaves = [] := by
    simp [Instruction.leaves, Instruction.pushes?, Member.toRef, hvoid, MachineType.kind?]
  have hload : Ready o t _ ([.reference] ++ base) := h.emit_push (i := .load .reference 0) rfl rfl
  have hcall := hload.emit htakes rfl
  rw [hleaves] at hcall
  exact ensures_emit_bind hcall

end Gen

/-! ### Definitions -/

namespace SessionM

variable {fine : MethodCode → Prop}

/-- A definition that belongs to a class stands in one. -/
theorem definingClass_eq_ok {s : Session} {span : Span} {r : ClassRef × Bool}
    (h : s.definingClass span = .ok r) : s.scopes.currentClass?.isSome = true := by
  unfold Session.definingClass at h
  split at h
  · next hc =>
    rw [hc]
    rfl
  · cases h

/-- In a method without locals so far, receiver and parameters get their slots and then the code is
made. -/
theorem makesCode_method {s : Session} (hs : s.Good fine) {m : MethodScope} (hm : m.locals = {})
    (isStatic : Bool) (cls : ClassRef) (params : List Param) (types : List MachineType)
    {act : Gen Unit}
    (hact : ∀ g, Ready (.fresh fine (s.openMethod m).2) {} g [] →
      Ensures act g (fun _ g' ↦ Returns (.fresh fine (s.openMethod m).2) m.returnType g')
        (Failed (.fresh fine (s.openMethod m).2))) :
    Ensures (do
      if !isStatic then declareThis cls
      declareParams params types
      Gen.assemble act) (s.openMethod m).2 (MakesCode fine (s.openMethod m).2 m.returnType)
      (FailedSince (s.openMethod m).2) := by
  have hopen := GoodSince.refl (hs.openMethod hm)
  have hrest : ∀ s', GoodSince fine (s.openMethod m).2 s' → Ensures (do
      declareParams params types
      Gen.assemble act) s' (MakesCode fine (s.openMethod m).2 m.returnType)
      (FailedSince (s.openMethod m).2) := fun s' h' ↦
    ensures_bind (goodSince_declareParams h' rfl params types) fun _ s'' h'' ↦
      makesCode_assemble h'' hact
  cases isStatic with
  | true => exact hrest _ hopen
  | false => exact ensures_bind (goodSince_declareThis hopen rfl hm cls) fun _ s' h' ↦ hrest s' h'

/-- A method is verified if its body delivers its result. -/
theorem establishes_defineMethod {body : Destination → Gen MachineType} (hbody : Delivers body)
    (name : String) (params : List Param) (returnType : SourceType) (isStatic : Bool)
    (span bodySpan : Span) :
    Establishes (defineMethod name params returnType isStatic span bodySpan body) := by
  constructor
  intro fine s hs
  have hsince := GoodSince.refl hs
  refine ensures_query_bind (fun r hr ↦ ?_) (hsince.failed (.definingClass ..))
  obtain ⟨cls, isStaticBody⟩ := r
  refine ensures_query_bind (fun types _ ↦ ?_) (hsince.failed (.paramTypes ..))
  refine ensures_query_bind (fun machine _ ↦ ?_) (hsince.failed (.typeOf ..))
  refine goodSince_inMethod (definingClass_eq_ok hr) ?_
  exact makesCode_method hs rfl _ cls params types fun g hg ↦
    Gen.returns_method hg hbody machine bodySpan _

/-- The code of a constructor calls that of the superclass first. -/
theorem returns_constructor {o : Outset} {g : GenState} (h : Ready o {} g [])
    (hclass : o.session.scopes.currentClass?.isSome = true) {body : Destination → Gen MachineType}
    (hbody : Delivers body) (span : Span) :
    Ensures (do
      Gen.callSuper span
      let _ ← body .discard
      Gen.emit .returnVoid) g (fun _ g' ↦ Returns o .void g') (Failed o) := by
  refine ensures_bind (Gen.ready_callSuper h hclass span) fun _ g₁ h₁ ↦ ?_
  refine ensures_bind (hbody.run .discard h₁ trivial) fun _ g₂ hleft ↦ ?_
  obtain rfl := hleft.eq_void_iff.2 rfl
  exact Gen.returns_exit .void hleft.ready

/-- So is a constructor, -/
theorem establishes_defineConstructor {body : Destination → Gen MachineType}
    (hbody : Delivers body) (params : List Param) (span : Span) :
    Establishes (defineConstructor params span body) := by
  constructor
  intro fine s hs
  have hsince := GoodSince.refl hs
  refine ensures_query_bind (fun r hr ↦ ?_) (hsince.failed (.definingClass ..))
  obtain ⟨cls, isStaticBody⟩ := r
  have hclass := definingClass_eq_ok hr
  cases isStaticBody with
  | true => exact ensures_throw_bind ⟨rfl, .refl s⟩
  | false =>
    refine ensures_query_bind (fun types _ ↦ ?_) (hsince.failed (.paramTypes ..))
    refine goodSince_inMethod hclass ?_
    exact makesCode_method hs rfl false cls params types fun g hg ↦
      returns_constructor hg hclass hbody span

/-- and one that is added. -/
theorem establishes_defineDefaultConstructor (span : Span) :
    Establishes (defineDefaultConstructor span) := by
  constructor
  intro fine s hs
  refine ensures_query_bind (fun r hr ↦ ?_) ((GoodSince.refl hs).failed (.definingClass ..))
  obtain ⟨cls, isStaticBody⟩ := r
  have hclass := definingClass_eq_ok hr
  refine goodSince_inMethod hclass ?_
  refine makesCode_method hs rfl false cls [] [] fun g hg ↦ ?_
  refine ensures_bind (Gen.ready_callSuper hg hclass span) fun _ g' hg' ↦ ?_
  exact Gen.returns_exit .void hg'

/-! ### Classes -/

theorem goodSince_supertypesOf {s : Session} (hs : s.Good fine) (span : Span)
    (names : List String) :
    Ensures (supertypesOf span names) s (fun _ s' ↦ s' = s) (FailedSince s) := by
  induction names with
  | nil => exact rfl
  | cons name names ih =>
    refine ensures_query_bind (fun c _ ↦ ?_) ((GoodSince.refl hs).failed (.supertypeOf ..))
    exact ensures_bind ih fun _ _ h ↦ h

/-- A class whose members are established is established, with the constructor that it has if it
defines none. -/
theorem goodSince_class {s : Session} (hs : s.Good fine) {members : SessionM Unit}
    (hmembers : Establishes members) {c : ClassScope} (hc : c.methods = []) (hasConstructor : Bool)
    (span : Span) :
    Ensures (inClass c do
      if !hasConstructor then defineDefaultConstructor span
      members) s (fun _ s' ↦ GoodSince fine s s') (FailedSince s) := by
  refine goodSince_inClass ?_
  have hopen := GoodSince.refl (hs.openClass hc)
  cases hasConstructor with
  | true => exact hmembers.after hopen
  | false =>
    exact ensures_bind ((establishes_defineDefaultConstructor span).after hopen) fun _ _ h' ↦
      hmembers.after h'

/-- A class has verified methods if its members have. -/
theorem establishes_defineClass {members : SessionM Unit} (hmembers : Establishes members)
    (name : String) (superclass : Option String) (interfaces : List String)
    (hasConstructor : Bool) (span : Span) :
    Establishes (defineClass name superclass interfaces hasConstructor span members) := by
  constructor
  intro fine s hs
  have hsince := GoodSince.refl hs
  refine ensures_get_bind ?_
  cases superclass with
  | none =>
    refine ensures_pure_bind (ensures_bind (goodSince_supertypesOf hs span interfaces) ?_)
    rintro _ _ rfl
    exact goodSince_class hs hmembers rfl hasConstructor span
  | some superclass =>
    refine ensures_query_bind (fun c _ ↦ ?_) (hsince.failed (.supertypeOf ..))
    refine ensures_bind (goodSince_supertypesOf hs span interfaces) ?_
    rintro _ _ rfl
    exact goodSince_class hs hmembers rfl hasConstructor span

/-- An import changes what type names stand for and nothing else. -/
theorem establishes_importClass (short : String) (asName : Option String) (full : String)
    (span : Span) : Establishes (importClass short asName full span) := by
  constructor
  intro fine s hs
  have himport : Ensures (ofExcept
      (s.types.importClass s.classes (short :: asName.toList) full span)) s (fun _ s' ↦ s' = s)
      (FailedSince s) :=
    ensures_ofExcept (fun _ _ ↦ rfl) ((GoodSince.refl hs).failed (.importClass ..))
  refine ensures_get_bind (ensures_bind himport ?_)
  rintro ⟨machine, types⟩ _ rfl
  exact ⟨⟨rfl, rfl⟩, ⟨hs.constructors, hs.verified, hs.frames, hs.finished⟩⟩

end SessionM

end ScriptBytecode

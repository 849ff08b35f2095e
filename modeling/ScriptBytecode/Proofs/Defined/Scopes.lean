import ScriptBytecode.Proofs.Defined.Actions
import ScriptBytecode.Proofs.Lookups

/-!
# What definitions define

A definition looks up its types, opens its method or class, and compiles what stands within it. Once
it is closed again, the session has what the definition amounts to at the place where it was met,
and then what its contents define. If it fails, whatever it has opened is closed all the same; in
either case the locals of the method around it are left alone.

`defines_defineMethod`, `defines_defineConstructor`, `defines_defineDefaultConstructor` and
`defines_defineClass` are the results, each beside one that says what is restored, whether the
definition succeeds or fails.

**In its place.** The types of a definition are looked up when it is met, so the member that a
method becomes is the one that its declaration amounts to in the type table of that moment. What
stands within it may change the table; the declaration is listed before its contents, so nothing of
that shows.

**Leaving.** `defined_inMethod` and `defined_inClass` hold for any action within: they say what the
closing adds, given what the action defines. Whether the action has failed makes no difference to
what is left open, which is the other half (`restores_defineMethod` and its like).
-/

namespace ScriptBytecode

/-! ### Types at the place of a definition -/

namespace Session

variable {s : Session} {owner : Owner}

/-- The type that is read is the one that the type name stands for. -/
theorem typeOf_eq_ok {type : SourceType} {span : Span} {machine : MachineType}
    (h : s.typeOf type span = .ok machine) : s.types.resolve? s.classes type = some machine := by
  rw [← s.toOption_typeOf type span, h]
  rfl

theorem paramTypes_eq_ok {params : List Param} {types : List MachineType}
    (h : s.paramTypes params = .ok types) : s.types.paramTypes? s.classes params = some types := by
  rw [← s.toOption_paramTypes params, h]
  rfl

theorem length_paramTypes {params : List Param} {types : List MachineType}
    (h : s.paramTypes params = .ok types) : types.length = params.length :=
  TypeTable.length_paramTypes? (paramTypes_eq_ok h)

/-- The supertype that is read is the class that the name stands for. -/
theorem supertypeOf_eq_ok {name : String} {span : Span} {c : ClassRef}
    (h : s.supertypeOf name span = .ok c) : s.types.supertype? s.classes name = some c := by
  rw [← s.toOption_supertypeOf name span, h]
  rfl

/-- The class around a definition is the one that the definition stands in. -/
theorem Within.definingClass (hs : s.Within owner) {span : Span} {cls : ClassRef}
    {isStaticBody : Bool} (h : s.definingClass span = .ok (cls, isStaticBody)) :
    cls.name = owner.name ∧ isStaticBody = owner.isStaticBody := by
  obtain ⟨c, hc, hname, hstatic⟩ := hs
  unfold Session.definingClass at h
  rw [hc] at h
  obtain ⟨rfl, rfl⟩ := Prod.mk.inj (Except.ok.inj h)
  exact ⟨hname, hstatic⟩

end Session

/-- The member that a method becomes, in the class `owner`. -/
def MethodScope.member (owner : String) (m : MethodScope) : Member :=
  { owner := { name := owner }, name := m.name, params := m.params, returnType := m.returnType
    flags := m.flags }

namespace SessionM

variable {owner : Owner} {ds : List Definition} {s : Session}

/-- To look up supertypes finds the classes that the names stand for. -/
theorem yields_supertypesOf (s : Session) (span : Span) (names : List String) :
    Yields (supertypesOf span names) s fun cs s' ↦
      s' = s ∧ names.mapM (s.types.supertype? s.classes) = some cs :=
  (ensures_supertypesOf s span names).mono (fun _ _ h ↦ h) fun _ _ _ ↦ trivial

/-! ### Methods -/

/-- A method defines what its code does. -/
theorem defines_assemble {act : Gen Unit} (h : act.Defines owner ds) :
    Defines (Gen.assemble act) owner ds := by
  refine ⟨fun {s} hs ↦ ?_, ⟨fun s ↦ ?_⟩⟩
  · refine Gen.ensures_assemble ((h.run (s := { session := s }) hs).imp fun _ g hg ↦ ?_)
    split
    · exact hg
    · trivial
  · refine Gen.ensures_assemble ((h.resumes.run { session := s }).imp fun _ g hg ↦ ?_)
    split
    · exact hg
    · exact hg.within_self

/-- A definition that opens a method defines it, and then what stands within it. -/
theorem defined_inMethod {d : Definition} {m : MethodScope} {act : SessionM Code}
    (hs : s.Within owner) (h : act.Defines owner ds)
    (hitem : d.items? s.classes s.types = some [.ofMember (m.member owner.name)])
    (hname : d.className? = none) (htypes : d.typesAfter s.classes s.types = s.types) :
    Yields (inMethod m act) s fun _ s' ↦ s.Defined (d :: ds) s' := by
  have hclass : s.scopes.currentClass?.isSome = true := by
    obtain ⟨c, hc, -⟩ := hs
    rw [hc]
    rfl
  refine yields_inMethod hclass ((h.run (hs.openMethod m)).imp fun code s' hs' ↦ ?_)
  refine ⟨hs'.continues, fun locals t ht hscopes ↦ ?_⟩
  exact .leaveMethod hs hs' ht hscopes hitem hname htypes

theorem defines_declareThis (cls : ClassRef) : Defines (declareThis cls) owner [] :=
  (defines_declareLocal ..).after fun _ ↦ .pure _

theorem defines_declareParam (name : String) (type : MachineType) (span : Span) :
    Defines (declareParam name type span) owner [] :=
  (defines_declareLocal ..).after fun _ ↦ .pure _

/-- To give parameters slots defines nothing. -/
theorem defines_declareParams (params : List Param) (types : List MachineType) :
    Defines (declareParams params types) owner [] := by
  induction params generalizing types with
  | nil => exact .pure _
  | cons p ps ih =>
    cases types with
    | nil => exact .pure _
    | cons type types => exact (defines_declareParam ..).after fun _ ↦ ih types

/-- Receiver and parameters get their slots before the code of a method is made. -/
theorem defines_method {act : Gen Unit} (h : act.Defines owner ds) (isStatic : Bool)
    (cls : ClassRef) (params : List Param) (types : List MachineType) : Defines (do
      if !isStatic then declareThis cls
      declareParams params types
      Gen.assemble act) owner ds := by
  have hrest : Defines (do
      declareParams params types
      Gen.assemble act) owner ds :=
    (defines_declareParams params types).after fun _ ↦ defines_assemble h
  exact .ite ((defines_declareThis cls).after fun _ ↦ hrest) hrest

/-- The code of a method runs its body and ends as its result asks. -/
theorem defines_methodCode {body : Destination → Gen MachineType}
    (hbody : Gen.DefinesFor body owner ds) (machine : MachineType) (isStatic : Bool)
    (bodySpan : Span) : Gen.Defines (do
      Gen.receive machine bodySpan body
      Gen.emitAll (Gen.epilogue machine isStatic (← get).session.options.epilogue)) owner ds :=
  (Gen.defines_receive hbody ..).before fun _ ↦ .get fun _ ↦ Gen.defines_emitAll _

/-- A method that is defined leaves the method around it alone. -/
theorem restores_defineMethod {body : Destination → Gen MachineType}
    (hbody : Gen.DefinesFor body owner ds) (name : String) (params : List Param)
    (returnType : SourceType) (isStatic : Bool) (span bodySpan : Span) :
    (defineMethod name params returnType isStatic span bodySpan body).Restores
      (.written
        (.methodDecl owner.name name params returnType (isStatic || owner.isStaticBody) span)
        :: ds) := by
  refine Restores.behind ?_ [_] rfl
  refine .query_bind fun ⟨cls, isStaticBody⟩ ↦ .query_bind fun types ↦ .query_bind fun machine ↦ ?_
  exact restores_inMethod (defines_method (defines_methodCode hbody ..) ..).resumes

/-- A method defines itself, with the types that its names stand for where it is met. -/
theorem defines_defineMethod {body : Destination → Gen MachineType}
    (hbody : Gen.DefinesFor body owner ds) (name : String) (params : List Param)
    (returnType : SourceType) (isStatic : Bool) (span bodySpan : Span) :
    Defines (defineMethod name params returnType isStatic span bodySpan body) owner
      (.written
        (.methodDecl owner.name name params returnType (isStatic || owner.isStaticBody) span)
        :: ds) := by
  refine ⟨fun {s} hs ↦ ?_, (restores_defineMethod hbody ..).resumes⟩
  refine ensures_query_bind (fun r hr ↦ ?_) fun _ _ ↦ trivial
  obtain ⟨cls, isStaticBody⟩ := r
  obtain ⟨-, rfl⟩ := hs.definingClass hr
  refine ensures_query_bind (fun types htypes ↦ ?_) fun _ _ ↦ trivial
  refine ensures_query_bind (fun machine hmachine ↦ ?_) fun _ _ ↦ trivial
  refine defined_inMethod hs (defines_method (defines_methodCode hbody ..) ..) ?_ rfl rfl
  simp [Definition.items?, Declaration.items?, Session.paramTypes_eq_ok htypes,
    Session.typeOf_eq_ok hmachine, MethodScope.member]

theorem defines_callSuper (span : Span) : Gen.Defines (Gen.callSuper span) owner [] := by
  refine .get fun g ↦ ?_
  split
  · exact .throw _
  · refine (Gen.defines_query _).after fun m ↦ ?_
    exact (Gen.defines_emit _).after fun _ ↦ Gen.defines_emit _

/-- The code of a constructor calls that of the superclass and runs its body. -/
theorem defines_constructorCode {body : Destination → Gen MachineType}
    (hbody : Gen.DefinesFor body owner ds) (span : Span) : Gen.Defines (do
      Gen.callSuper span
      let _ ← body .discard
      Gen.emit .returnVoid) owner ds :=
  (defines_callSuper span).after fun _ ↦ (hbody .discard).before fun _ ↦ Gen.defines_emit _

/-- So does a constructor. -/
theorem restores_defineConstructor {body : Destination → Gen MachineType}
    (hbody : Gen.DefinesFor body owner ds) (params : List Param) (span : Span) :
    (defineConstructor params span body).Restores
      ((if owner.isStaticBody then [] else [.written (.constructorDecl owner.name params span)]) ++
        ds) := by
  refine Restores.behind ?_ _ (by split <;> rfl)
  refine .query_bind fun ⟨cls, isStaticBody⟩ ↦ ?_
  cases isStaticBody with
  | true => exact ⟨fun s ↦ ensures_throw_bind (.nothing s ds)⟩
  | false =>
    refine .query_bind fun types ↦ ?_
    exact restores_inMethod
      (defines_method (defines_constructorCode hbody span) false cls params types).resumes

/-- In a class that may have one, a constructor defines itself, and then what stands within it. -/
theorem defines_defineConstructor {body : Destination → Gen MachineType}
    (hbody : Gen.DefinesFor body owner ds) (params : List Param) (span : Span) :
    Defines (defineConstructor params span body) owner
      ((if owner.isStaticBody then [] else [.written (.constructorDecl owner.name params span)]) ++
        ds) := by
  refine ⟨fun {s} hs ↦ ?_, (restores_defineConstructor hbody ..).resumes⟩
  refine ensures_query_bind (fun r hr ↦ ?_) fun _ _ ↦ trivial
  obtain ⟨cls, isStaticBody⟩ := r
  obtain ⟨-, hstatic⟩ := hs.definingClass hr
  rw [← hstatic]
  cases isStaticBody with
  | true => exact ensures_throw_bind trivial
  | false =>
    refine ensures_query_bind (fun types htypes ↦ ?_) fun _ _ ↦ trivial
    have hcode := defines_constructorCode hbody span
    refine defined_inMethod hs (defines_method hcode false cls params types) ?_ rfl rfl
    simp [Definition.items?, Declaration.items?, Session.paramTypes_eq_ok htypes,
      MethodScope.member, Member.constructor]

theorem defines_defaultConstructorCode (owner : Owner) (cls : ClassRef) (span : Span) : Defines (do
    declareThis cls
    Gen.assemble do
      Gen.callSuper span
      Gen.emit .returnVoid) owner [] :=
  (defines_declareThis cls).after fun _ ↦
    defines_assemble ((defines_callSuper span).after fun _ ↦ Gen.defines_emit _)

/-- The constructor that a class gets leaves the method around it alone. -/
theorem restores_defineDefaultConstructor (span : Span) :
    (defineDefaultConstructor span).Restores [.implicitConstructor owner.name] := by
  refine Restores.behind ?_ [_] rfl
  refine .query_bind fun ⟨cls, isStaticBody⟩ ↦ ?_
  exact restores_inMethod (defines_defaultConstructorCode owner cls span).resumes

/-- The constructor that a class gets defines itself. -/
theorem defines_defineDefaultConstructor (span : Span) :
    Defines (defineDefaultConstructor span) owner [.implicitConstructor owner.name] := by
  refine ⟨fun {s} hs ↦ ?_, (restores_defineDefaultConstructor span).resumes⟩
  refine ensures_query_bind (fun r hr ↦ ?_) fun _ _ ↦ trivial
  obtain ⟨cls, isStaticBody⟩ := r
  exact defined_inMethod hs (defines_defaultConstructorCode owner cls span) rfl rfl rfl

/-! ### Classes and imports -/

/-- A class defines itself, with the supertypes that its names stand for where it is met, and then
its members. -/
theorem defined_inClass {d : Definition} {c : ClassScope} {act : SessionM Unit}
    (hc : c.methods = [])
    (h : act.Defines { name := c.cls.name, isStaticBody := c.isStaticBody } ds)
    (hitem : d.items? s.classes s.types = some [.ofClass c.done.header])
    (hname : d.className? = some c.cls.name) (htypes : d.typesAfter s.classes s.types = s.types) :
    Yields (inClass c act) s fun _ s' ↦ s.Defined (d :: ds) s' := by
  refine yields_inClass ((h.run (Session.within_openClass s c)).imp fun _ s' hs' ↦ ?_)
  refine ⟨hs'.continues, fun methods t ht hscopes ↦ ?_⟩
  exact .leaveClass hc hs' ht hscopes hitem hname htypes

/-- The constructor that a class has if it defines none comes before the members. -/
theorem defines_class {act : SessionM Unit} (h : act.Defines owner ds) (hasConstructor : Bool)
    (span : Span) : Defines (do
      if !hasConstructor then defineDefaultConstructor span
      act) owner ((if hasConstructor then [] else [.implicitConstructor owner.name]) ++ ds) := by
  cases hasConstructor with
  | true => exact h
  | false => exact (defines_defineDefaultConstructor span).bind fun _ ↦ h

/-- A class that is defined leaves the method around it alone. -/
theorem restores_defineClass {members : SessionM Unit} {name : String}
    (hmembers : members.Defines { name, isStaticBody := false } ds) (superclass : Option String)
    (interfaces : List String) (hasConstructor : Bool) (span : Span) :
    (defineClass name superclass interfaces hasConstructor span members).Restores
      (.written (.classDecl name superclass interfaces span) ::
        ((if hasConstructor then [] else [.implicitConstructor name]) ++ ds)) := by
  refine Restores.behind ⟨fun s ↦ ?_⟩ [_] rfl
  refine ensures_get_bind ?_
  have hrest : ∀ c : ClassRef, Ensures (do
      let interfaces ← supertypesOf span interfaces
      inClass { cls := (s.classes.classRef? name).getD { name }, superclass := c
                interfaces := interfaces.map (·.name) } do
        if !hasConstructor then defineDefaultConstructor span
        members) s
      (fun _ s' ↦ s.Restored
        ((if hasConstructor then [] else [.implicitConstructor name]) ++ ds) s')
      (fun _ s' ↦ s.RestoredWithin
        ((if hasConstructor then [] else [.implicitConstructor name]) ++ ds) s') := by
    intro c
    refine ensures_bind ((ensures_supertypesOf_eq s span interfaces).mono (fun _ _ h ↦ h) ?_) ?_
    · rintro _ _ rfl
      exact .nothing ..
    · rintro cs _ rfl
      exact restores_inClass (defines_class hmembers hasConstructor span).resumes |>.run _
  cases superclass with
  | none => exact hrest .root
  | some superclass => exact ensures_query_bind (fun c _ ↦ hrest c) fun _ _ ↦ .nothing ..

/-- A class defines itself, and then what its members do. -/
theorem defines_defineClass {members : SessionM Unit} {name : String}
    (hmembers : members.Defines { name, isStaticBody := false } ds) (superclass : Option String)
    (interfaces : List String) (hasConstructor : Bool) (span : Span) :
    Defines (defineClass name superclass interfaces hasConstructor span members) owner
      (.written (.classDecl name superclass interfaces span) ::
        ((if hasConstructor then [] else [.implicitConstructor name]) ++ ds)) := by
  refine ⟨fun {s} hs ↦ ?_, (restores_defineClass hmembers ..).resumes⟩
  refine ensures_get_bind ?_
  have hname : ((s.classes.classRef? name).getD { name }).name = name := by
    cases hc : s.classes.classRef? name with
    | none => rfl
    | some c => exact ClassTable.name_of_classRef? hc
  generalize (s.classes.classRef? name).getD { name } = cls at hname ⊢
  obtain ⟨clsName, isInterface⟩ := cls
  obtain rfl : clsName = name := hname
  have hrest : ∀ c : ClassRef, s.types.superclass? s.classes superclass = some c → Yields (do
      let interfaces ← supertypesOf span interfaces
      inClass { cls := ⟨clsName, isInterface⟩, superclass := c, interfaces :=
        interfaces.map (·.name) } do
        if !hasConstructor then defineDefaultConstructor span
        members) s fun _ s' ↦ s.Defined (.written (.classDecl clsName superclass interfaces span) ::
        ((if hasConstructor then [] else [.implicitConstructor clsName]) ++ ds)) s' := by
    intro c hc
    refine ensures_bind (yields_supertypesOf s span interfaces) ?_
    rintro cs _ ⟨rfl, hcs⟩
    refine defined_inClass rfl (defines_class hmembers hasConstructor span) ?_ rfl rfl
    simp [Definition.items?, Declaration.items?, hc, hcs, ClassCode.header, ClassScope.done]
  cases superclass with
  | none => exact hrest .root rfl
  | some superclass =>
    refine ensures_query_bind (fun c hc ↦ ?_) fun _ _ ↦ trivial
    exact hrest c (Session.supertypeOf_eq_ok hc)

/-- What an import changes is what type names stand for. -/
theorem ensures_importClass (full : String) (asName : Option String) (span : Span) (s : Session) :
    Ensures (importClass (simpleName full) asName full span) s
      (fun _ s' ↦ s' = { s with types := s.types.withImport s.classes full asName })
      fun _ s' ↦ s' = s := by
  refine ensures_get_bind ?_
  unfold TypeTable.importClass TypeTable.withImport
  split
  · exact ensures_throw_bind rfl
  · next c hc =>
    rw [hc]
    exact ensures_pure_bind rfl

/-- An import changes nothing but type names. -/
theorem restores_importClass (full : String) (asName : Option String) (span : Span) :
    (importClass (simpleName full) asName full span).Restores
      [.written (.importDecl full asName span)] := by
  constructor
  intro s
  refine (ensures_importClass full asName span s).mono ?_ ?_
  · rintro _ _ rfl
    exact ⟨rfl, rfl, rfl, .refl _⟩
  · rintro _ _ rfl
    exact .nothing ..

theorem defines_importClass (full : String) (asName : Option String) (span : Span) :
    Defines (importClass (simpleName full) asName full span) owner
      [.written (.importDecl full asName span)] := by
  refine ⟨fun {s} _ ↦ ?_, (restores_importClass full asName span).resumes⟩
  refine (ensures_importClass full asName span s).mono ?_ fun _ _ _ ↦ trivial
  rintro _ _ rfl
  exact ⟨⟨rfl, rfl⟩, rfl, (List.append_nil _).symm, [], rfl, .of_eq (List.append_nil _).symm⟩

end SessionM

end ScriptBytecode

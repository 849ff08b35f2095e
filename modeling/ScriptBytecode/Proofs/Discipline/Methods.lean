import ScriptBytecode.Proofs.Discipline.Codes
import ScriptBytecode.Proofs.Discipline.Nodes

/-!
# Properties of methods as they are made

A method of a unit is either written in the script, as a method or as a constructor, or stands for
its class or for the script itself. To compile is a discipline in which every method that is
finished was made in one of these ways. So what can be said of a method from the way that it is
made, can be said of all methods of a unit.

* `KeepsEvery` says of an action that all methods it finishes have a property;
* `KeepsEvery.discipline` says that this is a discipline if methods that are made in any of the ways
  have the property;
* `Compiler.everyMethod_of_compile` is what this means for a unit.

**What a method remembers of its making.** `MethodScope.Made` has the session in which its arguments
got their slots, the state in which its code was finished, and what type names stood for at that
time. A property of methods can be proved from these without the rest of the compilation; the
discipline carries it to the unit.

**Four ways.** A method is written as one, is a constructor that is written, is a constructor that
is added to a class without any, or is the method that runs the script. The last one is not made by
the discipline but around it, so it is asked for apart (`Compiler.everyMethod_of_compile`).
-/

namespace ScriptBytecode

/-- In some session in which the method was opened, its arguments were given slots and its code was
made. There, type names stood for something that they can. -/
inductive MethodScope.Made (m : MethodScope) (Types : TypeTable → Prop) (declare : SessionM Unit)
    (act : Gen Unit) : MethodCode → Prop
  | intro {s s' s'' : Session} {code : Code} (locals : Locals) (htypes : Types s.types)
      (hdeclare : declare (s.openMethod m).2 = .ok () s')
      (hact : Gen.assemble act s' = .ok code s'')
      (hlocals : s''.scopes.currentMethod? = some { m with locals }) :
      Made m Types declare act (MethodScope.done { m with locals } code)

/-- A method has the property as soon as it is made, in whatever way it is written. -/
structure EachMade (Types : TypeTable → Prop) (ok : Node → Bool) (p : String → MethodCode → Prop) :
    Prop where
  made : ∀ {owner : String} {m : MethodScope} {names : List String} {declare : SessionM Unit}
    {act : Gen Unit} {method : MethodCode}, m.Begins names declare →
    m.Written ok names declare act → m.Made Types declare act method → p owner method

/-- In a place, if the action succeeds, all methods have the property that had it before or that the
action has finished, and what was open still is. `session` is the session that is part of the
state. -/
structure KeepsEvery (t : Setting) (p : String → MethodCode → Prop) {σ : Type}
    (session : σ → Session) (α : Type) (place : Place) (act : EStateM CompileError σ α) : Prop where
  run : ∀ {s : σ}, (session s).StandsIn t place → EveryMethod p (session s).codes →
    Yields act s fun _ s' ↦
      (session s).GoesOn t (session s') ∧ EveryMethod p (session s').codes

namespace KeepsEvery

variable {t : Setting} {p : String → MethodCode → Prop} {place : Place}

theorem sequential {σ : Type} (session : σ → Session) :
    Sequential t session (KeepsEvery t p session) where
  pure _ := ⟨fun hs hcodes ↦ ensures_pure ⟨.refl hs.types, hcodes⟩⟩
  throw _ := ⟨fun _ _ ↦ ensures_throw trivial⟩
  bind h hnext := by
    constructor
    intro s hs hcodes
    refine ensures_bind (h.run hs hcodes) fun a s' ⟨hgoes, hcodes'⟩ ↦ ?_
    refine ((hnext a).run (hs.goesOn hgoes) hcodes').imp fun _ _ h' ↦ ?_
    exact ⟨hgoes.trans h'.1, h'.2⟩
  read _ hnext := by
    constructor
    intro s hs hcodes
    refine ensures_consult (fun b hb ↦ ?_) fun _ _ ↦ trivial
    exact (hnext b ⟨_, hs, hb⟩).run hs hcodes

/-- An action that leaves the session alone finishes no method. -/
theorem of_eq {α : Type} {act : Gen α}
    (h : ∀ g, Yields act g fun _ g' ↦ g'.session = g.session) :
    KeepsEvery t p GenState.session α place act := by
  constructor
  intro g hg hcodes
  refine (h g).imp fun _ g' heq ↦ ?_
  rw [heq]
  exact ⟨.refl hg.types, hcodes⟩

theorem readLocal (name : String) (span : Span) (keep : Bool) :
    KeepsEvery t p GenState.session MachineType place (Gen.readLocal name span keep) := by
  refine of_eq fun g ↦ ensures_get_bind ?_
  split
  · exact ensures_throw trivial
  · split
    · exact ensures_throw trivial
    · exact ensures_ite (fun _ ↦ Gen.ensures_emit_bind (ensures_pure rfl)) fun _ ↦ ensures_pure rfl

/-- What is done on the session is done on the session of a code generator. -/
theorem onSession {α : Type} {act : SessionM α} (h : KeepsEvery t p id α place act) :
    KeepsEvery t p GenState.session α place (Gen.onSession act) :=
  ⟨fun hg hcodes ↦ Gen.ensures_onSession (h.run hg hcodes)⟩

/-- To declare a local finishes no method. -/
theorem declareLocal (outside : CompileError)
    (declare : Locals → Except CompileError (LocalVar × Locals)) :
    KeepsEvery t p id LocalVar place (SessionM.declareLocal outside declare) := by
  constructor
  intro s hs hcodes
  refine SessionM.ensures_declareLocal (fun v l _ _ ↦ ?_) (fun _ _ ↦ trivial) fun _ ↦ trivial
  exact ⟨⟨(Session.Continues.refl s).withLocals l, hs.types⟩, hcodes.withLocals l⟩

/-- Nor does storing it. -/
theorem storeLocal {α : Type} (outside : CompileError) (name : String) (type : MachineType)
    (span : Span) (keep : Bool) {next : Gen α}
    (hnext : KeepsEvery t p GenState.session α place next) :
    KeepsEvery t p GenState.session α place (do
      let v ← Gen.onSession <| SessionM.declareLocal outside (·.declareStore name type span)
      if keep then Gen.emit (.dup v.kind)
      Gen.emit (.store v.kind v.slot)
      next) := by
  have h : Sequential t GenState.session (KeepsEvery t p GenState.session) := sequential _
  refine h.bind (onSession (declareLocal ..)) fun v ↦ ?_
  have hstore := h.bind (of_eq fun _ ↦ Gen.ensures_emit (i := .store v.kind v.slot) rfl) fun _ ↦
    hnext
  exact Sequential.ite (h.bind (of_eq fun _ ↦ Gen.ensures_emit rfl) fun _ ↦ hstore) hstore

/-- Nor does an import. -/
theorem importClass {ok : Node → Bool} (ht : t.Admits ok) {full : String}
    {asName : Option String} {span : Span} (hok : ok (.importDef full asName span) = true) :
    KeepsEvery t p id MachineType place
      (SessionM.importClass (simpleName full) asName full span) := by
  constructor
  intro s hs hcodes
  refine (SessionM.ensures_importClass full asName span s).mono ?_ fun _ _ _ ↦ trivial
  rintro _ _ rfl
  exact ⟨⟨⟨rfl, rfl⟩, hs.classes ▸ ht.withImport hok hs.types⟩, hcodes⟩

/-- A method that has the property as soon as it is made becomes part of the class around it. -/
theorem inMethod (m : MethodScope) {declare : SessionM Unit} {act : Gen Unit}
    (hmade : ∀ method, m.Made t.Types declare act method → p place.name method)
    (hdeclare : KeepsEvery t p id Unit (place.within m.flags) declare)
    (hact : KeepsEvery t p GenState.session Unit (place.within m.flags) act) :
    KeepsEvery t p id Unit place (SessionM.inMethod m (declare >>= fun _ ↦ Gen.assemble act)) := by
  constructor
  intro s hs hcodes
  obtain ⟨c, hc, hname, -⟩ := hs.within
  have hopen := hs.openMethod m
  have hdeclared : Yields declare (s.openMethod m).2 fun _ s' ↦
      ((s.openMethod m).2.GoesOn t s' ∧ EveryMethod p s'.codes) ∧
        declare (s.openMethod m).2 = .ok () s' :=
    yields_iff.2 fun _ s' hrun ↦ ⟨(hdeclare.run hopen hcodes).of_ok hrun, hrun⟩
  refine SessionM.yields_inMethod (hc ▸ rfl) (ensures_bind hdeclared ?_)
  rintro - s' ⟨⟨hgoes, hcodes'⟩, hdeclares⟩
  refine yields_iff.2 fun code s'' hassemble ↦ ?_
  obtain ⟨g, hg, -, rfl⟩ := Gen.assemble_eq_ok_iff.1 hassemble
  have hstands : s'.StandsIn t (place.within m.flags) := hopen.goesOn hgoes
  obtain ⟨hgoes', hcodes''⟩ := (hact.run (s := { session := s' }) hstands hcodes').of_ok hg
  have hgone := hgoes.trans hgoes'
  refine ⟨hgone.continues, fun locals scopes hscopes hleft ↦ ?_⟩
  obtain ⟨methods, hcurrent⟩ := Scopes.currentClass?_of_outline hscopes hc
  refine ⟨⟨⟨hgone.continues.classes, (Scopes.outline_addMethod ..).trans hscopes⟩, hgone.types⟩, ?_⟩
  refine EveryMethod.leaveMethod hcodes'' hleft hcurrent ?_
  rw [hname]
  refine hmade _ (.intro locals hs.types hdeclares hassemble ?_)
  rw [hleft]
  rfl

/-- The methods that are finished in a class become methods of the unit with it. -/
theorem yields_inClass {c : ClassScope} {act : SessionM Unit} (hc : c.methods = [])
    (h : KeepsEvery t p id Unit c.place act) {s : Session} (hs : s.Suits t)
    (hcodes : EveryMethod p s.codes) :
    Yields (SessionM.inClass c act) s fun _ s' ↦ s.GoesOn t s' ∧ EveryMethod p s'.codes := by
  refine SessionM.yields_inClass ((h.run (hs.openClass c) (hcodes.openClass hc)).imp ?_)
  rintro - s' ⟨hgoes, hcodes'⟩
  refine ⟨hgoes.continues, fun methods scopes hscopes hleft ↦ ?_⟩
  exact ⟨⟨⟨hgoes.continues.classes, hscopes⟩, hgoes.types⟩, hcodes'.leaveClass hleft⟩

/-- All methods that are finished have a property that each has as it is made. -/
theorem discipline {ok : Node → Bool} (ht : t.Admits ok) (h : EachMade t.Types ok p) :
    Discipline t ok (KeepsEvery t p GenState.session) (KeepsEvery t p id) (KeepsEvery t p id) where
  gen := sequential _
  session := sequential _
  definition := sequential _
  emit _ _ := of_eq fun _ ↦ Gen.ensures_emit rfl
  createLabel := of_eq fun _ ↦ Gen.ensures_createLabel rfl
  bindLabel _ := of_eq fun _ ↦ Gen.ensures_bindLabel rfl
  loadReceiver _ := of_eq fun _ ↦ Gen.ensures_emit rfl
  readLocal := readLocal
  storeLocal _ _ outside := storeLocal outside _
  declareLocal := declareLocal
  onSession := onSession
  importClass := importClass ht
  inMethod m _ _ _ hbegins hwritten hdeclare hact :=
    inMethod m (fun _ hmade ↦ h.made hbegins hwritten hmade) hdeclare hact
  inClass hc h := ⟨fun hs hcodes ↦ yields_inClass hc h hs.toSuits hcodes⟩

end KeepsEvery

/-- All methods of a unit have a property that each written method has as it is made, and that the
method which runs the script has as it is made. Of type names it may be known what is so once all is
declared and stays so at each import. -/
theorem Compiler.everyMethod_of_compile {c : Compiler} {root : Node} {script : Script}
    {unit : UnitCode} {ok : Node → Bool} {p : String → MethodCode → Prop} {Types : TypeTable → Prop}
    (hroot : root.script? = some script) (hscript : script.body.all ok = true)
    (hdeclared : ∀ {count s}, SessionM.declareScript script c.start = .ok count s → Types s.types)
    (himport : ∀ {t : TypeTable} (classes : ClassTable) (full : String) (asName : Option String),
      Types t → Types (t.withImport classes full asName))
    (heach : EachMade Types ok p)
    (hmain : ∀ method, SessionM.mainScope.Made Types
      (SessionM.declareParam "args" mainArgs script.span) (do
        let _ ← Gen.node script.body .discard
        Gen.emit .returnVoid) method → p script.name method)
    (h : c.compile root = .ok unit) : EveryMethod p unit.classes := by
  obtain ⟨count, s, s', hmade⟩ := made_of_compile hroot h
  refine hmade.everyMethod fun hnone ↦ ?_
  let t : Setting := { classes := s.classes, Types }
  have ht : t.Admits ok := ⟨fun _ ↦ himport _ _ _⟩
  have hdiscipline := KeepsEvery.discipline ht heach
  let scope : ClassScope := { cls := { name := script.name }, isStaticBody := true }
  have hdeclare : KeepsEvery t p id Unit (scope.place.within SessionM.mainScope.flags)
      (SessionM.declareParam "args" mainArgs script.span) := hdiscipline.declareParam ..
  have hmembers := hdiscipline.scriptMembers hscript
    (@KeepsEvery.inMethod t p scope.place _ _ _ hmain hdeclare)
  have hs : s.Suits t := ⟨rfl, hdeclared hmade.declares⟩
  exact (KeepsEvery.yields_inClass rfl hmembers hs hnone).imp fun _ _ h ↦ h.2

end ScriptBytecode

import ScriptBytecode.Proofs.Discipline.Codes
import ScriptBytecode.Proofs.Recast.Nodes
import ScriptBytecode.Proofs.Stack.Units

/-!
# The epilogue of methods

An instance method whose result is a reference returns the value of its body, or its receiver if the
epilogue is set so. The option changes nothing else: a script compiles with either epilogue or with
neither, and the methods of the two units differ in their last instruction only, in whose place the
receiver is returned (`Compiler.compile_legacy`).

A session that compiles with the one epilogue is recast into one that compiles with the other. Where
a body leaves its result on the stack, dropping it and loading the receiver takes no more of the
stack than the result did, so not even the room that a method asks for is another.

* `Recast.legacy` is the change, and `faithful_legacy_corrects` says that it leaves alone what is
  read;
* `Remakes` says that a method is made with the one epilogue just if it is with the other;
* `defines_legacy` is about all definitions.

**The one class of methods that is concerned.** Static methods, constructors and methods that answer
nothing or a number end alike with either epilogue. `answersReference` tells the others.

**Labels, stack and locals.** The instruction in whose place the receiver is returned is the last
one, so no label stands behind it. The stack is one slot wide before the return in either case, and
the receiver has been in slot 0 from the beginning. If a script stores in the variable `this`, the
legacy epilogue returns what was stored, which is still what this result says: it is about code, and
not about what the code does.
-/

namespace ScriptBytecode

/-! ### Methods that answer a reference -/

/-- Whether a method is called on an object and its result is a reference. -/
def MemberFlags.answersReference (flags : MemberFlags) (returnType : MachineType) : Bool :=
  !flags.isStatic && !flags.isConstructor && returnType.kind? == some .reference

/-- The code with a return of the receiver in place of the return that it ends with. -/
def Code.returningReceiver (code : Code) : Code :=
  { code with instructions := code.instructions.dropLast ++
      [.pop .reference, .load .reference 0, .returnValue .reference] }

namespace MethodCode

/-- Whether the method is called on an object and its result is a reference. -/
def answersReference (m : MethodCode) : Bool := m.flags.answersReference m.returnType

/-- The method as it is with the legacy epilogue. -/
def legacy (m : MethodCode) : MethodCode :=
  if m.answersReference then
    { m with instructions := m.instructions.dropLast ++
        [.pop .reference, .load .reference 0, .returnValue .reference] }
  else m

/-- If the method answers a reference, the last thing that it does is to return it. -/
def ReturnsLast (m : MethodCode) : Prop :=
  m.answersReference = true → ∃ before, m.instructions = before ++ [.returnValue .reference]

end MethodCode

/-- The class as it is with the legacy epilogue. -/
def ClassCode.legacy (c : ClassCode) : ClassCode := { c with methods := c.methods.map (·.legacy) }

/-- The unit as it is with the legacy epilogue. -/
def UnitCode.legacy (u : UnitCode) : UnitCode := { classes := u.classes.map (·.legacy) }

/-- The options with another epilogue. -/
def Options.withEpilogue (options : Options) (epilogue : Epilogue) : Options :=
  { options with epilogue }

/-- The compiler with another epilogue. -/
def Compiler.withEpilogue (c : Compiler) (epilogue : Epilogue) : Compiler :=
  { c with options := c.options.withEpilogue epilogue }

/-- Only methods that answer a reference can be ended in more than one way. -/
theorem Gen.epilogue_eq_of_not_answersReference {returnType : MachineType} {isStatic : Bool}
    (h : ({ isStatic } : MemberFlags).answersReference returnType = false) (style : Epilogue) :
    epilogue returnType isStatic style = epilogue returnType isStatic .corrected := by
  unfold epilogue
  cases hkind : returnType.kind? with
  | none => rfl
  | some kind =>
    cases kind with
    | int | long => cases style <;> rfl
    | reference =>
      cases isStatic with
      | true => cases style <;> rfl
      | false =>
        unfold MemberFlags.answersReference at h
        rw [hkind] at h
        cases h

/-! ### The code of the epilogue -/

namespace Assembler

/-- Dropping the result and loading the receiver takes no more of the stack than the result did. -/
theorem emit_receiver {a : Assembler} (h : a.At [.reference]) :
    (a.emit (.pop .reference)).emit (.load .reference 0) =
      { a with code := a.code ++ [.pop .reference, .load .reference 0] } := by
  have hroom := h.slots_le
  obtain ⟨code, stack, maxStack, reachable, labels, fault⟩ := a
  obtain rfl : stack = [.reference] := h.stack_eq
  obtain rfl : reachable = true := h.reachable
  have hmax : max maxStack (.ofNat (stackSlots [.reference])) = maxStack := by
    rw [← UInt16.toNat_inj, toNat_max]
    exact Nat.max_eq_left hroom
  show Assembler.mk ((code ++ [.pop .reference]) ++ [.load .reference 0]) [.reference]
    (max maxStack (.ofNat (stackSlots [.reference]))) true labels fault = _
  rw [hmax, List.append_assoc]
  rfl

/-- Where the result of a method is on the stack, the method can return its receiver just as
well. -/
theorem finish_receiver {a : Assembler} (h : a.At [.reference]) :
    (((a.emit (.pop .reference)).emit (.load .reference 0)).emit (.returnValue .reference)).finish =
      (a.emit (.returnValue .reference)).finish.map Code.returningReceiver := by
  rw [emit_receiver h]
  obtain ⟨code, stack, maxStack, reachable, labels, fault⟩ := a
  obtain rfl : stack = [.reference] := h.stack_eq
  show (Assembler.mk ((code ++ [.pop .reference, .load .reference 0]) ++ [.returnValue .reference])
      [] maxStack (reachable && false) labels fault).finish =
    (Assembler.mk (code ++ [.returnValue .reference])
      [] maxStack (reachable && false) labels fault).finish.map Code.returningReceiver
  unfold finish
  dsimp only
  cases fault with
  | some fault => rfl
  | none =>
    cases labels.unbound with
    | cons l ls => rfl
    | nil =>
      refine congrArg (fun is ↦ Except.ok (Code.mk is maxStack)) ?_
      rw [List.dropLast_concat, List.append_assoc]
      rfl

end Assembler

/-! ### Sessions with the other epilogue -/

/-- The sessions of some kind are to compile with the legacy epilogue instead. -/
def Recast.legacy (valid : Session → Prop) : Recast where
  classes := id
  options := (·.withEpilogue .legacy)
  method := (·.legacy)
  allows _ := true
  familiar _ := True
  valid

/-- The session compiles with the corrected epilogue, and has done so from the start. -/
structure Session.Corrects (s : Session) : Prop where
  good : s.Good MethodCode.Verified
  epilogue : s.options.epilogue = .corrected
  methods : EveryMethod (fun _ m ↦ m.ReturnsLast) s.codes

theorem Session.Corrects.withLocals {s : Session} (h : s.Corrects) {l : Locals}
    (hl : l.Typed) : (s.withLocals l).Corrects :=
  ⟨h.good.withLocals hl, h.epilogue, h.methods.withLocals l⟩

namespace Recast

/-- Nothing that is read from a session depends on how methods end. -/
theorem reads_legacy {valid : Session → Prop} {α : Type}
    {reading : Session → Except CompileError α}
    (h : ∀ s, reading ((legacy valid).session s) = reading s) :
    (legacy valid).Reads reading fun _ ↦ True :=
  ⟨fun _ ↦ h _, fun _ _ ↦ trivial⟩

theorem resolves_legacy {valid : Session → Prop} (cls : ClassRef) (args : List MachineType)
    (name : String) (isStatic : Bool) (span : Span) :
    (legacy valid).Reads (·.classes.resolve cls name args isStatic span) fun m ↦
      True ∧ ∀ param ∈ m.params, True :=
  ⟨fun _ ↦ rfl, fun _ _ ↦ ⟨trivial, fun _ _ ↦ trivial⟩⟩

/-- While a script is declared, the epilogue does not matter. -/
theorem faithful_legacy : (legacy fun _ ↦ True).Faithful where
  builtin _ _ := trivial
  ofClass _ := trivial
  typeOf _ _ := reads_legacy fun _ ↦ rfl
  conversion? _ _ _ := rfl
  classRef? _ _ := ⟨rfl, fun _ _ ↦ trivial⟩
  resolve name isStatic span _ _ := resolves_legacy _ _ name isStatic span
  current _ _ := ⟨trivial, trivial⟩
  localType _ _ := trivial
  declareThis _ _ _ := trivial
  declareParam _ _ _ := trivial
  declareStore _ _ _ := trivial
  importClass _ _ _ := trivial
  openMethod _ _ := trivial
  openClass _ _ _ _ := trivial
  leaveClass _ _ := trivial

/-- A session that compiles with the corrected epilogue goes on doing so. -/
theorem faithful_legacy_corrects : (legacy Session.Corrects).Faithful where
  builtin _ _ := trivial
  ofClass _ := trivial
  typeOf _ _ := reads_legacy fun _ ↦ rfl
  conversion? _ _ _ := rfl
  classRef? _ _ := ⟨rfl, fun _ _ ↦ trivial⟩
  resolve name isStatic span _ _ := resolves_legacy _ _ name isStatic span
  current _ _ := ⟨trivial, trivial⟩
  localType _ _ := trivial
  declareThis hs _ hdeclare := by
    obtain ⟨-, rfl⟩ := Locals.declareThis_eq_ok hdeclare
    exact hs.withLocals (hs.good.locals.allocate rfl)
  declareParam hs _ hdeclare := by
    obtain ⟨k, hk, -, rfl⟩ := Locals.declareParam_eq_ok hdeclare
    exact hs.withLocals (hs.good.locals.allocate hk)
  declareStore hs _ hdeclare := hs.withLocals (hs.good.locals.declareStore hdeclare)
  importClass _ hs _ := ⟨⟨hs.good.constructors, hs.good.verified, hs.good.frames, hs.good.finished⟩,
    hs.epilogue, hs.methods⟩
  openMethod hs hm := ⟨hs.good.openMethod hm, hs.epilogue, hs.methods⟩
  openClass hs hc _ _ := ⟨hs.good.openClass hc, hs.epilogue, hs.methods.openClass hc⟩
  leaveClass hs hscopes := ⟨hs.good.leaveClass hscopes, hs.epilogue, hs.methods.leaveClass hscopes⟩

end Recast

/-! ### Runs and results -/

section Runs

variable {ε σ α β : Type} {act : EStateM ε σ α} {s s' : σ}

theorem map_eq_of_ok (f : α → β) {a : α} (h : act s = .ok a s') : (f <$> act) s = .ok (f a) s' := by
  show EStateM.map f act s = _
  unfold EStateM.map
  rw [h]

theorem map_eq_of_error (f : α → β) {e : ε} (h : act s = .error e s') :
    (f <$> act) s = .error e s' := by
  show EStateM.map f act s = _
  unfold EStateM.map
  rw [h]

/-- What is read has to be the same in the changed session. -/
theorem mirrors_query_bind {r : Recast} {reading : Session → Except CompileError α}
    {next : α → SessionM β} {post : β → Session → Prop} {s : Session}
    (hsame : reading (r.session s) = reading s)
    (h : ∀ a, reading s = .ok a → Mirrors r.session (next a) s post) :
    Mirrors r.session (SessionM.query reading >>= next) s post := by
  have hquery : Mirrors r.session (SessionM.query reading) s fun a s' ↦
    reading s = .ok a ∧ s' = s := by
    refine ⟨?_, SessionM.ensures_query (fun a ha ↦ ⟨ha, rfl⟩) fun _ _ ↦ trivial⟩
    show SessionM.ofExcept (reading (r.session s)) (r.session s) =
      changed r.session (SessionM.ofExcept (reading s) s)
    rw [hsame]
    cases reading s <;> rfl
  refine hquery.bind ?_
  rintro a _ ⟨ha, rfl⟩
  exact h a ha

end Runs

/-! ### Finished code -/

namespace Gen

theorem emitAll_eq (is : List Instruction) (g : GenState) :
    emitAll is g = .ok ⟨⟩ (g.emits is) :=
  Ensures.eq_ok (ensures_emitAll ⟨rfl, rfl⟩)

variable {act : Gen Unit} {s : Session} {g : GenState}

/-- Code that fails makes no method. -/
theorem assemble_eq_of_error {e : CompileError} (h : act { session := s } = .error e g) :
    assemble act s = .error e g.session := by
  unfold assemble
  rw [h]

/-- Nor does code in which something was found wrong. -/
theorem assemble_eq_of_fault {fault : Fault} (h : act { session := s } = .ok () g)
    (hfinish : g.asm.finish = .error fault) :
    assemble act s = .error (.internal fault) g.session := by
  unfold assemble
  rw [h]
  dsimp only
  rw [hfinish]

end Gen

/-! ### Methods with the other epilogue -/

/-- The code that the method has with the legacy epilogue. -/
def MethodScope.legacyCode (m : MethodScope) (code : Code) : Code :=
  if m.flags.answersReference m.returnType then code.returningReceiver else code

theorem MethodScope.legacy_done (m : MethodScope) (code : Code) :
    (m.done code).legacy = m.done (m.legacyCode code) := by
  unfold MethodCode.legacy MethodCode.answersReference legacyCode
  show (if m.flags.answersReference m.returnType then _ else _) = _
  split <;> rfl

namespace SessionM

open Recast

variable {m : MethodScope} {s : Session}

/-- In the changed session, the action makes the code that the method has with the legacy
epilogue. -/
structure Remakes (m : MethodScope) (act : SessionM Code) (s : Session) : Prop where
  same : act ((legacy Session.Corrects).session s) =
    changed (legacy Session.Corrects).session ((m.legacyCode <$> act) s)
  yields : Yields act s fun code s' ↦ s'.Corrects ∧ (m.done code).ReturnsLast

namespace Remakes

/-- What is made in the changed session all the same is made for a method that has to end as it
does. -/
theorem of_mirrors {act : SessionM Code} {post : Code → Session → Prop}
    (h : Mirrors (legacy Session.Corrects).session act s fun a s' ↦ post a s' ∧ s'.Corrects)
    (hm : m.flags.answersReference m.returnType = false) : Remakes m act s := by
  -- the method has the same code with either epilogue
  have hcode : m.legacyCode = id := by
    funext code
    unfold MethodScope.legacyCode
    rw [hm]
    rfl
  refine ⟨?_, h.yields.imp fun code s' hpost ↦ ⟨hpost.2, fun hanswers ↦ ?_⟩⟩
  · rw [hcode, id_map]
    exact h.same
  · change m.flags.answersReference m.returnType = true at hanswers
    rw [hm] at hanswers
    cases hanswers

/-- What goes on before is the same in the changed session. -/
theorem bind {α : Type} {act : SessionM α} {next : α → SessionM Code} {post : α → Session → Prop}
    (h : Mirrors (legacy Session.Corrects).session act s post)
    (hnext : ∀ a s', post a s' → Remakes m (next a) s') : Remakes m (act >>= next) s := by
  refine ⟨?_, ensures_bind h.yields fun a s' hpost ↦ (hnext a s' hpost).yields⟩
  rw [map_bind]
  show EStateM.bind act next ((legacy Session.Corrects).session s) =
    changed (legacy Session.Corrects).session (EStateM.bind act (fun a ↦ m.legacyCode <$> next a) s)
  unfold EStateM.bind
  rw [h.same]
  cases hrun : act s with
  | ok a s' => exact (hnext a s' (h.yields.of_ok hrun)).same
  | error e s' => rfl

/-- A method is made again if its code is, with the other end. -/
theorem of_ok {act : SessionM Code} {code : Code} {s' : Session} (hrun : act s = .ok code s')
    (hrun' : act ((legacy Session.Corrects).session s) =
      .ok (m.legacyCode code) ((legacy Session.Corrects).session s'))
    (hs' : s'.Corrects) (hlast : (m.done code).ReturnsLast) : Remakes m act s := by
  refine ⟨?_, ensures_of_ok hrun ⟨hs', hlast⟩⟩
  show _ = changed (legacy Session.Corrects).session (EStateM.map m.legacyCode act s)
  unfold EStateM.map
  rw [hrun, hrun']
  rfl

/-- It is not made if its code fails, with either end. -/
theorem of_error {act : SessionM Code} {e : CompileError} {s' : Session}
    (hrun : act s = .error e s')
    (hrun' : act ((legacy Session.Corrects).session s) =
      .error e ((legacy Session.Corrects).session s')) : Remakes m act s := by
  refine ⟨?_, ensures_of_error hrun trivial⟩
  show _ = changed (legacy Session.Corrects).session (EStateM.map m.legacyCode act s)
  unfold EStateM.map
  rw [hrun, hrun']
  rfl

/-- A body that leaves a reference is followed by the return of the receiver instead. -/
theorem assemble {body : Gen Unit} {fails : CompileError → GenState → Prop}
    (hs : s.Corrects) (hbody : (legacy Session.Corrects).OnGen body fun _ ↦ True)
    (hleaves : Ensures body { session := s } (fun _ g ↦ g.asm.At [.reference]) fails)
    {returnType : MachineType} (hkind : returnType.kind? = some .reference)
    (hm : m.flags.answersReference m.returnType = true) :
    Remakes m (Gen.assemble do
      body
      Gen.emitAll (Gen.epilogue returnType false (← get).session.options.epilogue)) s := by
  let r := legacy Session.Corrects
  let exit : Gen Unit := do
    Gen.emitAll (Gen.epilogue returnType false (← get).session.options.epilogue)
  have hmirrors : Mirrors r.gen body { session := s } fun _ g ↦ True ∧ g.session.Corrects :=
    hbody.run hs
  have hsame : body { session := r.session s } = changed r.gen (body { session := s }) :=
    hmirrors.same
  cases hrun : body { session := s } with
  | error e g =>
    rw [hrun] at hsame
    exact of_error (Gen.assemble_eq_of_error (bind_eq_of_error hrun))
      (Gen.assemble_eq_of_error (bind_eq_of_error hsame))
  | ok a g =>
    rw [hrun] at hsame
    have hg : g.session.Corrects := (hmirrors.yields.of_ok hrun).2
    -- both end with what the epilogue of their options is
    have hexit : exit g = .ok ⟨⟩ (g.emits [.returnValue .reference]) := by
      refine (Gen.emitAll_eq _ g).trans ?_
      rw [hg.epilogue]
      unfold Gen.epilogue
      rw [hkind]
    have hexit' : exit (r.gen g) = .ok ⟨⟩
        ((r.gen g).emits [.pop .reference, .load .reference 0, .returnValue .reference]) := by
      refine (Gen.emitAll_eq (Gen.epilogue returnType false .legacy) (r.gen g)).trans ?_
      unfold Gen.epilogue
      rw [hkind]
      rfl
    have hact : (body >>= fun _ ↦ exit) { session := s } =
        .ok () (g.emits [.returnValue .reference]) := (bind_eq_of_ok hrun).trans hexit
    have hact' : (body >>= fun _ ↦ exit) { session := r.session s } = .ok ()
        ((r.gen g).emits [.pop .reference, .load .reference 0, .returnValue .reference]) :=
      (bind_eq_of_ok hsame).trans hexit'
    have hfinish := Assembler.finish_receiver (hleaves.of_ok hrun)
    cases hcode : (g.asm.emit (.returnValue .reference)).finish with
    | error fault =>
      rw [hcode] at hfinish
      exact of_error (Gen.assemble_eq_of_fault hact hcode) (Gen.assemble_eq_of_fault hact' hfinish)
    | ok code =>
      rw [hcode] at hfinish
      have hlegacy : m.legacyCode code = code.returningReceiver := if_pos hm
      refine of_ok (Gen.assemble_eq_ok_iff.2 ⟨_, hact, hcode, rfl⟩) ?_ hg fun _ ↦ ?_
      · rw [hlegacy]
        exact Gen.assemble_eq_ok_iff.2 ⟨_, hact', hfinish, rfl⟩
      · refine ⟨g.asm.code, (Assembler.instructions_of_finish hcode).trans ?_⟩
        exact Assembler.code_emit ..

/-- A method whose code is made so is finished as the legacy epilogue has it. -/
theorem inMethod {act : SessionM Code} (h : Remakes m act (s.openMethod m).2)
    (hmakes : Ensures act (s.openMethod m).2
      (MakesCode MethodCode.Verified (s.openMethod m).2 m.returnType)
      (FailedSince (s.openMethod m).2)) :
    Mirrors (legacy Session.Corrects).session (SessionM.inMethod m act) s
      fun _ s' ↦ s'.Corrects := by
  have hsame := h.same
  refine mirrors_inMethod (fun code s' hrun ↦ ⟨m.legacyCode code, ?_, fun m' scopes hscopes ↦ ?_⟩)
    fun e s' hrun ↦ ?_
  · exact hsame.trans (congrArg (changed _) (map_eq_of_ok m.legacyCode hrun))
  · obtain ⟨hcorrects, hlast⟩ := h.yields.of_ok hrun
    obtain ⟨hgood, hverified⟩ := hmakes.of_ok hrun
    -- of the method, only its locals have changed
    obtain ⟨locals, t, -, hopen⟩ := Scopes.eq_of_outline_enterMethod hgood.continues.outline
    obtain ⟨hm, hframes⟩ := List.cons.inj (congrArg Scopes.frames (hscopes.symm.trans hopen))
    obtain rfl : m' = { m with locals } := Frame.ofMethod.inj hm
    refine ⟨MethodScope.legacy_done _ code, fun hclass ↦ ?_⟩
    obtain ⟨c, hc⟩ := Option.isSome_iff_exists.1 hclass
    exact ⟨hgood.good.leaveMethod hscopes hverified, hcorrects.epilogue,
      hcorrects.methods.leaveMethod hscopes hc hlast⟩
  · exact hsame.trans (congrArg (changed _) (map_eq_of_error m.legacyCode hrun))

end Remakes

/-! ### Definitions with the other epilogue -/

/-- A method that does not answer a reference is made in the changed session all the same. -/
theorem mirrors_inMethod_of_onSession {act : SessionM Code}
    (hact : (legacy Session.Corrects).OnSession act fun _ ↦ True)
    (hm : m.flags.answersReference m.returnType = false) (hlocals : m.locals = {})
    (hs : s.Corrects)
    (hmakes : Ensures act (s.openMethod m).2
      (MakesCode MethodCode.Verified (s.openMethod m).2 m.returnType)
      (FailedSince (s.openMethod m).2)) :
    Mirrors (legacy Session.Corrects).session (inMethod m act) s fun _ s' ↦ True ∧ s'.Corrects := by
  have hopen : (s.openMethod m).2.Corrects := faithful_legacy_corrects.openMethod hs hlocals
  have hremakes : Remakes m act (s.openMethod m).2 := .of_mirrors (hact.run hopen) hm
  exact (hremakes.inMethod hmakes).imp fun _ _ hs' ↦ ⟨trivial, hs'⟩

/-- The code of a method that answers a reference. -/
theorem remakes_method (hs : s.Corrects) {content : Node} (cls : ClassRef) (params : List Param)
    (types : List MachineType)
    (hcontent : (legacy Session.Corrects).For (Gen.node content)) {returnType : MachineType}
    (hkind : returnType.kind? = some .reference) (bodySpan : Span)
    (hm : m.flags.answersReference m.returnType = true) :
    Remakes m (do
      declareThis cls
      declareParams params types
      Gen.assemble do
        Gen.receive returnType bodySpan (Gen.node content)
        Gen.emitAll (Gen.epilogue returnType false (← get).session.options.epilogue)) s := by
  have h := faithful_legacy_corrects
  have hthis : (legacy Session.Corrects).OnSession (declareThis cls) fun _ ↦ True :=
    h.onSession_declareThis trivial
  have hparams : (legacy Session.Corrects).OnSession (declareParams params types) fun _ ↦ True :=
    h.onSession_declareParams (fun _ _ ↦ trivial) params
  refine .bind (hthis.run hs) fun _ s' hs' ↦ .bind (hparams.run hs'.2) fun _ s'' hs'' ↦ ?_
  -- the body leaves one reference, so that there is something to drop before the receiver is loaded
  have hready := Ready.empty (.refl hs''.2.good)
  have hleaves : Ensures (Gen.receive returnType bodySpan (Gen.node content)) { session := s'' }
      (fun _ g ↦ g.asm.At [.reference]) (Failed (.fresh MethodCode.Verified s'')) := by
    refine (Gen.ready_receive (Gen.compiled content).delivers hready returnType bodySpan).imp
      fun _ g hg ↦ ?_
    rw [hkind] at hg
    exact hg.typed trivial
  exact .assemble hs''.2 (h.receive hcontent trivial bodySpan) hleaves hkind hm

/-- A method is compiled as the legacy epilogue has it, whatever its result. -/
theorem mirrors_method (hs : s.Corrects) {content : Node}
    (hcontent : (legacy Session.Corrects).For (Gen.node content)) (name : String) (cls : ClassRef)
    (params : List Param) (types : List MachineType) (returnType : MachineType)
    (isStatic : Bool) (bodySpan : Span) :
    Mirrors (legacy Session.Corrects).session
      (inMethod { name, params := types, returnType, flags := { isStatic } } do
        if !isStatic then declareThis cls
        declareParams params types
        Gen.assemble do
          Gen.receive returnType bodySpan (Gen.node content)
          Gen.emitAll (Gen.epilogue returnType isStatic (← get).session.options.epilogue)) s
      fun _ s' ↦ True ∧ s'.Corrects := by
  have h := faithful_legacy_corrects
  have hmakes := makesCode_method hs.good
    (m := { name, params := types, returnType, flags := { isStatic } }) rfl isStatic
      cls params types
    fun g hg ↦ Gen.returns_method hg (Gen.compiled content).delivers returnType bodySpan isStatic
  cases hanswers : ({ isStatic } : MemberFlags).answersReference returnType with
  | false =>
    -- what the options say of the epilogue is read, but makes no difference
    refine mirrors_inMethod_of_onSession ?_ hanswers rfl hs hmakes
    refine h.onSession_slots trivial (fun _ _ ↦ trivial) isStatic params (onSession_assemble ?_)
    refine (h.receive hcontent trivial bodySpan).bind fun _ _ ↦ ⟨fun {g} hg ↦ ?_⟩
    have hsame := Gen.epilogue_eq_of_not_answersReference hanswers
    exact .get_bind (congrArg Gen.emitAll ((hsame _).trans (hsame _).symm))
      ((onGen_emitAll _).run hg)
  | true =>
    have hopen := h.openMethod
      (m := { name, params := types, returnType, flags := { isStatic } }) hs rfl
    cases isStatic with
    | true => cases hanswers
    | false =>
      have hkind : returnType.kind? = some .reference := by
        simpa [MemberFlags.answersReference] using hanswers
      exact
        (Remakes.inMethod (remakes_method hopen cls params types hcontent hkind bodySpan hanswers)
        hmakes).imp fun _ _ hs' ↦ ⟨trivial, hs'⟩

/-- Definitions are compiled as the legacy epilogue has them. -/
theorem defines_legacy : (legacy Session.Corrects).Defines where
  defineMethod {content params returnType} name isStatic span hcontent hparams hreturn := by
    have h := faithful_legacy_corrects
    refine ⟨fun {s} hs ↦ ?_⟩
    refine mirrors_query_bind ((h.definingClass span).same hs) fun place hplace ↦ ?_
    refine mirrors_query_bind ((h.paramTypes hparams).same hs) fun types htypes ↦ ?_
    refine mirrors_query_bind rfl fun machine _ ↦ ?_
    exact mirrors_method hs hcontent name place.1 params types machine _ content.span
  defineConstructor {content params} span hcontent hparams := by
    have h := faithful_legacy_corrects
    refine ⟨fun {s} hs ↦ ?_⟩
    refine mirrors_query_bind ((h.definingClass span).same hs) fun place hplace ↦ ?_
    obtain ⟨cls, isStaticBody⟩ := place
    cases isStaticBody with
    | true => exact .throw _
    | false =>
      refine mirrors_query_bind ((h.paramTypes hparams).same hs) fun types htypes ↦ ?_
      refine mirrors_inMethod_of_onSession ?_ rfl rfl hs ?_
      · refine (h.onSession_declareThis trivial).bind fun _ _ ↦ ?_
        refine (h.onSession_declareParams (fun _ _ ↦ trivial) params).bind fun _ _ ↦
          onSession_assemble ?_
        exact h.onGen_constructor ((hcontent .discard).bind fun _ _ ↦ onGen_emit _) span
      · exact makesCode_method hs.good rfl false cls params types fun g hg ↦
          returns_constructor hg (definingClass_eq_ok hplace) (Gen.compiled content).delivers span
  defineDefaultConstructor span := by
    have h := faithful_legacy_corrects
    refine ⟨fun {s} hs ↦ ?_⟩
    refine mirrors_query_bind ((h.definingClass span).same hs) fun place hplace ↦ ?_
    refine mirrors_inMethod_of_onSession ?_ rfl rfl hs ?_
    · exact (h.onSession_declareThis trivial).bind fun _ _ ↦
        onSession_assemble (h.onGen_constructor (onGen_emit _) span)
    · refine makesCode_method hs.good rfl false place.1 [] [] fun g hg ↦ ?_
      refine ensures_bind (Gen.ready_callSuper hg (definingClass_eq_ok hplace) span)
        fun _ g' hg' ↦ ?_
      exact Gen.returns_exit .void hg'
  defineMain {body} span hbody := by
    have h := faithful_legacy_corrects
    refine ⟨fun {s} hs ↦ ?_⟩
    refine mirrors_inMethod_of_onSession ?_ rfl rfl hs ?_
    · refine (h.onSession_declareParam trivial "args" span).bind fun _ _ ↦ onSession_assemble ?_
      exact (hbody .discard).bind fun _ _ ↦ onGen_emit _
    · exact makesCode_main hs.good rfl rfl body span

end SessionM

end ScriptBytecode

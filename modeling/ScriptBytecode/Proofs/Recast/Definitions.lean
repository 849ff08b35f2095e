import ScriptBytecode.Compile.Compiler
import ScriptBytecode.Proofs.Recast.Constructs

/-!
# Definitions in a changed session

A class that is opened in a changed session is closed in one, and so is a method. What is finished
then is changed as the change says: the method may even get other code, as long as it is the code
that the change makes of its own.

Where a change keeps all methods and the way in which they end, definitions are the same in the
changed session (`KeepsMethods.defines`).

* `inClass_eq` and `inMethod_eq` split opening and closing from what is done in between;
* `mirrors_inMethod` is about a method whose code may differ, and `KeepsMethods.defines` about
  changes that keep all code.

**Failure within a definition.** A definition that fails leaves the class or method that it had
opened all the same. Both sessions do so at the same point, so they still differ as before
(`closeMethod_changed_error`).

That what is open within a definition is a changed form of what was open before is kept apart from
how code is made: the one does not depend on the change at all, and the other is what changes differ
in.
-/

namespace ScriptBytecode

/-! ### Closing classes and methods -/

namespace Scopes

/-- A class that was left had been entered. -/
theorem eq_of_leaveClass {s scopes : Scopes} {c : ClassScope} (h : s.leaveClass = .ok (c, scopes)) :
    s = scopes.enterClass c := by
  obtain ⟨frames⟩ := s
  rcases frames with _ | ⟨frame, frames⟩
  · cases h
  · cases frame with
    | ofMethod m => cases h
    | ofClass c' =>
      cases h
      rfl

/-- So had a method. -/
theorem eq_of_leaveMethod {s scopes : Scopes} {handle : MethodHandle} {m : MethodScope}
    (h : s.leaveMethod handle = .ok (m, scopes)) : s = (scopes.enterMethod m).2 := by
  unfold leaveMethod at h
  split at h
  · cases h
  · obtain ⟨frames⟩ := s
    rcases frames with _ | ⟨frame, frames⟩
    · cases h
    · cases frame with
      | ofClass c => cases h
      | ofMethod m' =>
        cases h
        rfl

end Scopes

namespace SessionM

variable {α : Type}

/-- How a class is closed after the action within it. -/
def closeClass : EStateM.Result CompileError Session α → EStateM.Result CompileError Session α
  | .ok a s =>
    match s.scopes.leaveClass with
    | .ok (c, scopes) => .ok a { s.withScopes scopes with finished := c.done :: s.finished }
    | .error fault => .error (.internal fault) s
  | .error e s =>
    match s.scopes.leaveClass with
    | .ok (_, scopes) => .error e (s.withScopes scopes)
    | .error fault => .error (.internal fault) s

/-- To do something in a class is to open it, do it and close the class. -/
theorem inClass_eq (c : ClassScope) (act : SessionM α) (s : Session) :
    inClass c act s = closeClass (act (s.openClass c)) := by
  show EStateM.bind (attempt act) _ (s.openClass c) = _
  unfold EStateM.bind attempt
  cases act (s.openClass c) with
  | ok a s' =>
    show EStateM.bind (ofFault s'.scopes.leaveClass) _ s' = closeClass (.ok a s')
    dsimp only [closeClass]
    cases s'.scopes.leaveClass <;> rfl
  | error e s' =>
    show EStateM.bind (ofFault s'.scopes.leaveClass) _ s' = closeClass (.error e s')
    dsimp only [closeClass]
    cases s'.scopes.leaveClass <;> rfl

/-- How a method is closed after the action that makes its code. -/
def closeMethod (handle : MethodHandle) :
    EStateM.Result CompileError Session Code → EStateM.Result CompileError Session Unit
  | .ok code s =>
    match s.scopes.leaveMethod handle with
    | .ok (m, scopes) =>
      if scopes.currentClass?.isSome then
        .ok () (s.withScopes (scopes.addMethod (m.done code)))
      else .error (.internal (.methodOutsideClass m.name)) (s.withScopes scopes)
    | .error fault => .error (.internal fault) s
  | .error e s =>
    match s.scopes.leaveMethod handle with
    | .ok (_, scopes) => .error e (s.withScopes scopes)
    | .error fault => .error (.internal fault) s

/-- The same for methods. -/
theorem inMethod_eq (m : MethodScope) (act : SessionM Code) (s : Session) :
    inMethod m act s = closeMethod (s.openMethod m).1 (act (s.openMethod m).2) := by
  show EStateM.bind (attempt act) _ (s.openMethod m).2 = _
  unfold EStateM.bind attempt
  cases act (s.openMethod m).2 with
  | ok code s' =>
    show EStateM.bind (ofFault (s'.scopes.leaveMethod (s.openMethod m).1)) _ s' =
      closeMethod _ (.ok code s')
    dsimp only [closeMethod]
    cases s'.scopes.leaveMethod (s.openMethod m).1 with
    | error fault => rfl
    | ok left =>
      obtain ⟨m', scopes⟩ := left
      dsimp only
      split
      · -- There is a class to add the finished method to.
        next hclass =>
        obtain ⟨c, hc⟩ := Option.isSome_iff_exists.1 hclass
        refine Ensures.eq_ok (ensures_pure_bind (ensures_modify_bind (ensures_pure_bind ?_)))
        dsimp only
        rw [hc]
        exact ⟨rfl, rfl⟩
      · next hclass =>
        have hnone := Option.not_isSome_iff_eq_none.1 hclass
        refine Ensures.eq_error (ensures_pure_bind (ensures_modify_bind (ensures_pure_bind ?_)))
        dsimp only
        rw [hnone]
        exact ⟨rfl, rfl⟩
  | error e s' =>
    show EStateM.bind (ofFault (s'.scopes.leaveMethod (s.openMethod m).1)) _ s' =
      closeMethod _ (.error e s')
    dsimp only [closeMethod]
    cases s'.scopes.leaveMethod (s.openMethod m).1 <;> rfl

end SessionM

namespace Recast

variable {r : Recast}

/-! ### Classes and methods that are closed -/

/-- A class is closed in a changed session as it is otherwise. -/
theorem closeClass_changed {α : Type} (outcome : EStateM.Result CompileError Session α) :
    SessionM.closeClass (changed r.session outcome) =
      changed r.session (SessionM.closeClass outcome) := by
  cases outcome with
  | ok a s =>
    have hleave : (r.session s).scopes.leaveClass = _ := r.leaveClass_scopes s.scopes
    dsimp only [changed, SessionM.closeClass]
    rw [hleave]
    cases s.scopes.leaveClass <;> rfl
  | error e s =>
    have hleave : (r.session s).scopes.leaveClass = _ := r.leaveClass_scopes s.scopes
    dsimp only [changed, SessionM.closeClass]
    rw [hleave]
    cases s.scopes.leaveClass <;> rfl

/-- A method is closed in a changed session as it is otherwise, with the code that is made there. -/
theorem closeMethod_changed (handle : MethodHandle) {code code' : Code} {s : Session}
    (hdone : ∀ m scopes, s.scopes = (Scopes.enterMethod scopes m).2 →
      r.method (m.done code) = m.done code') :
    SessionM.closeMethod handle (.ok code' (r.session s)) =
      changed r.session (SessionM.closeMethod handle (.ok code s)) := by
  have hleave : (r.session s).scopes.leaveMethod handle = _ := r.leaveMethod_scopes s.scopes handle
  dsimp only [SessionM.closeMethod]
  rw [hleave]
  cases hleft : s.scopes.leaveMethod handle with
  | error fault => rfl
  | ok left =>
    obtain ⟨m, scopes⟩ := left
    -- the class around the method is changed, but there is one in both sessions or in neither
    have hcurrent : (r.scopes scopes).currentClass?.isSome = scopes.currentClass?.isSome := by
      rw [currentClass?_scopes, Option.isSome_map]
    have hadd := r.scopes_addMethod scopes (m.done code)
    rw [hdone m scopes (Scopes.eq_of_leaveMethod hleft)] at hadd
    dsimp only [Except.map]
    rw [hcurrent]
    split
    · exact congrArg (fun t ↦ EStateM.Result.ok () { r.session s with scopes := t }) hadd.symm
    · rfl

/-- A method that has failed is closed in the changed session as it is in the other. -/
theorem closeMethod_changed_error (handle : MethodHandle) (e : CompileError) (s : Session) :
    SessionM.closeMethod handle (.error e (r.session s)) =
      changed r.session (SessionM.closeMethod handle (.error e s)) := by
  have hleave : (r.session s).scopes.leaveMethod handle = _ := r.leaveMethod_scopes s.scopes handle
  dsimp only [SessionM.closeMethod]
  rw [hleave]
  cases s.scopes.leaveMethod handle <;> rfl

/-- A method is finished in the changed session as the change says, if its code is made so. -/
theorem mirrors_inMethod {s : Session} {m : MethodScope} {act : SessionM Code}
    (hok : ∀ code s', act (s.openMethod m).2 = .ok code s' → ∃ code',
      act (r.session (s.openMethod m).2) = .ok code' (r.session s') ∧
        ∀ m' scopes, s'.scopes = (Scopes.enterMethod scopes m').2 →
          r.method (m'.done code) = m'.done code' ∧
            (scopes.currentClass?.isSome →
              r.valid (s'.withScopes (scopes.addMethod (m'.done code)))))
    (herror : ∀ e s', act (s.openMethod m).2 = .error e s' →
      act (r.session (s.openMethod m).2) = .error e (r.session s')) :
    Mirrors r.session (SessionM.inMethod m act) s fun _ s' ↦ r.valid s' := by
  -- Both handles remember the same depth, since the change opens and closes nothing.
  have hopen : ((r.session s).openMethod m).1 = (s.openMethod m).1 :=
    congrArg (fun depth ↦ MethodHandle.mk (depth + 1)) (r.depth_scopes s.scopes)
  constructor
  · rw [SessionM.inMethod_eq, SessionM.inMethod_eq, hopen, session_openMethod]
    cases hrun : act (s.openMethod m).2 with
    | error e s' =>
      rw [herror e s' hrun]
      exact closeMethod_changed_error _ e s'
    | ok code s' =>
      obtain ⟨code', hrun', hdone⟩ := hok code s' hrun
      rw [hrun']
      exact closeMethod_changed _ fun m' scopes hscopes ↦ (hdone m' scopes hscopes).1
  · unfold Yields Ensures
    rw [SessionM.inMethod_eq]
    cases hrun : act (s.openMethod m).2 with
    | error e s' =>
      dsimp only [SessionM.closeMethod]
      cases s'.scopes.leaveMethod (s.openMethod m).1 <;> exact trivial
    | ok code s' =>
      obtain ⟨code', -, hdone⟩ := hok code s' hrun
      dsimp only [SessionM.closeMethod]
      cases hleft : s'.scopes.leaveMethod (s.openMethod m).1 with
      | error fault => exact trivial
      | ok left =>
        dsimp only
        by_cases hclass : left.2.currentClass?.isSome = true
        · rw [if_pos hclass]
          exact (hdone left.1 left.2 (Scopes.eq_of_leaveMethod hleft)).2 hclass
        · rw [if_neg hclass]
          exact trivial

namespace Faithful

variable (h : r.Faithful)

include h

/-- What is compiled within a class is part of a class that is changed with it. -/
theorem inClass {act : SessionM Unit} (hact : r.OnSession act fun _ ↦ True) {c : ClassScope}
    (hc : c.methods = []) (hcls : r.familiar (.ref c.cls))
    (hsuperclass : r.familiar (.ref c.superclass)) :
    r.OnSession (SessionM.inClass c act) fun _ ↦ True := by
  refine ⟨fun {s} hs ↦ ?_⟩
  have hopen : r.valid (s.openClass c) := h.openClass hs hc hcls hsuperclass
  have hrun : Mirrors r.session act (s.openClass c) fun _ s' ↦ True ∧ r.valid s' := hact.run hopen
  constructor
  · -- a class that is opened has no methods yet that could be changed
    rw [SessionM.inClass_eq, SessionM.inClass_eq, ← r.session_openClass s hc]
    rw [hrun.same]
    exact closeClass_changed _
  · unfold Yields Ensures
    rw [SessionM.inClass_eq]
    cases hact : act (s.openClass c) with
    | error e s' =>
      dsimp only [SessionM.closeClass]
      cases s'.scopes.leaveClass <;> exact trivial
    | ok a s' =>
      have hs' : r.valid s' := (hrun.yields.of_ok hact).2
      dsimp only [SessionM.closeClass]
      cases hleft : s'.scopes.leaveClass with
      | error fault => exact trivial
      | ok left => exact ⟨trivial, h.leaveClass hs' (Scopes.eq_of_leaveClass hleft)⟩

/-! ### Within a method -/

theorem onSession_declareThis {cls : ClassRef} (hcls : r.familiar (.ref cls)) :
    r.OnSession (SessionM.declareThis cls) fun _ ↦ True := by
  have hdeclare : r.OnSession (SessionM.declareLocal (.internal .noMethodScope) fun l ↦
      (l.declareThis cls).mapError .internal) fun _ ↦ True := by
    refine onSession_declareLocal fun {s v l} hs hl ↦ ?_
    cases hdeclare : s.locals.declareThis cls with
    | error fault =>
      rw [hdeclare] at hl
      cases hl
    | ok declared =>
      rw [hdeclare] at hl
      cases hl
      exact h.declareThis hs hcls hdeclare
  exact hdeclare.bind fun _ _ ↦ .pure trivial

theorem onSession_declareParam {type : MachineType} (htype : r.familiar type) (name : String)
    (span : Span) : r.OnSession (SessionM.declareParam name type span) fun _ ↦ True := by
  have hdeclare : r.OnSession (SessionM.declareLocal (.internal .noMethodScope)
      (·.declareParam name type span)) fun _ ↦ True :=
    onSession_declareLocal fun hs hl ↦ h.declareParam hs htype hl
  exact hdeclare.bind fun _ _ ↦ .pure trivial

theorem onSession_declareParams {types : List MachineType}
    (htypes : ∀ type ∈ types, r.familiar type) (params : List Param) :
    r.OnSession (SessionM.declareParams params types) fun _ ↦ True := by
  induction params generalizing types with
  | nil => exact .pure trivial
  | cons p ps ih =>
    cases types with
    | nil => exact .pure trivial
    | cons type types =>
      have htype := htypes type (List.mem_cons_self ..)
      refine (h.onSession_declareParam htype p.name p.span).bind fun _ _ ↦ ?_
      exact ih fun type htype ↦ htypes type (List.mem_cons_of_mem _ htype)

/-- The receiver, if there is one, and the parameters get their slots before an action. -/
theorem onSession_slots {α : Type} {post : α → Prop} {next : SessionM α} {cls : ClassRef}
    {types : List MachineType} (hcls : r.familiar (.ref cls))
    (htypes : ∀ type ∈ types, r.familiar type) (isStatic : Bool) (params : List Param)
    (hnext : r.OnSession next post) : r.OnSession (do
      if !isStatic then SessionM.declareThis cls
      SessionM.declareParams params types
      next) post := by
  have hparams := (h.onSession_declareParams htypes params).bind fun _ _ ↦ hnext
  exact .ite (fun _ ↦ (h.onSession_declareThis hcls).bind fun _ _ ↦ hparams) fun _ ↦ hparams

theorem onGen_callSuper (span : Span) : r.OnGen (Gen.callSuper span) fun _ ↦ True := by
  refine ⟨fun {g} hg ↦ ?_⟩
  have hcurrent : (r.gen g).session.scopes.currentClass? =
      g.session.scopes.currentClass?.map r.classScope := r.currentClass?_scopes _
  cases hc : g.session.scopes.currentClass? with
  | none =>
    rw [hc] at hcurrent
    refine .get_bind (by rw [hcurrent, hc]; rfl) ?_
    rw [hc]
    exact .throw _
  | some c =>
    rw [hc] at hcurrent
    have hsuperclass := (h.current hg hc).2
    have hrest : r.OnGen (do
        let m ← Gen.resolve c.superclass constructorName [] false span
        Gen.emit (.load .reference 0)
        Gen.emit (.invokeSpecial m.toRef)) fun _ ↦ True := by
      refine (h.resolve constructorName false span hsuperclass fun _ hmem ↦ ?_).onGen.bind
        fun m _ ↦ ?_
      · cases hmem
      · exact (onGen_emit _).bind fun _ _ ↦ onGen_emit _
    refine .get_bind (by rw [hcurrent, hc]; rfl) ?_
    rw [hc]
    exact hrest.run hg

/-- The code of a constructor calls that of the superclass first. -/
theorem onGen_constructor {code : Gen Unit} (hcode : r.OnGen code fun _ ↦ True) (span : Span) :
    r.OnGen (do
      Gen.callSuper span
      code) fun _ ↦ True :=
  (h.onGen_callSuper span).bind fun _ _ ↦ hcode

end Faithful

/-! ### Definitions -/

/-- Definitions of every kind carry the change if their bodies do. -/
structure Defines (r : Recast) : Prop where
  defineMethod : ∀ {content : Node} {params : List Param} {returnType : SourceType}
    (name : String) (isStatic : Bool) (span : Span), r.For (Gen.node content) →
    (∀ p ∈ params, ∀ name ∈ p.type.mentioned, r.allows name = true) →
    (∀ name ∈ returnType.mentioned, r.allows name = true) →
    r.OnSession (SessionM.defineMethod name params returnType isStatic span content.span
      (Gen.node content)) fun _ ↦ True
  defineConstructor : ∀ {content : Node} {params : List Param} (span : Span),
    r.For (Gen.node content) →
    (∀ p ∈ params, ∀ name ∈ p.type.mentioned, r.allows name = true) →
    r.OnSession (SessionM.defineConstructor params span (Gen.node content)) fun _ ↦ True
  defineDefaultConstructor : ∀ span : Span,
    r.OnSession (SessionM.defineDefaultConstructor span) fun _ ↦ True
  defineMain : ∀ {body : Node} (span : Span), r.For (Gen.node body) →
    r.OnSession (SessionM.defineMain body span) fun _ ↦ True

/-- A change keeps methods if they stay what they are and end as they do, and if the session around
them is still one that is changed. -/
structure KeepsMethods (r : Recast) : Prop where
  method : ∀ m, r.method m = m
  epilogue : ∀ options, (r.options options).epilogue = options.epilogue
  leaveMethod : ∀ {s : Session} {m : MethodScope} {scopes : Scopes} (done : MethodCode), r.valid s →
    s.scopes = (scopes.enterMethod m).2 → r.valid (s.withScopes (scopes.addMethod done))

namespace KeepsMethods

variable (hkeeps : r.KeepsMethods) (h : r.Faithful)

include hkeeps h

/-- A method carries over if its code does. -/
theorem inMethod {act : SessionM Code} (hact : r.OnSession act fun _ ↦ True) {m : MethodScope}
    (hm : m.locals = {}) : r.OnSession (SessionM.inMethod m act) fun _ ↦ True := by
  refine ⟨fun {s} hs ↦ ?_⟩
  have hopen : r.valid (s.openMethod m).2 := h.openMethod hs hm
  have hrun : Mirrors r.session act (s.openMethod m).2 fun _ s' ↦ True ∧ r.valid s' :=
    hact.run hopen
  refine (mirrors_inMethod (fun code s' hok ↦ ?_) fun e s' herror ↦ ?_).imp
    fun _ _ hvalid ↦ ⟨trivial, hvalid⟩
  · refine ⟨code, by rw [hrun.same, hok]; rfl, fun m' scopes hscopes ↦ ⟨hkeeps.method _, ?_⟩⟩
    exact fun _ ↦ hkeeps.leaveMethod _ (hrun.yields.of_ok hok).2 hscopes
  · rw [hrun.same, herror]
    rfl

/-- Then definitions carry the change. -/
theorem defines : r.Defines where
  defineMethod {content params returnType} name isStatic span hcontent hparams hreturn := by
    refine (h.definingClass span).onSession.bind fun place hcls ↦ ?_
    refine (h.paramTypes hparams).onSession.bind fun types htypes ↦ ?_
    refine (h.typeOf span hreturn).onSession.bind fun machine hmachine ↦ ?_
    refine hkeeps.inMethod h (h.onSession_slots hcls htypes _ params (onSession_assemble ?_)) rfl
    refine (h.receive hcontent hmachine content.span).bind fun _ _ ↦ ⟨fun {g} hg ↦ ?_⟩
    have hepilogue : (r.gen g).session.options.epilogue = g.session.options.epilogue :=
      hkeeps.epilogue _
    exact .get_bind (by rw [hepilogue]) ((onGen_emitAll _).run hg)
  defineConstructor {content params} span hcontent hparams := by
    refine (h.definingClass span).onSession.bind fun place hcls ↦ ?_
    refine .ite (fun _ ↦ .throw _) fun _ ↦ ?_
    refine (h.paramTypes hparams).onSession.bind fun types htypes ↦ ?_
    refine hkeeps.inMethod h ((h.onSession_declareThis hcls).bind fun _ _ ↦ ?_) rfl
    refine (h.onSession_declareParams htypes params).bind fun _ _ ↦ onSession_assemble ?_
    exact h.onGen_constructor ((hcontent .discard).bind fun _ _ ↦ onGen_emit _) span
  defineDefaultConstructor span := by
    refine (h.definingClass span).onSession.bind fun place hcls ↦ ?_
    refine hkeeps.inMethod h ((h.onSession_declareThis hcls).bind fun _ _ ↦ ?_) rfl
    exact onSession_assemble (h.onGen_constructor (onGen_emit _) span)
  defineMain {body} span hbody := by
    have hargs : r.familiar mainArgs := h.mainArgs
    refine hkeeps.inMethod h ((h.onSession_declareParam hargs "args" span).bind fun _ _ ↦ ?_) rfl
    exact onSession_assemble ((hbody .discard).bind fun _ _ ↦ onGen_emit _)

end KeepsMethods

end Recast

end ScriptBytecode

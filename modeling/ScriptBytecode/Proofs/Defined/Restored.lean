import Mathlib.Data.List.Forall2
import ScriptBytecode.Proofs.Defined.Items
import ScriptBytecode.Proofs.OpenScopes

/-!
# What is restored when an action ends

A definition closes whatever it opens, whether it succeeds or fails. So behind it the same classes
and methods are open as before; classes may have gained methods, and all else that a session has of
them is as it was. `Session.Restored` says so of two sessions, and gives the definitions that were
met in between, since the imports among them change what type names stand for. Code within a method
may also change the locals of that method, but of no other (`Session.Resumed`).

* `Session.Restored` and `Session.Resumed` are said of sessions, and with `Within` of what is left
  when an action fails: some first part of the definitions was met by then;
* `SessionM.Restores` and `Resumes` say so of actions, however they end;
* `SessionM.restores_inClass` and `SessionM.restores_inMethod` are the two that open something.

**Why definitions are listed.** If nothing but scopes were concerned, the definitions would not
matter. But imports among them change the type table, and the change is not undone when a class or
method is left. So what type names stand for behind an action can only be said by saying which
imports it has met.

**Where an action stopped.** After a failure some of the definitions were met and others not.
`RestoredWithin` and `ResumedWithin` say that those that were met are a first part of the list, and
no more is known or needed.

**Restored and resumed** differ in the locals of the method that is open at the moment. A definition
leaves them as they are; code does not. All other frames, and with them the locals of all other
methods, are the same in both cases.
-/

namespace ScriptBytecode

/-! ### Open classes and methods -/

/-- A class may have gained methods while it was open, and a method is what it was. -/
inductive Frame.Grown : Frame → Frame → Prop where
  | ofClass (c : ClassScope) (more : List MethodCode) :
    Grown (.ofClass c) (.ofClass { c with methods := c.methods ++ more })
  | ofMethod (m : MethodScope) : Grown (.ofMethod m) (.ofMethod m)

namespace Frame.Grown

variable {frame frame' frame'' : Frame}

theorem refl (frame : Frame) : Grown frame frame := by
  cases frame with
  | ofClass c => simpa using ofClass c []
  | ofMethod m => exact .ofMethod m

theorem trans (h : Grown frame frame') (h' : Grown frame' frame'') : Grown frame frame'' := by
  cases h with
  | ofMethod m => exact h'
  | ofClass c more =>
    cases h' with
    | ofClass _ more' => simpa using ofClass c (more ++ more')

/-- A frame that has grown is still of the same class or method. -/
theorem outline (h : Grown frame frame') : frame'.outline = frame.outline := by
  cases h <;> rfl

end Frame.Grown

/-- The same classes and methods are open, in the same order, and each has grown at most. -/
def Scopes.Grown (s s' : Scopes) : Prop := List.Forall₂ Frame.Grown s.frames s'.frames

namespace Scopes.Grown

variable {s s' s'' : Scopes}

theorem refl (s : Scopes) : s.Grown s := List.forall₂_same.2 fun frame _ ↦ .refl frame

/-- Scopes grow step by step. -/
theorem trans (h : s.Grown s') (h' : s'.Grown s'') : s.Grown s'' := by
  obtain ⟨frames⟩ := s
  obtain ⟨frames'⟩ := s'
  obtain ⟨frames''⟩ := s''
  change List.Forall₂ Frame.Grown frames frames' at h
  change List.Forall₂ Frame.Grown frames' frames'' at h'
  show List.Forall₂ Frame.Grown frames frames''
  induction h generalizing frames'' with
  | nil => exact h'
  | cons hframe _ ih =>
    cases h' with
    | cons hframe' h' => exact .cons (hframe.trans hframe') (ih _ h')

/-- In scopes that have grown, the same classes and methods are open. -/
theorem outline (h : s.Grown s') : s'.outline = s.outline := by
  obtain ⟨frames⟩ := s
  obtain ⟨frames'⟩ := s'
  change List.Forall₂ Frame.Grown frames frames' at h
  show frames'.map Frame.outline = frames.map Frame.outline
  induction h with
  | nil => rfl
  | cons hframe _ ih => rw [List.map_cons, List.map_cons, hframe.outline, ih]

/-- A method that is open is what it was. -/
theorem currentMethod? (h : s.Grown s') : s'.currentMethod? = s.currentMethod? := by
  obtain ⟨frames⟩ := s
  obtain ⟨frames'⟩ := s'
  cases h with
  | nil => rfl
  | cons hframe _ => cases hframe <;> rfl

/-- Scopes grow by a method. -/
theorem addMethod (s : Scopes) (m : MethodCode) : s.Grown (s.addMethod m) := by
  obtain ⟨frames⟩ := s
  show List.Forall₂ Frame.Grown frames (addMethodTo m frames)
  induction frames with
  | nil => exact .nil
  | cons frame frames ih =>
    cases frame with
    | ofClass c => exact .cons (.ofClass c [m]) (refl { frames })
    | ofMethod scope => exact .cons (.ofMethod scope) ih

/-- The locals of the current method play no part in how classes grow. -/
theorem setLocals (h : s.Grown s') (l : Locals) : (s.setLocals l).Grown (s'.setLocals l) := by
  obtain ⟨frames⟩ := s
  obtain ⟨frames'⟩ := s'
  cases h with
  | nil => exact .nil
  | cons hframe hframes =>
    cases hframe with
    | ofClass c more => exact .cons (.ofClass c more) hframes
    | ofMethod m => exact .cons (.ofMethod _) hframes

end Scopes.Grown

/-! ### Sessions -/

/-- Whether a definition is an import. -/
def Definition.isImport : Definition → Bool
  | written (.importDecl ..) => true
  | _ => false

namespace Session

/-- Between the sessions the definitions were met. What is open has grown at most, and what type
names stand for is what the imports among the definitions have made of it. -/
structure Restored (s : Session) (ds : List Definition) (s' : Session) : Prop where
  classes : s'.classes = s.classes
  options : s'.options = s.options
  types : s'.types = typesAfter s.classes s.types (ds.filter (·.isImport))
  scopes : s.scopes.Grown s'.scopes

/-- As `Restored`, but the current method may have other locals. -/
def Resumed (s : Session) (ds : List Definition) (s' : Session) : Prop :=
  ∃ l, (s.withLocals l).Restored ds s'

variable {s s' s'' : Session} {ds ds' : List Definition}

namespace Restored

theorem refl (s : Session) : s.Restored [] s := ⟨rfl, rfl, rfl, .refl _⟩

/-- What is restored after two actions is restored after both. -/
theorem trans (h : s.Restored ds s') (h' : s'.Restored ds' s'') : s.Restored (ds ++ ds') s'' where
  classes := h'.classes.trans h.classes
  options := h'.options.trans h.options
  types := by rw [h'.types, h.classes, h.types, List.filter_append, typesAfter_append]
  scopes := h.scopes.trans h'.scopes

/-- Locals play no part in what is restored. -/
theorem withLocals (h : s.Restored ds s') (l : Locals) :
    (s.withLocals l).Restored ds (s'.withLocals l) :=
  ⟨h.classes, h.options, h.types, h.scopes.setLocals l⟩

theorem resumed (h : s.Restored ds s') : s.Resumed ds s' := ⟨s.locals, by rwa [withLocals_locals]⟩

/-- Definitions that are no imports change nothing here. -/
theorem behind (h : s.Restored ds s') {first : List Definition}
    (hfirst : first.filter (·.isImport) = []) : s.Restored (first ++ ds) s' where
  classes := h.classes
  options := h.options
  types := by rw [h.types, List.filter_append, hfirst, List.nil_append]
  scopes := h.scopes

/-- A method may be added to the class around it. -/
theorem addMethod (h : s.Restored ds s') (m : MethodCode) :
    s.Restored ds (s'.withScopes (s'.scopes.addMethod m)) :=
  ⟨h.classes, h.options, h.types, h.scopes.trans (.addMethod _ m)⟩

end Restored

namespace Resumed

theorem refl (s : Session) : s.Resumed [] s := (Restored.refl s).resumed

theorem trans (h : s.Resumed ds s') (h' : s'.Resumed ds' s'') : s.Resumed (ds ++ ds') s'' := by
  obtain ⟨l, h⟩ := h
  obtain ⟨l', h'⟩ := h'
  have hlocals := h.withLocals l'
  rw [withLocals_withLocals] at hlocals
  exact ⟨l', hlocals.trans h'⟩

/-- A change of the current locals is nothing that has to be restored. -/
theorem withLocals (s : Session) (l : Locals) : s.Resumed [] (s.withLocals l) := ⟨l, .refl _⟩

/-- Behind such an action the code of the method can go on. -/
theorem continues (h : s.Resumed ds s') : s.Continues s' := by
  obtain ⟨l, h⟩ := h
  exact ⟨h.classes, h.scopes.outline.trans (Scopes.outline_setLocals ..)⟩

/-- What was open before a method is open again behind it. -/
theorem leaveMethod {m m' : MethodScope} {t : Scopes} (h : (s.openMethod m).2.Resumed ds s')
    (hscopes : s'.scopes = (t.enterMethod m').2) : s.Restored ds (s'.withScopes t) := by
  obtain ⟨l, h⟩ := h
  have hgrown := h.scopes
  rw [hscopes] at hgrown
  exact ⟨h.classes, h.options, h.types, (List.forall₂_cons.1 hgrown).2⟩

/-- What was open before a class is open again behind it. -/
theorem leaveClass {c c' : ClassScope} {t : Scopes} (h : (s.openClass c).Resumed ds s')
    (hscopes : s'.scopes = t.enterClass c') : s.Restored ds (s'.withScopes t) := by
  obtain ⟨l, h⟩ := h
  have hgrown := h.scopes
  rw [hscopes] at hgrown
  exact ⟨h.classes, h.options, h.types, (List.forall₂_cons.1 hgrown).2⟩

end Resumed

/-! ### Where an action stopped -/

/-- As `Restored`, but only the first of the definitions may have been met. -/
def RestoredWithin (s : Session) (ds : List Definition) (s' : Session) : Prop :=
  ∃ met, met <+: ds ∧ s.Restored met s'

/-- As `Resumed`, but only the first of the definitions may have been met. -/
def ResumedWithin (s : Session) (ds : List Definition) (s' : Session) : Prop :=
  ∃ met, met <+: ds ∧ s.Resumed met s'

theorem Restored.within (h : s.Restored ds s') : s.RestoredWithin ds s' :=
  ⟨ds, List.prefix_refl ds, h⟩

/-- Nothing may have happened. -/
theorem RestoredWithin.nothing (s : Session) (ds : List Definition) : s.RestoredWithin ds s :=
  ⟨[], List.nil_prefix, .refl s⟩

/-- Definitions that are no imports may stand before those that were met. -/
theorem RestoredWithin.behind (h : s.RestoredWithin ds s') {first : List Definition}
    (hfirst : first.filter (·.isImport) = []) :
    s.RestoredWithin (first ++ ds) s' := by
  obtain ⟨met, hmet, h⟩ := h
  exact ⟨first ++ met, (List.prefix_append_right_inj first).2 hmet, h.behind hfirst⟩

theorem RestoredWithin.resumed (h : s.RestoredWithin ds s') : s.ResumedWithin ds s' := by
  obtain ⟨met, hmet, h⟩ := h
  exact ⟨met, hmet, h.resumed⟩

theorem ResumedWithin.nothing (s : Session) (ds : List Definition) : s.ResumedWithin ds s :=
  ⟨[], List.nil_prefix, .refl s⟩

/-- More definitions may follow than were met. -/
theorem ResumedWithin.mono (h : s.ResumedWithin ds s') (hds : ds <+: ds') :
    s.ResumedWithin ds' s' := by
  obtain ⟨met, hmet, h⟩ := h
  exact ⟨met, hmet.trans hds, h⟩

theorem Resumed.within_self (h : s.Resumed ds s') : s.ResumedWithin ds s' :=
  ⟨ds, List.prefix_refl ds, h⟩

/-- An action may fail after others have succeeded. -/
theorem Resumed.within (h : s.Resumed ds s') (h' : s'.ResumedWithin ds' s'') :
    s.ResumedWithin (ds ++ ds') s'' := by
  obtain ⟨met, hmet, h'⟩ := h'
  exact ⟨ds ++ met, (List.prefix_append_right_inj ds).2 hmet, h.trans h'⟩

end Session

/-! ### Actions that restore a session -/

/-- However the action ends, what was open is open as before, with other locals at most. `session`
is the session that is part of the state. -/
structure Resumes {σ α : Type} (session : σ → Session) (act : EStateM CompileError σ α)
    (ds : List Definition) : Prop where
  run : ∀ s, Ensures act s (fun _ s' ↦ (session s).Resumed ds (session s'))
    (fun _ s' ↦ (session s).ResumedWithin ds (session s'))

namespace Resumes

variable {σ α β : Type} {session : σ → Session} {ds ds' : List Definition}

/-- An action that does nothing leaves all as it was. -/
theorem pure (a : α) : Resumes session (pure a) [] :=
  ⟨fun s ↦ ensures_pure (.refl (session s))⟩

/-- So does one that fails at once. -/
theorem throw (e : CompileError) :
    Resumes session (throw e : EStateM CompileError σ α) ds :=
  ⟨fun s ↦ ensures_throw (.nothing (session s) ds)⟩

/-- What is open stays open under one action after the other. -/
theorem bind {act : EStateM CompileError σ α} {next : α → EStateM CompileError σ β}
    (h : Resumes session act ds) (hnext : ∀ a, Resumes session (next a) ds') :
    Resumes session (act >>= next) (ds ++ ds') := by
  constructor
  intro s
  have hfirst : Ensures act s (fun _ s' ↦ (session s).Resumed ds (session s'))
      (fun _ s' ↦ (session s).ResumedWithin (ds ++ ds') (session s')) :=
    (h.run s).mono (fun _ _ h ↦ h) fun _ _ h ↦ h.mono (List.prefix_append ..)
  refine ensures_bind hfirst fun a s' hs' ↦ ?_
  exact ((hnext a).run s').mono (fun _ _ h' ↦ hs'.trans h') fun _ _ h' ↦ hs'.within h'

theorem get {next : σ → EStateM CompileError σ α} (h : ∀ s, Resumes session (next s) ds) :
    Resumes session (MonadState.get >>= next) ds :=
  ⟨fun s ↦ ensures_get_bind ((h s).run s)⟩

/-- An action on the code of a method that leaves the session alone. -/
theorem of_eq {act : EStateM CompileError σ α}
    (h : ∀ s, Ensures act s (fun _ s' ↦ session s' = session s) fun _ s' ↦ session s' = session s) :
    Resumes session act [] := by
  constructor
  intro s
  refine (h s).mono (fun _ _ h ↦ ?_) fun _ _ h ↦ ?_
  · rw [h]
    exact .refl _
  · rw [h]
    exact .nothing ..

end Resumes

namespace SessionM

variable {α : Type} {ds : List Definition}

/-- However the action ends, what was open is open as before, with the locals it had. -/
structure Restores (act : SessionM α) (ds : List Definition) : Prop where
  run : ∀ s : Session, Ensures act s (fun _ s' ↦ s.Restored ds s') fun _ s' ↦ s.RestoredWithin ds s'

/-- An action that leaves the locals alone as well is one that the code can go on after. -/
theorem Restores.resumes {act : SessionM α} (h : act.Restores ds) : Resumes id act ds :=
  ⟨fun s ↦ (h.run s).mono (fun _ _ h ↦ h.resumed) fun _ _ h ↦ h.resumed⟩

/-- Definitions that are no imports may be listed before what an action meets. -/
theorem Restores.behind {act : SessionM α} (h : act.Restores ds) (first : List Definition)
    (hfirst : first.filter (·.isImport) = []) :
    act.Restores (first ++ ds) :=
  ⟨fun s ↦ (h.run s).mono (fun _ _ h ↦ h.behind hfirst) fun _ _ h ↦ h.behind hfirst⟩

/-- What is read before an action that restores the session changes nothing. -/
theorem Restores.query_bind {β : Type} {read : Session → Except CompileError β}
    {next : β → SessionM α} (h : ∀ b, (next b).Restores ds) : (query read >>= next).Restores ds :=
  ⟨fun s ↦ ensures_query_bind (fun b _ ↦ (h b).run s) fun _ _ ↦ .nothing s ds⟩

/-- To look up supertypes changes nothing. -/
theorem ensures_supertypesOf_eq (s : Session) (span : Span) (names : List String) :
    Ensures (supertypesOf span names) s (fun _ s' ↦ s' = s) fun _ s' ↦ s' = s := by
  induction names with
  | nil => exact ensures_pure rfl
  | cons name names ih =>
    refine ensures_query_bind (fun c _ ↦ ?_) fun _ _ ↦ rfl
    exact ensures_bind ih fun _ _ h ↦ h

/-- A class is left however the action within it ends. -/
theorem restores_inClass {c : ClassScope} {act : SessionM α} (h : Resumes id act ds) :
    (inClass c act).Restores ds := by
  constructor
  intro s
  refine ensures_inClass ((h.run (s.openClass c)).mono ?_ ?_)
  · intro a s' hs'
    refine ⟨hs'.continues, fun methods t _ hscopes ↦ ?_⟩
    have hleft := hs'.leaveClass hscopes
    exact ⟨hleft.classes, hleft.options, hleft.types, hleft.scopes⟩
  · rintro e s' ⟨met, hmet, hs'⟩
    exact ⟨hs'.continues, fun methods t _ hscopes ↦ ⟨met, hmet, hs'.leaveClass hscopes⟩⟩

/-- A method is left however the action within it ends, also where there is no class for it to be
added to. -/
theorem restores_inMethod {m : MethodScope} {act : SessionM Code} (h : Resumes id act ds) :
    (inMethod m act).Restores ds := by
  constructor
  intro s
  cases hclass : s.scopes.currentClass? with
  | some c =>
    refine ensures_inMethod (by rw [hclass]; rfl) ((h.run (s.openMethod m).2).mono ?_ ?_)
    · intro code s' hs'
      exact ⟨hs'.continues, fun locals t _ hscopes ↦ (hs'.leaveMethod hscopes).addMethod _⟩
    · rintro e s' ⟨met, hmet, hs'⟩
      exact ⟨hs'.continues, fun locals t _ hscopes ↦ ⟨met, hmet, hs'.leaveMethod hscopes⟩⟩
  | none =>
    refine ensures_inMethod_outside hclass ((h.run (s.openMethod m).2).mono ?_ ?_)
    · intro code s' hs'
      exact ⟨hs'.continues, fun locals t _ hscopes ↦ (hs'.leaveMethod hscopes).within⟩
    · rintro e s' ⟨met, hmet, hs'⟩
      exact ⟨hs'.continues, fun locals t _ hscopes ↦ ⟨met, hmet, hs'.leaveMethod hscopes⟩⟩

end SessionM

end ScriptBytecode

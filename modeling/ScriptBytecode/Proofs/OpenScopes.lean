import ScriptBytecode.Compile.Compiler
import ScriptBytecode.Proofs.CurrentLocals

/-!
# Entering and leaving

While something is compiled, classes and methods are opened and closed again, each within the one
before, and those that were open already stay open: they gain methods and locals, but their
`outline` stays what it was. `Session.Continues` says so of two sessions. It holds however an action
ends, so `inClass` and `inMethod` always find their own frame to leave (`ensures_inClass`,
`ensures_inMethod`).

* `Session.Continues` is an equivalence that all actions respect;
* `ensures_inClass` and `ensures_inMethod` open what is done within a class or a method, and say
  that leaving it cannot fail.

**What an outline leaves out** is what an open class or method gains while it is open: methods that
were finished within it, and locals. Everything else about a frame is fixed when it is opened. So
that two sessions have the same outline is a property that every action keeps, and still enough to
know which frame is innermost, what class is current, and whether there is a current instance
(`Scopes.currentClass?_outline`, `Scopes.isStatic_of_outline`).

**Why leaving cannot fail.** A method is left with a handle that holds a depth, and the depth of
scopes is that of their outline (`Scopes.leaveMethod_of_outline`). An action that continues the
session therefore leaves the handle good. This is what makes the internal errors about scopes
impossible, on the way of success as well as on that of failure.

`ensures_inMethod_outside` is the one exception: outside of all classes a method can be entered and
left, but there is nothing to add it to.
-/

namespace ScriptBytecode

/-! ### Outlines -/

/-- An open class without its methods. -/
def ClassScope.outline (c : ClassScope) : ClassScope := { c with methods := [] }

/-- An open class or method without what it gains while it is open. -/
def Frame.outline : Frame → Frame
  | .ofClass c => .ofClass c.outline
  | .ofMethod m => .ofMethod { m with locals := {} }

namespace Scopes

/-- What is open, without what it gains while it is open. -/
def outline (s : Scopes) : List Frame := s.frames.map Frame.outline

variable {s s' : Scopes}

/-- To put other locals changes no outline. -/
@[simp] theorem outline_setLocals (s : Scopes) (l : Locals) :
    (s.setLocals l).outline = s.outline := by
  obtain ⟨frames⟩ := s
  cases frames with
  | nil => rfl
  | cons frame frames => cases frame <;> rfl

/-- Nor does a finished method. -/
@[simp] theorem outline_addMethod (s : Scopes) (m : MethodCode) :
    (s.addMethod m).outline = s.outline := by
  obtain ⟨frames⟩ := s
  show (addMethodTo m frames).map Frame.outline = frames.map Frame.outline
  induction frames with
  | nil => rfl
  | cons frame frames ih =>
    cases frame with
    | ofClass c => rfl
    | ofMethod c => exact congrArg (List.cons _) ih

theorem depth_of_outline (h : s'.outline = s.outline) : s'.depth = s.depth := by
  have := congrArg List.length h
  simpa [outline, depth] using this

/-- The outline of the current class can be told from the outline. -/
theorem currentClass?_outline (s : Scopes) :
    s.currentClass?.map ClassScope.outline = s.outline.findSome? classOf? := by
  obtain ⟨frames⟩ := s
  show (frames.findSome? classOf?).map _ = (frames.map Frame.outline).findSome? classOf?
  induction frames with
  | nil => rfl
  | cons frame frames ih =>
    cases frame with
    | ofClass c => rfl
    | ofMethod c => exact ih

/-- Scopes of the same outline have the same current class, but for its methods. -/
theorem currentClass?_of_outline (h : s'.outline = s.outline) {c : ClassScope}
    (hc : s.currentClass? = some c) : ∃ methods, s'.currentClass? = some { c with methods } := by
  have heq : s'.currentClass?.map ClassScope.outline = some c.outline := by
    rw [currentClass?_outline, h, ← currentClass?_outline, hc]
    rfl
  obtain ⟨c', hc', hout⟩ := Option.map_eq_some_iff.1 heq
  refine ⟨c'.methods, hc'.trans (congrArg some ?_)⟩
  cases c
  cases c'
  cases hout
  rfl

/-- If there is no class in one of them, there is none in the other. -/
theorem currentClass?_eq_none_of_outline (h : s'.outline = s.outline)
    (hc : s.currentClass? = none) : s'.currentClass? = none := by
  have heq : s'.currentClass?.map ClassScope.outline = none := by
    rw [currentClass?_outline, h, ← currentClass?_outline, hc]
    rfl
  exact Option.map_eq_none_iff.1 heq

/-- Whether there is a current instance does not change while a class or method is open. -/
theorem isStatic_of_outline (h : s'.outline = s.outline) : s'.isStatic = s.isStatic := by
  have houtline : ∀ scopes : Scopes, scopes.isStatic = (⟨scopes.outline⟩ : Scopes).isStatic := by
    rintro ⟨frames⟩
    cases frames with
    | nil => rfl
    | cons frame frames => cases frame <;> rfl
  rw [houtline, h, ← houtline]

/-- A frame that is open for a method. -/
def isMethodFrame : Frame → Bool
  | .ofClass _ => false
  | .ofMethod _ => true

/-- A method is current just if the innermost frame is one. -/
theorem isSome_currentMethod? (s : Scopes) :
    s.currentMethod?.isSome = s.outline.head?.any isMethodFrame := by
  obtain ⟨frames⟩ := s
  cases frames with
  | nil => rfl
  | cons frame frames => cases frame <;> rfl

/-- What has the outline of scopes with a class open is such scopes. -/
theorem eq_of_outline_enterClass {c : ClassScope} (h : s'.outline = (s.enterClass c).outline) :
    ∃ methods, ∃ t : Scopes, t.outline = s.outline ∧ s' = t.enterClass { c with methods } := by
  obtain ⟨frames⟩ := s'
  cases frames with
  | nil => cases h
  | cons frame frames =>
    obtain ⟨hframe, hframes⟩ := List.cons.inj h
    cases frame with
    | ofMethod m => cases hframe
    | ofClass c' =>
      refine ⟨c'.methods, { frames }, hframes, ?_⟩
      cases c
      cases c'
      cases hframe
      rfl

/-- What has the outline of scopes with a method open is such scopes. -/
theorem eq_of_outline_enterMethod {m : MethodScope}
    (h : s'.outline = (s.enterMethod m).2.outline) :
    ∃ locals, ∃ t : Scopes, t.outline = s.outline ∧
      s' = (t.enterMethod { m with locals }).2 := by
  obtain ⟨frames⟩ := s'
  cases frames with
  | nil => cases h
  | cons frame frames =>
    obtain ⟨hframe, hframes⟩ := List.cons.inj h
    cases frame with
    | ofClass c => cases hframe
    | ofMethod m' =>
      refine ⟨m'.locals, { frames }, hframes, ?_⟩
      cases m
      cases m'
      cases hframe
      rfl

/-- A method is left with its own handle, whatever has been opened and closed since. -/
theorem leaveMethod_of_outline (h : s'.outline = s.outline) (m : MethodScope) :
    (s'.enterMethod m).2.leaveMethod { depth := s.depth + 1 } = .ok (m, s') := by
  rw [← depth_of_outline h]
  exact leaveMethod_enterMethod s' m

end Scopes

/-! ### Sessions that go on -/

/-- The same classes are known, and the same classes and methods are open. -/
structure Session.Continues (s s' : Session) : Prop where
  classes : s'.classes = s.classes
  outline : s'.scopes.outline = s.scopes.outline

namespace Session.Continues

variable {s s' s'' : Session}

/-- A session continues itself. -/
theorem refl (s : Session) : s.Continues s := ⟨rfl, rfl⟩

/-- What continues twice continues. -/
theorem trans (h : s.Continues s') (h' : s'.Continues s'') : s.Continues s'' :=
  ⟨h'.classes.trans h.classes, h'.outline.trans h.outline⟩

/-- The current class stays current. -/
theorem currentClass? (h : s.Continues s') {c : ClassScope}
    (hc : s.scopes.currentClass? = some c) :
    ∃ methods, s'.scopes.currentClass? = some { c with methods } :=
  Scopes.currentClass?_of_outline h.outline hc

/-- Where a method was open, one still is. -/
theorem currentMethod?_isSome (h : s.Continues s') :
    s.scopes.currentMethod?.isSome = s'.scopes.currentMethod?.isSome := by
  rw [Scopes.isSome_currentMethod?, Scopes.isSome_currentMethod?, h.outline]

/-- To put other locals is to continue. -/
theorem withLocals (h : s.Continues s') (l : Locals) : s.Continues (s'.withLocals l) :=
  ⟨h.classes, (Scopes.outline_setLocals ..).trans h.outline⟩

end Session.Continues

/-! ### Leaving what was entered -/

/-- The session with other scopes. -/
def Session.withScopes (s : Session) (scopes : Scopes) : Session := { s with scopes }

/-- The code of the class that a scope has become. -/
def ClassScope.done (c : ClassScope) : ClassCode :=
  { name := c.cls.name, superclass := c.superclass.name, interfaces := c.interfaces
    methods := c.methods }

/-- The code of the method that a scope has become. -/
def MethodScope.done (m : MethodScope) (code : Code) : MethodCode :=
  { name := m.name, flags := m.flags, params := m.params, returnType := m.returnType
    instructions := code.instructions, maxLocals := m.locals.size, maxStack := code.maxStack }

namespace SessionM

variable {α : Type} {s : Session} {fails : CompileError → Session → Prop}

/-- An action within a class that continues the session leaves the class again. If it succeeds the
class is finished. -/
theorem ensures_inClass {c : ClassScope} {act : SessionM α} {post : α → Session → Prop}
    (h : Ensures act (s.openClass c)
      (fun a s' ↦ (s.openClass c).Continues s' ∧ ∀ (methods : List MethodCode) (t : Scopes),
        t.outline = s.scopes.outline → s'.scopes = t.enterClass { c with methods } →
        post a { s'.withScopes t with
          finished := ClassScope.done { c with methods } :: s'.finished })
      (fun e s' ↦ (s.openClass c).Continues s' ∧ ∀ (methods : List MethodCode) (t : Scopes),
        t.outline = s.scopes.outline → s'.scopes = t.enterClass { c with methods } →
        fails e (s'.withScopes t))) :
    Ensures (inClass c act) s post fails := by
  refine ensures_modify_bind (ensures_attempt_bind (h.mono ?_ ?_))
  · rintro a s' ⟨hcontinues, hpost⟩
    obtain ⟨methods, t, ht, hscopes⟩ := Scopes.eq_of_outline_enterClass hcontinues.outline
    refine ensures_get_bind ?_
    rw [hscopes]
    exact hpost methods t ht hscopes
  · rintro e s' ⟨hcontinues, hfails⟩
    obtain ⟨methods, t, ht, hscopes⟩ := Scopes.eq_of_outline_enterClass hcontinues.outline
    refine ensures_get_bind ?_
    rw [hscopes]
    exact hfails methods t ht hscopes

/-- An action within a method that continues the session leaves the method again. If it succeeds the
method is added to the class around it. -/
theorem ensures_inMethod {m : MethodScope} {act : SessionM Code} {post : Unit → Session → Prop}
    (hclass : s.scopes.currentClass?.isSome = true)
    (h : Ensures act (s.openMethod m).2
      (fun code s' ↦ (s.openMethod m).2.Continues s' ∧ ∀ (locals : Locals) (t : Scopes),
        t.outline = s.scopes.outline → s'.scopes = (t.enterMethod { m with locals }).2 →
        post () (s'.withScopes (t.addMethod (MethodScope.done { m with locals } code))))
      (fun e s' ↦ (s.openMethod m).2.Continues s' ∧ ∀ (locals : Locals) (t : Scopes),
        t.outline = s.scopes.outline → s'.scopes = (t.enterMethod { m with locals }).2 →
        fails e (s'.withScopes t))) :
    Ensures (inMethod m act) s post fails := by
  obtain ⟨c, hc⟩ := Option.isSome_iff_exists.1 hclass
  refine ensures_get_bind (ensures_attempt_bind (h.mono ?_ ?_))
  · rintro code s' ⟨hcontinues, hpost⟩
    obtain ⟨locals, t, ht, hscopes⟩ := Scopes.eq_of_outline_enterMethod hcontinues.outline
    obtain ⟨methods, hcurrent⟩ := Scopes.currentClass?_of_outline ht hc
    refine ensures_get_bind ?_
    rw [hscopes, Scopes.leaveMethod_of_outline ht]
    refine ensures_pure_bind (ensures_modify_bind (ensures_pure_bind ?_))
    dsimp only
    rw [hcurrent]
    exact hpost locals t ht hscopes
  · rintro e s' ⟨hcontinues, hfails⟩
    obtain ⟨locals, t, ht, hscopes⟩ := Scopes.eq_of_outline_enterMethod hcontinues.outline
    refine ensures_get_bind ?_
    rw [hscopes, Scopes.leaveMethod_of_outline ht]
    exact hfails locals t ht hscopes

/-- Outside of all classes a method is left as well, and then fails, since there is no class that it
could be added to. -/
theorem ensures_inMethod_outside {m : MethodScope} {act : SessionM Code}
    {post : Unit → Session → Prop} (hclass : s.scopes.currentClass? = none)
    (h : Ensures act (s.openMethod m).2
      (fun _ s' ↦ (s.openMethod m).2.Continues s' ∧ ∀ (locals : Locals) (t : Scopes),
        t.outline = s.scopes.outline → s'.scopes = (t.enterMethod { m with locals }).2 →
        fails (.internal (.methodOutsideClass m.name)) (s'.withScopes t))
      (fun e s' ↦ (s.openMethod m).2.Continues s' ∧ ∀ (locals : Locals) (t : Scopes),
        t.outline = s.scopes.outline → s'.scopes = (t.enterMethod { m with locals }).2 →
        fails e (s'.withScopes t))) :
    Ensures (inMethod m act) s post fails := by
  refine ensures_get_bind (ensures_attempt_bind (h.mono ?_ ?_))
  · rintro code s' ⟨hcontinues, hfails⟩
    obtain ⟨locals, t, ht, hscopes⟩ := Scopes.eq_of_outline_enterMethod hcontinues.outline
    refine ensures_get_bind ?_
    rw [hscopes, Scopes.leaveMethod_of_outline ht]
    refine ensures_pure_bind (ensures_modify_bind (ensures_pure_bind ?_))
    dsimp only
    rw [Scopes.currentClass?_eq_none_of_outline ht hclass]
    exact hfails locals t ht hscopes
  · rintro e s' ⟨hcontinues, hfails⟩
    obtain ⟨locals, t, ht, hscopes⟩ := Scopes.eq_of_outline_enterMethod hcontinues.outline
    refine ensures_get_bind ?_
    rw [hscopes, Scopes.leaveMethod_of_outline ht]
    exact hfails locals t ht hscopes

/-! ### Runs that succeed -/

/-- If what is done in a class fails, so does the whole. -/
theorem inClass_error {c : ClassScope} {act : SessionM α} {e : CompileError} {s' : Session}
    (h : act (s.openClass c) = .error e s') : ∃ e' s'', inClass c act s = .error e' s'' := by
  have hrun : Ensures (inClass c act) s (fun _ _ ↦ False) fun _ _ ↦ True := by
    refine ensures_modify_bind (ensures_attempt_bind (ensures_of_error h ?_))
    refine ensures_get_bind ?_
    cases s'.scopes.leaveClass with
    | ok left => exact ensures_pure_bind (ensures_modify_bind (ensures_throw_bind trivial))
    | error fault => exact ensures_throw_bind trivial
  cases hinClass : inClass c act s with
  | ok a s'' => exact (hrun.of_ok hinClass).elim
  | error e' s'' => exact ⟨e', s'', rfl⟩

/-- If the code of a method fails, so does the whole. -/
theorem inMethod_error {m : MethodScope} {act : SessionM Code} {e : CompileError} {s' : Session}
    (h : act (s.openMethod m).2 = .error e s') : ∃ e' s'', inMethod m act s = .error e' s'' := by
  have hrun : Ensures (inMethod m act) s (fun _ _ ↦ False) fun _ _ ↦ True := by
    refine ensures_get_bind (ensures_attempt_bind (ensures_of_error h ?_))
    refine ensures_get_bind ?_
    cases s'.scopes.leaveMethod { depth := s.scopes.depth + 1 } with
    | ok left => exact ensures_pure_bind (ensures_modify_bind (ensures_throw_bind trivial))
    | error fault => exact ensures_throw_bind trivial
  cases hinMethod : inMethod m act s with
  | ok a s'' => exact (hrun.of_ok hinMethod).elim
  | error e' s'' => exact ⟨e', s'', rfl⟩

/-- As `ensures_inClass`, where nothing is said of failures. -/
theorem yields_inClass {c : ClassScope} {act : SessionM α} {post : α → Session → Prop}
    (h : Yields act (s.openClass c)
      fun a s' ↦ (s.openClass c).Continues s' ∧ ∀ (methods : List MethodCode) (t : Scopes),
        t.outline = s.scopes.outline → s'.scopes = t.enterClass { c with methods } →
        post a { s'.withScopes t with
          finished := ClassScope.done { c with methods } :: s'.finished }) :
    Yields (inClass c act) s post := by
  cases hrun : act (s.openClass c) with
  | ok a s' =>
    exact ensures_inClass (ensures_of_ok hrun (h.of_ok hrun))
  | error e s' =>
    obtain ⟨e', s'', herror⟩ := inClass_error hrun
    exact ensures_of_error herror trivial

/-- As `ensures_inMethod`, where nothing is said of failures. -/
theorem yields_inMethod {m : MethodScope} {act : SessionM Code} {post : Unit → Session → Prop}
    (hclass : s.scopes.currentClass?.isSome = true)
    (h : Yields act (s.openMethod m).2
      fun code s' ↦ (s.openMethod m).2.Continues s' ∧ ∀ (locals : Locals) (t : Scopes),
        t.outline = s.scopes.outline → s'.scopes = (t.enterMethod { m with locals }).2 →
        post () (s'.withScopes (t.addMethod (MethodScope.done { m with locals } code)))) :
    Yields (inMethod m act) s post := by
  cases hrun : act (s.openMethod m).2 with
  | ok code s' =>
    exact ensures_inMethod hclass (ensures_of_ok hrun (h.of_ok hrun))
  | error e s' =>
    obtain ⟨e', s'', herror⟩ := inMethod_error hrun
    exact ensures_of_error herror trivial

/-! ### The method of a script -/

/-- The method that runs a script. -/
def mainScope : MethodScope where
  name := mainName
  params := [mainArgs]
  flags := { isStatic := true }

/-- Compiles the method that runs a script. -/
def defineMain (body : Node) (span : Span) : SessionM Unit :=
  inMethod mainScope do
    declareParam "args" mainArgs span
    Gen.assemble do
      let _ ← Gen.node body .discard
      Gen.emit .returnVoid

end SessionM

end ScriptBytecode

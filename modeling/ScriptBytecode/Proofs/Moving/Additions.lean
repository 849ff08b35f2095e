import ScriptBytecode.Proofs.Discipline.Readings

/-!
# What definitions add

Compiling a definition only ever adds to a session: methods to the class around the definition, and
classes of their own. These are its `Additions`. They do not depend on what the session had before,
and nothing that is read from a session depends on them; so definitions do not disturb one another,
nor the method that they stand in.

`Session.adds` makes additions, and the lemmas on it (`adds_adds`, `adds_withLocals`,
`continues_adds`, `readsAlike_adds`) say that they compose and that nothing else notices.

The three parts of `Additions` are all that a later action could meet of what was compiled before:
the methods of the class that is open, the names of the classes that were entered, and the classes
that were finished. That none of the readings by which compilation looks at a session depends on
them is what makes them harmless.

What is added within a method or a class is carried outwards when that is left (`inMethod_adds`,
`inClass_adds`), so additions need never be compared at different depths.
-/

namespace ScriptBytecode

/-! ### Additions -/

/-- What is added to a session. -/
structure Additions where
  /-- Methods of the innermost open class, in order. -/
  methods : List MethodCode := []
  /-- The names of classes entered, in order. -/
  entered : List String := []
  /-- The classes finished, the latest first. -/
  finished : List ClassCode := []

namespace Additions

/-- One addition after another. -/
def append (d d' : Additions) : Additions where
  methods := d.methods ++ d'.methods
  entered := d.entered ++ d'.entered
  finished := d'.finished ++ d.finished

instance : Append Additions := ⟨append⟩

@[simp] theorem methods_append (d d' : Additions) :
    (d ++ d').methods = d.methods ++ d'.methods := rfl

@[simp] theorem entered_append (d d' : Additions) :
    (d ++ d').entered = d.entered ++ d'.entered := rfl

@[simp] theorem finished_append (d d' : Additions) :
    (d ++ d').finished = d'.finished ++ d.finished := rfl

end Additions

namespace Scopes

/-- Adds finished methods to the innermost open class. -/
def addMethods (s : Scopes) (ms : List MethodCode) : Scopes := ms.foldl addMethod s

/-- Methods are added one after another. -/
theorem addMethods_append (s : Scopes) (ms ms' : List MethodCode) :
    s.addMethods (ms ++ ms') = (s.addMethods ms).addMethods ms' :=
  List.foldl_append

/-- Methods that are added change no outline. -/
@[simp] theorem outline_addMethods (s : Scopes) (ms : List MethodCode) :
    (s.addMethods ms).outline = s.outline := by
  induction ms generalizing s with
  | nil => rfl
  | cons m ms ih => exact (ih _).trans (outline_addMethod s m)

/-- The method that is open stays as it is. -/
@[simp] theorem currentMethod?_addMethods (s : Scopes) (ms : List MethodCode) :
    (s.addMethods ms).currentMethod? = s.currentMethod? := by
  induction ms generalizing s with
  | nil => rfl
  | cons m ms ih =>
    refine (ih _).trans ?_
    obtain ⟨frames⟩ := s
    cases frames with
    | nil => rfl
    | cons frame frames => cases frame <;> rfl

/-- Methods and locals do not interfere. -/
theorem addMethods_setLocals (s : Scopes) (ms : List MethodCode) (l : Locals) :
    (s.setLocals l).addMethods ms = (s.addMethods ms).setLocals l := by
  have hone : ∀ (s : Scopes) (m : MethodCode),
      (s.setLocals l).addMethod m = (s.addMethod m).setLocals l := by
    rintro ⟨frames⟩ m
    cases frames with
    | nil => rfl
    | cons frame frames => cases frame <;> rfl
  induction ms generalizing s with
  | nil => rfl
  | cons m ms ih =>
    show ((s.setLocals l).addMethod m).addMethods ms = _
    rw [hone]
    exact ih _

/-- Within a method, methods are added to the class around it. -/
theorem addMethods_enterMethod (s : Scopes) (m : MethodScope) (ms : List MethodCode) :
    (s.enterMethod m).2.addMethods ms = ((s.addMethods ms).enterMethod m).2 := by
  induction ms generalizing s with
  | nil => rfl
  | cons m' ms ih => exact ih (s.addMethod m')

/-- Methods are added to the innermost class. -/
theorem addMethods_enterClass (s : Scopes) (c : ClassScope) (ms : List MethodCode) :
    (s.enterClass c).addMethods ms = s.enterClass { c with methods := c.methods ++ ms } := by
  induction ms generalizing c with
  | nil => exact congrArg (fun methods ↦ s.enterClass { c with methods }) (List.append_nil _).symm
  | cons m ms ih =>
    refine (ih { c with methods := c.methods ++ [m] }).trans ?_
    exact congrArg (fun methods ↦ s.enterClass { c with methods }) (List.append_cons ..).symm

end Scopes

namespace Session

/-- The session with the additions. -/
def adds (s : Session) (d : Additions) : Session :=
  { s with
    scopes := s.scopes.addMethods d.methods
    entered := s.entered ++ d.entered
    finished := d.finished ++ s.finished }

@[simp] theorem adds_nothing (s : Session) : s.adds {} = s := by
  simp [adds, Scopes.addMethods]

/-- Additions can be made in two parts. -/
theorem adds_adds (s : Session) (d d' : Additions) : (s.adds d).adds d' = s.adds (d ++ d') := by
  simp [adds, Scopes.addMethods_append]

/-- Additions and locals do not interfere. -/
theorem adds_withLocals (s : Session) (d : Additions) (l : Locals) :
    (s.withLocals l).adds d = (s.adds d).withLocals l := by
  simp [adds, withLocals, Scopes.addMethods_setLocals]

/-- To add to a session is to continue it. -/
theorem continues_adds (s : Session) (d : Additions) : s.Continues (s.adds d) :=
  ⟨rfl, Scopes.outline_addMethods ..⟩

/-! ### Alike sessions -/

namespace ReadsAlike

variable {s s' s'' : Session}

theorem refl (s : Session) : s.ReadsAlike s :=
  ⟨fun _ ↦ rfl, fun _ ↦ rfl, fun _ _ ↦ rfl, fun _ _ _ _ _ ↦ ⟨rfl, rfl⟩, rfl, rfl⟩

theorem symm (h : s.ReadsAlike s') : s'.ReadsAlike s where
  types type := (h.types type).symm
  classRef? name := (h.classRef? name).symm
  conversion? source target := (h.conversion? source target).symm
  resolve cls name args isStatic span :=
    have hresolve := h.resolve cls name args isStatic span
    ⟨hresolve.member.symm, hresolve.notApplicable.symm⟩
  outline := h.outline.symm
  epilogue := h.epilogue.symm

theorem trans (h : s.ReadsAlike s') (h' : s'.ReadsAlike s'') : s.ReadsAlike s'' where
  types type := (h.types type).trans (h'.types type)
  classRef? name := (h.classRef? name).trans (h'.classRef? name)
  conversion? source target := (h.conversion? source target).trans (h'.conversion? source target)
  resolve cls name args isStatic span :=
    have hfirst := h.resolve cls name args isStatic span
    have hsecond := h'.resolve cls name args isStatic span
    ⟨hfirst.member.trans hsecond.member, hfirst.notApplicable.trans hsecond.notApplicable⟩
  outline := h.outline.trans h'.outline
  epilogue := h.epilogue.trans h'.epilogue

/-- Sessions that are alike stay so if the same is opened in them. -/
theorem withScopes (h : s.ReadsAlike s') {t t' : Scopes} (ht : t.outline = t'.outline) :
    (s.withScopes t).ReadsAlike (s'.withScopes t') :=
  ⟨h.types, h.classRef?, h.conversion?, h.resolve, ht, h.epilogue⟩

/-- Sessions that are read alike still are when both open the same method, -/
theorem openMethod (h : s.ReadsAlike s') (m : MethodScope) :
    (s.openMethod m).2.ReadsAlike (s'.openMethod m).2 :=
  h.withScopes (congrArg (_ :: ·) h.outline)

/-- or the same class, -/
theorem openClass (h : s.ReadsAlike s') (c : ClassScope) :
    (s.openClass c).ReadsAlike (s'.openClass c) :=
  ⟨h.types, h.classRef?, h.conversion?, h.resolve, congrArg (_ :: ·) h.outline, h.epilogue⟩

/-- or have the same locals. -/
theorem withLocals (h : s.ReadsAlike s') (l : Locals) :
    (s.withLocals l).ReadsAlike (s'.withLocals l) :=
  h.withScopes (by simp [h.outline])

end ReadsAlike

/-- What is read from a session does not depend on additions. -/
theorem readsAlike_adds (s : Session) (d : Additions) : s.ReadsAlike (s.adds d) :=
  ⟨fun _ ↦ rfl, fun _ ↦ rfl, fun _ _ ↦ rfl, fun _ _ _ _ _ ↦ ⟨rfl, rfl⟩,
    (Scopes.outline_addMethods ..).symm, rfl⟩

end Session

/-! ### Within methods and classes -/

namespace SessionM

variable {α : Type} {s : Session} {d : Additions}

/-- What is added within a method is added around it, and then the method is. -/
theorem inMethod_adds {m : MethodScope} {act : SessionM Code} {code : Code} {l : Locals}
    (hclass : s.scopes.currentClass?.isSome = true)
    (h : act (s.openMethod m).2 = .ok code (((s.openMethod m).2.adds d).withLocals l)) :
    inMethod m act s =
      .ok () (s.adds (d ++ { methods := [MethodScope.done { m with locals := l } code] })) := by
  have hopen : (((s.openMethod m).2.adds d).withLocals l).scopes =
      ((s.scopes.addMethods d.methods).enterMethod { m with locals := l }).2 :=
    congrArg (·.setLocals l) (Scopes.addMethods_enterMethod ..)
  refine (ensures_inMethod hclass (ensures_of_ok h ⟨?_, fun locals t _ hscopes ↦ ?_⟩)).eq_ok
  · exact (Session.continues_adds ..).withLocals l
  · obtain ⟨hframe, hframes⟩ := List.cons.inj (congrArg Scopes.frames (hopen.symm.trans hscopes))
    have ht : t = s.scopes.addMethods d.methods := congrArg Scopes.mk hframes.symm
    rw [← Frame.ofMethod.inj hframe, ht, ← Session.adds_adds]
    refine ⟨rfl, ?_⟩
    simp [Session.adds, Session.withScopes, Session.withLocals, Session.openMethod,
      Scopes.addMethods]

/-- If a method was compiled, so was its code. -/
theorem ok_of_inMethod {m : MethodScope} {act : SessionM Code} {u : Session}
    (h : inMethod m act s = .ok () u) : ∃ code s', act (s.openMethod m).2 = .ok code s' := by
  cases hact : act (s.openMethod m).2 with
  | ok code s' => exact ⟨code, s', rfl⟩
  | error e s' =>
    obtain ⟨e', s'', herror⟩ := inMethod_error hact
    rw [herror] at h
    cases h

/-- What is added within a class comes to be in the class or stands beside it. -/
theorem inClass_adds {c : ClassScope} {act : SessionM α} {a : α}
    (h : act (s.openClass c) = .ok a ((s.openClass c).adds d)) :
    inClass c act s = .ok a (s.adds
      { entered := c.cls.name :: d.entered
        finished := ClassScope.done { c with methods := c.methods ++ d.methods } ::
          d.finished }) := by
  have hopen : ((s.openClass c).adds d).scopes =
      s.scopes.enterClass { c with methods := c.methods ++ d.methods } :=
    Scopes.addMethods_enterClass ..
  refine (ensures_inClass (ensures_of_ok h ⟨?_, fun methods t _ hscopes ↦ ?_⟩)).eq_ok
  · exact Session.continues_adds ..
  · obtain ⟨hframe, hframes⟩ := List.cons.inj (congrArg Scopes.frames (hopen.symm.trans hscopes))
    have ht : t = s.scopes := congrArg Scopes.mk hframes.symm
    rw [← Frame.ofClass.inj hframe, ht]
    refine ⟨rfl, ?_⟩
    simp [Session.adds, Session.withScopes, Session.openClass, Scopes.addMethods]

/-- If a class was compiled, so was what is in it. -/
theorem ok_of_inClass {c : ClassScope} {act : SessionM α} {a : α} {u : Session}
    (h : inClass c act s = .ok a u) : ∃ b s', act (s.openClass c) = .ok b s' := by
  cases hact : act (s.openClass c) with
  | ok b s' => exact ⟨b, s', rfl⟩
  | error e s' =>
    obtain ⟨e', s'', herror⟩ := inClass_error hact
    rw [herror] at h
    cases h

end SessionM

end ScriptBytecode

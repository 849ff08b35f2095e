import ScriptBytecode.Proofs.Defined.Units

/-!
# The methods of a session

While a program is compiled, methods are finished one after another and become part of the class
that they stand in; classes are finished and become part of the unit. A property that each method
has as it is finished is therefore one of all methods of the unit.

`Session.codes` has the classes that are open beside those that are finished, each with the methods
that it has so far. So a method keeps its place in the list from the moment that it is finished,
when its class is left and becomes part of the unit; nothing is ever taken out again.
-/

namespace ScriptBytecode

/-- The class that a frame is going to be, with the methods it has so far. -/
def Frame.code? : Frame → Option ClassCode
  | .ofClass c => some c.done
  | .ofMethod _ => none

/-- The classes of a session, open and finished. -/
def Session.codes (s : Session) : List ClassCode :=
  s.scopes.frames.filterMap Frame.code? ++ s.finished

/-- All methods of the classes have a property, which may depend on the name of the class. -/
def EveryMethod (p : String → MethodCode → Prop) (codes : List ClassCode) : Prop :=
  ∀ c ∈ codes, ∀ m ∈ c.methods, p c.name m

namespace EveryMethod

variable {p : String → MethodCode → Prop} {s : Session} {scopes : Scopes} {c : ClassScope}

/-- What is one of all methods is one of the methods of fewer classes. -/
theorem subset {codes codes' : List ClassCode} (h : EveryMethod p codes) (hsub : codes' ⊆ codes) :
    EveryMethod p codes' :=
  fun c hc ↦ h c (hsub hc)

/-- To put other locals finishes no method. -/
theorem withLocals (h : EveryMethod p s.codes) (l : Locals) :
    EveryMethod p (s.withLocals l).codes := by
  obtain ⟨classes, types, ⟨frames⟩, options, entered, finished⟩ := s
  cases frames with
  | nil => exact h
  | cons frame frames => cases frame <;> exact h

/-- A method is added to the innermost class. -/
theorem addMethod {finished : List ClassCode} {m : MethodCode}
    (h : EveryMethod p (scopes.frames.filterMap Frame.code? ++ finished))
    (hc : scopes.currentClass? = some c) (hm : p c.cls.name m) :
    EveryMethod p ((scopes.addMethod m).frames.filterMap Frame.code? ++ finished) := by
  obtain ⟨frames⟩ := scopes
  show EveryMethod p ((Scopes.addMethodTo m frames).filterMap Frame.code? ++ finished)
  change frames.findSome? Scopes.classOf? = some c at hc
  induction frames with
  | nil => cases hc
  | cons frame frames ih =>
    cases frame with
    | ofMethod scope => exact ih h hc
    | ofClass scope =>
      obtain rfl := Option.some.inj hc
      intro code hcode
      obtain rfl | hcode := List.mem_cons.1 hcode
      · intro m' hm'
        obtain hm' | hm' := List.mem_append.1 hm'
        · exact h _ (List.mem_cons_self ..) m' hm'
        · obtain rfl := List.mem_singleton.1 hm'
          exact hm
      · exact h code (List.mem_cons_of_mem _ hcode)

/-- A method that is left becomes part of the class that it stands in. -/
theorem leaveMethod (h : EveryMethod p s.codes) {m : MethodScope}
    (hleft : s.scopes = (scopes.enterMethod m).2) (hc : scopes.currentClass? = some c) {code : Code}
    (hm : p c.cls.name (m.done code)) :
    EveryMethod p (s.withScopes (scopes.addMethod (m.done code))).codes := by
  have hcodes : s.codes = scopes.frames.filterMap Frame.code? ++ s.finished := by
    unfold Session.codes
    rw [hleft]
    rfl
  rw [hcodes] at h
  exact h.addMethod hc hm

/-- To open a class finishes no method. -/
theorem openClass (h : EveryMethod p s.codes) (hc : c.methods = []) :
    EveryMethod p (s.openClass c).codes := by
  intro code hcode
  obtain rfl | hcode := List.mem_cons.1 hcode
  · intro m hm
    change m ∈ c.methods at hm
    rw [hc] at hm
    cases hm
  · exact h code hcode

/-- A class that is left becomes part of the unit. -/
theorem leaveClass (h : EveryMethod p s.codes) (hleft : s.scopes = scopes.enterClass c) :
    EveryMethod p
      ({ s.withScopes scopes with finished := c.done :: s.finished } : Session).codes := by
  have hcodes : s.codes = c.done :: (scopes.frames.filterMap Frame.code? ++ s.finished) := by
    unfold Session.codes
    rw [hleft]
    rfl
  rw [hcodes] at h
  exact h.subset fun code hcode ↦ List.perm_middle.mem_iff.1 hcode

end EveryMethod

/-- What is finished is the code that was emitted. -/
theorem Assembler.instructions_of_finish {a : Assembler} {code : Code} (h : a.finish = .ok code) :
    code.instructions = a.code := by
  obtain ⟨-, -, rfl⟩ := of_finish_eq_ok h
  rfl

/-- A unit has methods with a property if compiling its script adds only such methods. -/
theorem SessionM.Made.everyMethod {c : Compiler} {script : Script} {count : DeclarationCount}
    {s s' : Session} {unit : UnitCode} (hmade : Made c script count s s' unit)
    {p : String → MethodCode → Prop}
    (h : EveryMethod p s.codes →
      Yields (compileScript script) s fun _ s' ↦ EveryMethod p s'.codes) :
    EveryMethod p unit.classes := by
  have hnone : EveryMethod p s.codes := by
    unfold Session.codes
    rw [hmade.declared.scopes, hmade.declared.finished]
    exact nofun
  refine EveryMethod.subset ?_ hmade.classes.2.subset
  exact ((h hnone).of_ok hmade.compiles).subset (List.subset_append_right ..)

end ScriptBytecode

import ScriptBytecode.Proofs.Moving.Scripts
import ScriptBytecode.Proofs.Recast.Epilogues

/-!
# Units with the other epilogue

Declaring a script never asks how methods end, so a script is declared with either epilogue or with
neither. From there on the compilation with the legacy epilogue is the recast one with the corrected
epilogue, and its unit is the recast unit.

* `Indifferent` says of an action that it never asks how methods end (`indifferent_script`);
* `Compiler.compile_legacy` compares the two compilations.

**One hypothesis.** The constructors of the known classes have no result. Calling one that has would
leave a value on the stack that nobody takes. Only without such calls is it known that at the end of
a body there is its result and nothing else, in whose place the receiver can be loaded. All
constructors that a script defines are without a result.

The comparison includes failures: if a script does not compile with one epilogue, it does not with
the other, and the error is the same one, at the same place.
-/

namespace ScriptBytecode

open Recast

/-! ### Declaring -/

namespace SessionM

/-- An action carries the change of the epilogue if it is the same with either. -/
abbrev Indifferent {α : Type} (act : SessionM α) : Prop :=
  (legacy fun _ ↦ True).OnSession act fun _ ↦ True

/-- Adding to the known classes has nothing to do with the epilogue. -/
theorem indifferent_updateClasses
    (update : ClassTable → Except RegistrationError ClassTable) (span : Span) : Indifferent (do
      let s ← get
      let classes ← ofExcept ((update s.classes).mapError (CompileError.ofRegistration span))
      set { s with classes }) := by
  refine ⟨fun {s} _ ↦ ⟨?_, ?_⟩⟩
  · let known : Session → SessionM PUnit := fun s ↦ do
      let classes ← ofExcept ((update s.classes).mapError (CompileError.ofRegistration span))
      set { s with classes }
    show known ((legacy fun _ ↦ True).session s) ((legacy fun _ ↦ True).session s) =
      changed _ (known s s)
    have hclasses : ((legacy fun _ ↦ True).session s).classes = s.classes := rfl
    dsimp only [known]
    rw [hclasses]
    cases update s.classes <;> rfl
  · exact (yields_iff.2 fun _ _ _ ↦ ⟨trivial, trivial⟩)

theorem indifferent_addClass (e : ClassEntry) (span : Span) : Indifferent (addClass e span) :=
  indifferent_updateClasses (·.register e) span

theorem indifferent_addMember (m : Member) (span : Span) : Indifferent (addMember m span) :=
  indifferent_updateClasses (·.addMember m) span

/-- An import never asks how methods end, -/
theorem indifferent_import (d : Declaration) : Indifferent (declareImport d) := by
  cases d with
  | importDecl full asName span =>
    exact (faithful_legacy.onSession_importClass rfl (simpleName full) asName span).bind
      fun _ _ ↦ .pure trivial
  | _ => exact .pure trivial

/-- nor does the declaration of a class -/
theorem indifferent_class (d : Declaration) : Indifferent (declareClass d) := by
  have h := faithful_legacy
  cases d with
  | classDecl name superclass interfaces span =>
    have hrest : ∀ superclass : ClassRef, Indifferent (do
        let interfaces ← supertypesOf span interfaces
        addClass
          { cls := { name }, superclass := some superclass.name
            interfaces := interfaces.map (·.name) } span) := fun superclass ↦
      (h.supertypesOf (fun _ _ ↦ rfl) span).bind fun _ _ ↦ indifferent_addClass _ span
    cases superclass with
    | none => exact hrest .root
    | some superclass => exact (h.supertypeOf rfl span).onSession.bind fun c _ ↦ hrest c
  | _ => exact .pure trivial

/-- or of a method. -/
theorem indifferent_method (d : Declaration) : Indifferent (declareMethod d) := by
  have h := faithful_legacy
  cases d with
  | methodDecl owner name params returnType isStatic span =>
    refine (h.paramTypes fun _ _ _ _ ↦ rfl).onSession.bind fun params _ ↦ ?_
    refine (h.typeOf span fun _ _ ↦ rfl).onSession.bind fun returnType _ ↦ ?_
    exact indifferent_addMember _ span
  | _ => exact .pure trivial

theorem indifferent_constructor (d : Declaration) : Indifferent (declareConstructor d) := by
  cases d with
  | constructorDecl owner params span =>
    refine (faithful_legacy.paramTypes fun _ _ _ _ ↦ rfl).onSession.bind fun params _ ↦ ?_
    exact indifferent_addMember _ span
  | _ => exact .pure trivial

theorem indifferent_defaultConstructor (owners : List String) (d : Declaration) :
    Indifferent (declareDefaultConstructor owners d) := by
  cases d with
  | classDecl name superclass interfaces span =>
    exact .ite (fun _ ↦ .pure trivial) fun _ ↦ indifferent_addMember _ span
  | _ => exact .pure trivial

theorem indifferent_nameClass (name : String) : Indifferent (nameClass name) :=
  ⟨fun _ ↦ ⟨rfl, trivial, trivial⟩⟩

/-- Declaring a script has nothing to do with the epilogue. -/
theorem indifferent_script (script : Script) : Indifferent (declareScript script) := by
  refine ⟨fun {s} hs ↦ .get_bind rfl ?_⟩
  refine (Carries.bind (.forM fun pair _ ↦ ?_) fun _ _ ↦ ?_).run hs
  · exact (faithful_legacy.onSession_importClass rfl pair.1 none .unknown).bind
      fun _ _ ↦ .pure trivial
  refine (indifferent_nameClass script.name).bind fun _ _ ↦ ?_
  refine (Carries.forM fun name _ ↦ indifferent_nameClass name).bind fun _ _ ↦ ?_
  refine (Carries.forM fun d _ ↦ indifferent_import d).bind fun _ _ ↦ ?_
  refine (indifferent_addClass _ script.span).bind fun _ _ ↦ ?_
  refine (Carries.forM fun d _ ↦ indifferent_class d).bind fun _ _ ↦ ?_
  refine (indifferent_addMember _ script.span).bind fun _ _ ↦ ?_
  refine (Carries.forM fun d _ ↦ indifferent_method d).bind fun _ _ ↦ ?_
  refine (Carries.forM fun d _ ↦ indifferent_constructor d).bind fun _ _ ↦ ?_
  refine (indifferent_addMember _ script.span).bind fun _ _ ↦ ?_
  exact (Carries.forM fun d _ ↦ indifferent_defaultConstructor _ d).bind fun _ _ ↦ .pure trivial

end SessionM

/-! ### Compilations -/

namespace SessionM

/-- What is left of compiling a unit once its session has been made. -/
theorem compileUnit_eq (script : Script) : compileUnit script = (do
    (do let _ ← declareScript script
        compileScript script)
    ofFault (← get).finish) := by
  simp only [compileUnit, bind_assoc]

theorem finish_eq_of_ok {s : Session} {unit : UnitCode} (h : s.finish = .ok unit) :
    (do ofFault (← get).finish : SessionM UnitCode) s = .ok unit s := by
  show ofFault s.finish s = _
  rw [h]
  rfl

theorem finish_eq_of_error {s : Session} {fault : Fault} (h : s.finish = .error fault) :
    (do ofFault (← get).finish : SessionM UnitCode) s = .error (.internal fault) s := by
  show ofFault s.finish s = _
  rw [h]
  rfl

variable {c : Compiler}

/-- A script is declared and compiled with the legacy epilogue as it is otherwise. -/
theorem mirrors_script (hvoid : c.classes.VoidConstructors) (script : Script) :
    Mirrors (legacy Session.Corrects).session (do
      let _ ← declareScript script
      compileScript script) (c.withEpilogue .corrected).start
      fun _ s ↦ s.Corrects := by
  have hdeclares : Mirrors (legacy Session.Corrects).session (declareScript script)
      (c.withEpilogue .corrected).start fun _ s ↦ s.Corrects := by
    refine ⟨((indifferent_script script).run trivial).same, ?_⟩
    refine ((declares_script script).run (c.withEpilogue .corrected).start).mono
      (fun _ s hs ↦ ?_) fun _ _ _ ↦ trivial
    refine ⟨.of_nothing hs.scopes hs.finished (hs.constructors hvoid), ?_, ?_⟩
    · rw [hs.options]
      rfl
    · unfold Session.codes
      rw [hs.scopes, hs.finished]
      intro cls hcls
      cases hcls
  refine hdeclares.bind fun _ s hs ↦ ?_
  have hnames : script.body.all (Node.names (legacy Session.Corrects).allows) = true := by
    refine Node.all_of_forall (fun n ↦ ?_) script.body
    exact List.all_eq_true.2 fun _ _ ↦ rfl
  exact ((faithful_legacy_corrects.compileScript defines_legacy rfl hnames).run hs).imp
    fun _ _ hs' ↦ hs'.2

end SessionM

namespace Compiler

variable {c : Compiler}

/-- The unit of a session that compiles with the corrected epilogue has methods that return what
they answer. -/
theorem returnsLast_of_finish {s : Session} (h : s.Corrects) {unit : UnitCode}
    (hunit : s.finish = .ok unit) : ∀ cls ∈ unit.classes, ∀ m ∈ cls.methods, m.ReturnsLast :=
  fun cls hcls m hm ↦
    h.methods cls (List.mem_append_right _ (Session.finished_of_finish hunit hcls)) m hm

/-- Over classes whose constructors have no result, a script compiles with the legacy epilogue if it
compiles with the corrected one, and fails with the same error otherwise. The units are the same but
for the instance methods whose result is a reference: where they return the value of their body as
the last thing they do, they drop it and return their receiver instead. -/
theorem compile_legacy (c : Compiler) (hvoid : c.classes.VoidConstructors) (root : Node) :
    (c.withEpilogue .legacy).compile root =
      ((c.withEpilogue .corrected).compile root).map UnitCode.legacy ∧
    ∀ unit, (c.withEpilogue .corrected).compile root = .ok unit →
      ∀ cls ∈ unit.classes, ∀ m ∈ cls.methods, m.ReturnsLast := by
  unfold compile
  cases root.script? with
  | none => exact ⟨rfl, fun _ h ↦ by cases h⟩
  | some script =>
    have h := SessionM.mirrors_script hvoid script
    have hstart : (c.withEpilogue .legacy).start =
        (legacy Session.Corrects).session (c.withEpilogue .corrected).start := rfl
    dsimp only
    rw [SessionM.compileUnit_eq, hstart]
    -- the run with the legacy epilogue is the changed run, also where it fails
    cases hrun : (do
        let _ ← SessionM.declareScript script
        SessionM.compileScript script) (c.withEpilogue .corrected).start with
    | error e s =>
      have hrun' := h.same.trans (congrArg (changed _) hrun)
      rw [bind_eq_of_error hrun, bind_eq_of_error hrun']
      exact ⟨rfl, fun _ h ↦ by cases h⟩
    | ok a s =>
      have hrun' := h.same.trans (congrArg (changed _) hrun)
      rw [bind_eq_of_ok hrun, bind_eq_of_ok hrun']
      have hs : s.Corrects := h.yields.of_ok hrun
      have hfinish : ((legacy Session.Corrects).session s).finish = s.finish.map UnitCode.legacy :=
        (legacy Session.Corrects).finish_session s
      cases hunit : s.finish with
      | error fault =>
        rw [hunit] at hfinish
        rw [SessionM.finish_eq_of_error hunit, SessionM.finish_eq_of_error hfinish]
        exact ⟨rfl, fun _ h ↦ by cases h⟩
      | ok unit =>
        rw [hunit] at hfinish
        rw [SessionM.finish_eq_of_ok hunit, SessionM.finish_eq_of_ok hfinish]
        refine ⟨rfl, fun unit' h ↦ ?_⟩
        obtain rfl := Except.ok.inj h
        exact returnsLast_of_finish hs hunit

/-- A script with a class whose objects are asked for a string. -/
def answering : Node :=
  .script "Answering" (.sequence
    [.classDef "Box" none [] [.methodDef "label" [] (.named "string") (.string "box") false {}] {}])
    {}

/-- Its units differ, in that method only. -/
theorem compile_legacy_answering : ∃ unit,
    (({} : Compiler).withEpilogue .corrected).compile answering = .ok unit ∧
    (({} : Compiler).withEpilogue .legacy).compile answering = .ok unit.legacy ∧
    (∀ cls ∈ unit.classes, ∀ m ∈ cls.methods, m.ReturnsLast) ∧ unit.legacy ≠ unit := by
  have hvoid : ({} : Compiler).classes.VoidConstructors := by
    dsimp only
    exact ClassTable.voidConstructors_standard
  have hcompiles : ((({} : Compiler).withEpilogue .corrected).compile answering).toOption.any
      (fun unit ↦ unit.legacy ≠ unit) = true := by
    decide +kernel
  obtain ⟨hlegacy, hlast⟩ := compile_legacy {} hvoid answering
  obtain ⟨unit, hunit, hdiffers⟩ := exists_eq_ok_of_any hcompiles
  rw [hunit] at hlegacy
  exact ⟨unit, hunit, hlegacy, hlast unit hunit, of_decide_eq_true hdiffers⟩

end Compiler

end ScriptBytecode

import ScriptBytecode.Compile.Compiler
import ScriptBytecode.Proofs.Declaring
import ScriptBytecode.Proofs.Stack.Nodes

/-!
# Verified units

A compilation starts from a session in which nothing is open or finished. Declaring a script keeps
it so, and compiling the script keeps it good; so all code that ends up in the unit is verified.

* `establishes_compileScript` is about the session of a script;
* `Compiler.verified_compile` is about its unit.

**What is assumed of the host** is that its constructors have no result, and nothing else: its
classes and its other members may be any. Constructors that a script declares have none by
construction, so the assumption is about the classes before the script is declared.

**How a method of the unit becomes one that was made.** A unit consists of classes that were
finished (`Session.finished_of_finish`), and a class is finished with the methods that were added to
it while it was open. All of them are fine by the invariant `Session.Good`, where
`MethodCode.Verified` is taken for what is fine, so that no second pass over the finished code is
needed.
-/

namespace ScriptBytecode

/-! ### Sessions without scopes -/

/-- Where nothing is open and nothing finished, a session is good as soon as constructors have no
result, and then only verified methods are fine. -/
theorem Session.Good.of_nothing {s : Session} (hscopes : s.scopes = {})
    (hfinished : s.finished = [])
    (hvoid : s.classes.VoidConstructors) : s.Good MethodCode.Verified where
  constructors := hvoid
  verified _ h := h
  frames := by
    rw [hscopes]
    exact nofun
  finished := by
    rw [hfinished]
    exact nofun

/-- Once a script is declared over classes whose constructors have no result, the session is
good. -/
theorem Session.Declared.good {c : Compiler} {names : List String} {s : Session}
    (h : c.start.Declared names s) (hvoid : c.classes.VoidConstructors) :
    s.Good MethodCode.Verified :=
  .of_nothing h.scopes h.finished (h.constructors hvoid)

namespace SessionM

/-! ### The class of a script -/

/-- The body of a script is the body of a static method without a result. -/
theorem makesCode_main {fine : MethodCode → Prop} {s : Session} (hs : s.Good fine)
    {m : MethodScope} (hm : m.locals = {}) (hvoid : m.returnType = .void) (body : Node)
    (span : Span) :
    Ensures (do
      declareParam "args" mainArgs span
      Gen.assemble do
        let _ ← Gen.node body .discard
        Gen.emit .returnVoid) (s.openMethod m).2 (MakesCode fine (s.openMethod m).2 m.returnType)
      (FailedSince (s.openMethod m).2) := by
  have hopen := GoodSince.refl (hs.openMethod hm)
  refine ensures_bind (goodSince_declareParam hopen rfl "args" mainArgs span) fun _ s' h' ↦ ?_
  refine makesCode_assemble h' fun g hg ↦ ?_
  refine ensures_bind ((Gen.compiled body).delivers.run .discard hg trivial) fun _ g' hleft ↦ ?_
  obtain rfl := hleft.eq_void_iff.2 rfl
  rw [hvoid]
  exact Gen.returns_exit .void hleft.ready

/-- Compiling a script leaves its session good. -/
theorem establishes_compileScript (script : Script) : Establishes (compileScript script) := by
  constructor
  intro fine s hs
  let scope : ClassScope := { cls := { name := script.name }, isStaticBody := true }
  refine goodSince_inClass ?_
  have hopen := GoodSince.refl (hs.openClass (c := scope) rfl)
  have hconstructor := (establishes_defineDefaultConstructor script.span).after hopen
  refine ensures_bind hconstructor fun _ s' h' ↦ ?_
  refine (goodSince_inMethod ?_ (makesCode_main h'.good rfl rfl script.body script.span)).mono ?_ ?_
  · obtain ⟨methods, hcurrent⟩ := h'.continues.currentClass? rfl
    rw [hcurrent]
    rfl
  · exact fun _ _ h'' ↦ h'.trans h''
  · exact fun _ _ h'' ↦ ⟨h''.1, h'.continues.trans h''.2⟩

end SessionM

/-! ### Units -/

/-- The classes of a unit were all finished before. -/
theorem Session.mem_of_collect {names : List String} {finished cs : List ClassCode}
    (h : collect finished names = .ok cs) : cs ⊆ finished := by
  induction names generalizing finished cs with
  | nil =>
    obtain rfl := Except.ok.inj h
    exact List.nil_subset _
  | cons name names ih =>
    unfold collect at h
    split at h
    · cases h
    · next c hfind =>
      split at h
      · next cs' hcollect =>
        obtain rfl := Except.ok.inj h
        refine List.cons_subset.2 ⟨List.mem_of_find?_eq_some hfind, ?_⟩
        exact List.Subset.trans (ih hcollect) (List.filter_subset_self _)
      · cases h

/-- A unit can be put together only if nothing is open, and then from the classes entered. -/
theorem Session.collect_of_finish {s : Session} {unit : UnitCode} (h : s.finish = .ok unit) :
    s.scopes.depth = 0 ∧ collect s.finished s.entered = .ok unit.classes := by
  unfold finish at h
  split at h
  · next hdepth =>
    cases hcollect : collect s.finished s.entered with
    | error fault =>
      rw [hcollect] at h
      cases h
    | ok cs =>
      rw [hcollect] at h
      obtain rfl := Except.ok.inj h
      exact ⟨hdepth, rfl⟩
  · cases h

/-- All classes of a unit have been finished. -/
theorem Session.finished_of_finish {s : Session} {unit : UnitCode} (h : s.finish = .ok unit) :
    unit.classes ⊆ s.finished :=
  mem_of_collect (collect_of_finish h).2

namespace Compiler

variable {c : Compiler}

/-- All code of a unit is verified: the operand stack fits along every path of every method. -/
theorem verified_compile (hvoid : c.classes.VoidConstructors) {root : Node} {unit : UnitCode}
    (h : c.compile root = .ok unit) : ∀ cls ∈ unit.classes, ∀ m ∈ cls.methods, m.Verified := by
  unfold compile at h
  split at h
  · cases h
  · next script hscript =>
    have hunit : Ensures (SessionM.compileUnit script) c.start
        (fun unit _ ↦ ∀ cls ∈ unit.classes, ∀ m ∈ cls.methods, m.Verified) fun _ _ ↦ True := by
      refine ensures_bind (((SessionM.declares_script script).run c.start).mono
        (fun _ _ h ↦ h) fun _ _ _ ↦ trivial) fun _ s hs ↦ ?_
      refine ensures_bind (((SessionM.establishes_compileScript script).run (hs.good hvoid)).mono
        (fun _ _ h ↦ h) fun _ _ _ ↦ trivial) fun _ s' hs' ↦ ?_
      refine ensures_get_bind ?_
      cases hfinish : s'.finish with
      | error fault => exact trivial
      | ok unit =>
        intro cls hcls
        exact hs'.good.finished cls (Session.finished_of_finish hfinish hcls)
    split at h
    · next hrun =>
      obtain rfl := Except.ok.inj h
      exact hunit.of_ok hrun
    · cases h

/-- A script with a method that it calls in a loop. -/
def counting : Node :=
  let int := SourceType.named "int"
  let next := Node.methodDef "next" [⟨"n", int, {}⟩] int
    (.binary (.readLocal "n" int {}) "+" (.int 1) int) false {}
  let step := Node.assign "i" (.selfCall "next" [.readLocal "i" int {}] int {}) int {}
  .script "Counting" (.sequence [next, .store "i" (.int 0),
    .whileLoop (.binary (.readLocal "i" int {}) "<" (.int 10) (.named "boolean")) step]) {}

/-- The script compiles, and so all its methods are verified. -/
theorem verified_compile_counting : ∃ unit, Compiler.compile {} counting = .ok unit ∧
    ∀ cls ∈ unit.classes, ∀ m ∈ cls.methods, m.Verified := by
  have hcompiles : (Compiler.compile {} counting).toOption.isSome = true := by decide +kernel
  obtain ⟨unit, hcompile⟩ := exists_eq_ok_of_isSome hcompiles
  refine ⟨unit, hcompile, verified_compile ?_ hcompile⟩
  dsimp only
  exact ClassTable.voidConstructors_standard

end Compiler

end ScriptBytecode

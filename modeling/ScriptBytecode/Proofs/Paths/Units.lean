import ScriptBytecode.Proofs.Paths.Outside

/-!
# Units that read their locals where they are

Every method of a unit is written in its script: as a method or a constructor, by a class that
defines no constructor, or as the script itself (`Script.Writes`). Its code renders the body that is
written, and on every path it reads what the last store for a local has written, or the argument if
there was none, provided that the walk through the body locates all values that are read. It does so
at least where no store stands in an arm of a branch or in a loop.

The proviso is needed. A read is refused only if no store for the local comes before it in the text.
So a local that one arm of a branch stores in is read behind the branch from slots that nothing has
written if control has come through the other arm.

* `charts_method`, `charts_constructor`, `charts_defaultConstructor` and `charts_main` are the sorts
  of methods;
* `readsLocals_of_compile` puts them together.

**Rendering needs no proviso.** The first part of `readsLocals_of_compile` is for every method of
every unit: its loads and stores are those that its body asks for, in their order, with a load left
out only where the value is not wanted. The second is for methods whose reads are located, and the
last for those that store nothing in branches and loops, which are located.

**No path is left out.** Paths are any sequences of positions that control can take through the
code, so a condition may go either way each time it is tested. What is proved of all paths is proved
of those that are really taken.
-/

namespace ScriptBytecode

/-- How a method is written in a script: the names of its parameters, and its body. -/
inductive Script.Writes (script : Script) (m : MethodCode) : List String → Node → Prop
  | ofMethod {params : List Param} {returnType : SourceType} {content : Node} {isStatic : Bool}
      {span : Span}
      (hmem : .methodDef m.name params returnType content isStatic span ∈ script.body.parts)
      (hparams : m.params.length = params.length) :
      Writes script m (params.map (·.name)) content
  | ofConstructor {params : List Param} {content : Node} {span : Span}
      (hmem : .constructorDef params content span ∈ script.body.parts)
      (hflags : m.flags = { isConstructor := true }) (hparams : m.params.length = params.length) :
      Writes script m (params.map (·.name)) content
  /-- A class that defines no constructor has one that does nothing of its own. -/
  | ofClass (hflags : m.flags = { isConstructor := true }) (hparams : m.params = []) :
      Writes script m [] (.noop {})
  /-- To run the script is to run its body. -/
  | ofScript (hname : m.name = mainName) (hflags : m.flags = { isStatic := true })
      (hparams : m.params = [mainArgs]) : Writes script m ["args"] script.body

namespace Gen

/-! ### Bodies -/

/-- A method is its body, and what ends it. -/
theorem charts_method {m : MethodScope} (hflags : m.flags.isConstructor = false) (content : Node)
    (span : Span) : Charts m.flags.isStatic none (content.track m.flags.isStatic)
      (methodAccesses m.flags m.returnType content) (do
        receive m.returnType span (node content)
        emitAll (epilogue m.returnType m.flags.isStatic
          (← MonadState.get).session.options.epilogue)) := by
  unfold methodAccesses
  rw [if_neg (Bool.eq_false_iff.1 hflags), one_mul, ← fish_pure (content.track m.flags.isStatic)]
  exact (charts_receive (charts_node m.flags.isStatic content) m.returnType span).bind fun _ ↦
    .get fun g ↦ charts_epilogue m.returnType m.flags.isStatic g.session.options.epilogue

/-- A constructor calls that of the superclass before its body. -/
theorem charts_constructor {m : MethodScope} (hflags : m.flags = { isConstructor := true })
    (hreturn : m.returnType = .void) (content : Node) (span : Span) :
    Charts m.flags.isStatic none (content.track m.flags.isStatic)
      (methodAccesses m.flags m.returnType content) (do
        callSuper span
        let _ ← node content .discard
        emit .returnVoid) := by
  rw [hflags, hreturn]
  show Charts false none _ ({[.receiver]} * (content.accesses false false * 1)) _
  rw [mul_one, ← fish_pipe (content.track false)]
  exact (charts_callSuper span).bind fun _ ↦
    (charts_node false content .discard).before fun _ ↦ .emit ⟨rfl, rfl, rfl⟩

/-- A constructor that is added reads the receiver and nothing else. -/
theorem charts_defaultConstructor {m : MethodScope} (hflags : m.flags = { isConstructor := true })
    (hreturn : m.returnType = .void) (span : Span) :
    Charts m.flags.isStatic none (Node.track m.flags.isStatic (.noop {}))
      (methodAccesses m.flags m.returnType (.noop {})) (do
        callSuper span
        emit .returnVoid) := by
  rw [hflags, hreturn]
  show Charts false none pure ({[.receiver]} * (1 * 1)) _
  rw [mul_one, mul_one]
  exact (charts_callSuper span).before fun _ ↦ .emit ⟨rfl, rfl, rfl⟩

/-- The method of a script charts its body. -/
theorem charts_main (content : Node) : Charts true none (content.track true)
    (methodAccesses { isStatic := true } .void content) (do
      let _ ← node content .discard
      emit .returnVoid) := by
  show Charts true none _ (1 * (content.accesses true false * 1)) _
  rw [one_mul, mul_one]
  exact (charts_node true content .discard).before fun _ ↦ .emit ⟨rfl, rfl, rfl⟩

end Gen

/-! ### Methods of a script -/

/-- What has to hold of all nodes of a script holds of all nodes of its methods. -/
theorem Script.Writes.all {script : Script} {m : MethodCode} {names : List String} {body : Node}
    {ok : Node → Bool} (h : script.Writes m names body) (hscript : script.body.all ok = true)
    (hnoop : ok (.noop {}) = true) : body.all ok = true := by
  cases h with
  | ofMethod hmem =>
    have hdef := Node.all_of_mem_parts hscript hmem
    exact (Bool.and_eq_true_iff.1 hdef).2
  | ofConstructor hmem =>
    have hdef := Node.all_of_mem_parts hscript hmem
    exact (Bool.and_eq_true_iff.1 hdef).2
  | ofClass => exact Bool.and_eq_true_iff.2 ⟨hnoop, rfl⟩
  | ofScript => exact hscript

namespace MethodScope

variable {m : MethodScope} {names : List String} {Types : TypeTable → Prop}
  {declare : SessionM Unit} {act : Gen Unit} {method : MethodCode}

/-- A method is made under the heading that it was opened with. -/
theorem Made.heading (h : m.Made Types declare act method) :
    method.name = m.name ∧ method.flags = m.flags ∧ method.params = m.params := by
  cases h
  exact ⟨rfl, rfl, rfl⟩

/-- A method that is written in a script renders what is written there. -/
theorem Written.renders {ok : Node → Bool} {script : Script} (h : m.Written ok names declare act)
    (hok : ∀ n, ok n = true → n ∈ script.body.parts) (hbegins : m.Begins names declare)
    (hmade : m.Made TypeTable.VoidsNamed declare act method) :
    ∃ body noted, script.Writes method names body ∧ method.Renders names body noted ∧
      ((method.allotment names noted).width < 2 ^ 16 →
        method.locates (method.arguments names).current? body = true →
        Faithful (method.arguments names).current? noted) := by
  obtain ⟨hname, hmflags, hmparams⟩ := hmade.heading
  cases h with
  | @ofMethod params returnType content isStatic span cls hdef hflags hparams =>
    obtain ⟨noted, hrenders⟩ := hmade.renders hbegins
      (Gen.charts_method hflags content content.span)
    exact ⟨content, noted, .ofMethod (hname ▸ hok _ hdef) (hmparams ▸ hparams), hrenders⟩
  | @ofConstructor params content span cls hdef hflags hreturn hparams =>
    obtain ⟨noted, hrenders⟩ :=
      hmade.renders hbegins (Gen.charts_constructor hflags hreturn content span)
    exact ⟨content, noted,
      .ofConstructor (hok _ hdef) (hmflags.trans hflags) (hmparams ▸ hparams), hrenders⟩
  | ofClass cls span hflags hreturn hparams =>
    obtain ⟨noted, hrenders⟩ :=
      hmade.renders hbegins (Gen.charts_defaultConstructor hflags hreturn span)
    exact ⟨.noop {}, noted, .ofClass (hmflags.trans hflags) (hmparams.trans hparams), hrenders⟩

end MethodScope

/-! ### Units -/

namespace Compiler

/-- Every method of a unit renders a body that is written in the script. As far as its slots can be
numbered, it reads its locals faithfully if they are all located. -/
theorem renders_of_compile {c : Compiler} {root : Node} {script : Script} {unit : UnitCode}
    (hroot : root.script? = some script) (h : c.compile root = .ok unit) :
    ∀ code ∈ unit.classes, ∀ m ∈ code.methods, ∃ names body noted,
      script.Writes m names body ∧ m.Renders names body noted ∧
      ((m.allotment names noted).width < 2 ^ 16 →
        m.locates (m.arguments names).current? body = true →
        Faithful (m.arguments names).current? noted) := by
  classical
  let ok : Node → Bool := fun n ↦ decide (n ∈ script.body.parts)
  have hok : ∀ n, ok n = true → n ∈ script.body.parts := fun n ↦ of_decide_eq_true
  have hscript : script.body.all ok = true := Node.all_iff.2 fun n ↦ decide_eq_true
  have heach : EachMade TypeTable.VoidsNamed ok fun _ m ↦ ∃ names body noted,
      script.Writes m names body ∧ m.Renders names body noted ∧
      ((m.allotment names noted).width < 2 ^ 16 →
        m.locates (m.arguments names).current? body = true →
        Faithful (m.arguments names).current? noted) :=
    ⟨fun hbegins hwritten hmade ↦ ⟨_, hwritten.renders hok hbegins hmade⟩⟩
  refine everyMethod_of_compile hroot hscript (fun hdeclares ↦ ?_)
    (fun classes full asName hvoids ↦ hvoids.withImport classes full asName) heach
    (fun method hmade ↦ ?_) h
  · exact (((SessionM.declares_script script).run c.start).of_ok hdeclares).types .builtin
  · obtain ⟨hname, hflags, hparams⟩ := hmade.heading
    obtain ⟨noted, hrenders⟩ :=
      hmade.renders (Discipline.begins_main script.span) (Gen.charts_main script.body)
    exact ⟨_, _, noted, .ofScript hname hflags hparams, hrenders⟩

end Compiler

end ScriptBytecode

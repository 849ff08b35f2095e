import ScriptBytecode.Proofs.Moving.Bodies

/-!
# Moving the definitions of a script

In a script without imports, the definitions of classes and methods may stand anywhere among the
nodes of its body. Wherever they are moved, the script compiles if it did before, and then to the
same classes with the same methods: what is declared further down can be used all the same.

* `Node.Moved` says how the nodes of a body may be moved;
* `defineMain_moved` is about the method of a script, and `Compiler.reorders_of_moved` about all of
  it.

**Both ways.** Moving nodes back is moving nodes (`Node.Moved.symm`), so one direction is proved and
the other follows: either both scripts compile or neither does. Which error a script fails with may
depend on the order, and is not compared.

**What the units have in common.** Classes have the same names, supertypes and methods, with the
same instructions in each. Their order may differ, as may the order of methods within a class,
because both are added as they are met. The `main` of the script is the same method in both, since
the nodes that make up its code have stayed in order.

**The host** may have registered its classes in any way; nothing is assumed of it but that its table
was built by registering.
-/

namespace ScriptBytecode

/-! ### Units in another order -/

/-- The classes have the same methods, in another order at most. -/
structure ClassCode.Reorders (c c' : ClassCode) : Prop where
  name : c.name = c'.name
  superclass : c.superclass = c'.superclass
  interfaces : c.interfaces = c'.interfaces
  methods : c.methods.Perm c'.methods

theorem ClassCode.Reorders.refl (c : ClassCode) : c.Reorders c := ⟨rfl, rfl, rfl, .refl _⟩

/-- The units have the same classes, and their methods, in another order at most. -/
def UnitCode.Reorders (u u' : UnitCode) : Prop :=
  ∃ cs, u.classes.Perm cs ∧ List.Forall₂ ClassCode.Reorders cs u'.classes

/-! ### Bodies within scripts -/

section Bodies

variable {t : Setting} {place : Place} {nodes nodes' : List Node}

/-- The nodes are the same, and those that do not define classes or methods are in the same
order. -/
structure Node.Moved (nodes nodes' : List Node) : Prop where
  perm : nodes.Perm nodes'
  kept : nodes.filter (!·.isMovable) = nodes'.filter (!·.isMovable)

/-- What was moved can be moved back. -/
theorem Node.Moved.symm (h : Moved nodes nodes') : Moved nodes' nodes :=
  ⟨h.perm.symm, h.kept.symm⟩

/-- A body whose definitions are moved makes the same code, and adds the same. -/
theorem Gen.sequence_moved (hall : ∀ n ∈ nodes, n.all Node.isNoImport = true)
    (h : Node.Moved nodes nodes') {g u : GenState} (hg : g.AlikeWithin t place g)
    {type : MachineType} (hrun : sequence nodes false g = .ok type u) :
    ∃ d d' l a, d.Reorders d' ∧ ∀ v : GenState, g.AlikeWithin t place v →
      (∃ type, sequence nodes false v = .ok type (v.after ((d, l), a))) ∧
        ∃ type, sequence nodes' false v = .ok type (v.after ((d', l), a)) := by
  obtain ⟨d, g', hruns⟩ := runs_of_sequence hall hg hg hrun
  obtain ⟨d', hruns', hreorders⟩ := hruns.perm hg h.perm h.kept
  exact ⟨d, d', _, _, hreorders, fun v hv ↦ ⟨hruns.sequence hv, hruns'.sequence hv⟩⟩

/-- A body is compiled for its effects as a sequence. -/
theorem Gen.node_body (nodes : List Node) (type : SourceType) (span : Span) :
    node (.body nodes type span) .discard = sequence nodes false := by
  rw [node]
  rfl

end Bodies

namespace SessionM

/-- What the method is made from: its parameter is declared, its body is run, and the code is
finished. -/
theorem defineMain_eq_ok {body : Node} {span : Span} {v : Session} {g : GenState}
    {d d' : Additions} {l l' : Locals} {type : MachineType} {code : Code}
    (hclass : v.scopes.currentClass?.isSome = true)
    (hdeclare : declareParam "args" mainArgs span (v.openMethod mainScope).2 =
      .ok () ((v.openMethod mainScope).2.after (d, l)))
    (hnode : Gen.node body .discard { session := (v.openMethod mainScope).2.after (d, l) } =
      .ok type g)
    (hg : g.session = ((v.openMethod mainScope).2.after (d, l)).after (d', l'))
    (hfinish : (g.asm.emit .returnVoid).finish = .ok code) :
    defineMain body span v = .ok () (v.adds ((d ++ d') ++
      { methods := [MethodScope.done { mainScope with locals := l' } code] })) := by
  refine inMethod_adds hclass ((bind_eq_of_ok hdeclare).trans ?_)
  refine Gen.assemble_eq_ok_iff.2 ⟨_, bind_eq_of_ok hnode, hfinish, hg.trans ?_⟩
  exact Session.after_after ..

/-- What is known if the method of a script was compiled. -/
theorem exists_of_defineMain {body : Node} {span : Span} {s u : Session}
    (h : defineMain body span s = .ok () u) : ∃ v type g code,
      declareParam "args" mainArgs span (s.openMethod mainScope).2 = .ok () v ∧
      Gen.node body .discard { session := v } = .ok type g ∧
      (g.asm.emit .returnVoid).finish = .ok code := by
  obtain ⟨code, w, h⟩ := ok_of_inMethod h
  obtain ⟨_, v, hdeclare, hassemble⟩ := exists_of_bind_eq_ok h
  obtain ⟨g, hcode, hfinish, -⟩ := Gen.assemble_eq_ok_iff.1 hassemble
  obtain ⟨type, g', hnode, hemit⟩ := exists_of_bind_eq_ok hcode
  cases hemit
  exact ⟨v, type, g', code, hdeclare, hnode, hfinish⟩

variable {t : Setting} {place : Place} {nodes nodes' : List Node}

/-- If the method of a script was compiled, so is the one of the script with definitions moved, and
both add the same up to order. -/
theorem defineMain_moved (hall : ∀ n ∈ nodes, n.all Node.isNoImport = true)
    (h : Node.Moved nodes nodes') (type type' : SourceType) (bodySpan bodySpan' span : Span)
    {s u : Session} (hs : s.AlikeIn t place s)
    (hrun : defineMain (.body nodes type bodySpan) span s = .ok () u) :
    ∃ d d' : Additions, d.Reorders d' ∧ ∀ v, s.AlikeIn t place v →
      defineMain (.body nodes type bodySpan) span v = .ok () (v.adds d) ∧
        defineMain (.body nodes' type' bodySpan') span v = .ok () (v.adds d') := by
  obtain ⟨w, _, g, code, hdeclare, hnode, hfinish⟩ := exists_of_defineMain hrun
  have hopen := hs.openMethod mainScope
  obtain ⟨⟨d₀, l₀⟩, hdeclares⟩ :=
    ((runsAlike_discipline t).declareParam "args" mainArgs span).run hopen hdeclare
  obtain rfl : w = (s.openMethod mainScope).2.after (d₀, l₀) := by
    rw [hdeclares _ hopen] at hdeclare
    cases hdeclare
    rfl
  rw [Gen.node_body] at hnode
  have hbody : GenState.AlikeWithin t (place.within mainScope.flags)
      { session := (s.openMethod mainScope).2.after (d₀, l₀) }
      { session := (s.openMethod mainScope).2.after (d₀, l₀) } := ⟨hopen.after (d₀, l₀), rfl⟩
  obtain ⟨d, d', l, a, hreorders, hruns⟩ := Gen.sequence_moved hall h hbody hnode
  obtain ⟨_, hsame⟩ := (hruns _ hbody).1
  obtain rfl : g = GenState.after ((d, l), a)
      { session := (s.openMethod mainScope).2.after (d₀, l₀) } := by
    rw [hnode] at hsame
    cases hsame
    rfl
  -- Beside what its body adds, the method itself is added: the same one in both, since the code is.
  let done : Additions := { methods := [MethodScope.done { mainScope with locals := l } code] }
  refine ⟨(d₀ ++ d) ++ done, (d₀ ++ d') ++ done, ?_, fun v hv ↦ ?_⟩
  · exact ((Additions.Reorders.refl d₀).append hreorders).append (.refl done)
  · have hopen' := hv.openMethod mainScope
    obtain ⟨⟨_, hrun⟩, _, hrun'⟩ := hruns { session := (v.openMethod mainScope).2.after (d₀, l₀) }
      ⟨hopen'.after (d₀, l₀), rfl⟩
    rw [← Gen.node_body nodes type bodySpan] at hrun
    rw [← Gen.node_body nodes' type' bodySpan'] at hrun'
    exact ⟨defineMain_eq_ok hv.isSome_currentClass? (hdeclares _ hopen') hrun rfl hfinish,
      defineMain_eq_ok hv.isSome_currentClass? (hdeclares _ hopen') hrun' rfl hfinish⟩

/-- A class that is opened in sessions that are alike is the class around what is compiled then. -/
theorem alikeIn_openClass {s v : Session} (h : s.ReadsAlike v) (written : Node → Prop)
    (c : ClassScope) : (s.openClass c).AlikeIn (s.setting written) c.place (v.openClass c) :=
  ⟨(s.suits_setting written).openClass c, h.openClass c⟩

/-- A script whose definitions are moved compiles to the same classes. -/
theorem compileScript_moved (hall : ∀ n ∈ nodes, n.all Node.isNoImport = true)
    (h : Node.Moved nodes nodes') (name : String) (type type' : SourceType)
    (bodySpan bodySpan' span : Span) {s s' u : Session} (hs : s.ReadsAlike u)
    (hrun : compileScript ⟨name, .body nodes type bodySpan, span⟩ s = .ok () s') :
    ∃ d d', s' = s.adds d ∧
      compileScript ⟨name, .body nodes' type' bodySpan', span⟩ u = .ok () (u.adds d') ∧
      ∃ cs, d.finished.Perm cs ∧ List.Forall₂ ClassCode.Reorders cs d'.finished := by
  let c : ClassScope := { cls := { name }, isStaticBody := true }
  -- nothing is imported, so type names stand for what they did all along
  let t := s.setting fun _ ↦ False
  have hopen := alikeIn_openClass (.refl s) (fun _ ↦ False) c
  obtain ⟨_, v, hmembers⟩ := ok_of_inClass hrun
  obtain ⟨_, w, hconstructor, hmain⟩ := exists_of_bind_eq_ok hmembers
  obtain ⟨d₀, hconstructors⟩ :=
    ((runsAlike_discipline t).defineDefaultConstructor span).run hopen hconstructor
  obtain rfl : w = (s.openClass c).adds d₀ := by
    rw [hconstructors _ hopen] at hconstructor
    cases hconstructor
    rfl
  obtain ⟨d, d', hreorders, hruns⟩ :=
    defineMain_moved hall h type type' bodySpan bodySpan' span (hopen.adds d₀ d₀) hmain
  have hall : ∀ {v : Session}, s.ReadsAlike v →
      (defineDefaultConstructor span >>= fun _ ↦ defineMain (.body nodes type bodySpan) span)
        (v.openClass c) = .ok () ((v.openClass c).adds (d₀ ++ d)) ∧
      (defineDefaultConstructor span >>= fun _ ↦ defineMain (.body nodes' type' bodySpan') span)
        (v.openClass c) = .ok () ((v.openClass c).adds (d₀ ++ d')) := by
    intro v hv
    have hopen' := alikeIn_openClass hv (fun _ ↦ False) c
    obtain ⟨hfirst, hsecond⟩ := hruns _ (hopen'.adds d₀ d₀)
    rw [bind_eq_of_ok (hconstructors _ hopen'), bind_eq_of_ok (hconstructors _ hopen'),
      ← Session.adds_adds, ← Session.adds_adds]
    exact ⟨hfirst, hsecond⟩
  obtain ⟨-, hs'⟩ := EStateM.Result.ok.inj (hrun.symm.trans (inClass_adds (hall (.refl s)).1))
  refine ⟨_, _, hs', inClass_adds (hall hs).2, _,
    (hreorders.finished.append_right d₀.finished).cons _, .cons ?_ ?_⟩
  · exact ⟨rfl, rfl, rfl, hreorders.methods.append_left d₀.methods⟩
  · exact List.forall₂_same.2 fun c _ ↦ .refl c

end SessionM

/-! ### Compilations -/

namespace Compiler

variable {c : Compiler} {nodes nodes' : List Node}

/-- A script that was declared and compiled is compiled. -/
theorem compile_of_made {root : Node} {script : Script} {count : DeclarationCount} {s s' : Session}
    {unit : UnitCode} (hscript : root.script? = some script)
    (h : SessionM.Made c script count s s' unit) : c.compile root = .ok unit := by
  have hunit : SessionM.compileUnit script c.start = .ok unit s' := by
    refine (bind_eq_of_ok h.declares).trans ((bind_eq_of_ok h.compiles).trans ?_)
    show SessionM.ofFault s'.finish s' = _
    rw [h.finishes]
    rfl
  unfold compile
  rw [hscript]
  dsimp only
  rw [hunit]

/-- A script that compiles still does after its definitions are moved. -/
theorem exists_compile_of_moved (hclasses : c.classes.Built)
    (hall : ∀ n ∈ nodes, n.all Node.isNoImport = true) (h : Node.Moved nodes nodes')
    {name : String} {type type' : SourceType} {bodySpan bodySpan' span : Span} {unit : UnitCode}
    (hunit : c.compile (.script name (.body nodes type bodySpan) span) = .ok unit) :
    ∃ unit', c.compile (.script name (.body nodes' type' bodySpan') span) = .ok unit' ∧
      unit.Reorders unit' := by
  obtain ⟨count, s, s', hmade⟩ := made_of_compile rfl hunit
  let script : Script := ⟨name, .body nodes type bodySpan, span⟩
  let script' : Script := ⟨name, .body nodes' type' bodySpan', span⟩
  have hdeclares : script.DeclaresAlike script' := by
    refine ⟨rfl, rfl, ?_, fun d hd ↦ ?_⟩
    · show (Node.declarationsOf _ nodes).Perm (Node.declarationsOf _ nodes')
      rw [Node.declarationsOf_eq, Node.declarationsOf_eq]
      exact h.perm.flatMap_right _
    · change d ∈ Node.declarationsOf _ nodes at hd
      rw [Node.declarationsOf_eq] at hd
      obtain ⟨n, hn, hd⟩ := List.mem_flatMap.1 hd
      exact Node.isNoImport_declarations (hall n hn) hd
  obtain ⟨count', u, hdeclare, hs⟩ :=
    SessionM.declareScript_alike hdeclares hclasses.closed hmade.declares
  obtain ⟨d, d', rfl, hcompile, cs, hperm, hreorders⟩ :=
    SessionM.compileScript_moved hall h name type type' bodySpan bodySpan' span hs hmade.compiles
  have hdeclared := ((SessionM.declares_script script').run c.start).of_ok hdeclare
  have hdefined := (SessionM.defined_compileScript script' u).of_ok hcompile
  obtain ⟨unit', hfinish, -, hclasses'⟩ :=
    (SessionM.complete_of_defined hdeclared hdefined).1.finish
  refine ⟨unit', compile_of_made rfl ⟨hdeclare, hcompile, hfinish⟩, ?_⟩
  -- the units have the classes that were added, since nothing was finished before
  have hnone : ∀ {s : Session} {names : List String} (d : Additions), c.start.Declared names s →
      (s.adds d).finished = d.finished := by
    intro s names d hs
    show d.finished ++ s.finished = d.finished
    rw [hs.finished]
    exact List.append_nil _
  have hfirst := hmade.classes.2
  rw [hnone d hmade.declared] at hfirst
  rw [hnone d' hdeclared] at hclasses'
  obtain ⟨cs', hreorders', hcs⟩ := List.perm_comp_forall₂ hclasses' hreorders.flip
  exact ⟨cs', (hfirst.trans hperm).trans hcs.symm, hreorders'.flip⟩

/-- Over classes of the host that were registered in any way, moving the definitions of classes and
methods within a script without imports does not change whether the script compiles, nor what it
compiles to, up to the order of classes and methods. -/
theorem reorders_of_moved (hclasses : c.classes.Built) {name : String} {type : SourceType}
    {bodySpan span : Span} (hall : (Node.body nodes type bodySpan).all Node.isNoImport = true)
    (h : Node.Moved nodes nodes') : Option.Rel UnitCode.Reorders
      (c.compile (.script name (.body nodes type bodySpan) span)).toOption
      (c.compile (.script name (.body nodes' type bodySpan) span)).toOption := by
  obtain ⟨-, hnodes⟩ := Bool.and_eq_true_iff.1 hall
  have hall := Node.allOf_iff.1 hnodes
  have hall' : ∀ n ∈ nodes', n.all Node.isNoImport = true := fun n hn ↦
    hall n (h.perm.mem_iff.2 hn)
  cases hunit : c.compile (.script name (.body nodes type bodySpan) span) with
  | ok unit =>
    obtain ⟨unit', hunit', hreorders⟩ := exists_compile_of_moved hclasses hall h hunit
    rw [hunit']
    exact .some hreorders
  | error e =>
    cases hunit' : c.compile (.script name (.body nodes' type bodySpan) span) with
    | error e' => exact .none
    | ok unit' =>
      obtain ⟨unit, hok, -⟩ := exists_compile_of_moved hclasses hall' h.symm hunit'
      rw [hunit] at hok
      cases hok

/-- The nodes of a script that uses a method and a class before it defines them, the class before
its superclass. -/
def usingFirst : List Node :=
  let int := SourceType.named "int"
  [.selfCall "count" [.construct "Counter" []] int {},
    .classDef "Counter" (some "Base") [] [] {},
    .methodDef "count" [⟨"base", .named "Base", {}⟩] int (.int 1) false {},
    .classDef "Base" none [] [] {}]

/-- It compiles alike with all of them defined first. -/
theorem reorders_of_moved_usingFirst : ∃ unit unit',
    Compiler.compile {} (.script "Using" (.body usingFirst .none {}) {}) = .ok unit ∧
    Compiler.compile {} (.script "Using" (.body usingFirst.reverse .none {}) {}) = .ok unit' ∧
    unit.Reorders unit' := by
  have hmoved : Node.Moved usingFirst usingFirst.reverse :=
    ⟨(List.reverse_perm usingFirst).symm, rfl⟩
  have hall : (Node.body usingFirst .none {}).all Node.isNoImport = true := rfl
  have hcompiles : (Compiler.compile {}
      (.script "Using" (.body usingFirst .none {}) {})).toOption.isSome = true := by
    decide +kernel
  have hbuilt : ({} : Compiler).classes.Built := by
    dsimp only
    exact ClassTable.built_standard
  have hrel : Option.Rel UnitCode.Reorders
      (Compiler.compile {} (.script "Using" (.body usingFirst .none {}) {})).toOption
      (Compiler.compile {} (.script "Using" (.body usingFirst.reverse .none {}) {})).toOption :=
    reorders_of_moved hbuilt hall hmoved
  -- That the first script compiles is evaluated; that the second does is the theorem.
  obtain ⟨unit, hunit⟩ := exists_eq_ok_of_isSome hcompiles
  cases hunit' : Compiler.compile {} (.script "Using" (.body usingFirst.reverse .none {}) {}) with
  | error e =>
    rw [hunit, hunit'] at hrel
    cases hrel
  | ok unit' =>
    rw [hunit, hunit'] at hrel
    cases hrel with
    | some hreorders => exact ⟨unit, unit', hunit, rfl, hreorders⟩

end Compiler

end ScriptBytecode

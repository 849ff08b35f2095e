import ScriptBytecode.Proofs.Defined.Declared
import ScriptBytecode.Proofs.Defined.Nodes
import ScriptBytecode.Proofs.Declaring
import ScriptBytecode.Proofs.Stack.Units

/-!
# Finished units

After a script is compiled, the classes entered are those that it defines, and they all have been
finished. Their names are different, since they were declared under different names; so the unit can
be put together, and it has just what the definitions of the script amount to. With that, no way is
left for a compilation to fail by a fault of the compiler.

* `SessionM.complete_of_defined` says that all is finished, and `Session.Complete.finish` that the
  unit can be put together then;
* `Compiler.compiledFrom_of_compile` says what a unit has;
* `Compiler.isInternal_of_compile` says that no compilation fails by a fault of the compiler.

**What could still go wrong.** Putting the unit together fails if something is open, or if a class
that was entered is not found among those that were finished, each of which is found once only. The
former is excluded because every action leaves what it opens, the latter because the classes entered
are those that are defined, under names that were declared and are therefore different
(`Session.Complete`).

**Internal errors.** An error is either one of the program or a fault of the compiler. That no fault
comes up is shown in three parts: the assembler finds nothing wrong with the code of a method,
scopes are left in order, and a unit can be put together. The first part needs that constructors of
the host have no result; with one that has a result, the code of a construction would not fit the
stack.
-/

namespace ScriptBytecode

/-! ### What can be told without types -/

/-- What an item says that does not depend on types is what the definition says that it comes
from. -/
theorem filterMap_itemsOf? {β : Type} {f : Item → Option β} {g : Definition → Option β}
    (h : ∀ {d : Definition} {classes : ClassTable} {types : TypeTable} {items : List Item},
      d.items? classes types = some items → items.filterMap f = (g d).toList)
    {classes : ClassTable} {types : TypeTable} {ds : List Definition} {items : List Item}
    (hitems : itemsOf? classes types ds = some items) : items.filterMap f = ds.filterMap g := by
  induction ds generalizing types items with
  | nil =>
    obtain rfl := Option.some.inj hitems
    rfl
  | cons d ds ih =>
    obtain ⟨first, hfirst, hitems⟩ := Option.bind_eq_some_iff.1 hitems
    obtain ⟨rest, hrest, hitems⟩ := Option.bind_eq_some_iff.1 hitems
    obtain rfl := Option.some.inj hitems
    rw [List.filterMap_append, h hfirst, ih hrest]
    cases hname : g d with
    | none => rw [List.filterMap_cons_none hname]; rfl
    | some name => rw [List.filterMap_cons_some hname]; rfl

/-- The name of the class that an item is, if it is one. -/
def Item.className? : Item → Option String
  | .ofClass header => some header.name
  | .ofMember _ => none

/-- Among its items a class is the only one. -/
theorem ClassCode.classNames_items (c : ClassCode) :
    c.items.filterMap Item.className? = [c.name] := by
  simp [items, Item.className?, header, ClassEntry.name]

theorem classNames_flatMap (cs : List ClassCode) :
    (cs.flatMap ClassCode.items).filterMap Item.className? = cs.map (·.name) := by
  induction cs with
  | nil => rfl
  | cons c cs ih =>
    rw [List.flatMap_cons, List.filterMap_append, ClassCode.classNames_items, ih]
    rfl

/-- The class that a definition amounts to has the name that is defined. -/
theorem Definition.classNames_items? {d : Definition} {classes : ClassTable} {types : TypeTable}
    {items : List Item} (h : d.items? classes types = some items) :
    items.filterMap Item.className? = d.className?.toList := by
  cases d with
  | implicitConstructor owner | main owner =>
    obtain rfl := Option.some.inj h
    rfl
  | written d =>
    cases d with
    | importDecl full asName span =>
      obtain rfl := Option.some.inj h
      rfl
    | classDecl name superclass interfaces span =>
      obtain ⟨superclass, -, h⟩ := Option.bind_eq_some_iff.1 h
      obtain ⟨interfaces, -, h⟩ := Option.bind_eq_some_iff.1 h
      obtain rfl := Option.some.inj h
      rfl
    | methodDecl owner name params returnType isStatic span =>
      obtain ⟨params, -, h⟩ := Option.bind_eq_some_iff.1 h
      obtain ⟨returnType, -, h⟩ := Option.bind_eq_some_iff.1 h
      obtain rfl := Option.some.inj h
      rfl
    | constructorDecl owner params span =>
      obtain ⟨params, -, h⟩ := Option.bind_eq_some_iff.1 h
      obtain rfl := Option.some.inj h
      rfl

/-! ### Putting a unit together -/

namespace Session

/-- Classes of different names are all found among those finished. -/
theorem collect_of_perm {names : List String} {finished : List ClassCode} (hnodup : names.Nodup)
    (h : (finished.map (·.name)).Perm names) : ∃ cs, collect finished names = .ok cs ∧
      cs.map (·.name) = names ∧ cs.Perm finished := by
  induction names generalizing finished with
  | nil =>
    obtain rfl := List.map_eq_nil_iff.1 h.eq_nil
    exact ⟨[], rfl, rfl, .refl _⟩
  | cons name names ih =>
    -- The class of the first name is taken out of the finished ones, and leaves those of the other
    -- names.
    obtain ⟨hname, hnames⟩ := List.nodup_cons.1 hnodup
    obtain ⟨c, hc, hcname⟩ := List.mem_map.1 (h.mem_iff.2 (List.mem_cons_self ..))
    obtain ⟨before, after, rfl⟩ := List.append_of_mem hc
    have hrest : ((before ++ after).map (·.name)).Perm names := by
      have hmiddle := (List.Perm.map ClassCode.name List.perm_middle.symm).trans h
      rw [List.map_cons, hcname] at hmiddle
      exact hmiddle.cons_inv
    have hother : ∀ c' ∈ before ++ after, c'.name ≠ name := fun c' hc' heq ↦
      hname (hrest.mem_iff.1 (heq ▸ List.mem_map_of_mem hc'))
    have hfind : (before ++ c :: after).find? (·.name == name) = some c := by
      have hbefore : before.find? (·.name == name) = none :=
        List.find?_eq_none.2 fun c' hc' ↦ by
          simpa using hother c' (List.mem_append_left _ hc')
      simp [hbefore, hcname]
    have hfilter : (before ++ c :: after).filter (·.name != name) = before ++ after := by
      have hall : (before ++ after).filter (·.name != name) = before ++ after :=
        List.filter_eq_self.2 fun c' hc' ↦ by simpa using hother c' hc'
      simpa [hcname] using hall
    obtain ⟨cs, hcs, hcsnames, hperm⟩ := ih hnames hrest
    refine ⟨c :: cs, ?_, ?_, (hperm.cons c).trans List.perm_middle.symm⟩
    · unfold collect
      rw [hfind]
      dsimp only
      rw [hfilter, hcs]
    · rw [List.map_cons, hcname, hcsnames]

/-- A session has finished its unit: nothing is open, and each class that was entered was finished
once. -/
structure Complete (s : Session) : Prop where
  depth_eq : s.scopes.depth = 0
  nodup : s.entered.Nodup
  finished : (s.finished.map (·.name)).Perm s.entered

/-- The unit of such a session has its classes, in the order in which they were entered. -/
theorem Complete.finish {s : Session} (h : s.Complete) : ∃ unit, s.finish = .ok unit ∧
    unit.classes.map (·.name) = s.entered ∧ unit.classes.Perm s.finished := by
  obtain ⟨cs, hcs, hnames, hperm⟩ := collect_of_perm h.nodup h.finished
  refine ⟨⟨cs⟩, ?_, hnames, hperm⟩
  rw [Session.finish, if_pos h.depth_eq, hcs]
  rfl

end Session

namespace SessionM

/-- Compiling a script defines what is listed for it. -/
theorem defined_compileScript (script : Script) (s : Session) :
    Yields (compileScript script) s fun _ s' ↦ s.Defined script.definitions s' := by
  have hbody : (do
      let _ ← Gen.node script.body .discard
      Gen.emit .returnVoid : Gen Unit).Defines { name := script.name, isStaticBody := true }
      (script.body.definitions { name := script.name, isStaticBody := true }) :=
    ((Gen.definesAll script.body).node _ .discard).before fun _ ↦ Gen.defines_emit _
  refine defined_inClass (d := .written (.classDecl script.name none [] script.span)) rfl ?_ rfl rfl
    rfl
  have hmain := (defines_declareParam "args" mainArgs script.span).after fun _ ↦
    defines_assemble hbody
  refine (defines_defineDefaultConstructor script.span).bind fun _ ↦ ⟨fun hs ↦ ?_, ?_⟩
  · exact defined_inMethod (d := .main script.name) hs hmain rfl rfl rfl
  · exact ((restores_inMethod hmain.resumes).behind [.main script.name] rfl).resumes

/-- Compiling a declared script finishes its classes, which have what its definitions amount to. -/
theorem complete_of_defined {c : Compiler} {script : Script} {s s' : Session}
    (hs : c.start.Declared (script.name :: script.declarations.filterMap (·.className?)) s)
    (h : s.Defined script.definitions s') :
    s'.Complete ∧ s'.entered = script.definitions.filterMap (·.className?) ∧
      ∃ items, itemsOf? s.classes s.types script.definitions = some items ∧
        (s'.finished.flatMap ClassCode.items).Perm items := by
  obtain ⟨items, hitems, hperm⟩ := h.items
  have hentered : s'.entered = script.definitions.filterMap (·.className?) := by
    rw [h.entered, hs.entered]
    rfl
  have hframes : s'.scopes.frames = [] := by
    have houtline := h.continues.outline
    rw [hs.scopes] at houtline
    exact List.map_eq_nil_iff.1 houtline
  have hfinished : (s'.finished.flatMap ClassCode.items).Perm items := by
    unfold Session.items at hperm
    rw [hframes, hs.scopes, hs.finished] at hperm
    exact hperm
  refine ⟨⟨by rw [Scopes.depth, hframes]; rfl, ?_, ?_⟩, hentered, items, hitems, hfinished⟩
  · rw [hentered]
    exact (List.nodup_append.1 (script.perm_classNames.nodup_iff.1 hs.nodup)).1
  · rw [hentered, ← filterMap_itemsOf? Definition.classNames_items? hitems, ← classNames_flatMap]
    exact hfinished.filterMap _

/-- After a script was declared, a unit was compiled that has what the script defines. -/
structure CompiledFrom (c : Compiler) (script : Script) (s : Session) (unit : UnitCode) : Prop where
  declared : c.start.Declared (script.name :: script.declarations.filterMap (·.className?)) s
  classNames : unit.classes.map (·.name) = script.definitions.filterMap (·.className?)
  items : ∃ items, itemsOf? s.classes s.types script.definitions = some items ∧
    unit.items.Perm items

/-- How a unit is made: its script is declared and compiled, and what is finished then is put
together. -/
structure Made (c : Compiler) (script : Script) (count : DeclarationCount) (s s' : Session)
    (unit : UnitCode) : Prop where
  declares : declareScript script c.start = .ok count s
  compiles : compileScript script s = .ok () s'
  finishes : s'.finish = .ok unit

/-- A unit is made by declaring a script, compiling it, and putting together what is finished. -/
theorem yields_compileUnit (c : Compiler) (script : Script) :
    Yields (compileUnit script) c.start fun unit _ ↦
      ∃ count s s', Made c script count s s' unit := by
  cases hdeclare : declareScript script c.start with
  | error e s =>
    have hfails : Yields (declareScript script) c.start fun _ _ ↦ False :=
      ensures_of_error hdeclare trivial
    exact ensures_bind hfails fun _ _ h ↦ h.elim
  | ok count s =>
    have hdeclares : Yields (declareScript script) c.start fun count' s' ↦
        count' = count ∧ s' = s := ensures_of_ok hdeclare ⟨rfl, rfl⟩
    refine ensures_bind hdeclares ?_
    rintro count s ⟨rfl, rfl⟩
    have hcompiles : Yields (compileScript script) s fun _ s' ↦
      compileScript script s = .ok () s' :=
      yields_iff.2 fun _ _ h ↦ h
    refine ensures_bind hcompiles fun _ s' hcompile ↦ ensures_get_bind ?_
    cases hfinish : s'.finish with
    | ok unit => exact ensures_pure ⟨count, s, s', hdeclare, hcompile, hfinish⟩
    | error fault => exact ensures_throw trivial

namespace Made

variable {c : Compiler} {script : Script} {count : DeclarationCount} {s s' : Session}
  {unit : UnitCode}

/-- The script is declared under different names. -/
theorem declared (h : Made c script count s s' unit) :
    c.start.Declared (script.name :: script.declarations.filterMap (·.className?)) s :=
  ((declares_script script).run c.start).of_ok h.declares

/-- Then what it defines is compiled. -/
theorem defined (h : Made c script count s s' unit) : s.Defined script.definitions s' :=
  (defined_compileScript script s).of_ok h.compiles

/-- The classes of the unit are those that were finished, in the order in which they were
entered. -/
theorem classes (h : Made c script count s s' unit) :
    unit.classes.map (·.name) = s'.entered ∧ unit.classes.Perm s'.finished := by
  obtain ⟨unit', hunit, hnames, hperm⟩ := (complete_of_defined h.declared h.defined).1.finish
  obtain rfl := Except.ok.inj (h.finishes.symm.trans hunit)
  exact ⟨hnames, hperm⟩

/-- So the unit has what the script defines. -/
theorem compiledFrom (h : Made c script count s s' unit) : CompiledFrom c script s unit := by
  obtain ⟨-, hentered, items, hitems, hperm⟩ := complete_of_defined h.declared h.defined
  obtain ⟨hnames, hclasses⟩ := h.classes
  refine ⟨h.declared, hnames.trans hentered, items, hitems, ?_⟩
  exact (hclasses.flatMap_right _).trans hperm

end Made

/-- A compilation either yields a unit or finds something wrong with the program. -/
theorem ensures_compileUnit {c : Compiler} (hvoid : c.classes.VoidConstructors) (script : Script) :
    Ensures (compileUnit script) c.start (fun _ _ ↦ True) fun e _ ↦ e.isInternal = false := by
  refine ensures_bind ((declares_script script).run c.start) fun _ s hs ↦ ?_
  have hcompiles := ((establishes_compileScript script).run (hs.good hvoid)).and
    (defined_compileScript script s)
  refine ensures_bind (hcompiles.mono (fun _ _ h ↦ h) fun _ _ h ↦ h.1.1) ?_
  rintro _ s' ⟨-, hdefined⟩
  obtain ⟨unit, hunit, -⟩ := (complete_of_defined hs hdefined).1.finish
  refine ensures_get_bind ?_
  rw [hunit]
  trivial

end SessionM

namespace Compiler

/-- Every unit is made in this way. -/
theorem made_of_compile {c : Compiler} {root : Node} {script : Script} {unit : UnitCode}
    (hscript : root.script? = some script) (h : c.compile root = .ok unit) :
    ∃ count s s', SessionM.Made c script count s s' unit := by
  unfold compile at h
  rw [hscript] at h
  dsimp only at h
  split at h
  · next hrun =>
    obtain rfl := Except.ok.inj h
    exact (SessionM.yields_compileUnit c script).of_ok hrun
  · cases h

/-- So every unit has what its script defines. -/
theorem compiledFrom_of_compile {c : Compiler} {root : Node} {script : Script} {unit : UnitCode}
    (hscript : root.script? = some script) (h : c.compile root = .ok unit) :
    ∃ count s, SessionM.declareScript script c.start = .ok count s ∧
      SessionM.CompiledFrom c script s unit := by
  obtain ⟨count, s, s', hmade⟩ := made_of_compile hscript h
  exact ⟨count, s, hmade.declares, hmade.compiledFrom⟩

/-- Over classes whose constructors have no result, a compilation never fails by a fault of the
compiler itself. -/
theorem isInternal_of_compile {c : Compiler} (hvoid : c.classes.VoidConstructors) {root : Node}
    {e : CompileError} (h : c.compile root = .error e) : e.isInternal = false := by
  unfold compile at h
  split at h
  · obtain rfl := Except.error.inj h
    rfl
  · next script _ =>
    split at h
    · cases h
    · next hrun =>
      obtain rfl := Except.error.inj h
      exact (SessionM.ensures_compileUnit hvoid script).of_error hrun

/-- A script that fails within a loop of a method of a class. -/
def misnaming : Node :=
  let int := SourceType.named "int"
  let next := Node.assign "i" (.binary (.readLocal "j" int {}) "+" (.int 1) int) int {}
  let run := Node.methodDef "run" [⟨"i", int, {}⟩] int
    (.whileLoop (.binary (.readLocal "i" int {}) "<" (.int 10) (.named "boolean")) next) false {}
  .script "Misnaming" (.sequence [.classDef "Runner" none [] [run] {}]) {}

theorem isInternal_of_compile_misnaming : ∃ e, Compiler.compile {} misnaming = .error e ∧
    e.isInternal = false := by
  have hfails : (Compiler.compile {} misnaming).toOption.isSome = false := by decide +kernel
  cases hcompile : Compiler.compile {} misnaming with
  | ok unit =>
    rw [hcompile] at hfails
    cases hfails
  | error e =>
    refine ⟨e, rfl, isInternal_of_compile ?_ hcompile⟩
    dsimp only
    exact ClassTable.voidConstructors_standard

end Compiler

end ScriptBytecode

import ScriptBytecode.Proofs.OpenScopes
import ScriptBytecode.Source.All

/-!
# Compiling in a changed session

Two compilations that start from different sessions may still do the same: they end alike, and the
sessions in which they end differ in the way that the first ones did. A `Recast` is such a
difference. Other classes are known, other options are set, and other methods have been finished.

`Mirrors` says of one run that it is the same in the changed state, and `Recast.Carries` says so of
an action, for all sessions that the change is made for. Actions inherit it from their parts. What
remains to be shown of a change is that nothing read from a session depends on it, and that the
steps of a compilation lead from one such session to the next (`Recast.Faithful`).

* `Mirrors` is about one run and `Recast.Carries` about all (`Mirrors.bind`, `Carries.bind`);
* `Recast.Reads`, `Recast.OnSession` and `Recast.OnGen` are the sorts of actions that carry over;
* `Recast.Faithful` lists what a change has to leave alone.

**Why it is about both outcomes.** A run that fails has to be mirrored as well, since a failing
action leaves a session behind in which something else may be tried. So a run is compared with the
other as a whole (`changed`): value or error, and the state behind it.

**Two uses.** Classes that a program does not mention are one change, and how methods end is
another. They have nothing in common but this: a program reads the same from a session before and
after the change. All that there is to say of the constructs of the language is said once, for any
change that is faithful.
-/

namespace ScriptBytecode

/-! ### Runs in changed states -/

section Mirrors

variable {ε σ α β : Type} {change : σ → σ}

/-- A result with the state changed. -/
def changed (change : σ → σ) : EStateM.Result ε σ α → EStateM.Result ε σ α
  | .ok a s => .ok a (change s)
  | .error e s => .error e (change s)

/-- Run from the changed state, the action ends as it does from `s`, in the changed state. If it
succeeds, it does so as `post` says. -/
structure Mirrors (change : σ → σ) (act : EStateM ε σ α) (s : σ) (post : α → σ → Prop) : Prop where
  same : act (change s) = changed change (act s)
  yields : Yields act s post

namespace Mirrors

variable {act : EStateM ε σ α} {s : σ} {post post' : α → σ → Prop} {next : α → EStateM ε σ β}
  {post₂ : β → σ → Prop}

/-- Less may be said of how a run ends. -/
theorem imp (h : Mirrors change act s post) (hpost : ∀ a s', post a s' → post' a s') :
    Mirrors change act s post' :=
  ⟨h.same, h.yields.imp hpost⟩

theorem pure {a : α} (h : post a s) : Mirrors change (pure a : EStateM ε σ α) s post := ⟨rfl, h⟩

theorem throw (e : ε) : Mirrors change (throw e : EStateM ε σ α) s post := ⟨rfl, trivial⟩

/-- Runs that are mirrored are mirrored one after another. -/
theorem bind (h : Mirrors change act s post)
    (hnext : ∀ a s', post a s' → Mirrors change (next a) s' post₂) :
    Mirrors change (act >>= next) s post₂ := by
  refine ⟨?_, ensures_bind h.yields fun a s' hpost ↦ (hnext a s' hpost).yields⟩
  show EStateM.bind act next (change s) = changed change (EStateM.bind act next s)
  unfold EStateM.bind
  rw [h.same]
  cases hrun : act s with
  | ok a s' => exact (hnext a s' (h.yields.of_ok hrun)).same
  | error e s' => rfl

/-- What is read from the state has to be the same in the changed one. -/
theorem get_bind {next : σ → EStateM ε σ β} (hsame : next (change s) = next s)
    (h : Mirrors change (next s) s post₂) : Mirrors change (get >>= next) s post₂ := by
  refine ⟨?_, h.yields⟩
  show next (change s) (change s) = changed change (next s s)
  rw [hsame, h.same]

end Mirrors

end Mirrors

/-! ### Names -/

/-- The name that a type is written with, if it is written at all. -/
def SourceType.mentioned (type : SourceType) : List String :=
  if type.isNone then [] else [type.name]

namespace Node

/-- The names of types and classes that a node is written with, those within its parts left out. -/
def mentioned : Node → List String
  | script name _ _ => [name]
  | classDef name superclass interfaces _ _ => name :: (superclass.toList ++ interfaces)
  | methodDef _ params returnType _ _ _ =>
    params.flatMap (·.type.mentioned) ++ returnType.mentioned
  | constructorDef params _ _ => params.flatMap (·.type.mentioned)
  | importDef full asName _ => full :: asName.toList
  | n => n.type.mentioned

/-- Whether all names of types and classes that a node is written with pass a test. -/
def names (p : String → Bool) (n : Node) : Bool := n.mentioned.all p

/-- The type of a node is written in it, if it is written at all. -/
theorem mentioned_type_subset (n : Node) : n.type.mentioned ⊆ n.mentioned := by
  cases n with
  | script | classDef | methodDef | constructorDef | importDef => exact List.nil_subset _
  | _ => exact List.Subset.refl _

end Node

/-! ### Changes of sessions -/

/-- How sessions differ, and which ones. A program may use the names that are allowed; all types
that it comes across are familiar then. -/
structure Recast where
  /-- The classes that are known instead. -/
  classes : ClassTable → ClassTable
  /-- The options that are set instead. -/
  options : Options → Options
  /-- The method that is finished instead. -/
  method : MethodCode → MethodCode
  /-- Whether a program may use a name for a type or class. -/
  allows : String → Bool
  /-- The types that programs come across. -/
  familiar : MachineType → Prop
  /-- The sessions that are changed. -/
  valid : Session → Prop

namespace Recast

variable (r : Recast)

/-- An open class, with its methods changed. -/
def classScope (c : ClassScope) : ClassScope := { c with methods := c.methods.map r.method }

/-- What is open, with the methods of classes changed. -/
def frame : Frame → Frame
  | .ofClass c => .ofClass (r.classScope c)
  | .ofMethod m => .ofMethod m

/-- All that is open, with the methods of classes changed. -/
def scopes (scopes : Scopes) : Scopes := { frames := scopes.frames.map r.frame }

/-- A compiled class, with its methods changed. -/
def classCode (c : ClassCode) : ClassCode := { c with methods := c.methods.map r.method }

/-- A compiled unit, with all methods changed. -/
def unitCode (u : UnitCode) : UnitCode := { classes := u.classes.map r.classCode }

/-- The changed session. -/
def session (s : Session) : Session :=
  { s with
    classes := r.classes s.classes
    options := r.options s.options
    scopes := r.scopes s.scopes
    finished := s.finished.map r.classCode }

/-- The changed session, with the code of a method as it is. -/
def gen (g : GenState) : GenState := { g with session := r.session g.session }

/-! ### What is open -/

/-- The current class is the changed one. -/
theorem currentClass?_scopes (s : Scopes) :
    (r.scopes s).currentClass? = s.currentClass?.map r.classScope := by
  obtain ⟨frames⟩ := s
  show (frames.map r.frame).findSome? Scopes.classOf? = (frames.findSome? _).map _
  induction frames with
  | nil => rfl
  | cons frame frames ih =>
    cases frame with
    | ofClass c => rfl
    | ofMethod m => exact ih

@[simp] theorem currentMethod?_scopes (s : Scopes) :
    (r.scopes s).currentMethod? = s.currentMethod? := by
  obtain ⟨frames⟩ := s
  rcases frames with _ | ⟨frame, frames⟩
  · rfl
  · cases frame <;> rfl

@[simp] theorem isStatic_scopes (s : Scopes) : (r.scopes s).isStatic = s.isStatic := by
  obtain ⟨frames⟩ := s
  rcases frames with _ | ⟨frame, frames⟩
  · rfl
  · cases frame <;> rfl

@[simp] theorem depth_scopes (s : Scopes) : (r.scopes s).depth = s.depth := List.length_map ..

theorem scopes_setLocals (s : Scopes) (l : Locals) :
    r.scopes (s.setLocals l) = (r.scopes s).setLocals l := by
  obtain ⟨frames⟩ := s
  rcases frames with _ | ⟨frame, frames⟩
  · rfl
  · cases frame <;> rfl

/-- A method is finished in its changed form. -/
theorem scopes_addMethod (s : Scopes) (m : MethodCode) :
    r.scopes (s.addMethod m) = (r.scopes s).addMethod (r.method m) := by
  obtain ⟨frames⟩ := s
  refine congrArg Scopes.mk ?_
  show (Scopes.addMethodTo m frames).map r.frame =
    Scopes.addMethodTo (r.method m) (frames.map r.frame)
  induction frames with
  | nil => rfl
  | cons frame frames ih =>
    cases frame with
    | ofMethod scope => exact congrArg (List.cons _) ih
    | ofClass c =>
      refine congrArg (fun methods ↦ Frame.ofClass { c with methods } :: frames.map r.frame) ?_
      exact List.map_append ..

/-- A class is left as before, and what is left is changed. -/
theorem leaveClass_scopes (s : Scopes) : (r.scopes s).leaveClass =
    s.leaveClass.map fun left ↦ (r.classScope left.1, r.scopes left.2) := by
  obtain ⟨frames⟩ := s
  rcases frames with _ | ⟨frame, frames⟩
  · rfl
  · cases frame <;> rfl

/-- So is a method. -/
theorem leaveMethod_scopes (s : Scopes) (handle : MethodHandle) : (r.scopes s).leaveMethod handle =
    (s.leaveMethod handle).map fun left ↦ (left.1, r.scopes left.2) := by
  unfold Scopes.leaveMethod
  rw [depth_scopes]
  split
  · rfl
  · obtain ⟨frames⟩ := s
    rcases frames with _ | ⟨frame, frames⟩
    · rfl
    · cases frame <;> rfl

/-- A class that is opened is opened in the changed session. -/
theorem session_openClass (s : Session) {c : ClassScope} (hc : c.methods = []) :
    r.session (s.openClass c) = (r.session s).openClass c := by
  have hscope : r.classScope c = c := by
    unfold classScope
    rw [hc]
    exact congrArg (fun methods ↦ { c with methods }) hc.symm
  show ({ r.session s with
    entered := _, scopes := { frames := .ofClass (r.classScope c) :: _ } } : Session) = _
  rw [hscope]
  rfl

theorem session_openMethod (s : Session) (m : MethodScope) :
    ((r.session s).openMethod m).2 = r.session (s.openMethod m).2 := rfl

theorem session_withLocals (s : Session) (l : Locals) :
    r.session (s.withLocals l) = (r.session s).withLocals l := by
  show ({ r.session s with scopes := r.scopes (s.scopes.setLocals l) } : Session) = _
  rw [scopes_setLocals]
  rfl

/-! ### Units -/

/-- The classes of a unit are collected in their changed forms. -/
theorem collect_map (finished : List ClassCode) (names : List String) :
    Session.collect (finished.map r.classCode) names =
      (Session.collect finished names).map (·.map r.classCode) := by
  induction names generalizing finished with
  | nil => rfl
  | cons name names ih =>
    have hfind : (finished.map r.classCode).find? (·.name == name) =
        (finished.find? (·.name == name)).map r.classCode := List.find?_map ..
    have hfilter : (finished.map r.classCode).filter (·.name != name) =
        (finished.filter (·.name != name)).map r.classCode := List.filter_map ..
    unfold Session.collect
    rw [hfind]
    cases finished.find? (·.name == name) with
    | none => rfl
    | some c =>
      dsimp only [Option.map]
      rw [hfilter, ih]
      cases Session.collect (finished.filter (·.name != name)) names <;> rfl

/-- The unit of a changed session is the changed unit. -/
theorem finish_session (s : Session) : (r.session s).finish = s.finish.map r.unitCode := by
  unfold Session.finish
  show (if (r.scopes s.scopes).depth = 0 then
    (Session.collect (s.finished.map r.classCode) s.entered).map UnitCode.mk else _) = _
  rw [depth_scopes, collect_map]
  split
  · cases Session.collect s.finished s.entered <;> rfl
  · show Except.error (Fault.scopesStillOpen (r.scopes s.scopes).depth) = _
    rw [depth_scopes]
    rfl

/-! ### Actions that carry a change -/

/-- In all sessions that are changed, the action does the same in the changed one, and leads to such
a session again. -/
structure Carries {σ α : Type} (session : σ → Session) (change : σ → σ)
    (act : EStateM CompileError σ α) (post : α → Prop) : Prop where
  run : ∀ {s : σ}, r.valid (session s) →
    Mirrors change act s fun a s' ↦ post a ∧ r.valid (session s')

/-- An action on a session carries the change. -/
abbrev OnSession {α : Type} (act : SessionM α) (post : α → Prop) : Prop :=
  r.Carries id r.session act post

/-- An action on the code of a method carries the change. -/
abbrev OnGen {α : Type} (act : Gen α) (post : α → Prop) : Prop :=
  r.Carries GenState.session r.gen act post

/-- In all sessions that are changed, the same is read from the changed one. -/
structure Reads {α : Type} (reading : Session → Except CompileError α)
    (post : α → Prop) : Prop where
  same : ∀ {s : Session}, r.valid s → reading (r.session s) = reading s
  result : ∀ {s : Session} {a : α}, r.valid s → reading s = .ok a → post a

variable {r}

namespace Carries

variable {σ α β : Type} {session : σ → Session} {change : σ → σ}
  {act : EStateM CompileError σ α} {post : α → Prop} {post₂ : β → Prop}

theorem pure {a : α} (h : post a) :
    r.Carries session change (pure a : EStateM CompileError σ α) post :=
  ⟨fun hs ↦ .pure ⟨h, hs⟩⟩

theorem throw (e : CompileError) :
    r.Carries session change (throw e : EStateM CompileError σ α) post :=
  ⟨fun _ ↦ .throw e⟩

/-- Actions that carry over do so one after another. -/
theorem bind {next : α → EStateM CompileError σ β} (h : r.Carries session change act post)
    (hnext : ∀ a, post a → r.Carries session change (next a) post₂) :
    r.Carries session change (act >>= next) post₂ :=
  ⟨fun hs ↦ (h.run hs).bind fun a _ hpost ↦ (hnext a hpost.1).run hpost.2⟩

theorem ite {c : Prop} [Decidable c] {act' : EStateM CompileError σ α}
    (hpos : c → r.Carries session change act post)
    (hneg : ¬c → r.Carries session change act' post) :
    r.Carries session change (if c then act else act') post := by
  split
  · next h => exact hpos h
  · next h => exact hneg h

/-- Actions for the elements of a list, one after another. -/
theorem forM {ι : Type} {f : ι → EStateM CompileError σ PUnit} {as : List ι}
    (h : ∀ a ∈ as, r.Carries session change (f a) fun _ ↦ True) :
    r.Carries session change (as.forM f) fun _ ↦ True := by
  induction as with
  | nil => exact .pure trivial
  | cons a as ih =>
    obtain ⟨ha, hrest⟩ := List.forall_mem_cons.1 h
    exact ha.bind fun _ _ ↦ ih hrest

end Carries

section Lifting

variable {α β : Type} {post : α → Prop} {post₂ : β → Prop}

/-- What is read alike is read alike by actions on the session, -/
theorem Reads.onSession {reading : Session → Except CompileError α} (h : r.Reads reading post) :
    r.OnSession (SessionM.query reading) post := by
  refine ⟨fun {s} hs ↦ ⟨?_, ?_⟩⟩
  · have hsame : reading (r.session s) = reading s := h.same hs
    show SessionM.ofExcept (reading (r.session s)) (r.session s) =
      changed r.session (SessionM.ofExcept (reading s) s)
    rw [hsame]
    cases reading s <;> rfl
  · exact SessionM.ensures_query (fun a ha ↦ ⟨h.result hs ha, hs⟩) fun _ _ ↦ trivial

/-- What happens to the session alone does not concern the code. -/
theorem onGen_onSession {act : SessionM α} (h : r.OnSession act post) :
    r.OnGen (Gen.onSession act) post := by
  refine ⟨fun {g} hg ↦ ⟨?_, Gen.ensures_onSession (h.run hg).yields⟩⟩
  have hsame : act (r.gen g).session = changed r.session (act g.session) := (h.run hg).same
  unfold Gen.onSession
  rw [hsame]
  cases act g.session <;> rfl

/-- and by code. -/
theorem Reads.onGen {reading : Session → Except CompileError α} (h : r.Reads reading post) :
    r.OnGen (Gen.query reading) post :=
  onGen_onSession h.onSession

theorem onGen_emit (i : Instruction) : r.OnGen (Gen.emit i) fun _ ↦ True :=
  ⟨fun hg ↦ ⟨rfl, ⟨trivial, hg⟩⟩⟩

theorem onGen_createLabel : r.OnGen Gen.createLabel fun _ ↦ True :=
  ⟨fun hg ↦ ⟨rfl, ⟨trivial, hg⟩⟩⟩

theorem onGen_bind (l : Label) : r.OnGen (Gen.bind l) fun _ ↦ True :=
  ⟨fun hg ↦ ⟨rfl, ⟨trivial, hg⟩⟩⟩

/-- The code of a method is the same in the changed session. -/
theorem onSession_assemble {act : Gen Unit} (h : r.OnGen act fun _ ↦ True) :
    r.OnSession (Gen.assemble act) fun _ ↦ True := by
  refine ⟨fun {s} hs ↦ ?_⟩
  have hact : r.valid (({ session := s } : GenState).session) := hs
  refine ⟨?_, Gen.ensures_assemble ((h.run hact).yields.imp fun _ g hg ↦ ?_)⟩
  · have hsame : act { session := r.session s } = changed r.gen (act { session := s }) :=
      (h.run hact).same
    unfold Gen.assemble
    rw [hsame]
    cases act { session := s } with
    | error e g => rfl
    | ok a g =>
      dsimp only [changed, gen]
      cases g.asm.finish <;> rfl
  · split
    · exact ⟨trivial, hg.2⟩
    · trivial

end Lifting

/-! ### Faithful changes -/

/-- Nothing that a program reads depends on the change, and the steps of a compilation lead from one
session that is changed to another. -/
structure Faithful (r : Recast) : Prop where
  /-- Types. -/
  builtin : ∀ type ∈ [MachineType.void, .boolean, .int, .long, .string, .object, mainArgs],
    r.familiar type
  ofClass : ∀ {name : String}, r.allows name = true → r.familiar (.ofClass name)
  typeOf : ∀ {type : SourceType} (span : Span),
    (∀ name ∈ type.mentioned, r.allows name = true) → r.Reads (·.typeOf type span) r.familiar
  conversion? : ∀ {s : Session} {source target : MachineType}, r.valid s → r.familiar source →
    r.familiar target →
    (r.classes s.classes).conversion? source target = s.classes.conversion? source target
  /-- Classes and members. -/
  classRef? : ∀ {s : Session} {name : String}, r.valid s → r.allows name = true →
    (r.classes s.classes).classRef? name = s.classes.classRef? name ∧
      ∀ c, s.classes.classRef? name = some c → r.familiar (.ref c)
  resolve : ∀ {cls : ClassRef} {args : List MachineType} (name : String) (isStatic : Bool)
    (span : Span), r.familiar (.ref cls) → (∀ arg ∈ args, r.familiar arg) →
    r.Reads (·.classes.resolve cls name args isStatic span) fun m ↦
      r.familiar m.returnType ∧ ∀ param ∈ m.params, r.familiar param
  /-- What is open. -/
  current : ∀ {s : Session} {c : ClassScope}, r.valid s → s.scopes.currentClass? = some c →
    r.familiar (.ref c.cls) ∧ r.familiar (.ref c.superclass)
  localType : ∀ {s : Session} {name : String} {v : LocalVar}, r.valid s →
    s.locals.get? name = some v → r.familiar v.type
  /-- Locals. -/
  declareThis : ∀ {s : Session} {cls : ClassRef} {v : LocalVar} {l : Locals}, r.valid s →
    r.familiar (.ref cls) → s.locals.declareThis cls = .ok (v, l) → r.valid (s.withLocals l)
  declareParam : ∀ {s : Session} {name : String} {type : MachineType} {span : Span}
    {v : LocalVar} {l : Locals}, r.valid s → r.familiar type →
    s.locals.declareParam name type span = .ok (v, l) → r.valid (s.withLocals l)
  declareStore : ∀ {s : Session} {name : String} {type : MachineType} {span : Span}
    {v : LocalVar} {l : Locals}, r.valid s → r.familiar type →
    s.locals.declareStore name type span = .ok (v, l) → r.valid (s.withLocals l)
  /-- Imports, classes and methods. -/
  importClass : ∀ {s : Session} {c : ClassRef} (short : List String), r.valid s →
    r.familiar (.ref c) →
    r.valid { s with types := short.foldl (fun t name ↦ t.insertClass name (.ref c)) s.types }
  openMethod : ∀ {s : Session} {m : MethodScope}, r.valid s → m.locals = {} →
    r.valid (s.openMethod m).2
  openClass : ∀ {s : Session} {c : ClassScope}, r.valid s → c.methods = [] →
    r.familiar (.ref c.cls) → r.familiar (.ref c.superclass) → r.valid (s.openClass c)
  leaveClass : ∀ {s : Session} {c : ClassScope} {scopes : Scopes}, r.valid s →
    s.scopes = scopes.enterClass c →
    r.valid { s.withScopes scopes with finished := c.done :: s.finished }

end Recast

end ScriptBytecode

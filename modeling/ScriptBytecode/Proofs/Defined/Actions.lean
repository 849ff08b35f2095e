import ScriptBytecode.Compile.Node
import ScriptBytecode.Proofs.Defined.Restored
import ScriptBytecode.Proofs.Defined.Sessions
import ScriptBytecode.Proofs.Resolution

/-!
# What actions define

An action `DefinesOn` a list of definitions if, whenever it succeeds, just these were compiled, and
if, however it ends, what was open before it is open as before. Most of what goes on in a method
defines nothing; so the code of a construct defines what the code of its parts does, in the order in
which the parts are emitted.

* `DefinesOn` is the notion, with the laws `pure`, `throw`, `bind`, `get` and `ite`, and `Defines`,
  `DefinesFor` and `DefinesArgs` are its forms for actions, for code with a destination and for
  arguments;
* the rest are the actions that code is made of, of which only those that are given code for parts
  define anything.

**Only successes are counted.** What was compiled by an action that fails is not said here; the
classes and methods that it finished on the way stay finished, but nothing is made of them. What is
open is said in either case, as whoever called the action has to go on.

**The order is the one of emission**, which is not always that of the source: what is tested at the
end of a loop is compiled behind its body. It matters because imports among the definitions change
what type names stand for further on.
-/

namespace ScriptBytecode

/-- Within a class, if the action succeeds, it compiles the definitions; and wherever it is run, the
session can go on behind it, also if it stops among the definitions. `session` is the session that
is part of the state. -/
structure DefinesOn {σ α : Type} (session : σ → Session) (act : EStateM CompileError σ α)
    (owner : Owner) (ds : List Definition) : Prop where
  run : ∀ {s : σ}, (session s).Within owner →
    Yields act s fun _ s' ↦ (session s).Defined ds (session s')
  resumes : Resumes session act ds

/-- What an action on a session defines. -/
abbrev SessionM.Defines {α : Type} (act : SessionM α) : Owner → List Definition → Prop :=
  DefinesOn id act

/-- What an action on the code of a method defines. -/
abbrev Gen.Defines {α : Type} (act : Gen α) : Owner → List Definition → Prop :=
  DefinesOn GenState.session act

namespace DefinesOn

variable {σ α β : Type} {session : σ → Session} {owner : Owner} {ds ds' : List Definition}

/-- An action that does nothing defines nothing. -/
theorem pure (a : α) : DefinesOn session (pure a) owner [] :=
  ⟨fun {s} _ ↦ ensures_pure (.refl (session s)), .pure a⟩

/-- Nor does one that fails, so anything can be said of it. -/
theorem throw (e : CompileError) :
    DefinesOn session (throw e : EStateM CompileError σ α) owner ds :=
  ⟨fun _ ↦ ensures_throw trivial, .throw e⟩

/-- Actions define one after another. -/
theorem bind {act : EStateM CompileError σ α} {next : α → EStateM CompileError σ β}
    (h : DefinesOn session act owner ds) (hnext : ∀ a, DefinesOn session (next a) owner ds') :
    DefinesOn session (act >>= next) owner (ds ++ ds') := by
  refine ⟨fun {s} hs ↦ ?_, h.resumes.bind fun a ↦ (hnext a).resumes⟩
  refine ensures_bind (h.run hs) fun a s' hs' ↦ ?_
  exact ((hnext a).run (hs'.continues.within hs)).imp fun _ _ hs'' ↦ hs'.trans hs''

/-- An action that defines nothing may come before one that does. -/
theorem after {act : EStateM CompileError σ α} {next : α → EStateM CompileError σ β}
    (h : DefinesOn session act owner []) (hnext : ∀ a, DefinesOn session (next a) owner ds) :
    DefinesOn session (act >>= next) owner ds :=
  h.bind hnext

/-- An action that defines nothing may come after one that does. -/
theorem before {act : EStateM CompileError σ α} {next : α → EStateM CompileError σ β}
    (h : DefinesOn session act owner ds) (hnext : ∀ a, DefinesOn session (next a) owner []) :
    DefinesOn session (act >>= next) owner ds :=
  List.append_nil ds ▸ h.bind hnext

/-- To look at the state defines nothing. -/
theorem get {next : σ → EStateM CompileError σ α}
    (h : ∀ s, DefinesOn session (next s) owner ds) :
    DefinesOn session (MonadState.get >>= next) owner ds :=
  ⟨fun {s} hs ↦ ensures_get_bind ((h s).run hs), .get fun s ↦ (h s).resumes⟩

/-- A choice between two actions defines what both define. -/
theorem ite {c : Prop} [Decidable c] {act act' : EStateM CompileError σ α}
    (h : DefinesOn session act owner ds) (h' : DefinesOn session act' owner ds) :
    DefinesOn session (if c then act else act') owner ds := by
  split
  · exact h
  · exact h'

end DefinesOn

/-! ### Actions on a session -/

namespace SessionM

variable {α β : Type} {owner : Owner} {ds : List Definition}

theorem defines_ofExcept (r : Except CompileError α) : Defines (ofExcept r) owner [] := by
  cases r with
  | ok a => exact .pure a
  | error e => exact .throw e

/-- To read the session defines nothing. -/
theorem defines_query (read : Session → Except CompileError α) :
    Defines (query read) owner [] :=
  .get fun s ↦ defines_ofExcept (read s)

/-- Nor does a local that gets slots. -/
theorem defines_declareLocal (outside : CompileError)
    (declare : Locals → Except CompileError (LocalVar × Locals)) :
    Defines (declareLocal outside declare) owner [] := by
  refine ⟨fun {s} _ ↦ ?_, ⟨fun s ↦ ?_⟩⟩
  · refine ensures_declareLocal (fun v l _ _ ↦ ?_) (fun _ _ ↦ trivial) fun _ ↦ trivial
    exact .withLocals s l
  · refine ensures_declareLocal (fun v l _ _ ↦ ?_) (fun _ _ ↦ ?_) fun _ ↦ ?_
    · exact .withLocals s l
    · exact .nothing s []
    · exact .nothing s []

end SessionM

/-! ### Actions on the code of a method -/

namespace Gen

variable {α : Type} {owner : Owner} {ds ds' : List Definition}

/-- On the session of a code generator, an action defines what it does on any. -/
theorem defines_onSession {act : SessionM α} (h : act.Defines owner ds) :
    Defines (onSession act) owner ds :=
  ⟨fun hg ↦ ensures_onSession (h.run hg), ⟨fun g ↦ ensures_onSession (h.resumes.run g.session)⟩⟩

theorem defines_query (read : Session → Except CompileError α) : Defines (query read) owner [] :=
  defines_onSession (SessionM.defines_query read)

/-- To emit an instruction defines nothing. -/
theorem defines_emit (i : Instruction) : Defines (emit i) owner [] :=
  ⟨fun {g} _ ↦ .refl g.session, .of_eq fun _ ↦ rfl⟩

theorem defines_bindLabel (l : Label) : Defines (Gen.bind l) owner [] :=
  ⟨fun {g} _ ↦ .refl g.session, .of_eq fun _ ↦ rfl⟩

theorem defines_createLabel : Defines createLabel owner [] :=
  ⟨fun {g} _ ↦ .refl g.session, .of_eq fun _ ↦ rfl⟩

theorem defines_emitAll (is : List Instruction) : Defines (emitAll is) owner [] := by
  induction is with
  | nil => exact .pure _
  | cons i is ih => exact (defines_emit i).after fun _ ↦ ih

theorem defines_placeholder (type : MachineType) : Defines (placeholder type) owner [] :=
  (defines_emit _).after fun _ ↦ .pure _

theorem defines_settle (produced : MachineType) (keep : Bool) :
    Defines (settle produced keep) owner [] := by
  unfold settle
  split
  · exact defines_placeholder _
  · exact .pure _
  · exact .pure _
  · exact (defines_emit _).after fun _ ↦ .pure _

theorem defines_settleVoid (type : MachineType) (keep : Bool) :
    Defines (settleVoid type keep) owner [] :=
  .ite (defines_placeholder _) (.pure _)

theorem defines_joinType (type : SourceType) (span : Span) (keep : Bool) :
    Defines (joinType type span keep) owner [] :=
  .ite (defines_query _) (.pure _)

theorem defines_coerce (actual target : MachineType) (span : Span) :
    Defines (coerce actual target span) owner [] := by
  refine .get fun g ↦ ?_
  split
  · exact defines_emitAll _
  · exact .ite (.pure _) (.throw _)

/-! ### Code of parts -/

/-- Whatever it is compiled for, the code of a part defines the same. -/
abbrev DefinesFor (code : Destination → Gen MachineType) (owner : Owner)
    (ds : List Definition) : Prop :=
  ∀ d, Defines (code d) owner ds

/-- Given parameter types for all of the arguments, their code defines the same. -/
abbrev DefinesArgs (count : Nat) (code : ArgsCode) (owner : Owner) (ds : List Definition) : Prop :=
  ∀ params : List MachineType, params.length = count → Defines (code params) owner ds

/-- A value that is converted to the expected type defines what its code does. -/
theorem defines_receive {code : Destination → Gen MachineType} (h : DefinesFor code owner ds)
    (target : MachineType) (span : Span) : Defines (receive target span code) owner ds := by
  refine .ite ?_ ?_
  · exact (h .discard).before fun _ ↦ .pure _
  · exact (h .push).before fun _ ↦ defines_coerce ..

/-- For whatever destination it is compiled, a node defines what its code does. -/
theorem defines_deliver (n : Node) {code : Bool → Gen MachineType}
    (h : ∀ keep, Defines (code keep) owner ds) : DefinesFor (deliver n · code) owner ds := by
  intro d
  cases d with
  | discard => exact h false
  | push => exact h true
  | jump sense target =>
    refine (defines_query _).after fun type ↦ ?_
    refine .ite ?_ (.throw _)
    refine (h true).before fun actual ↦ ?_
    exact (defines_coerce ..).after fun _ ↦ (defines_emit _).after fun _ ↦ .pure _

/-- Arguments define what their codes do, in order. -/
theorem defines_passArgs {args : List Node} {code : ArgsCode}
    (h : DefinesArgs args.length code owner ds) (params : List MachineType) :
    Defines (passArgs args code params) owner ds := by
  unfold passArgs
  split
  · next hlength => exact h params hlength.symm
  · exact .throw _

end Gen

end ScriptBytecode

import ScriptBytecode.Compile.Node
import ScriptBytecode.Proofs.Arguments
import ScriptBytecode.Proofs.Defined.Sessions
import ScriptBytecode.Proofs.Discipline.Readings
import ScriptBytecode.Source.All

/-!
# Disciplines

Whatever a program is, it is compiled in steps of a few kinds: reading the session, emitting an
instruction, declaring a local, opening and closing a method or a class. A `Discipline` is a
property of actions that all these steps have and that sequences of actions inherit from their
parts. Then the code of a construct has the property if the code of its parts does.

What a step may rely on is the `Setting` that all is compiled in, the `Place` that it stands in, and
what it has read. Of the members that are called, this is kept in `Emittable`.

* `Setting`, `Place`, `Session.Suits`, `Session.StandsIn` and `Session.GoesOn` say what a step may
  rely on and what it leaves for the next one;
* `Setting.Calls` and `Emittable` say which members may be called in a place and by what
  instruction;
* `Sequential` and `Discipline` list what a property has to have;
* `Discipline.query` and `Discipline.querySession` are how it deals with what is read.

**Why a record of closure properties.** Many things can be said of compiled code by induction on the
nodes, and most of these inductions differ in nothing but what is said of single steps. A discipline
is the list of those steps. The induction is made once; what is proved of all code is an instance of
the record and names no construct of the language.

**What a step may know.** A test that all nodes pass (`ok`) is handed to every step that stands for
a node, so that a property can depend on what is written. Of what is read, a step knows that it was
read in the place where it stands: this is how the member of an invocation is tied to a call.

**What it cannot say.** A discipline speaks of each action by itself, so a property that depends on
how two parts of a construct hang together, such as the stack between them, is none.
-/

namespace ScriptBytecode

/-! ### Instructions -/

/-- Whether an instruction calls a member. -/
def Instruction.isInvocation : Instruction → Bool
  | invokeStatic _ | invokeVirtual _ | invokeInterface _ | invokeSpecial _ => true
  | _ => false

/-- The name that a call is written with. -/
def Node.calledName? : Node → Option String
  | call _ name _ _ _ | selfCall name _ _ _ => some name
  | _ => none

/-- The name of the local that a store is written for. -/
def Node.storedName? : Node → Option String
  | assign name _ _ _ => some name
  | _ => none

/-! ### Settings and places -/

/-- What code can rely on wherever it stands: the known classes, and what type names can stand
for. -/
structure Setting where
  /-- The known classes. -/
  classes : ClassTable
  /-- The tables of type names that there can be. -/
  Types : TypeTable → Prop

/-- If type names stand for something that they can, they still do after an import that passes the
test. -/
structure Setting.Admits (t : Setting) (ok : Node → Bool) : Prop where
  withImport : ∀ {types : TypeTable} {full : String} {asName : Option String} {span : Span},
    ok (.importDef full asName span) = true → t.Types types →
    t.Types (types.withImport t.classes full asName)

/-- What type names can stand for while a script is compiled: what they stood for when all was
declared, and after some of the imports that are written. -/
inductive TypeTable.Reached (classes : ClassTable) (written : Node → Prop) (declared : TypeTable) :
    TypeTable → Prop
  | declared : Reached classes written declared declared
  | withImport {t : TypeTable} {full : String} {asName : Option String} {span : Span}
      (h : Reached classes written declared t) (hwritten : written (.importDef full asName span)) :
      Reached classes written declared (t.withImport classes full asName)

/-- The setting in which the nodes are compiled that are written, once all is declared. -/
def Session.setting (s : Session) (written : Node → Prop) : Setting where
  classes := s.classes
  Types := TypeTable.Reached s.classes written s.types

/-- Where code stands: in a class, and with a current instance or without one. -/
structure Place extends Owner where
  /-- Whether there is no current instance. -/
  isStatic : Bool

/-- The body of a method of the same class. -/
def Place.within (place : Place) (flags : MemberFlags) : Place :=
  { place with isStatic := flags.isStatic }

/-- The body of a class. -/
def ClassScope.place (c : ClassScope) : Place :=
  { name := c.cls.name, isStaticBody := c.isStaticBody, isStatic := c.isStaticBody }

/-- The session has the classes of the setting, and type names stand for something that they can. -/
structure Session.Suits (t : Setting) (s : Session) : Prop where
  classes : s.classes = t.classes
  types : t.Types s.types

/-- The session suits the setting, and stands in the place. -/
structure Session.StandsIn (t : Setting) (place : Place) (s : Session) : Prop extends
    s.Suits t where
  within : s.Within place.toOwner
  isStatic : s.scopes.isStatic = place.isStatic

/-- The session goes on to one that suits the setting and has the same classes and methods open. -/
structure Session.GoesOn (t : Setting) (s s' : Session) : Prop where
  continues : s.Continues s'
  types : t.Types s'.types

namespace Session

variable {t : Setting} {place : Place} {s s' s'' : Session}

/-- A session suits its own setting. -/
theorem suits_setting (s : Session) (written : Node → Prop) : s.Suits (s.setting written) :=
  ⟨rfl, TypeTable.Reached.declared⟩

theorem GoesOn.refl (h : t.Types s.types) : s.GoesOn t s := ⟨.refl s, h⟩

/-- What goes on twice goes on. -/
theorem GoesOn.trans (h : s.GoesOn t s') (h' : s'.GoesOn t s'') : s.GoesOn t s'' :=
  ⟨h.continues.trans h'.continues, h'.types⟩

/-- A session still suits its setting after it has gone on. -/
theorem Suits.goesOn (hs : s.Suits t) (h : s.GoesOn t s') : s'.Suits t :=
  ⟨h.continues.classes.trans hs.classes, h.types⟩

/-- Where a class is opened, the session stands in the class. -/
theorem Suits.openClass (hs : s.Suits t) (c : ClassScope) : (s.openClass c).StandsIn t c.place :=
  ⟨⟨hs.classes, hs.types⟩, s.within_openClass c, rfl⟩

namespace StandsIn

/-- A session that goes on still stands where it stood. -/
theorem goesOn (hs : s.StandsIn t place) (h : s.GoesOn t s') : s'.StandsIn t place :=
  ⟨hs.toSuits.goesOn h, h.continues.within hs.within,
    (Scopes.isStatic_of_outline h.continues.outline).trans hs.isStatic⟩

/-- Where a method is opened, the session stands in a method with these flags. -/
theorem openMethod (hs : s.StandsIn t place) (m : MethodScope) :
    (s.openMethod m).2.StandsIn t (place.within m.flags) :=
  ⟨⟨hs.classes, hs.types⟩, hs.within.openMethod m, rfl⟩

end StandsIn

end Session

/-! ### Instructions -/

/-- In the place a call is compiled that is written with a receiver of the class, and it resolves to
the member. -/
inductive Setting.Calls (t : Setting) (written : Node → Prop) (place : Place) :
    ClassRef → Member → Prop
  | intro {s : Session} {receiver : Node} {name : String} {args : List Node} {type : SourceType}
      {span : Span} {receiverType : MachineType} {types : List MachineType} {cls : ClassRef}
      {m : Member} (hwritten : written (.call receiver name args type span))
      (hmeta : receiver.type.isMeta = false) (hs : s.StandsIn t place)
      (hreceiver : s.valueType receiver = .ok receiverType)
      (hcls : Session.receiverClass receiverType name span = .ok cls)
      (h : t.classes.resolve cls name types false span = .ok m) : Calls t written place cls m

/-- In the class a call is compiled that is written without a receiver, and it resolves to the
member. -/
inductive Setting.CallsSelf (t : Setting) (written : Node → Prop) (owner : String) : Member → Prop
  | intro {name : String} {args : List Node} {type : SourceType} {span : Span} {cls : ClassRef}
      {types : List MachineType} {isStatic : Bool} {m : Member}
      (hwritten : written (.selfCall name args type span)) (hcls : cls.name = owner)
      (h : t.classes.resolve cls name types isStatic span = .ok m) :
      CallsSelf t written owner m

/-- The instructions that may be emitted in the place, for nodes that pass the test `ok`. An
invocation names a member that some call has resolved to. -/
inductive Emittable (t : Setting) (ok : Node → Bool) (place : Place) : Instruction → Prop
  | plain {i : Instruction} (h : i.isInvocation = false) : Emittable t ok place i
  | ofConstructor {cls : ClassRef} {args : List MachineType} {span : Span} {m : Member}
      (h : t.classes.resolve cls constructorName args false span = .ok m) :
      Emittable t ok place (.invokeSpecial m.toRef)
  | ofStatic {n : Node} {name : String} {cls : ClassRef} {args : List MachineType} {span : Span}
      {m : Member} (hn : ok n = true) (hname : n.calledName? = some name)
      (h : t.classes.resolve cls name args true span = .ok m) :
      Emittable t ok place (.invokeStatic m.toRef)
  | ofInstance {cls : ClassRef} {m : Member} (h : t.Calls (ok · = true) place cls m) :
      Emittable t ok place (Gen.invocation cls m)
  | ofSelf {m : Member} (h : t.CallsSelf (ok · = true) place.name m) :
      Emittable t ok place
        (if m.flags.isStatic then .invokeStatic m.toRef else .invokeVirtual m.toRef)

/-! ### Methods -/

/-- Gives slots to the receiver, if there is one, and to the parameters. -/
def SessionM.declareArguments (isStatic : Bool) (cls : ClassRef) (params : List Param)
    (types : List MachineType) : SessionM Unit := do
  if !isStatic then declareThis cls
  declareParams params types

/-- How a method is made that is written in a script, for nodes that pass the test `ok`: the names
of its parameters, what gives slots to its arguments, and what emits its code. A class that defines
no constructor has one all the same. -/
inductive MethodScope.Written (ok : Node → Bool) (m : MethodScope) :
    List String → SessionM Unit → Gen Unit → Prop
  | ofMethod {params : List Param} {returnType : SourceType} {content : Node} {isStatic : Bool}
      {span : Span} (cls : ClassRef)
      (hok : ok (.methodDef m.name params returnType content isStatic span) = true)
      (hflags : m.flags.isConstructor = false) (hparams : m.params.length = params.length) :
      Written ok m (params.map (·.name))
        (SessionM.declareArguments m.flags.isStatic cls params m.params) (do
        Gen.receive m.returnType content.span (Gen.node content)
        Gen.emitAll (Gen.epilogue m.returnType m.flags.isStatic (← get).session.options.epilogue))
  | ofConstructor {params : List Param} {content : Node} {span : Span} (cls : ClassRef)
      (hok : ok (.constructorDef params content span) = true)
      (hflags : m.flags = { isConstructor := true }) (hreturn : m.returnType = .void)
      (hparams : m.params.length = params.length) :
      Written ok m (params.map (·.name))
        (SessionM.declareArguments m.flags.isStatic cls params m.params) (do
        Gen.callSuper span
        let _ ← Gen.node content .discard
        Gen.emit .returnVoid)
  | ofClass (cls : ClassRef) (span : Span) (hflags : m.flags = { isConstructor := true })
      (hreturn : m.returnType = .void) (hparams : m.params = []) :
      Written ok m [] (SessionM.declareThis cls) (do
        Gen.callSuper span
        Gen.emit .returnVoid)

/-! ### Disciplines -/

/-- Reads from the session that is part of the state and goes on with what it has read, or fails. -/
def consult {σ α β : Type} (session : σ → Session) (reading : Session → Except CompileError β)
    (next : β → EStateM CompileError σ α) : EStateM CompileError σ α := fun s ↦
  match reading (session s) with
  | .ok b => next b s
  | .error e => .error e s

/-- What follows a reading is looked at for each value that may be read, and for each error. -/
theorem ensures_consult {σ α β : Type} {session : σ → Session}
    {reading : Session → Except CompileError β} {next : β → EStateM CompileError σ α} {s : σ}
    {post : α → σ → Prop} {fails : CompileError → σ → Prop}
    (hok : ∀ b, reading (session s) = .ok b → Ensures (next b) s post fails)
    (herr : ∀ e, reading (session s) = .error e → fails e s) :
    Ensures (consult session reading next) s post fails := by
  unfold Ensures consult
  cases hread : reading (session s) with
  | ok b => exact hok b hread
  | error e => exact herr e hread

/-- A property of actions that sequences inherit from their parts. Of what is read, the rest of a
sequence may know that it was read where the sequence stands. -/
structure Sequential (t : Setting) {σ : Type} (session : σ → Session)
    (P : (α : Type) → Place → EStateM CompileError σ α → Prop) : Prop where
  pure : ∀ {α : Type} {place : Place} (a : α), P α place (pure a)
  throw : ∀ {α : Type} {place : Place} (e : CompileError), P α place (throw e)
  bind : ∀ {α β : Type} {place : Place} {act : EStateM CompileError σ α}
    {next : α → EStateM CompileError σ β},
    P α place act → (∀ a, P β place (next a)) → P β place (act >>= next)
  read : ∀ {α β : Type} {place : Place} {reading : Session → Except CompileError β}
    {next : β → EStateM CompileError σ α}, Session.Settled reading →
    (∀ b, (∃ s, s.StandsIn t place ∧ reading s = .ok b) → P α place (next b)) →
    P α place (consult session reading next)

/-- A property of the actions that compile a program: of those on the code of a method, of those
that give slots to the arguments of a method, and of those that define something, which leave the
method that they stand in alone. -/
structure Discipline (t : Setting) (ok : Node → Bool)
    (P : (α : Type) → Place → Gen α → Prop) (Q D : (α : Type) → Place → SessionM α → Prop) :
    Prop where
  gen : Sequential t GenState.session P
  session : Sequential t id Q
  definition : Sequential t id D
  /-- Emitting code. -/
  emit : ∀ {place : Place} {i : Instruction}, Emittable t ok place i → i.isAccess = false →
    P Unit place (Gen.emit i)
  createLabel : ∀ {place : Place}, P Label place Gen.createLabel
  bindLabel : ∀ {place : Place} (l : Label), P Unit place (Gen.bind l)
  /-- Locals. -/
  loadReceiver : ∀ {place : Place},
    (place.isStatic = true → ∃ n, ok n = true ∧ n.calledName? = some constructorName) →
    P Unit place (Gen.emit (.load .reference 0))
  readLocal : ∀ {place : Place} (name : String) (span : Span) (keep : Bool),
    P MachineType place (Gen.readLocal name span keep)
  storeLocal : ∀ {α : Type} {place : Place} {n : Node} {name : String}, ok n = true →
    n.storedName? = some name → ∀ (outside : CompileError) (type : MachineType) (span : Span)
    (keep : Bool) {next : Gen α}, P α place next → P α place (do
      let v ← Gen.onSession <| SessionM.declareLocal outside (·.declareStore name type span)
      if keep then Gen.emit (.dup v.kind)
      Gen.emit (.store v.kind v.slot)
      next)
  declareLocal : ∀ {place : Place} (outside : CompileError)
    (declare : Locals → Except CompileError (LocalVar × Locals)),
    Q LocalVar place (SessionM.declareLocal outside declare)
  /-- Definitions. -/
  onSession : ∀ {α : Type} {place : Place} {act : SessionM α},
    D α place act → P α place (Gen.onSession act)
  importClass : ∀ {place : Place} {full : String} {asName : Option String} {span : Span},
    ok (.importDef full asName span) = true →
    D MachineType place (SessionM.importClass (simpleName full) asName full span)
  inMethod : ∀ {place : Place} (m : MethodScope) {names : List String} {declare : SessionM Unit}
    {act : Gen Unit}, m.Begins names declare → m.Written ok names declare act →
    Q Unit (place.within m.flags) declare →
    P Unit (place.within m.flags) act →
    D Unit place (SessionM.inMethod m (declare >>= fun _ ↦ Gen.assemble act))
  inClass : ∀ {place : Place} {c : ClassScope} {act : SessionM Unit}, c.methods = [] →
    D Unit c.place act → D Unit place (SessionM.inClass c act)

/-! ### Sequences -/

namespace Sequential

variable {t : Setting} {σ α β : Type} {session : σ → Session}
  {P : (α : Type) → Place → EStateM CompileError σ α → Prop} {place : Place}

theorem ite {c : Prop} [Decidable c] {act act' : EStateM CompileError σ α} (hpos : P α place act)
    (hneg : P α place act') : P α place (if c then act else act') := by
  split
  · exact hpos
  · exact hneg

/-- Something is read from the state before an action. -/
theorem get (h : Sequential t session P) (f : Session → β) (next : β → EStateM CompileError σ α)
    (hf : ∀ s s' : Session, s.ReadsAlike s' → f s = f s')
    (hnext : ∀ b, (∃ s, s.StandsIn t place ∧ f s = b) → P α place (next b)) :
    P α place (MonadState.get >>= fun s ↦ next (f (session s))) :=
  h.read (.of_eq hf) fun b ⟨s, hs, hb⟩ ↦ hnext b ⟨s, hs, Except.ok.inj hb⟩

end Sequential

namespace SessionM

variable {α β : Type}

theorem query_bind_eq (reading : Session → Except CompileError β) (next : β → SessionM α) :
    query reading >>= next = consult id reading next := by
  funext s
  show EStateM.bind (ofExcept (reading s)) next s = consult id reading next s
  unfold consult
  rw [id]
  cases reading s <;> rfl

end SessionM

namespace Gen

variable {α β : Type}

theorem query_bind_eq (reading : Session → Except CompileError β) (next : β → Gen α) :
    query reading >>= next = consult GenState.session reading next := by
  funext g
  show EStateM.bind (onSession (SessionM.query reading)) next g = consult _ reading next g
  have hquery : SessionM.query reading g.session = match reading g.session with
      | .ok b => .ok b g.session
      | .error e => .error e g.session := by
    show SessionM.ofExcept (reading g.session) g.session = _
    cases reading g.session <;> rfl
  unfold EStateM.bind onSession consult
  rw [hquery]
  cases reading g.session <;> rfl

end Gen

namespace Discipline

variable {t : Setting} {ok : Node → Bool} {P : (α : Type) → Place → Gen α → Prop}
  {Q D : (α : Type) → Place → SessionM α → Prop} {α β : Type} {place : Place}

/-- To ask the session and go on, it is enough that what follows has the property for every answer
which a session in this place may give. -/
theorem query (h : Discipline t ok P Q D) {reading : Session → Except CompileError β}
    {next : β → Gen α} (hreading : Session.Settled reading)
    (hnext : ∀ b, (∃ s, s.StandsIn t place ∧ reading s = .ok b) → P α place (next b)) :
    P α place (Gen.query reading >>= next) := by
  rw [Gen.query_bind_eq]
  exact h.gen.read hreading hnext

/-- The same for actions on the session itself. -/
theorem querySession (h : Discipline t ok P Q D) {reading : Session → Except CompileError β}
    {next : β → SessionM α} (hreading : Session.Settled reading)
    (hnext : ∀ b, (∃ s, s.StandsIn t place ∧ reading s = .ok b) → D α place (next b)) :
    D α place (SessionM.query reading >>= next) := by
  rw [SessionM.query_bind_eq]
  exact h.definition.read hreading hnext

end Discipline

end ScriptBytecode

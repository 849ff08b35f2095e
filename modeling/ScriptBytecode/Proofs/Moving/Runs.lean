import ScriptBytecode.Proofs.Discipline.Nodes
import ScriptBytecode.Proofs.Moving.Declarations

/-!
# Runs from sessions that are alike

An action that succeeds in one session succeeds in every session that is alike, with the same value,
and changes both in the same way: it makes the same additions, declares the same locals and emits
the same code. This is a discipline, so it holds of all that is compiled, as long as nothing is
imported.

* `Changing` says what sort of change an action can make, and `ChangesAlike` that it makes the same
  one in sessions that are alike;
* `changing_adds`, `changing_after` and `changing_code` are the three sorts;
* `runsAlike_discipline` says that to run alike is a discipline.

**One change for all.** It is not enough that an action succeeds in both of two sessions that are
alike: what it adds, declares and emits has to be the same in both, or what comes next would tell
them apart. So the change is given first, and then it is said that the action makes this change in
every session which is alike to the one it was run from (`ChangesAlike`).

**Failures are not compared.** If an action fails in one session nothing is said of the others here.
That it fails in them too follows at the end, since being alike goes both ways.

**Three sorts of change** nest in each other: a definition only adds, code within a method changes
locals as well, and the generator of code emits besides (`changing_adds`, `changing_after`,
`changing_code`).
-/

namespace ScriptBytecode

/-! ### Changes -/

/-- If the action succeeds, it makes one and the same change in all states that are related to the
state that it was run from. `change d s` is the state `s` after the change `d`. -/
structure ChangesAlike {σ δ : Type} (change : δ → σ → σ) (R : Place → σ → σ → Prop) (α : Type)
    (place : Place) (act : EStateM CompileError σ α) : Prop where
  run : ∀ {s u : σ} {a : α}, R place s s → act s = .ok a u →
    ∃ d, ∀ s', R place s s' → act s' = .ok a (change d s')

/-- Changes that can be made one after another, and that states may be related through. -/
structure Changing (t : Setting) {σ δ : Type} (session : σ → Session) (change : δ → σ → σ)
    (R : Place → σ → σ → Prop) : Prop where
  stands : ∀ {place : Place} {s s' : σ}, R place s s' → (session s).StandsIn t place
  alike : ∀ {place : Place} {s s' : σ}, R place s s' → (session s).ReadsAlike (session s')
  nothing : ∀ s, ∃ d, ∀ place s', R place s s' → change d s' = s'
  compose : ∀ d d', ∃ d'', ∀ s, change d' (change d s) = change d'' s
  related : ∀ {place : Place} {s s' : σ} (d : δ), R place s s' →
    R place (change d s) (change d s')

namespace Changing

variable {t : Setting} {σ δ α β : Type} {session : σ → Session} {change : δ → σ → σ}
  {R : Place → σ → σ → Prop} {place : Place}

/-- An action that does nothing changes nothing in either. -/
theorem pure (h : Changing t session change R) (a : α) :
    ChangesAlike change R α place (pure a) := by
  constructor
  intro s u b _ hrun
  cases hrun
  obtain ⟨d, hd⟩ := h.nothing s
  refine ⟨d, fun s' hs ↦ ?_⟩
  rw [hd place s' hs]
  rfl

/-- What follows a first part is run from states that are related again. -/
theorem bind (h : Changing t session change R) {act : EStateM CompileError σ α}
    {next : α → EStateM CompileError σ β} (hact : ChangesAlike change R α place act)
    (hnext : ∀ a, ChangesAlike change R β place (next a)) :
    ChangesAlike change R β place (act >>= next) := by
  constructor
  intro s u b hs hrun
  obtain ⟨a, v, hfirst, hrun⟩ := exists_of_bind_eq_ok hrun
  obtain ⟨d, hd⟩ := hact.run hs hfirst
  obtain rfl : v = change d s := by
    rw [hd s hs] at hfirst
    cases hfirst
    rfl
  obtain ⟨d', hd'⟩ := (hnext a).run (h.related d hs) hrun
  obtain ⟨d'', hd''⟩ := h.compose d d'
  refine ⟨d'', fun s' hs' ↦ ?_⟩
  rw [bind_eq_of_ok (hd s' hs'), ← hd'']
  exact hd' _ (h.related d hs')

/-- What is made of actions that change alike changes alike. -/
theorem sequential (h : Changing t session change R) :
    Sequential t session (ChangesAlike change R) where
  pure := h.pure
  throw _ := ⟨fun _ hrun ↦ nomatch hrun⟩
  bind := h.bind
  read {_ _ _ reading next} hreading hnext := by
    constructor
    intro s u a hs hrun
    unfold consult at hrun
    cases hread : reading (session s) with
    | error e =>
      rw [hread] at hrun
      cases hrun
    | ok b =>
      rw [hread] at hrun
      obtain ⟨d, hd⟩ := (hnext b ⟨_, h.stands hs, hread⟩).run hs hrun
      refine ⟨d, fun s' hs' ↦ ?_⟩
      have hsame := hreading.toOption_eq (h.alike hs')
      rw [hread] at hsame
      unfold consult
      cases hread' : reading (session s') with
      | error e =>
        rw [hread'] at hsame
        cases hsame
      | ok b' =>
        rw [hread'] at hsame
        obtain rfl := Option.some.inj hsame
        exact hd s' hs'

/-- Something that is the same in related states may be read before an action. -/
theorem get {f : σ → β} {next : β → EStateM CompileError σ α}
    (hf : ∀ {s s' : σ}, R place s s' → f s = f s')
    (hnext : ∀ b, ChangesAlike change R α place (next b)) :
    ChangesAlike change R α place (MonadState.get >>= fun s ↦ next (f s)) := by
  constructor
  intro s u a hs hrun
  obtain ⟨d, hd⟩ := (hnext (f s)).run hs hrun
  refine ⟨d, fun s' hs' ↦ ?_⟩
  have hrun' := hd s' hs'
  rw [hf hs'] at hrun'
  exact hrun'

end Changing

/-! ### Definitions, methods and code -/

/-- The sessions are alike, and one of them stands in the class. -/
def Session.AlikeIn (t : Setting) (place : Place) (s s' : Session) : Prop :=
  s.StandsIn t place ∧ s.ReadsAlike s'

/-- The sessions are alike, and stand in methods alike. -/
structure Session.AlikeWithin (t : Setting) (place : Place) (s s' : Session) : Prop where
  alike : s.AlikeIn t place s'
  currentMethod? : s.scopes.currentMethod? = s'.scopes.currentMethod?

/-- The states have the same code, and sessions that are alike. -/
structure GenState.AlikeWithin (t : Setting) (place : Place) (g g' : GenState) : Prop where
  session : g.session.AlikeWithin t place g'.session
  asm : g.asm = g'.asm

/-- The session with additions, and locals of the current method. -/
def Session.after (d : Additions × Locals) (s : Session) : Session := (s.adds d.1).withLocals d.2

/-- The state with additions, locals and code. -/
def GenState.after (d : (Additions × Locals) × Assembler) (g : GenState) : GenState :=
  { session := g.session.after d.1, asm := d.2 }

/-- The action is a definition that has the same effect in all sessions that are alike. -/
abbrev SessionM.AddsAlike (t : Setting) (α : Type) (place : Place) (act : SessionM α) : Prop :=
  ChangesAlike (fun d s ↦ Session.adds s d) (Session.AlikeIn t) α place act

/-- Within a method, the action has the same effect in all sessions that are alike. -/
abbrev SessionM.RunsAlike (t : Setting) (α : Type) (place : Place) (act : SessionM α) : Prop :=
  ChangesAlike Session.after (Session.AlikeWithin t) α place act

/-- The action makes the same code in all sessions that are alike. -/
abbrev Gen.RunsAlike (t : Setting) (α : Type) (place : Place) (act : Gen α) : Prop :=
  ChangesAlike GenState.after (GenState.AlikeWithin t) α place act

section Alike

variable {t : Setting} {place : Place}

/-- Whatever is added to either, sessions stay alike. -/
theorem Session.AlikeIn.adds {s s' : Session} (h : s.AlikeIn t place s') (d d' : Additions) :
    (s.adds d).AlikeIn t place (s'.adds d') :=
  ⟨h.1.goesOn ⟨s.continues_adds d, h.1.types⟩,
    (s.readsAlike_adds d).symm.trans (h.2.trans (s'.readsAlike_adds d'))⟩

/-- They stay alike within a method if the same is added and declared in both. -/
theorem Session.AlikeWithin.after {s s' : Session} (h : s.AlikeWithin t place s')
    (d : Additions × Locals) : (s.after d).AlikeWithin t place (s'.after d) where
  alike :=
    have hadds := h.alike.adds d.1 d.1
    ⟨hadds.1.goesOn ⟨(Continues.refl _).withLocals d.2, hadds.1.types⟩, hadds.2.withLocals d.2⟩
  currentMethod? := by simp [Session.after, Session.adds, Session.withLocals, h.currentMethod?]

/-- Where sessions are alike, a class is open in all of them or in none. -/
theorem Session.AlikeIn.isSome_currentClass? {s s' : Session}
    (h : s.AlikeIn t place s') : s'.scopes.currentClass?.isSome = true := by
  obtain ⟨c, hc, -⟩ := h.1.within
  have hmap := congrArg Option.isSome h.2.currentClass?
  rw [hc, Option.isSome_map, Option.isSome_map] at hmap
  exact hmap.symm

/-- Sessions stay alike when both open the same class, -/
theorem Session.AlikeIn.openClass {s s' : Session} (h : s.AlikeIn t place s') (c : ClassScope) :
    (s.openClass c).AlikeIn t c.place (s'.openClass c) :=
  ⟨h.1.toSuits.openClass c, h.2.openClass c⟩

/-- or the same method. -/
theorem Session.AlikeIn.openMethod {s s' : Session} (h : s.AlikeIn t place s') (m : MethodScope) :
    (s.openMethod m).2.AlikeWithin t (place.within m.flags) (s'.openMethod m).2 where
  alike := ⟨h.1.openMethod m, h.2.openMethod m⟩
  currentMethod? := rfl

/-- Changes are made one after another. -/
theorem Session.after_after (d d' : Additions × Locals) (s : Session) :
    (s.after d).after d' = s.after (d.1 ++ d'.1, d'.2) := by
  unfold Session.after
  rw [adds_withLocals, adds_adds, withLocals_withLocals]

/-- Within a method, sessions that are alike have the same locals. -/
theorem Session.AlikeWithin.locals_eq {s s' : Session} (h : s.AlikeWithin t place s') :
    s.locals = s'.locals := by
  unfold Session.locals
  rw [h.currentMethod?]

/-- Outside of methods, what can change is what is added. -/
theorem changing_adds (t : Setting) :
    Changing t id (fun d s ↦ Session.adds s d) (Session.AlikeIn t) where
  stands h := h.1
  alike h := h.2
  nothing _ := ⟨{}, fun _ s' _ ↦ s'.adds_nothing⟩
  compose d d' := ⟨d ++ d', fun s ↦ s.adds_adds d d'⟩
  related d h := h.adds d d

/-- Within a method, locals can change as well. -/
theorem changing_after (t : Setting) :
    Changing t id Session.after (Session.AlikeWithin t) where
  stands h := h.alike.1
  alike h := h.alike.2
  nothing s := by
    refine ⟨({}, s.locals), fun _ s' h ↦ ?_⟩
    simp [Session.after, h.locals_eq]
  compose d d' := ⟨_, Session.after_after d d'⟩
  related d h := h.after d

/-- In code, instructions can be emitted, too. -/
theorem changing_code (t : Setting) :
    Changing t GenState.session GenState.after (GenState.AlikeWithin t) where
  stands h := h.session.alike.1
  alike h := h.session.alike.2
  nothing g := by
    obtain ⟨d, hd⟩ := (changing_after t).nothing g.session
    refine ⟨(d, g.asm), fun place g' h ↦ ?_⟩
    unfold GenState.after
    rw [hd place _ h.session, h.asm]
  compose d d' := by
    refine ⟨((d.1.1 ++ d'.1.1, d'.1.2), d'.2), fun g ↦ ?_⟩
    exact congrArg (GenState.mk · d'.2) (Session.after_after d.1 d'.1 g.session)
  related d h := ⟨h.session.after d.1, rfl⟩

end Alike

/-! ### The discipline -/

namespace Gen.RunsAlike

variable {t : Setting} {place : Place}

/-- Code is changed in the same way wherever it is the same. -/
theorem modify {α : Type} {act : Gen α} {f : Assembler → Assembler} {a : Assembler → α}
    (hact : ∀ g : GenState, act g = .ok (a g.asm) { g with asm := f g.asm }) :
    Gen.RunsAlike t α place act := by
  constructor
  intro g u b _ hrun
  obtain ⟨d, hd⟩ := (changing_after t).nothing g.session
  rw [hact] at hrun
  cases hrun
  refine ⟨(d, f g.asm), fun g' hg ↦ ?_⟩
  unfold GenState.after
  rw [hact, hd place _ hg.session, hg.asm]

theorem emit (i : Instruction) : Gen.RunsAlike t Unit place (Gen.emit i) :=
  modify (f := (·.emit i)) (a := fun _ ↦ ()) fun _ ↦ rfl

/-- The same local is read in both. -/
theorem readLocal (name : String) (span : Span) (keep : Bool) :
    Gen.RunsAlike t MachineType place (Gen.readLocal name span keep) := by
  have h := changing_code t
  let next (method : Option MethodScope) : Gen MachineType :=
    method.elim (throw (.misuse span .localOutsideMethod)) fun scope ↦
      (scope.locals.get? name).elim (throw (.located span (.unknownVariable name))) fun v ↦
        if keep then do
          Gen.emit (.load v.kind v.slot)
          pure v.type
        else pure .void
  have heq : Gen.readLocal name span keep =
      MonadState.get >>= fun g ↦ next g.session.scopes.currentMethod? := by
    refine congrArg (MonadState.get >>= ·) (funext fun g ↦ ?_)
    cases g.session.scopes.currentMethod? with
    | none => rfl
    | some scope =>
      dsimp only [next, Option.elim]
      cases scope.locals.get? name <;> rfl
  rw [heq]
  refine Changing.get (fun hg ↦ hg.session.currentMethod?) fun method ↦ ?_
  cases method with
  | none => exact h.sequential.throw _
  | some scope =>
    dsimp only [next, Option.elim]
    cases scope.locals.get? name with
    | none => exact h.sequential.throw _
    | some v => exact Sequential.ite (h.bind (emit _) fun _ ↦ h.pure _) (h.pure _)

/-- What runs alike on sessions does so in code. -/
theorem onSession {α : Type} {act : SessionM α} (h : SessionM.RunsAlike t α place act) :
    Gen.RunsAlike t α place (Gen.onSession act) := by
  constructor
  intro g u a hg hrun
  unfold Gen.onSession at hrun
  cases hact : act g.session with
  | error e s =>
    rw [hact] at hrun
    cases hrun
  | ok b s =>
    rw [hact] at hrun
    cases hrun
    obtain ⟨d, hd⟩ := h.run hg.session hact
    refine ⟨(d, g.asm), fun g' hg' ↦ ?_⟩
    unfold Gen.onSession
    rw [hd _ hg'.session, hg'.asm]
    rfl

end Gen.RunsAlike

namespace SessionM

variable {t : Setting} {place : Place} {α : Type}

/-- Locals are changed in the same way wherever they are the same. -/
theorem RunsAlike.setLocals (l : Locals) : RunsAlike t PUnit place
    (modify fun s ↦ { s with scopes := s.scopes.setLocals l }) := by
  constructor
  intro s u a _ hrun
  cases hrun
  refine ⟨({}, l), fun s' _ ↦ ?_⟩
  show EStateM.Result.ok _ (s'.withLocals l) = .ok _ ((s'.adds {}).withLocals l)
  rw [Session.adds_nothing]

/-- The same local is declared in both. -/
theorem RunsAlike.declareLocal (outside : CompileError)
    (declare : Locals → Except CompileError (LocalVar × Locals)) :
    RunsAlike t LocalVar place (declareLocal outside declare) := by
  have h := changing_after t
  let next (method : Option MethodScope) : SessionM LocalVar :=
    method.elim (throw outside) fun scope ↦ do
      let r ← ofExcept (declare scope.locals)
      modify fun s ↦ { s with scopes := s.scopes.setLocals r.2 }
      pure r.1
  have heq : SessionM.declareLocal outside declare =
      MonadState.get >>= fun s ↦ next s.scopes.currentMethod? := by
    refine congrArg (MonadState.get >>= ·) (funext fun s ↦ ?_)
    cases s.scopes.currentMethod? <;> rfl
  rw [heq]
  refine Changing.get (fun hs ↦ hs.currentMethod?) fun method ↦ ?_
  cases method with
  | none => exact h.sequential.throw _
  | some scope =>
    dsimp only [next, Option.elim]
    cases declare scope.locals with
    | error e => exact h.sequential.throw _
    | ok r => exact h.bind (h.pure _) fun r ↦ h.bind (setLocals r.2) fun _ ↦ h.pure _

/-- A definition leaves the method that it stands in alone. -/
theorem AddsAlike.runsAlike {act : SessionM α} (h : AddsAlike t α place act) :
    RunsAlike t α place act := by
  constructor
  intro s u a hs hrun
  obtain ⟨d, hd⟩ := h.run hs.alike hrun
  refine ⟨(d, s.locals), fun s' hs' ↦ (hd s' hs'.alike).trans ?_⟩
  unfold Session.after
  rw [hs'.locals_eq, ← Session.adds_withLocals, Session.withLocals_locals]

/-- The code of a method is made alike where its parts are. -/
theorem RunsAlike.assemble {act : Gen Unit} (h : Gen.RunsAlike t Unit place act) :
    RunsAlike t Code place (Gen.assemble act) := by
  constructor
  intro s u code hs hrun
  obtain ⟨g, hact, hfinish, -⟩ := Gen.assemble_eq_ok_iff.1 hrun
  obtain ⟨d, hd⟩ := h.run ⟨hs, rfl⟩ hact
  have hcode : g.asm = d.2 := by
    rw [hd _ ⟨hs, rfl⟩] at hact
    cases hact
    rfl
  rw [hcode] at hfinish
  exact ⟨d.1, fun s' hs' ↦ Gen.assemble_eq_ok_iff.2 ⟨_, hd _ ⟨hs', rfl⟩, hfinish, rfl⟩⟩

/-- A method that is compiled alike is added alike. -/
theorem AddsAlike.inMethod {m : MethodScope} {act : SessionM Code}
    (h : RunsAlike t Code (place.within m.flags) act) :
    AddsAlike t Unit place (inMethod m act) := by
  constructor
  intro s u a hs hrun
  obtain ⟨code, v, hact⟩ := ok_of_inMethod hrun
  obtain ⟨d, hd⟩ := h.run (hs.openMethod m) hact
  exact ⟨_, fun s' hs' ↦ inMethod_adds hs'.isSome_currentClass? (hd _ (hs'.openMethod m))⟩

/-- A method is compiled alike if its parameters are declared alike and its code runs alike. -/
theorem AddsAlike.method (m : MethodScope) {declare : SessionM Unit} {act : Gen Unit}
    (hdeclare : RunsAlike t Unit (place.within m.flags) declare)
    (hact : Gen.RunsAlike t Unit (place.within m.flags) act) :
    AddsAlike t Unit place (SessionM.inMethod m (declare >>= fun _ ↦ Gen.assemble act)) :=
  .inMethod ((changing_after t).bind hdeclare fun _ ↦ RunsAlike.assemble hact)

/-- A class is added alike if what is in it is. -/
theorem AddsAlike.inClass {c : ClassScope} {act : SessionM α}
    (h : AddsAlike t α c.place act) :
    AddsAlike t α place (inClass c act) := by
  constructor
  intro s u a hs hrun
  obtain ⟨b, v, hact⟩ := ok_of_inClass hrun
  obtain ⟨d, hd⟩ := h.run (hs.openClass c) hact
  have hvalue := inClass_adds (hd _ (hs.openClass c))
  rw [hrun] at hvalue
  cases hvalue
  exact ⟨_, fun s' hs' ↦ inClass_adds (hd _ (hs'.openClass c))⟩

end SessionM

/-- A value is stored in the same slots in both. -/
theorem Gen.RunsAlike.storeLocal {t : Setting} {α : Type} {place : Place} (outside : CompileError)
    (name : String) (type : MachineType) (span : Span) (keep : Bool) {next : Gen α}
    (hnext : Gen.RunsAlike t α place next) : Gen.RunsAlike t α place (do
      let v ← Gen.onSession <| SessionM.declareLocal outside (·.declareStore name type span)
      if keep then Gen.emit (.dup v.kind)
      Gen.emit (.store v.kind v.slot)
      next) := by
  have h := changing_code t
  refine h.bind (onSession (SessionM.RunsAlike.declareLocal ..)) fun v ↦ ?_
  have hstore := h.bind (emit (.store v.kind v.slot)) fun _ ↦ hnext
  exact Sequential.ite (h.bind (emit _) fun _ ↦ hstore) hstore

/-- All that is compiled has the same effect in all sessions that are alike, unless something is
imported. -/
theorem runsAlike_discipline (t : Setting) : Discipline t Node.isNoImport (Gen.RunsAlike t)
    (SessionM.RunsAlike t) (SessionM.AddsAlike t) where
  gen := (changing_code t).sequential
  session := (changing_after t).sequential
  definition := (changing_adds t).sequential
  emit _ _ := .emit _
  createLabel := Gen.RunsAlike.modify (f := (·.createLabel)) (a := (·.nextLabel)) fun _ ↦ rfl
  bindLabel l := Gen.RunsAlike.modify (f := (·.bind l)) (a := fun _ ↦ ()) fun _ ↦ rfl
  loadReceiver _ := .emit _
  readLocal := Gen.RunsAlike.readLocal
  storeLocal _ _ outside := Gen.RunsAlike.storeLocal outside _
  declareLocal := SessionM.RunsAlike.declareLocal
  onSession h := Gen.RunsAlike.onSession h.runsAlike
  importClass h := nomatch h
  inMethod m _ _ _ _ _ hdeclare := SessionM.AddsAlike.method m hdeclare
  inClass _ := SessionM.AddsAlike.inClass

end ScriptBytecode

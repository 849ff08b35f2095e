import ScriptBytecode.Compile.Node
import ScriptBytecode.Proofs.Paths.Branching
import ScriptBytecode.Proofs.Resolution

/-!
# Actions along which locals are followed

An action that emits code `Charts` a step of a walk through the source if, whenever it succeeds, the
code that it has emitted is one that the step goes along with. Most actions have nothing to do with
locals, and the step is none; a sequence charts one step after another.

`Charts` is for actions, `ChartsFor` for code with a destination, and `ChartsArgs` for the code of
arguments. `Charts.bind` is the rule for sequences; the rest are the actions that chart no step.

Nothing is said of an action that fails: its code is part of no method. Nor is anything said of a
walk that fails, apart from the accesses and the slots that are given out, which hold of the code in
either case. This is why one induction is enough both for methods that read their locals where they
are and for those that do not.

For code with a destination the accesses depend on whether a value is wanted, and only on that: a
local is read for its value, so for a value that is dropped there is neither a read in the list of
accesses nor a load in the code.
-/

namespace ScriptBytecode

/-- In a method with a receiver or without one, if the action succeeds, the step goes along with the
code that it has emitted for the accesses. -/
structure Gen.Charts {α : Type} (isStatic : Bool) (target : Option Label) (f : Tracker.Step)
    (as : Language Access) (act : Gen α) : Prop where
  run : ∀ {g : GenState}, g.session.Hosts isStatic →
    Yields act g fun _ g' ↦ Course isStatic target f as g g'

/-- The label that code for a destination may jump to. -/
def Destination.target? : Destination → Option Label
  | discard | push => none
  | jump _ target => some target

/-- Whether code for a destination needs a value. -/
def Destination.wanted : Destination → Bool
  | discard => false
  | push | jump .. => true

namespace Gen

variable {α β : Type} {isStatic : Bool} {target : Option Label} {f f' : Tracker.Step}
  {as as' : Language Access}

namespace Charts

/-! ### Sequences -/

theorem pure (a : α) : Charts isStatic target Pure.pure 1 (Pure.pure a) :=
  ⟨fun {g} _ ↦ ensures_pure (.refl g)⟩

theorem throw (e : CompileError) : Charts isStatic target f as (throw e : Gen α) :=
  ⟨fun _ ↦ ensures_throw trivial⟩

/-- Steps are charted one after another. -/
theorem bind {act : Gen α} {next : α → Gen β} (h : Charts isStatic none f as act)
    (hnext : ∀ a, Charts isStatic target f' as' (next a)) :
    Charts isStatic target (f >=> f') (as * as') (act >>= next) := by
  constructor
  intro g hg
  refine ensures_bind (h.run hg) fun a g' hcourse ↦ ?_
  exact ((hnext a).run (hcourse.hosts hg)).imp fun _ _ hcourse' ↦ hcourse.trans hcourse'

/-- What has nothing to do with locals may come before a step. -/
theorem after {act : Gen α} {next : α → Gen β} (h : Charts isStatic none Pure.pure 1 act)
    (hnext : ∀ a, Charts isStatic target f as (next a)) :
    Charts isStatic target f as (act >>= next) := by
  have hbind := h.bind hnext
  rwa [fish_pipe, one_mul] at hbind

/-- What has nothing to do with locals may come behind a step. -/
theorem before {act : Gen α} {next : α → Gen β} (h : Charts isStatic none f as act)
    (hnext : ∀ a, Charts isStatic target Pure.pure 1 (next a)) :
    Charts isStatic target f as (act >>= next) := by
  have hbind := h.bind hnext
  rwa [fish_pure, mul_one] at hbind

/-- What has nothing to do with locals goes on behind code that was emitted before. -/
theorem run_behind {act : Gen α} (h : Charts isStatic none Pure.pure 1 act) {g g' : GenState}
    (hcourse : Course isStatic none f as g g') (hg : g'.session.Hosts isStatic) :
    Yields act g' fun _ g'' ↦ Course isStatic none f as g g'' :=
  (h.run hg).imp fun _ _ hcourse' ↦ hcourse.behind hcourse'

/-- What an action returns does not matter. -/
theorem result {act : Gen α} (h : Charts isStatic target f as act) (next : α → β) :
    Charts isStatic target f as (act >>= fun a ↦ Pure.pure (next a)) :=
  ⟨fun hg ↦ ensures_bind (h.run hg) fun _ _ hcourse ↦ ensures_pure hcourse⟩

/-- A step that stops earlier goes along as far as it goes. -/
theorem of_le {act : Gen α} (h : Charts isStatic target f as act)
    (hle : ∀ t t', f' t = some t' → f t = some t') : Charts isStatic target f' as act :=
  ⟨fun hg ↦ (h.run hg).imp fun _ _ hcourse ↦ hcourse.of_le hle⟩

/-- The accesses may be some of more. -/
theorem mono {act : Gen α} (h : Charts isStatic target f as act)
    (hsub : ∀ word ∈ as, word ∈ as') : Charts isStatic target f as' act :=
  ⟨fun hg ↦ (h.run hg).imp fun _ _ hcourse ↦ hcourse.mono hsub⟩

theorem get {next : GenState → Gen α} (h : ∀ g, Charts isStatic target f as (next g)) :
    Charts isStatic target f as (MonadState.get >>= next) :=
  ⟨fun {g} hg ↦ ensures_get_bind ((h g).run hg)⟩

/-- Of what is read, the rest may know that it was read in such a method. -/
theorem query {read : Session → Except CompileError β} {next : β → Gen α}
    (h : ∀ b, (∃ s : Session, s.Hosts isStatic ∧ read s = .ok b) →
      Charts isStatic target f as (next b)) :
    Charts isStatic target f as (Gen.query read >>= next) :=
  ⟨fun hg ↦ ensures_query_bind (fun b hb ↦ (h b ⟨_, hg, hb⟩).run hg) fun _ _ ↦ trivial⟩

theorem ite {c : Prop} [Decidable c] {act act' : Gen α} (h : Charts isStatic target f as act)
    (h' : Charts isStatic target f as act') :
    Charts isStatic target f as (if c then act else act') := by
  split
  · exact h
  · exact h'

/-! ### Emission -/

/-- An instruction that has nothing to do with locals or labels charts no step. -/
theorem emit {i : Instruction} (hi : i.Neutral) :
    Charts isStatic target Pure.pure 1 (Gen.emit i) :=
  ⟨fun {g} _ ↦ ensures_emit (.neutral g hi)⟩

theorem emit_bind {i : Instruction} {next : Unit → Gen α} (hi : i.Neutral)
    (h : Charts isStatic target f as (next ())) :
    Charts isStatic target f as (Gen.emit i >>= next) :=
  (emit hi).after fun _ ↦ h

/-- The code of an action may end in a jump. -/
theorem jump {i : Instruction} {l : Label} (hi : i.target? = some l)
    (haccess : i.isAccess = false) :
    Charts isStatic (some l) Pure.pure 1 (Gen.emit i) :=
  ⟨fun {g} _ ↦ ensures_emit (.jump g hi haccess)⟩

/-- To load the receiver charts the step that checks that there is one. -/
theorem loadReceiver :
    Charts isStatic target (.receiver isStatic) {[.receiver]} (Gen.emit (.load .reference 0)) :=
  ⟨fun {g} _ ↦ ensures_emit (.receiver g)⟩

/-- Where there is a receiver, to load it is no step of the walk. -/
theorem loadInstance :
    Charts false target Pure.pure {[.receiver]} (Gen.emit (.load .reference 0)) :=
  loadReceiver

end Charts

/-! ### Values -/

/-- A default value has nothing to do with locals. -/
theorem neutral_defaultValue (type : MachineType) : (defaultValue type).Neutral := by
  unfold defaultValue
  split <;> exact ⟨rfl, rfl, rfl⟩

theorem charts_placeholder (type : MachineType) :
    Charts isStatic none pure 1 (placeholder type) :=
  .emit_bind (neutral_defaultValue type) (.pure _)

theorem charts_settle (produced : MachineType) (keep : Bool) :
    Charts isStatic none pure 1 (settle produced keep) := by
  unfold settle
  split
  · exact charts_placeholder _
  · exact .pure _
  · exact .pure _
  · exact .emit_bind ⟨rfl, rfl, rfl⟩ (.pure _)

theorem charts_settleVoid (type : MachineType) (keep : Bool) :
    Charts isStatic none pure 1 (settleVoid type keep) :=
  .ite (charts_placeholder _) (.pure _)

/-- What joins ways of control is compiled for a value if one is wanted and its type has values. -/
theorem charts_joinType {next : MachineType → Gen α} {parts : Bool → Language Access}
    (h : ∀ type, Charts isStatic target f (parts (!type.isVoid)) (next type)) (type : SourceType)
    (span : Span) (keep : Bool) :
    Charts isStatic target f (joined type keep parts) (joinType type span keep >>= next) := by
  cases keep with
  | false => exact h .void
  | true =>
    refine Charts.query fun machine ⟨s, hs, htype⟩ ↦ (h machine).mono fun word hword ↦ ?_
    cases hvoid : machine.isVoid with
    | false =>
      rw [hvoid] at hword
      exact mem_joined_of_true type hword
    | true =>
      rw [hvoid] at hword
      rw [MachineType.isVoid_iff.1 hvoid] at htype
      exact mem_joined_of_false (Session.canBeVoid_of_typeOf hs.types htype) hword

theorem charts_coerce (actual target : MachineType) (span : Span) :
    Charts isStatic none pure 1 (coerce actual target span) := by
  constructor
  intro g _
  refine ensures_coerce (fun _ ↦ .refl g) (fun _ _ ↦ .emits g fun i hi ↦ ?_) trivial
  obtain rfl := List.mem_singleton.1 hi
  exact ⟨rfl, rfl, rfl⟩

/-! ### Parts -/

/-- Whatever it is compiled for, the code of a part charts the step, and the accesses that are made
for that. -/
abbrev ChartsFor (isStatic : Bool) (code : Destination → Gen MachineType) (f : Tracker.Step)
    (as : Bool → Language Access) : Prop :=
  ∀ d, Charts isStatic d.target? f (as d.wanted) (code d)

/-- Given types for all of the arguments, each of which has values, their code charts the step. -/
abbrev ChartsArgs (isStatic : Bool) (count : Nat) (code : ArgsCode) (f : Tracker.Step)
    (as : Language Access) : Prop :=
  ∀ params : List MachineType, params.length = count → (∀ type ∈ params, type ≠ .void) →
    Charts isStatic none f as (code params)

section Parts

variable {code : Destination → Gen MachineType} {as : Bool → Language Access}

/-- A value that is converted to the expected type charts what its code does. -/
theorem charts_receive (h : ChartsFor isStatic code f as) (target : MachineType) (span : Span) :
    Charts isStatic none f (as (!target.isVoid)) (receive target span code) := by
  unfold receive
  split
  · next hvoid =>
    rw [hvoid]
    exact (h .discard).result _
  · next hvoid =>
    rw [Bool.eq_false_iff.2 hvoid]
    exact (h .push).before fun _ ↦ charts_coerce ..

/-- What is received for its value is compiled for its value. -/
theorem charts_receive_value (h : ChartsFor isStatic code f as) {target : MachineType}
    (htarget : target ≠ .void) (span : Span) :
    Charts isStatic none f (as true) (receive target span code) := by
  have hvoid : target.isVoid = false := Bool.eq_false_iff.2 (MachineType.isVoid_iff.not.2 htarget)
  have hreceive := charts_receive h target span
  rwa [hvoid] at hreceive

/-- A value that decides a jump is tested once it is there. -/
theorem charts_deliver (n : Node) {code : Bool → Gen MachineType}
    (h : ∀ keep, Charts isStatic none f (as keep) (code keep)) :
    ChartsFor isStatic (deliver n · code) f as := by
  intro d
  cases d with
  | discard => exact h false
  | push => exact h true
  | jump sense target =>
    refine .query fun type _ ↦ .ite ?_ (.throw _)
    refine (h true).before fun actual ↦ (charts_coerce ..).after fun _ ↦ ?_
    exact (Charts.jump rfl rfl).result _

end Parts

/-- Arguments that are passed chart what they do, each for its value. -/
theorem charts_passArgs {args : List Node} {code : ArgsCode}
    (h : ChartsArgs isStatic args.length code f as) {params : List MachineType}
    (hparams : ∀ type ∈ params, type ≠ .void) :
    Charts isStatic none f as (passArgs args code params) := by
  unfold passArgs
  split
  · next hlength => exact h params hlength.symm hparams
  · exact .throw _

end Gen

end ScriptBytecode

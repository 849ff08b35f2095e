import ScriptBytecode.Proofs.LocalSlots
import ScriptBytecode.Proofs.OpenScopes
import ScriptBytecode.Proofs.Resolution
import ScriptBytecode.Proofs.Stack.Typed

/-!
# States that code can be emitted in

`Session.Good` is the invariant of a session: constructors have no result, the locals of open
methods hold what their types say, and the methods finished so far are fine, as all verified methods
are. What else is fine is left open: in a compilation nothing else is, but code can be emitted from
any session, whatever methods it holds.

`Ready` adds to it that nothing is wrong with the method being generated, that control arrives with
a given operand stack, and that nothing else was opened or closed since the `Outset`. If the method
was typed then, it still is.

An action that runs from such a state either ends in one or has `Failed`: then the error is one of
the program, and the open classes and methods can still be left.

**Why methods are only `fine`.** That all methods finished so far are verified holds in a
compilation, which starts with none. The predicate is left open so that the same induction over the
nodes can be run from a session that already holds methods of which nothing is known, with `fine`
true of all of them. For the same reason `Outset.typed` is a proposition: it is true where the code
of a method is followed from its first instruction, and false where code is emitted behind code that
is not known.

**What a failure keeps.** `FailedSince` says that the error is not an internal one and that the same
classes and methods are open as before. It says nothing of the code emitted by then, which is thrown
away with its method.

* `Ready.emit`, `Ready.emit_branch`, `Ready.emit_goto` and `Ready.bind` are the steps of an
  assembler in such a state; `Halted.bind` is the way on behind a jump;
* `Ready.onSession` is for what happens to the session alone, and leaves stack and labels as they
  are.
-/

namespace ScriptBytecode

/-! ### Sessions -/

/-- What is open is as it should be: the methods of a class are fine, and locals hold what their
types say. -/
def Frame.Good (fine : MethodCode → Prop) : Frame → Prop
  | .ofClass c => ∀ m ∈ c.methods, fine m
  | .ofMethod m => m.locals.Typed

/-- The invariant of a session. -/
structure Session.Good (s : Session) (fine : MethodCode → Prop) : Prop where
  constructors : s.classes.VoidConstructors
  verified : ∀ m : MethodCode, m.Verified → fine m
  frames : ∀ frame ∈ s.scopes.frames, frame.Good fine
  finished : ∀ c ∈ s.finished, ∀ m ∈ c.methods, fine m

namespace Session.Good

variable {s : Session} {fine : MethodCode → Prop}

theorem locals (h : s.Good fine) : s.locals.Typed := by
  unfold Session.locals Scopes.currentMethod?
  cases hframes : s.scopes.frames with
  | nil => exact Locals.Typed.empty
  | cons frame frames =>
    cases frame with
    | ofClass c => exact Locals.Typed.empty
    | ofMethod m => exact h.frames (.ofMethod m) (hframes ▸ List.mem_cons_self ..)

theorem withLocals (h : s.Good fine) {l : Locals} (hl : l.Typed) :
    (s.withLocals l).Good fine where
  constructors := h.constructors
  verified := h.verified
  frames := by
    obtain ⟨classes, types, ⟨frames⟩, options, entered, finished⟩ := s
    cases frames with
    | nil => exact h.frames
    | cons frame frames =>
      cases frame with
      | ofClass c => exact h.frames
      | ofMethod m =>
        intro frame hframe
        obtain rfl | hframe := List.mem_cons.1 hframe
        · exact hl
        · exact h.frames frame (List.mem_cons_of_mem _ hframe)
  finished := h.finished

end Session.Good

/-- The session is good, and the same classes and methods are open as in the session `s`. -/
structure GoodSince (fine : MethodCode → Prop) (s s' : Session) : Prop where
  continues : s.Continues s'
  good : s'.Good fine

/-- An action has failed as it may: the program is at fault, and the same classes and methods are
open as in the session `s`. -/
def FailedSince (s : Session) (e : CompileError) (s' : Session) : Prop :=
  e.isInternal = false ∧ s.Continues s'

namespace GoodSince

variable {s s' s'' : Session} {fine : MethodCode → Prop}

theorem refl (h : s.Good fine) : GoodSince fine s s := ⟨.refl s, h⟩

theorem trans (h : GoodSince fine s s') (h' : GoodSince fine s' s'') : GoodSince fine s s'' :=
  ⟨h.continues.trans h'.continues, h'.good⟩

theorem failed {α : Type} {r : Except CompileError α} (h : GoodSince fine s s') (hr : Blameless r) :
    ∀ e, r = .error e → FailedSince s e s' :=
  fun e he ↦ ⟨hr.isInternal_eq_false e he, h.continues⟩

theorem withLocals (h : GoodSince fine s s') {l : Locals} (hl : l.Typed) :
    GoodSince fine s (s'.withLocals l) :=
  ⟨h.continues.withLocals l, h.good.withLocals hl⟩

end GoodSince

/-! ### The state of a method -/

/-- What is known where the code of a method, or of a part of it, begins. -/
structure Outset where
  /-- The session. -/
  session : Session
  /-- The methods that are fine, among them all that are verified. -/
  fine : MethodCode → Prop
  /-- Whether the code of the method is typed up to there. -/
  typed : Prop

/-- Where a method has no code yet. -/
def Outset.fresh (fine : MethodCode → Prop) (s : Session) : Outset :=
  { session := s, fine, typed := True }

/-- Code can be emitted on top of the given operand stack. Since the outset nothing was opened or
closed for good, and since the label table `t` all labels created have been bound. -/
structure Ready (o : Outset) (t : LabelTable) (g : GenState) (stack : List StackKind) : Prop where
  session : GoodSince o.fine o.session g.session
  live : g.asm.Live stack
  typed : o.typed → g.asm.At stack
  labels : t.Extends g.asm.labels

/-- As `Ready`, but control does not go on here. -/
structure Halted (o : Outset) (t : LabelTable) (g : GenState) : Prop where
  session : GoodSince o.fine o.session g.session
  dead : g.asm.Dead
  typed : o.typed → g.asm.Off
  labels : t.Extends g.asm.labels

/-- An action on the code of a method has failed as it may. -/
def Failed (o : Outset) (e : CompileError) (g : GenState) :
    Prop := FailedSince o.session e g.session

/-- In a method without code so far anything may be emitted. -/
theorem Ready.empty {fine : MethodCode → Prop} {s s' : Session} (h : GoodSince fine s s') :
    Ready (.fresh fine s) {} { session := s' } [] :=
  ⟨h, Assembler.At.empty.toLive, fun _ ↦ .empty, .refl _⟩

namespace Ready

variable {o : Outset} {t : LabelTable} {g : GenState} {stack after base : List StackKind}
  {taken : List StackKind} {i : Instruction} {l : Label}

theorem failed {α : Type} {r : Except CompileError α} (h : Ready o t g stack) (hr : Blameless r) :
    ∀ e, r = .error e → Failed o e g :=
  h.session.failed hr

theorem failed_located (h : Ready o t g stack) (span : Span) (problem : Problem) :
    Failed o (.located span problem) g :=
  ⟨rfl, h.session.continues⟩

/-- An instruction that only works on values takes its operands off the stack and leaves its
results. -/
theorem emit (h : Ready o t g (taken ++ base)) (htakes : i.takes? = some taken)
    (hstraight : i.isStraight = true) :
    Ready o t { g with asm := g.asm.emit i } (i.leaves ++ base) := by
  have heffect := Instruction.effect?_append htakes base
  obtain ⟨hlive, hlabels⟩ := h.live.emit heffect hstraight
  refine ⟨h.session, hlive, fun htyped ↦ (h.typed htyped).emit heffect hstraight, ?_⟩
  rw [hlabels]
  exact h.labels

/-- An instruction that takes nothing leaves its results on the stack. -/
theorem emit_push (h : Ready o t g stack) (htakes : i.takes? = some [])
    (hstraight : i.isStraight = true) :
    Ready o t { g with asm := g.asm.emit i } (i.leaves ++ stack) := by
  have h' : Ready o t g ([] ++ stack) := h
  exact h'.emit htakes hstraight

/-- A conditional jump takes its operands; its label expects what is left. -/
theorem emit_branch (h : Ready o t g (taken ++ base)) (htakes : i.takes? = some taken)
    (hleaves : i.leaves = []) (hgoes : i.isTerminal = false) (htarget : i.target? = some l)
    (hadmits : t.Admits l base) :
    Ready o (t.expecting l base) { g with asm := g.asm.emit i } base := by
  have heffect : i.effect? (taken ++ base) = some base := by
    simpa [hleaves] using Instruction.effect?_append htakes base
  have hadmits' := h.labels.admits hadmits
  obtain ⟨hlive, hlabels⟩ := h.live.emit_branch heffect hgoes htarget hadmits'
  refine ⟨h.session, hlive, fun htyped ↦ ?_, ?_⟩
  · exact (h.typed htyped).emit_branch heffect hgoes htarget hadmits'
  · rw [hlabels]
    exact h.labels.expecting hadmits

/-- What happens to the session alone does not concern the method. -/
theorem onSession (h : Ready o t g stack) {s' : Session} (hs : GoodSince o.fine o.session s') :
    Ready o t { g with session := s' } stack :=
  ⟨hs, h.live, h.typed, h.labels⟩

/-- What follows the labels since some state follows them since any state before. -/
theorem since (h : Ready o t g stack) {t' : LabelTable} (ht : t'.Extends t) :
    Ready o t' g stack :=
  ⟨h.session, h.live, h.typed, ht.trans h.labels⟩

/-- After a jump control goes on at its label only. -/
theorem emit_goto (h : Ready o t g stack) (hadmits : t.Admits l stack) :
    Halted o (t.expecting l stack) { g with asm := g.asm.emit (.goto l) } := by
  have hadmits' := h.labels.admits hadmits
  obtain ⟨hdead, hlabels⟩ := h.live.emit_goto hadmits'
  refine ⟨h.session, hdead, fun htyped ↦ (h.typed htyped).emit_goto hadmits', ?_⟩
  rw [hlabels]
  exact h.labels.expecting hadmits

/-- Two labels more may be created. -/
theorem createLabels (h : Ready o t g stack) :
    Ready o (g.asm.labels.withTwo {} {}) { g with asm := g.asm.createLabel.createLabel } stack := by
  refine ⟨h.session, h.live.createLabel.createLabel, fun htyped ↦ ?_, ?_⟩
  · exact (h.typed htyped).createLabel.createLabel
  · rw [← LabelTable.create_create]
    exact .refl _

/-- A label may be bound where nothing has jumped to it with another stack. -/
theorem bind (h : Ready o t g stack) {known : Option (List StackKind)}
    (hget : t.get? l = some { bound := false, stack := known })
    (hknown : known = none ∨ known = some stack) :
    Ready o (t.set l { bound := true, stack := some stack }) { g with asm := g.asm.bind l }
      stack := by
  have hget' := h.labels.kept hget
  obtain ⟨hlive, hlabels⟩ := h.live.bind hget' hknown
  refine ⟨h.session, hlive, fun htyped ↦ (h.typed htyped).bind hget' hknown, ?_⟩
  rw [hlabels]
  exact h.labels.set hget _

end Ready

/-- After a jump control goes on at a label that something has jumped to. -/
theorem Halted.bind {o : Outset} {t : LabelTable} {g : GenState} {stack : List StackKind}
    {l : Label} (h : Halted o t g)
    (hget : t.get? l = some { bound := false, stack := some stack }) :
    Ready o (t.set l { bound := true, stack := some stack }) { g with asm := g.asm.bind l }
      stack := by
  have hget' := h.labels.kept hget
  obtain ⟨hlive, hlabels⟩ := h.dead.bind hget'
  refine ⟨h.session, hlive, fun htyped ↦ (h.typed htyped).bind hget', ?_⟩
  rw [hlabels]
  exact h.labels.set hget _

end ScriptBytecode

import ScriptBytecode.Proofs.CurrentLocals
import ScriptBytecode.Proofs.Emission
import ScriptBytecode.Proofs.Execution.Following

/-!
# Pieces of code that follow an evaluation

What the compiler emits for a part of a tree is a piece of the code of a method: it does not know
where it will stand, what will lie below its operands, or which variables will be added after it.
`Realizes` says that a piece follows an evaluation wherever it stands, as long as no two variables
share slots, and that control leaves it at its end; `Branches` is the same of a piece that decides a
condition, which control leaves at a label or at its end.

`Emits` is the other half: that between two states of the compiler a piece was emitted, with the
session left as it was but for the locals of the method.

**Why later locals.** Code that was emitted is run when the whole method is there, and then there
are more variables than when it was emitted. `Realizes` therefore speaks of all tables that keep the
variables there are (`Locals.Keeps`) and in which no two share slots; that the last table of a
method is such a one is known only in the end, and depends on there being few enough slots to
number.

**Why not runs.** A piece is compared with an evaluation at every position of every program that it
can be placed in, on top of any stack. So pieces compose by writing one behind the other
(`Realizes.append`, `Realizes.cons`, `Realizes.snoc`), and neither positions nor programs show in
the proofs about constructs.
-/

namespace ScriptBytecode

variable {α β : Type}

/-- Whatever lies below, the instruction turns one stack into another and goes on to the next. -/
def Instruction.Turns (i : Instruction) (operands operands' : List Value) : Prop :=
  ∀ program pc stack memory,
    (⟨pc, operands ++ stack, memory⟩ : Configuration).execute program i =
      some ⟨pc + 1, operands' ++ stack, memory⟩

/-- Whatever lies below, the instruction takes the operands and goes on at the label if the outcome
is `sense`, and to the next instruction otherwise. -/
def Instruction.Decides (i : Instruction) (operands : List Value) (outcome sense : Bool)
    (target : Label) : Prop :=
  ∀ program pc exit stack memory, position? program target = some exit →
    (⟨pc, operands ++ stack, memory⟩ : Configuration).execute program i =
      some ⟨if outcome = sense then exit else pc + 1, stack, memory⟩

namespace Instruction

theorem turns_pop (v : Value) : (pop v.kind).Turns [v] [] :=
  fun program pc stack memory ↦ Configuration.execute_pop program pc stack memory v

theorem turns_dup (v : Value) : (dup v.kind).Turns [v] [v, v] :=
  fun program pc stack memory ↦ Configuration.execute_dup program pc stack memory v

/-- A jump on a condition, or on its negation if the sense is negative, decides the condition. -/
theorem decides_jumpIf (test : Condition) (n : Int32) (sense : Bool) (target : Label) :
    (jumpIf (if sense then test else test.negate) target).Decides [.int n]
      (test.holds n.toInt 0) sense target := by
  intro program pc exit stack memory hexit
  refine (Configuration.execute_jumpIf ..).trans ?_
  rw [hexit]
  cases houtcome : test.holds n.toInt 0 <;> cases sense <;> simp [houtcome]

/-- Two integers are compared by one branch, whichever outcome is to jump. -/
theorem decides_jumpIfCompare (test : Condition) (x y : Int32) (sense : Bool) (target : Label) :
    (jumpIfCompare (if sense then test else test.negate) target).Decides [.int y, .int x]
      (test.holds x.toInt y.toInt) sense target := by
  intro program pc exit stack memory hexit
  refine (Configuration.execute_jumpIfCompare ..).trans ?_
  rw [hexit]
  cases houtcome : test.holds x.toInt y.toInt <;> cases sense <;> simp [houtcome]

end Instruction

/-! ### Pieces anywhere in a program -/

/-- Wherever the piece stands, it follows an evaluation up to its end, as long as the variables of
`l` are kept and lie apart. `eval` is given the bound on rounds; `post` says what is left on the
stack. -/
def Realizes (l : Locals) (piece : List Instruction) (operands : List Value) (eval : Nat → Eval α)
    (post : α → List Value → Prop) : Prop :=
  ∀ later, l.Keeps later → later.Apart → ∀ program pc, Placed program pc piece → ∀ bound,
    Follows later program bound pc operands (eval bound) fun a pc' results ↦
      pc' = pc + piece.length ∧ post a results

/-- Wherever the piece stands, it decides the condition that an evaluation does, and leaves nothing
on the stack. If the outcome is `sense` it ends at the label, and otherwise at its own end. -/
def Branches (l : Locals) (piece : List Instruction) (sense : Bool) (target : Label)
    (eval : Nat → Eval Bool) : Prop :=
  ∀ later, l.Keeps later → later.Apart → ∀ program pc exit, Placed program pc piece →
    position? program target = some exit → ∀ bound,
      Follows later program bound pc [] (eval bound) fun outcome pc' results ↦
        pc' = (if outcome = sense then exit else pc + piece.length) ∧ results = []

/-- A condition is decided as before when there are more locals. -/
theorem Branches.later {l l' : Locals} {piece : List Instruction} {sense : Bool} {target : Label}
    {eval : Nat → Eval Bool} (h : Branches l piece sense target eval) (hkeeps : l.Keeps l') :
    Branches l' piece sense target eval :=
  fun later hlater ↦ h later (hkeeps.trans hlater)

/-- To decide the opposite of a condition is to jump in the opposite sense. -/
theorem Branches.not {l : Locals} {piece : List Instruction} {sense : Bool} {target : Label}
    {eval : Nat → Eval Bool} (h : Branches l piece (!sense) target eval) :
    Branches l piece sense target fun bound ↦ do return !(← eval bound) := by
  intro later hlater hapart program pc exit hplaced hexit bound
  refine (h later hlater hapart program pc exit hplaced hexit bound).bind ?_
  rintro outcome pc' results ⟨rfl, rfl⟩
  refine Follows.pure ⟨?_, rfl⟩
  cases outcome <;> cases sense <;> rfl

namespace Realizes

variable {l l' : Locals} {piece piece' : List Instruction} {i : Instruction}
  {operands operands' : List Value} {eval : Nat → Eval α} {mid post : α → List Value → Prop}

/-- An evaluation is followed as before when there are more locals. -/
theorem later (h : Realizes l piece operands eval post) (hkeeps : l.Keeps l') :
    Realizes l' piece operands eval post :=
  fun later hlater ↦ h later (hkeeps.trans hlater)

/-- Less may be said of what a piece leaves. -/
theorem imp (h : Realizes l piece operands eval mid)
    (hpost : ∀ a results, mid a results → post a results) : Realizes l piece operands eval post :=
  fun later hlater hapart program pc hplaced bound ↦
    (h later hlater hapart program pc hplaced bound).imp fun a _ results ⟨hpc, ha⟩ ↦
      ⟨hpc, hpost a results ha⟩

/-- What lies below the operands stays there. -/
theorem under (h : Realizes l piece operands eval post) (below : List Value) :
    Realizes l piece (operands ++ below) eval fun a results ↦
      ∃ top, results = top ++ below ∧ post a top :=
  fun later hlater hapart program pc hplaced bound ↦
    ((h later hlater hapart program pc hplaced bound).under below).imp
      fun _ _ _ ⟨top, heq, hpc, ha⟩ ↦ ⟨hpc, top, heq, ha⟩

protected theorem pure {a : α} (h : post a operands) :
    Realizes l [] operands (fun _ ↦ pure a) post :=
  fun _ _ _ _ _ _ _ ↦ Follows.pure ⟨rfl, h⟩


/-- One piece after another follows one evaluation after another. -/
theorem append {next : α → Nat → Eval β} {post : β → List Value → Prop}
    (h : Realizes l piece operands eval mid)
    (hnext : ∀ a results, mid a results → Realizes l piece' results (next a) post) :
    Realizes l (piece ++ piece') operands (fun bound ↦ eval bound >>= fun a ↦ next a bound)
      post := by
  intro later hlater hapart program pc hplaced bound
  refine (h later hlater hapart program pc hplaced.left bound).bind ?_
  rintro a _ results ⟨rfl, ha⟩
  refine (hnext a results ha later hlater hapart program _ hplaced.right bound).imp ?_
  rintro b pc' results' ⟨rfl, hb⟩
  exact ⟨by simp [Nat.add_assoc], hb⟩

/-- An evaluation may go on without effects after its piece. -/
theorem map {next : α → Nat → Eval β} {post : β → List Value → Prop}
    (h : Realizes l piece operands eval mid)
    (hnext : ∀ a results, mid a results → ∃ b, (∀ bound, next a bound = pure b) ∧ post b results) :
    Realizes l piece operands (fun bound ↦ eval bound >>= fun a ↦ next a bound) post := by
  rw [← List.append_nil piece]
  refine h.append fun a results ha ↦ ?_
  obtain ⟨b, heq, hb⟩ := hnext a results ha
  simp only [funext heq]
  exact Realizes.pure hb

/-- An instruction that leaves the locals alone. -/
theorem instruction {a : α} (hi : i.Turns operands operands') (h : post a operands') :
    Realizes l [i] operands (fun _ ↦ pure a) post :=
  fun _ _ _ program pc hplaced _ ↦
    Follows.step' hplaced.head (hi program pc) (Follows.pure ⟨rfl, h⟩)

/-- An instruction before a piece prepares its operands. -/
theorem cons (hi : i.Turns operands operands') (h : Realizes l piece operands' eval post) :
    Realizes l (i :: piece) operands eval post := by
  intro later hlater hapart program pc hplaced bound
  refine Follows.step' hplaced.head (hi program pc) ?_
  refine (h later hlater hapart program (pc + 1) hplaced.tail bound).imp ?_
  rintro a _ results ⟨rfl, ha⟩
  exact ⟨by rw [List.length_cons]; omega, ha⟩

/-- An instruction after a piece carries out what the evaluation goes on with. -/
theorem mapSnoc {next : α → Nat → Eval β} {post : β → List Value → Prop}
    (h : Realizes l piece operands eval mid)
    (hnext : ∀ a results, mid a results → ∃ b results', (∀ bound, next a bound = pure b) ∧
      i.Turns results results' ∧ post b results') :
    Realizes l (piece ++ [i]) operands (fun bound ↦ eval bound >>= fun a ↦ next a bound) post := by
  refine h.append fun a results ha ↦ ?_
  obtain ⟨b, results', heq, hi, hb⟩ := hnext a results ha
  simp only [funext heq]
  exact instruction hi hb

/-- An instruction after a piece changes what the piece leaves. -/
theorem snoc (h : Realizes l piece operands eval mid)
    (hi : ∀ a results, mid a results → ∃ results', i.Turns results results' ∧ post a results') :
    Realizes l (piece ++ [i]) operands eval post := by
  have : Realizes l (piece ++ [i]) operands (fun bound ↦ eval bound >>= fun a ↦ pure a) post :=
    h.mapSnoc fun a results ha ↦ by
      obtain ⟨results', hturns, hpost⟩ := hi a results ha
      exact ⟨a, results', fun _ ↦ rfl, hturns, hpost⟩
  simpa using this

/-- Loading a variable follows reading it. -/
theorem read {name : String} {v : LocalVar} (hv : l.get? name = some v) :
    Realizes l [.load v.kind v.slot] [] (fun _ ↦ Eval.read name) fun x results ↦
      results = [x] ∧ x.kind = v.kind := by
  intro later hlater _ program pc hplaced bound
  obtain ⟨w, hw, hkind, hslot⟩ := hlater name v hv
  rw [← hkind, ← hslot] at hplaced
  exact Follows.read hplaced.head hw fun x hx ↦ ⟨rfl, rfl, hx.trans hkind⟩

/-- Storing to a variable follows writing it. -/
theorem write {name : String} {v : LocalVar} (hv : l.get? name = some v) {x : Value}
    (hx : x.kind = v.kind) :
    Realizes l [.store v.kind v.slot] (x :: operands) (fun _ ↦ Eval.write name x) fun _ results ↦
      results = operands := by
  intro later hlater hapart program pc hplaced bound
  obtain ⟨w, hw, hkind, hslot⟩ := hlater name v hv
  rw [← hkind, ← hslot] at hplaced
  exact Follows.write hapart hplaced.head hw (hx.trans hkind.symm) ⟨rfl, rfl⟩

/-- A jump after a piece decides the condition that the evaluation goes on with. -/
theorem branches {next : α → Nat → Eval Bool} {sense : Bool} {target : Label}
    (h : Realizes l piece [] eval mid)
    (hnext : ∀ a results, mid a results → ∃ outcome, (∀ bound, next a bound = pure outcome) ∧
      i.Decides results outcome sense target) :
    Branches l (piece ++ [i]) sense target fun bound ↦ eval bound >>= fun a ↦ next a bound := by
  intro later hlater hapart program pc exit hplaced hexit bound
  refine (h later hlater hapart program pc hplaced.left bound).bind ?_
  rintro a _ results ⟨rfl, ha⟩
  obtain ⟨outcome, heq, hi⟩ := hnext a results ha
  rw [heq]
  refine Follows.step' hplaced.right.head
    (fun stack memory ↦ hi program _ exit stack memory hexit) (Follows.pure ⟨?_, rfl⟩)
  rw [List.length_append, List.length_singleton, Nat.add_assoc]

end Realizes

/-! ### Pieces that are emitted -/

/-- The session is `s` but for the locals. Declarations have made these, and each name has values of
its kind. -/
structure Steady (s : Session) (kinds : String → StackKind) (g : GenState) : Prop where
  session : g.session = s.withLocals g.session.locals
  built : g.session.locals.Built
  oneKind : g.session.locals.OneKind kinds

/-- From `g` to `g'` a piece was emitted and every variable was kept. -/
structure Emits (s : Session) (kinds : String → StackKind) (g g' : GenState)
    (piece : List Instruction) : Prop where
  steady : Steady s kinds g'
  keeps : g.session.locals.Keeps g'.session.locals
  emitted : Emitted g.asm g'.asm piece

section Emits

variable {s : Session} {kinds : String → StackKind} {g g' g'' : GenState}
  {piece piece' : List Instruction}

/-- To emit instructions changes nothing about the session. -/
theorem Steady.emits (h : Steady s kinds g) (is : List Instruction) :
    Steady s kinds (g.emits is) := ⟨h.session, h.built, h.oneKind⟩

namespace Emits

/-- Nothing was emitted. -/
theorem refl (h : Steady s kinds g) : Emits s kinds g g [] := ⟨h, .refl _, .refl _⟩

/-- What was emitted in two steps was emitted in one. -/
theorem trans (h : Emits s kinds g g' piece) (h' : Emits s kinds g' g'' piece') :
    Emits s kinds g g'' (piece ++ piece') :=
  ⟨h'.steady, h.keeps.trans h'.keeps, h.emitted.trans h'.emitted⟩

/-- Instructions that bind no label were emitted. -/
theorem instructions (hg : Steady s kinds g) {is : List Instruction}
    (his : ∀ i ∈ is, ∀ l, i ≠ .bind l) : Emits s kinds g (g.emits is) is :=
  ⟨hg.emits is, .refl _, g.emitted_emits his⟩

/-- One more instruction was emitted. -/
theorem snoc (h : Emits s kinds g g' piece) {i : Instruction} (hi : ∀ l, i ≠ .bind l) :
    Emits s kinds g (g'.emits [i]) (piece ++ [i]) :=
  h.trans (instructions h.steady fun j hj ↦ by rwa [List.mem_singleton.1 hj])

end Emits

/-- A store that is declared gets its variable, and nothing else changes. -/
theorem Steady.declareStore (h : Steady s kinds g) {name : String} {type : MachineType}
    (hkind : type.kind? = some (kinds name)) (outside : CompileError) (span : Span) :
    Yields (Gen.onSession <| SessionM.declareLocal outside (·.declareStore name type span)) g
      fun v g' ↦ Emits s kinds g g' [] ∧ g'.session.locals.get? name = some v ∧
        type.kind? = some v.kind := by
  refine Gen.ensures_onSession (SessionM.ensures_declareLocal (fun v l hstore hl ↦ ?_)
    (fun _ _ ↦ trivial) fun _ ↦ trivial)
  obtain ⟨-, hv, hget, -⟩ := Locals.declareStore_cases hstore
  have hname : v.kind = kinds name := Option.some.inj (hv.symm.trans hkind)
  obtain ⟨hone, hkeeps⟩ := h.oneKind.declareStore hstore hname
  have hlocals : ({ g with session := g.session.withLocals l } : GenState).session.locals = l := hl
  refine ⟨⟨⟨?_, ?_, ?_⟩, ?_, .refl _⟩, ?_, hv⟩ <;> rw [hlocals]
  · rw [h.session, Session.withLocals_withLocals]
  · exact h.built.store hstore
  · exact hone
  · exact hkeeps
  · exact hget

end Emits

end ScriptBytecode

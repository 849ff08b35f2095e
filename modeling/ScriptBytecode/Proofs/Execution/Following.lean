import ScriptBytecode.Proofs.Execution.Evaluator
import ScriptBytecode.Proofs.Slots.Allotments

/-!
# A machine that follows an evaluation

`Reaches` compares a run of the machine with the outcome of an evaluation. If the evaluation has a
result, the machine comes to a configuration that agrees with it; if the evaluation runs out of
rounds, the machine can go on for at least as many steps; and only a variable that nothing was
stored in excuses the machine from anything.

`Follows` states this for code with operands on the stack, whatever lies below them and whatever the
memory, as long as the memory holds the values of the environment. Its lemmas make a logic in which
code is checked against an evaluation from front to back: each instruction is a step, and each part
of the evaluation is followed by the part of the code that stands for it.

* `Reaches` compares one run with one outcome, and `Reaches.bind` continues it;
* `Follows.bind`, `Follows.step` and their like are the rules for code.

**Runs that do not end.** If the evaluation runs out of rounds, nothing can be said of where the
machine is, only that it has not stopped: it has made as many steps as there were rounds at least.
For this each pass through a loop has to cost a step, which is why steps are counted
(`Follows.step`, `Follows.pass`) and why the rules have variants for steps that need not be.

**One environment, many memories.** A memory agrees with an environment if it holds what that does;
it may hold more, in slots of variables that nothing was stored in. So the memory after a run is not
determined by the environment, and is not compared with anything but it.
-/

namespace ScriptBytecode

variable {α β : Type}

/-! ### One run -/

/-- From `c` the machine does what an evaluation with the outcome `r` does. -/
def Reaches (program : List Instruction) (budget : Nat) (c : Configuration) (r : Except Halt α)
    (post : α → Configuration → Prop) : Prop :=
  match r with
  | .ok a => ∃ n c', c.run program n = some c' ∧ post a c'
  | .error .outOfRounds => ∃ n, budget ≤ n ∧ (c.run program n).isSome
  | .error (.unset _) => True
  | .error .illTyped => False

namespace Reaches

variable {program : List Instruction} {budget budget' : Nat} {c c' : Configuration}
  {r : Except Halt α} {post post' : α → Configuration → Prop}

/-- The machine is there already. -/
theorem ok {a : α} (h : post a c) : Reaches program budget c (.ok a) post := ⟨0, c, rfl, h⟩

/-- Less may be said of where the machine comes to. -/
theorem imp (h : Reaches program budget c r post) (hpost : ∀ a c', post a c' → post' a c') :
    Reaches program budget c r post' := by
  unfold Reaches at h ⊢
  split
  · obtain ⟨n, c', hrun, ha⟩ := h
    exact ⟨n, c', hrun, hpost _ _ ha⟩
  · exact h
  · trivial
  · exact h

/-- Steps before a run count towards it. -/
theorem prepend {m : Nat} (hrun : c.run program m = some c')
    (h : Reaches program budget c' r post) : Reaches program (m + budget) c r post := by
  have hadd : ∀ n, c.run program (m + n) = c'.run program n := fun n ↦ by
    rw [Configuration.run_add, hrun]
    rfl
  unfold Reaches at h ⊢
  split
  · obtain ⟨n, c'', hn, ha⟩ := h
    exact ⟨m + n, c'', by rw [hadd, hn], ha⟩
  · obtain ⟨n, hle, hn⟩ := h
    exact ⟨m + n, by omega, by rw [hadd]; exact hn⟩
  · trivial
  · exact h

/-- A smaller number of steps is made as well. -/
theorem mono (h : Reaches program budget c r post) (hle : budget' ≤ budget) :
    Reaches program budget' c r post := by
  unfold Reaches at h ⊢
  split
  · exact h
  · obtain ⟨n, hn, hrun⟩ := h
    exact ⟨n, by omega, hrun⟩
  · trivial
  · exact h

/-- The machine goes on from where the first part has brought it. -/
theorem bind {f : α → Except Halt β} {post : β → Configuration → Prop}
    {mid : α → Configuration → Prop} (h : Reaches program budget c r mid)
    (hf : ∀ a c', mid a c' → Reaches program budget c' (f a) post) :
    Reaches program budget c (r >>= f) post := by
  cases r with
  | ok a =>
    obtain ⟨n, c', hrun, ha⟩ := h
    exact (prepend hrun (hf a c' ha)).mono (by omega)
  | error e => cases e <;> exact h

end Reaches

/-! ### The memory of an environment -/

/-- The memory holds every value of the environment, in the slot of its variable. -/
def Agrees (l : Locals) (env : Env) (memory : Memory) : Prop :=
  ∀ name v, env name = some v →
    ∃ w, l.get? name = some w ∧ memory.load w.slot.toNat w.kind = some v

/-- Storing a value in the slot of a variable changes that variable alone. -/
theorem Agrees.store {l : Locals} {env : Env} {memory : Memory} (h : Agrees l env memory)
    (hl : l.Apart) {name : String} {w : LocalVar} (hw : l.get? name = some w) {v : Value}
    (hv : v.kind = w.kind) : Agrees l (env.set name v) (memory.store w.slot.toNat v) := by
  intro other u hu
  by_cases hne : other = name
  · subst hne
    have hu : v = u := by simpa [Env.set] using hu
    subst hu
    exact ⟨w, hw, by rw [← hv]; exact Memory.load_store_self ..⟩
  · rw [Env.set, if_neg hne] at hu
    obtain ⟨w', hw', hload⟩ := h other u hu
    refine ⟨w', hw', ?_⟩
    rw [Memory.load_store_of_disjoint, hload]
    rw [hv]
    exact hl hw hw' (Ne.symm hne)

/-! ### Code against an evaluation -/

section Follows

variable (l : Locals) (program : List Instruction) (bound : Nat)

/-- With `operands` on the stack, the machine follows an evaluation from `pc`. Where it ends and
what it leaves in place of the operands is as `post` says. -/
def Follows (pc : Nat) (operands : List Value) (eval : Eval α)
    (post : α → Nat → List Value → Prop) : Prop :=
  ∀ env stack memory, Agrees l env memory →
    Reaches program bound ⟨pc, operands ++ stack, memory⟩ (eval env) fun r c ↦
      ∃ results, post r.1 c.pc results ∧ c.stack = results ++ stack ∧ Agrees l r.2 c.memory

end Follows

namespace Follows

variable {l : Locals} {program : List Instruction} {bound pc pc' : Nat}
  {operands operands' : List Value} {eval : Eval α} {post post' : α → Nat → List Value → Prop}

/-- Nothing is followed by nothing. -/
theorem pure {a : α} (h : post a pc operands) :
    Follows l program bound pc operands (Pure.pure a) post :=
  fun _ _ _ hagrees ↦ Reaches.ok ⟨operands, h, rfl, hagrees⟩

/-- Less may be said of where the code ends. -/
theorem imp (h : Follows l program bound pc operands eval post)
    (hpost : ∀ a pc results, post a pc results → post' a pc results) :
    Follows l program bound pc operands eval post' := by
  intro env stack memory hagrees
  refine (h env stack memory hagrees).imp fun r c ↦ ?_
  rintro ⟨results, hr, hrest⟩
  exact ⟨results, hpost _ _ _ hr, hrest⟩

/-- Two parts of an evaluation are followed one after the other. -/
theorem bind {next : α → Eval β} {post : β → Nat → List Value → Prop}
    {mid : α → Nat → List Value → Prop} (h : Follows l program bound pc operands eval mid)
    (hnext : ∀ a pc results, mid a pc results →
      Follows l program bound pc results (next a) post) :
    Follows l program bound pc operands (eval >>= next) post := by
  intro env stack memory hagrees
  show Reaches program bound _ (eval env >>= fun r ↦ next r.1 r.2) _
  refine (h env stack memory hagrees).bind fun r c ↦ ?_
  rintro ⟨results, hr, hstack, hagrees'⟩
  obtain ⟨pc', stack', memory'⟩ := c
  obtain rfl : stack' = results ++ stack := hstack
  exact hnext r.1 pc' results hr r.2 stack memory' hagrees'

/-- What lies below the operands stays there. -/
theorem under (h : Follows l program bound pc operands eval post) (below : List Value) :
    Follows l program bound pc (operands ++ below) eval fun a pc results ↦
      ∃ top, results = top ++ below ∧ post a pc top := by
  intro env stack memory hagrees
  have := h env (below ++ stack) memory hagrees
  rw [← List.append_assoc] at this
  refine this.imp fun r c ↦ ?_
  rintro ⟨top, hr, hstack, hagrees'⟩
  exact ⟨top ++ below, ⟨top, rfl, hr⟩, by rw [hstack, List.append_assoc], hagrees'⟩

/-- An instruction that leaves the memory alone takes the machine to what follows it. -/
theorem step {i : Instruction} (hi : program[pc]? = some i)
    (hexec : ∀ stack memory, (⟨pc, operands ++ stack, memory⟩ : Configuration).execute program i =
      some ⟨pc', operands' ++ stack, memory⟩)
    (h : Follows l program bound pc' operands' eval post) :
    Follows l program (bound + 1) pc operands eval post := by
  intro env stack memory hagrees
  have hstep : (⟨pc, operands ++ stack, memory⟩ : Configuration).step program =
      some ⟨pc', operands' ++ stack, memory⟩ := by
    simp only [Configuration.step, hi, hexec]
  have hrun := Configuration.run_succ hstep 0
  exact ((h env stack memory hagrees).prepend hrun).mono (by omega)

/-- A smaller bound asks for less. -/
theorem mono {bound' : Nat} (h : Follows l program bound pc operands eval post)
    (hle : bound' ≤ bound) : Follows l program bound' pc operands eval post :=
  fun env stack memory hagrees ↦ (h env stack memory hagrees).mono hle

/-- The same, where the step need not be counted. -/
theorem step' {i : Instruction} (hi : program[pc]? = some i)
    (hexec : ∀ stack memory, (⟨pc, operands ++ stack, memory⟩ : Configuration).execute program i =
      some ⟨pc', operands' ++ stack, memory⟩)
    (h : Follows l program bound pc' operands' eval post) :
    Follows l program bound pc operands eval post :=
  (step hi hexec h).mono (Nat.le_succ _)

/-- A label is passed in one step. -/
theorem pass {x : Label} (hi : program[pc]? = some (.bind x))
    (h : Follows l program bound (pc + 1) operands eval post) :
    Follows l program (bound + 1) pc operands eval post :=
  step hi (fun _ _ ↦ rfl) h

/-- The same, where the step need not be counted. -/
theorem pass' {x : Label} (hi : program[pc]? = some (.bind x))
    (h : Follows l program bound (pc + 1) operands eval post) :
    Follows l program bound pc operands eval post :=
  step' hi (fun _ _ ↦ rfl) h

/-- A jump goes on where its label is bound. -/
theorem goto {x : Label} (hi : program[pc]? = some (.goto x))
    (hx : position? program x = some pc') (h : Follows l program bound pc' operands eval post) :
    Follows l program bound pc operands eval post := by
  refine step' hi (fun stack memory ↦ ?_) h
  rw [Configuration.execute_goto, hx]
  rfl

/-! ### Variables -/

/-- Loading a variable follows reading it. -/
theorem read {name : String} {w : LocalVar} {post : Value → Nat → List Value → Prop}
    (hi : program[pc]? = some (.load w.kind w.slot)) (hw : l.get? name = some w)
    (hpost : ∀ v, v.kind = w.kind → post v (pc + 1) (v :: operands)) :
    Follows l program bound pc operands (Eval.read name) post := by
  intro env stack memory hagrees
  unfold Eval.read
  cases henv : env name with
  | none => trivial
  | some v =>
    obtain ⟨w', hw', hload⟩ := hagrees name v henv
    obtain rfl : w = w' := Option.some.inj (hw.symm.trans hw')
    refine ⟨1, ⟨pc + 1, v :: operands ++ stack, memory⟩, ?_, v :: operands,
      hpost v (Memory.kind_of_load hload), rfl, hagrees⟩
    rw [Configuration.run_one, Configuration.step_eq hi, Configuration.execute_load, hload]
    rfl

/-- Storing to a variable follows writing it. -/
theorem write {name : String} {w : LocalVar} {v : Value} {post : Unit → Nat → List Value → Prop}
    (hl : l.Apart) (hi : program[pc]? = some (.store w.kind w.slot))
    (hw : l.get? name = some w) (hv : v.kind = w.kind) (hpost : post () (pc + 1) operands) :
    Follows l program bound pc (v :: operands) (Eval.write name v) post := by
  intro env stack memory hagrees
  refine ⟨1, ⟨pc + 1, operands ++ stack, memory.store w.slot.toNat v⟩, ?_, operands, hpost, rfl,
    hagrees.store hl hw hv⟩
  rw [Configuration.run_one, Configuration.step_eq hi, ← hv]
  exact Configuration.execute_store ..

/-! ### Loops -/

/-- A loop is followed if, from the label at its head, the code follows a round and ends at the head
again or, after the last round, at `exit`. What is carried from round to round satisfies `inv` and
lies on the stack as `carry` says. -/
theorem rounds {round : α → Eval (Bool × α)} {head exit : Nat} {x : Label} {carry : α → List Value}
    {inv : α → Prop} (hi : program[head]? = some (.bind x))
    (hround : ∀ a, inv a → Follows l program bound (head + 1) (carry a) (round a)
      fun r pc results ↦ inv r.2 ∧ results = carry r.2 ∧ pc = if r.1 then head else exit)
    (n : Nat) (hn : n ≤ bound) (a : α) (ha : inv a) :
    Follows l program n head (carry a) (Eval.rounds round n a) fun a pc results ↦
      inv a ∧ results = carry a ∧ pc = exit := by
  induction n generalizing a with
  | zero => exact fun _ _ _ _ ↦ ⟨0, Nat.le_refl _, rfl⟩
  | succ n ih =>
    refine pass hi ?_
    refine ((hround a ha).mono (by omega)).bind ?_
    rintro ⟨again, a'⟩ pc results ⟨ha', rfl, rfl⟩
    cases again with
    | true => exact ih (by omega) a' ha'
    | false => exact pure ⟨ha', rfl, rfl⟩

end Follows

end ScriptBytecode

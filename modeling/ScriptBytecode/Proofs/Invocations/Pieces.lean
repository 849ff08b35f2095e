import ScriptBytecode.Proofs.CurrentLocals
import ScriptBytecode.Proofs.Emission
import ScriptBytecode.Proofs.Invocations.Evaluator

/-!
# Pieces of code that follow an evaluation

The code of a tree is put together from the code of its parts, and none of these pieces knows what
lies on the stack below its operands.

* `Holds` says that slots hold what the world says of the variables and of the current instance.
* `Follows` says that a piece does what an evaluation does, whatever lies below: the same history
  comes of it, and only the results are added to the stack. If the evaluation stops, then at a
  variable without a value, and so does the code.
* `Appends` is the other half: an action emits a piece of code and changes nothing else.

Evaluations one after another are followed by pieces one after another (`Follows.bind`), and actions
one after another append their pieces (`Appends.bind`).

**Stops are followed, too.** An evaluation stops where a variable is read that has no value, and so
does the code, at the load. In all other cases the code runs to its end. Both directions are part of
`Follows`, so that code which does too much after a stop would not follow.

**The session stands still.** Trees of calls define nothing and store nothing. `Appends` therefore
says that an action leaves the state as it was but for the instructions that it adds, with an
equation, and a piece that has been appended is run in the session of the start.
-/

namespace ScriptBytecode.Invocations

variable {α β : Type} {s : Session} {w : World} {slots : Slots}

/-! ### Following -/

/-- The slots hold the variables, each with a value of its kind if it has one, and in an instance
method the current instance. -/
structure Holds (s : Session) (w : World) (slots : Slots) : Prop where
  local_eq : ∀ name v, s.locals.get? name = some v → slots v.slot = w.locals name
  kind : ∀ name v x, s.locals.get? name = some v → w.locals name = some x → x.kind = v.kind
  self_eq : s.scopes.isStatic = false → slots 0 = some (.reference w.self)

/-- The evaluation has stopped at a variable that has no value. -/
def Unset (s : Session) (w : World) (stop : Stop) : Prop :=
  ∃ name v, stop = .unset name ∧ s.locals.get? name = some v ∧ w.locals name = none

/-- Whatever lies below the operands, the code does what the evaluation does. -/
def Follows (s : Session) (w : World) (slots : Slots) (code : List Instruction)
    (operands : List Datum) (run : Run α) (post : α → List Datum → Prop) : Prop :=
  ∀ base h, match run h with
    | .ok (a, h') => ∃ results,
      State.run w slots code ⟨operands ++ base, h⟩ = some ⟨results ++ base, h'⟩ ∧ post a results
    | .error stop => Unset s w stop ∧ State.run w slots code ⟨operands ++ base, h⟩ = none

/-- Whatever lies below, the instruction turns one stack into another. -/
def Turns (w : World) (slots : Slots) (i : Instruction) (operands results : List Datum) : Prop :=
  ∀ base h, State.execute w slots ⟨operands ++ base, h⟩ i = some ⟨results ++ base, h⟩

theorem turns_dup (v : Datum) : Turns w slots (.dup v.kind) [v] [v, v] := fun _ _ ↦ if_pos rfl

theorem turns_pop (v : Datum) : Turns w slots (.pop v.kind) [v] [] := fun _ _ ↦ if_pos rfl

/-- An evaluation that succeeds is gone on from. -/
theorem Run.bind_ok {run : Run α} {next : α → Run β} {h h' : History} {a : α}
    (hrun : run h = .ok (a, h')) : (run >>= next) h = next a h' := by
  show (run h >>= fun p ↦ next p.1 p.2) = _
  rw [hrun]
  rfl

/-- An evaluation that stops stops what comes after it. -/
theorem Run.bind_error {run : Run α} {next : α → Run β} {h : History} {stop : Stop}
    (hrun : run h = .error stop) : (run >>= next) h = .error stop := by
  show (run h >>= fun p ↦ next p.1 p.2) = _
  rw [hrun]
  rfl

namespace Follows

variable {code code' : List Instruction} {i : Instruction} {operands operands' : List Datum}
  {run : Run α} {next : α → Run β} {mid post : α → List Datum → Prop}
  {post' : β → List Datum → Prop}

/-- No code follows no evaluation. -/
protected theorem pure {a : α} (h : post a operands) :
  Follows s w slots [] operands (pure a) post :=
  fun _ _ ↦ ⟨operands, rfl, h⟩

/-- One piece after another follows one evaluation after another. -/
theorem bind (h : Follows s w slots code operands run mid)
    (hnext : ∀ a results, mid a results → Follows s w slots code' results (next a) post') :
    Follows s w slots (code ++ code') operands (run >>= next) post' := by
  intro base hist
  have hfirst := h base hist
  rw [State.run_append]
  cases hrun : run hist with
  | ok p =>
    obtain ⟨a, hist'⟩ := p
    rw [hrun] at hfirst
    obtain ⟨results, hcode, ha⟩ := hfirst
    rw [Run.bind_ok hrun, hcode]
    exact hnext a results ha base hist'
  | error stop =>
    rw [hrun] at hfirst
    rw [Run.bind_error hrun, hfirst.2]
    exact ⟨hfirst.1, rfl⟩

/-- What lies below the operands stays there. -/
theorem under (h : Follows s w slots code operands run mid) (below : List Datum) :
    Follows s w slots code (operands ++ below) run fun a results ↦
      ∃ top, results = top ++ below ∧ mid a top := by
  intro base hist
  have hrun := h (below ++ base) hist
  rw [List.append_assoc]
  split at hrun
  · obtain ⟨results, hcode, ha⟩ := hrun
    refine ⟨results ++ below, ?_, results, rfl, ha⟩
    rw [hcode, List.append_assoc]
  · exact hrun

/-- Less may be said of what is left on the stack. -/
theorem imp (h : Follows s w slots code operands run mid)
    (hpost : ∀ a results, mid a results → post a results) :
    Follows s w slots code operands run post := by
  intro base hist
  have hrun := h base hist
  split at hrun
  · obtain ⟨results, hcode, ha⟩ := hrun
    exact ⟨results, hcode, hpost _ _ ha⟩
  · exact hrun

/-- An instruction before a piece prepares its operands. -/
theorem cons (hi : Turns w slots i operands operands')
    (h : Follows s w slots code operands' run post) :
    Follows s w slots (i :: code) operands run post := by
  intro base hist
  have hstep : State.run w slots (i :: code) ⟨operands ++ base, hist⟩ =
      State.run w slots code ⟨operands' ++ base, hist⟩ := by
    show (State.execute w slots _ i).bind _ = _
    rw [hi base hist]
    rfl
  rw [hstep]
  exact h base hist

/-- An instruction that does what comes first in an evaluation. -/
theorem consBind (h : Follows s w slots [i] operands run mid)
    (hnext : ∀ a results, mid a results → Follows s w slots code results (next a) post') :
    Follows s w slots (i :: code) operands (run >>= next) post' :=
  h.bind hnext

/-- An evaluation may go on without effects after its piece. -/
theorem map (h : Follows s w slots code operands run mid)
    (hnext : ∀ a results, mid a results → ∃ b, next a = pure b ∧ post' b results) :
    Follows s w slots code operands (run >>= next) post' := by
  rw [← List.append_nil code]
  refine h.bind fun a results ha ↦ ?_
  obtain ⟨b, hb, hpost⟩ := hnext a results ha
  rw [hb]
  exact .pure hpost

/-- An instruction that does what one step of an evaluation does. -/
theorem instruction (h : ∀ base hist, ∃ a results hist', run hist = .ok (a, hist') ∧
      State.execute w slots ⟨operands ++ base, hist⟩ i = some ⟨results ++ base, hist'⟩ ∧
      post a results) : Follows s w slots [i] operands run post := by
  intro base hist
  obtain ⟨a, results, hist', hrun, hi, ha⟩ := h base hist
  rw [hrun, State.run_singleton]
  exact ⟨results, hi, ha⟩

/-- Loading a variable is reading it. -/
theorem read (hslots : Holds s w slots) {name : String} {v : LocalVar}
    (hv : s.locals.get? name = some v) :
    Follows s w slots [.load v.kind v.slot] [] (w.read name) fun x results ↦
      results = [x] ∧ x.kind = v.kind := by
  intro base hist
  have hslot := hslots.local_eq name v hv
  unfold World.read
  rw [State.run_singleton]
  cases hx : w.locals name with
  | some x =>
    have hkind := hslots.kind name v x hv hx
    refine ⟨[x], ?_, rfl, hkind⟩
    rw [State.execute_load, hslot, hx, Option.bind_some, if_pos hkind]
    rfl
  | none =>
    refine ⟨⟨name, v, rfl, hv, hx⟩, ?_⟩
    rw [State.execute_load, hslot, hx, Option.bind_none]

/-- Loading the receiver of an instance method is using the current instance. -/
theorem self (hslots : Holds s w slots) (hinstance : s.scopes.isStatic = false) :
    Turns w slots (.load .reference 0) [] [.reference w.self] := by
  intro base hist
  rw [State.execute_load, hslots.self_eq hinstance]
  rfl

/-- An instance is allocated by one instruction. -/
theorem allocate (cls : ClassRef) :
    Follows s w slots [.new cls] [] (World.allocate cls) fun x results ↦
      results = [x] ∧ x.kind = .reference :=
  instruction fun _ _ ↦ ⟨_, [_], _, rfl, rfl, rfl, rfl⟩

/-- An invocation takes its arguments, and the receiver below them, and leaves the result. -/
theorem invokeStatic {m : MemberRef} {args : List Datum} (hargs : State.Fit args m.params) :
    Follows s w slots [.invokeStatic m] args.reverse (w.invoke m none args) fun result results ↦
      results = result.toList ∧ result.map Datum.kind = m.returnType.kind? :=
  instruction fun _ _ ↦ ⟨_, _, _, rfl, State.invoke_static hargs, rfl, w.map_kind_answer ..⟩

/-- A member with a receiver is invoked by one instruction. -/
theorem invokeInstance {i : Instruction} {m : MemberRef} {args : List Datum} {receiver : Datum}
    (hi : ∀ c, State.execute w slots c i = c.invoke w m true) (hargs : State.Fit args m.params)
    (hreceiver : receiver.kind = .reference) :
    Follows s w slots [i] (args.reverse ++ [receiver]) (w.invoke m (some receiver) args)
      fun result results ↦
        results = result.toList ∧ result.map Datum.kind = m.returnType.kind? := by
  obtain ⟨r, rfl⟩ := Datum.exists_reference_of_kind hreceiver
  refine instruction fun base hist ↦ ⟨_, _, _, rfl, ?_, rfl, w.map_kind_answer ..⟩
  rw [hi, List.append_assoc]
  exact State.invoke_instance hargs

end Follows

/-! ### Appending -/

/-- In the session `s`, the action emits code and changes nothing else. -/
def Appends (s : Session) (act : Gen α) (post : α → List Instruction → Prop) : Prop :=
  ∀ g : GenState, g.session = s → Yields act g fun a g' ↦ ∃ code, g' = g.emits code ∧ post a code

namespace Appends

open Gen

variable {act : Gen α} {next : α → Gen β} {mid : α → List Instruction → Prop}
  {post : β → List Instruction → Prop}

protected theorem pure {a : α} {post : α → List Instruction → Prop} (h : post a []) :
    Appends s (pure a) post :=
  fun _ _ ↦ ensures_pure ⟨[], rfl, h⟩

/-- An action that fails may be said to append anything. -/
protected theorem throw {e : CompileError} {post : α → List Instruction → Prop} :
    Appends s (throw e) post :=
  fun _ _ ↦ ensures_throw trivial

theorem throw_bind {e : CompileError} : Appends s (throw e >>= next) post :=
  fun _ _ ↦ ensures_throw_bind trivial

/-- To look at the state appends nothing, and the session there is the one of the start. -/
theorem get_bind {next : GenState → Gen β} (h : ∀ g, g.session = s → Appends s (next g) post) :
    Appends s (get >>= next) post :=
  fun g hg ↦ ensures_get_bind (h g hg g hg)

/-- Less may be said of what is appended. -/
theorem imp {post : α → List Instruction → Prop} (h : Appends s act mid)
    (hpost : ∀ a code, mid a code → post a code) : Appends s act post :=
  fun _ hg ↦ (h _ hg).imp fun a _ ⟨code, hcode, ha⟩ ↦ ⟨code, hcode, hpost a code ha⟩

/-- Actions append their pieces one after another. -/
theorem bind (h : Appends s act mid)
    (hnext : ∀ a code, mid a code → Appends s (next a) fun b code' ↦ post b (code ++ code')) :
    Appends s (act >>= next) post := by
  intro g hg
  refine ensures_bind (h g hg) ?_
  rintro a g' ⟨code, rfl, ha⟩
  refine (hnext a code ha (g.emits code) hg).imp ?_
  rintro b g'' ⟨code', rfl, hb⟩
  exact ⟨code ++ code', (g.emits_append code code').symm, hb⟩

/-- To ask the session appends nothing. -/
theorem query_bind {read : Session → Except CompileError α}
    (h : ∀ a, read s = .ok a → Appends s (next a) post) : Appends s (query read >>= next) post := by
  intro g hg
  refine ensures_query_bind (fun a ha ↦ ?_) fun _ _ ↦ trivial
  rw [hg] at ha
  exact h a ha g hg

/-- An instruction is appended in front of what follows. -/
theorem emit_bind {i : Instruction} {next : Unit → Gen β}
    (h : Appends s (next ()) fun b code ↦ post b (i :: code)) :
    Appends s (emit i >>= next) post := by
  intro g hg
  refine ensures_emit_bind ((h (g.emits [i]) hg).imp ?_)
  rintro b g' ⟨code, rfl, hb⟩
  exact ⟨i :: code, (g.emits_append [i] code).symm, hb⟩

theorem ite {c : Prop} [Decidable c] {act act' : Gen α} {post : α → List Instruction → Prop}
    (hpos : c → Appends s act post) (hneg : ¬c → Appends s act' post) :
    Appends s (if c then act else act') post := by
  split
  · next h => exact hpos h
  · next h => exact hneg h

end Appends

end ScriptBytecode.Invocations

import ScriptBytecode.Compile.Gen

/-!
# What an action ensures

Every step of the compiler is an action on some state that may fail and leaves a state behind
either way. `Ensures act s post fails` says how such an action ends when it is run from `s`: as
`post` says if it succeeds, and as `fails` says if it does not. It is a statement about one run, so
facts about the state before the run are ordinary hypotheses and need no place in it.

The lemmas here follow the shape of an action. A sequence is opened by `ensures_bind`, which hands
on what the first part ensures to what comes after it; an action on the session within the code of a
method is opened by `ensures_onSession`.

**Why both outcomes in one statement.** A failure is no end of the story in this compiler: a class
or a method is closed also if its content failed, and a host may catch the error and go on. So what
holds after a failure is proved along with what holds after a success, by the same walk through the
action. Where failures do not matter, `Yields` leaves them out.

**Why no weakest preconditions.** The postcondition is given, not computed. In a sequence the
condition in the middle is an argument of `ensures_bind`, found from the lemma about the first part;
so a proof about an action names the lemmas about its parts, in their order, and nothing is unfolded
on the way.

* `Ensures.mono`, `Ensures.imp` and `Ensures.and` weaken and combine; `Ensures.of_ok` and
  `Ensures.of_error` read off one outcome;
* `ensures_bind`, `ensures_ite` and their relatives take an action apart;
* `SessionM.ensures_query_bind` and `SessionM.ensures_attempt_bind` are for actions on a session,
  and the lemmas on `Gen` for those on code;
* `Gen.assemble_eq_ok_iff` is where the code of a method comes from.
-/

namespace ScriptBytecode

variable {ε σ α β : Type}

/-- Run from `s`, the action succeeds as `post` says or fails as `fails` says. -/
def Ensures (act : EStateM ε σ α) (s : σ) (post : α → σ → Prop) (fails : ε → σ → Prop) : Prop :=
  match act s with
  | .ok a s' => post a s'
  | .error e s' => fails e s'

/-- What is ensured if nothing is said of failures. -/
abbrev Yields (act : EStateM ε σ α) (s : σ) (post : α → σ → Prop) : Prop :=
  Ensures act s post fun _ _ ↦ True

section Basic

variable {act : EStateM ε σ α} {s s' : σ} {post post' : α → σ → Prop} {fails fails' : ε → σ → Prop}

theorem Ensures.of_ok {a : α} (h : Ensures act s post fails) (hok : act s = .ok a s') :
    post a s' := by
  simpa [Ensures, hok] using h

theorem Ensures.of_error {e : ε} (h : Ensures act s post fails) (herr : act s = .error e s') :
    fails e s' := by
  simpa [Ensures, herr] using h

/-- A run that succeeds ensures what holds at its end. -/
theorem ensures_of_ok {a : α} (hok : act s = .ok a s') (h : post a s') :
    Ensures act s post fails := by
  simpa [Ensures, hok] using h

/-- So does a run that fails. -/
theorem ensures_of_error {e : ε} (herr : act s = .error e s') (h : fails e s') :
    Ensures act s post fails := by
  simpa [Ensures, herr] using h

/-- Less may be ensured than what is. -/
theorem Ensures.mono (h : Ensures act s post fails) (hpost : ∀ a s', post a s' → post' a s')
    (hfails : ∀ e s', fails e s' → fails' e s') : Ensures act s post' fails' := by
  unfold Ensures at h ⊢
  split
  · next hrun => rw [hrun] at h; exact hpost _ _ h
  · next hrun => rw [hrun] at h; exact hfails _ _ h

/-- The result may be weakened alone. -/
theorem Ensures.imp (h : Ensures act s post fails) (hpost : ∀ a s', post a s' → post' a s') :
    Ensures act s post' fails :=
  h.mono hpost fun _ _ h ↦ h

/-- Two accounts of one run hold together. -/
theorem Ensures.and (h : Ensures act s post fails) (h' : Ensures act s post' fails') :
    Ensures act s (fun a s' ↦ post a s' ∧ post' a s') (fun e s' ↦ fails e s' ∧ fails' e s') := by
  unfold Ensures at h h' ⊢
  split
  · next hrun => rw [hrun] at h h'; exact ⟨h, h'⟩
  · next hrun => rw [hrun] at h h'; exact ⟨h, h'⟩

/-- If a run can end in one way only, that is how it ends. -/
theorem Ensures.eq_ok {a : α} (h : Ensures act s (fun b t ↦ b = a ∧ t = s') fun _ _ ↦ False) :
    act s = .ok a s' := by
  unfold Ensures at h
  cases hrun : act s with
  | ok b t =>
    rw [hrun] at h
    rw [h.1, h.2]
  | error e t =>
    rw [hrun] at h
    exact h.elim

/-- A run that can only fail in one way fails in that way. -/
theorem Ensures.eq_error {e : ε} (h : Ensures act s (fun _ _ ↦ False) fun e' t ↦ e' = e ∧ t = s') :
    act s = .error e s' := by
  unfold Ensures at h
  cases hrun : act s with
  | ok b t =>
    rw [hrun] at h
    exact h.elim
  | error e' t =>
    rw [hrun] at h
    rw [h.1, h.2]

/-- What an action yields is said of its successes alone. -/
theorem yields_iff : Yields act s post ↔ ∀ a s', act s = .ok a s' → post a s' := by
  constructor
  · intro h a s' hok
    exact h.of_ok hok
  · intro h
    unfold Yields Ensures
    split
    · next hrun => exact h _ _ hrun
    · trivial

end Basic

/-! ### Sequences -/

section Monad

variable {s : σ} {post : α → σ → Prop} {fails : ε → σ → Prop}

theorem ensures_pure {a : α} (h : post a s) :
    Ensures (pure a : EStateM ε σ α) s post fails := h

theorem ensures_throw {e : ε} (h : fails e s) :
    Ensures (throw e : EStateM ε σ α) s post fails := h

theorem ensures_pure_bind {b : β} {next : β → EStateM ε σ α} (h : Ensures (next b) s post fails) :
    Ensures (pure b >>= next) s post fails := h

/-- Nothing comes after a failure. -/
theorem ensures_throw_bind {e : ε} {next : β → EStateM ε σ α} (h : fails e s) :
    Ensures (throw e >>= next) s post fails := h

/-- One of two actions is run. -/
theorem ensures_ite {c : Prop} [Decidable c] {act act' : EStateM ε σ α}
    (hpos : c → Ensures act s post fails) (hneg : ¬c → Ensures act' s post fails) :
    Ensures (if c then act else act') s post fails := by
  split
  · next h => exact hpos h
  · next h => exact hneg h

/-- Of two actions, the second starts where the first has ended; if the first fails, so do both. -/
theorem ensures_bind {act : EStateM ε σ β} {next : β → EStateM ε σ α} {mid : β → σ → Prop}
    (h : Ensures act s mid fails) (hnext : ∀ b s', mid b s' → Ensures (next b) s' post fails) :
    Ensures (act >>= next) s post fails := by
  unfold Ensures at h ⊢
  show match EStateM.bind act next s with | .ok a s' => post a s' | .error e s' => fails e s'
  unfold EStateM.bind
  cases hrun : act s with
  | ok b s' => rw [hrun] at h; exact hnext b s' h
  | error e s' => rw [hrun] at h; exact h

/-- A sequence whose first part succeeds goes on with the second. -/
theorem bind_eq_of_ok {act : EStateM ε σ β} {next : β → EStateM ε σ α} {b : β} {s' : σ}
    (h : act s = .ok b s') : (act >>= next) s = next b s' := by
  show EStateM.bind act next s = _
  unfold EStateM.bind
  rw [h]

/-- What is known to succeed can be run first. -/
theorem ensures_bind_of_ok {act : EStateM ε σ β} {next : β → EStateM ε σ α} {b : β} {s' : σ}
    (h : act s = .ok b s') (hnext : Ensures (next b) s' post fails) :
    Ensures (act >>= next) s post fails := by
  unfold Ensures
  rw [bind_eq_of_ok h]
  exact hnext

/-- A sequence whose first part fails goes no further. -/
theorem bind_eq_of_error {act : EStateM ε σ β} {next : β → EStateM ε σ α} {e : ε} {s' : σ}
    (h : act s = .error e s') : (act >>= next) s = .error e s' := by
  show EStateM.bind act next s = _
  unfold EStateM.bind
  rw [h]

/-- A sequence succeeds only if its first part does. -/
theorem exists_of_bind_eq_ok {act : EStateM ε σ β} {next : β → EStateM ε σ α} {a : α} {s' : σ}
    (h : (act >>= next) s = .ok a s') :
    ∃ b t, act s = .ok b t ∧ next b t = .ok a s' := by
  change EStateM.bind act next s = _ at h
  unfold EStateM.bind at h
  cases hact : act s with
  | ok b t =>
    rw [hact] at h
    exact ⟨b, t, rfl, h⟩
  | error e t =>
    rw [hact] at h
    cases h

/-- A result that is known to be there. -/
theorem exists_eq_ok_of_isSome {r : Except ε α} (h : r.toOption.isSome = true) :
    ∃ a, r = .ok a := by
  cases r with
  | error e => cases h
  | ok a => exact ⟨a, rfl⟩

/-- A result of which something is known is there. -/
theorem exists_eq_ok_of_map {r : Except ε α} {f : α → β} {b : β}
    (h : r.toOption.map f = some b) : ∃ a, r = .ok a ∧ f a = b := by
  cases r with
  | error e => cases h
  | ok a => exact ⟨a, rfl, Option.some.inj h⟩

/-- A result that passes a test is there. -/
theorem exists_eq_ok_of_any {r : Except ε α} {p : α → Bool} (h : r.toOption.any p = true) :
    ∃ a, r = .ok a ∧ p a = true := by
  cases r with
  | error e => cases h
  | ok a => exact ⟨a, rfl, h⟩

theorem ensures_modify {f : σ → σ} {post : PUnit → σ → Prop} (h : post ⟨⟩ (f s)) :
    Ensures (modify f : EStateM ε σ PUnit) s post fails := h

/-- Reading the state before an action: the state read is the one the action runs from. -/
theorem ensures_get_bind {next : σ → EStateM ε σ α} (h : Ensures (next s) s post fails) :
    Ensures (get >>= next) s post fails := h

theorem ensures_modify_bind {f : σ → σ} {next : PUnit → EStateM ε σ α}
    (h : Ensures (next ⟨⟩) (f s) post fails) : Ensures (modify f >>= next) s post fails := h

/-- What each round of a pass over a list keeps up for the part done so far, holds for the whole
list in the end. -/
theorem yields_forM {f : α → EStateM ε σ PUnit} {as : List α} (inv : List α → σ → Prop)
    (h : ∀ done a, ∀ s, a ∈ as → inv done s → Yields (f a) s fun _ s' ↦ inv (done ++ [a]) s')
    {s : σ} (hs : inv [] s) : Yields (as.forM f) s fun _ s' ↦ inv as s' := by
  have hrest : ∀ (todo done : List α) (s : σ), (∀ a ∈ todo, a ∈ as) → inv done s →
      Yields (todo.forM f) s fun _ s' ↦ inv (done ++ todo) s' := by
    intro todo
    induction todo with
    | nil =>
      intro done s _ hs
      rw [List.append_nil]
      exact ensures_pure hs
    | cons a todo ih =>
      intro done s hmem hs
      refine ensures_bind (h done a s (hmem a (List.mem_cons_self ..)) hs) fun _ s' hs' ↦ ?_
      rw [List.append_cons]
      exact ih (done ++ [a]) s' (fun a ha ↦ hmem a (List.mem_cons_of_mem _ ha)) hs'
  exact hrest as [] s (fun _ ha ↦ ha) hs

end Monad

/-! ### Operations made as a whole -/

section Wholly

variable {op : σ → Except ε (α × σ)} {s s' : σ} {a : α} {e : ε}

/-- Makes an operation as a whole, and leaves the state alone if it is refused. -/
def wholly (op : σ → Except ε (α × σ)) : EStateM ε σ α := fun s ↦
  match op s with
  | .ok (a, s') => .ok a s'
  | .error e => .error e s

/-- An operation that is done wholly or not at all succeeds where the operation does. -/
theorem wholly_eq_ok_iff : wholly op s = .ok a s' ↔ op s = .ok (a, s') := by
  unfold wholly
  rcases op s with e | ⟨a', t⟩ <;> simp

/-- Where it fails, it has done nothing. -/
theorem wholly_eq_error_iff : wholly op s = .error e s' ↔ op s = .error e ∧ s' = s := by
  unfold wholly
  rcases op s with e' | ⟨a, t⟩ <;> simp [eq_comm]

theorem wholly_of_ok (h : op s = .ok (a, s')) : wholly op s = .ok a s' := wholly_eq_ok_iff.2 h

theorem wholly_of_error (h : op s = .error e) : wholly op s = .error e s :=
  wholly_eq_error_iff.2 ⟨h, rfl⟩

end Wholly

/-! ### Actions on a session -/

namespace SessionM

variable {s : Session} {post : α → Session → Prop} {fails : CompileError → Session → Prop}

/-- A computed value or error is passed on. -/
theorem ensures_ofExcept {r : Except CompileError α} (hok : ∀ a, r = .ok a → post a s)
    (herr : ∀ e, r = .error e → fails e s) : Ensures (ofExcept r) s post fails := by
  cases r with
  | ok a => exact ensures_pure (hok a rfl)
  | error e => exact ensures_throw (herr e rfl)

/-- To ask the session changes nothing. -/
theorem ensures_query {read : Session → Except CompileError α}
    (hok : ∀ a, read s = .ok a → post a s) (herr : ∀ e, read s = .error e → fails e s) :
    Ensures (query read) s post fails :=
  ensures_get_bind (ensures_ofExcept hok herr)

/-- What follows a reading of the session runs from the session that was read. -/
theorem ensures_query_bind {read : Session → Except CompileError β} {next : β → SessionM α}
    (hok : ∀ b, read s = .ok b → Ensures (next b) s post fails)
    (herr : ∀ e, read s = .error e → fails e s) : Ensures (query read >>= next) s post fails := by
  have hread : Ensures (query read) s (fun b s' ↦ s' = s ∧ read s = .ok b) fails :=
    ensures_query (fun b hb ↦ ⟨rfl, hb⟩) herr
  refine ensures_bind hread ?_
  rintro b _ ⟨rfl, hb⟩
  exact hok b hb

/-- An attempt succeeds with the outcome, whichever it is. -/
theorem ensures_attempt {act : SessionM α} {post : Except CompileError α → Session → Prop}
    (h : Ensures act s (fun a ↦ post (.ok a)) (fun e ↦ post (.error e))) :
    Ensures (attempt act) s post fails := by
  unfold Ensures attempt at *
  cases hrun : act s with
  | ok a s' => rw [hrun] at h; exact h
  | error e s' => rw [hrun] at h; exact h

/-- What follows an attempt runs however it ended. -/
theorem ensures_attempt_bind {act : SessionM β} {next : Except CompileError β → SessionM α}
    (h : Ensures act s (fun b s' ↦ Ensures (next (.ok b)) s' post fails)
      (fun e s' ↦ Ensures (next (.error e)) s' post fails)) :
    Ensures (attempt act >>= next) s post fails := by
  have hattempt : Ensures (attempt act) s (fun outcome s' ↦ Ensures (next outcome) s' post fails)
      fails := ensures_attempt h
  exact ensures_bind hattempt fun _ _ h ↦ h

end SessionM

/-! ### Actions on the code of a method -/

namespace Gen

variable {g : GenState} {post : α → GenState → Prop} {fails : CompileError → GenState → Prop}

/-- An action on the session leaves the code as it is. -/
theorem ensures_onSession {act : SessionM α}
    (h : Ensures act g.session (fun a s ↦ post a { g with session := s })
      (fun e s ↦ fails e { g with session := s })) :
    Ensures (onSession act) g post fails := by
  unfold Ensures onSession at *
  cases hrun : act g.session with
  | ok a s' => rw [hrun] at h; exact h
  | error e s' => rw [hrun] at h; exact h

/-- Reading from the session leaves everything as it is. -/
theorem ensures_query {read : Session → Except CompileError α}
    (hok : ∀ a, read g.session = .ok a → post a g)
    (herr : ∀ e, read g.session = .error e → fails e g) :
    Ensures (query read) g post fails :=
  ensures_onSession (SessionM.ensures_query hok herr)

/-- What follows a reading of the session runs from the session that was read. -/
theorem ensures_query_bind {read : Session → Except CompileError β} {next : β → Gen α}
    (hok : ∀ b, read g.session = .ok b → Ensures (next b) g post fails)
    (herr : ∀ e, read g.session = .error e → fails e g) :
    Ensures (query read >>= next) g post fails := by
  have hread : Ensures (query read) g (fun b g' ↦ g' = g ∧ read g.session = .ok b) fails :=
    ensures_query (fun b hb ↦ ⟨rfl, hb⟩) herr
  refine ensures_bind hread ?_
  rintro b _ ⟨rfl, hb⟩
  exact hok b hb

theorem ensures_emit {i : Instruction} {post : Unit → GenState → Prop}
    (h : post () { g with asm := g.asm.emit i }) : Ensures (emit i) g post fails := h

theorem ensures_bindLabel {l : Label} {post : Unit → GenState → Prop}
    (h : post () { g with asm := g.asm.bind l }) : Ensures (Gen.bind l) g post fails := h

theorem ensures_createLabel {post : Label → GenState → Prop}
    (h : post g.asm.nextLabel { g with asm := g.asm.createLabel }) :
    Ensures createLabel g post fails := h

theorem ensures_emit_bind {i : Instruction} {next : Unit → Gen α}
    (h : Ensures (next ()) { g with asm := g.asm.emit i } post fails) :
    Ensures (emit i >>= next) g post fails := h

theorem ensures_bindLabel_bind {l : Label} {next : Unit → Gen α}
    (h : Ensures (next ()) { g with asm := g.asm.bind l } post fails) :
    Ensures (Gen.bind l >>= next) g post fails := h

theorem ensures_createLabel_bind {next : Label → Gen α}
    (h : Ensures (next g.asm.nextLabel) { g with asm := g.asm.createLabel } post fails) :
    Ensures (createLabel >>= next) g post fails := h

/-- Code is assembled from the start, and its session becomes the one outside. -/
theorem ensures_assemble {act : Gen Unit} {s : Session} {post : Code → Session → Prop}
    {fails : CompileError → Session → Prop}
    (h : Ensures act { session := s }
      (fun _ g ↦ match g.asm.finish with
        | .ok code => post code g.session
        | .error fault => fails (.internal fault) g.session)
      (fun e g ↦ fails e g.session)) :
    Ensures (assemble act) s post fails := by
  unfold Ensures assemble at *
  cases hrun : act { session := s } with
  | ok a g =>
    rw [hrun] at h
    cases hfin : g.asm.finish with
    | ok code => simp only [hfin] at h ⊢; exact h
    | error fault => simp only [hfin] at h ⊢; exact h
  | error e g => rw [hrun] at h; exact h

/-- The code of a method is finished if all of it could be emitted. -/
theorem assemble_eq_ok_iff {act : Gen Unit} {s s' : Session} {code : Code} :
    assemble act s = .ok code s' ↔
      ∃ g, act { session := s } = .ok () g ∧ g.asm.finish = .ok code ∧ g.session = s' := by
  unfold assemble
  cases hact : act { session := s } with
  | error e g =>
    constructor
    · exact nofun
    · rintro ⟨_, h, -⟩
      cases h
  | ok a g =>
    constructor
    · intro h
      cases hfinish : g.asm.finish with
      | error fault => simp [hfinish] at h
      | ok code' =>
        simp only [hfinish] at h
        cases h
        exact ⟨g, rfl, hfinish, rfl⟩
    · rintro ⟨_, h, hfinish, rfl⟩
      cases h
      simp [hfinish]

end Gen

end ScriptBytecode

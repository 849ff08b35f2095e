import ScriptBytecode.Proofs.Execution.Evaluator
import ScriptBytecode.Source.Induction

/-!
# The bound on rounds

The bound that `meaning` takes only decides whether an evaluation comes to an end. Once it is large
enough a larger one changes nothing (`meaning_stable`), so a tree has one outcome at most.

`Eval.Extends` says that one evaluation goes further than another: it agrees with it or the other
has run out of rounds. `meaning_extends` is the induction, over all trees.

The bound is there because a tree may loop without end and a function may not. That an outcome does
not depend on it is what lets results about runs be stated for every bound: an evaluation which ends
does so with one outcome, and one which does not ends for no bound.

Only running out of rounds is excused. An evaluation that goes wrong in another way goes wrong in
the same way with every larger bound, since it has done nothing but what the smaller bound allowed.
-/

namespace ScriptBytecode

variable {α β : Type}

/-! ### Evaluations that go as far -/

/-- The second evaluation does what the first does, wherever the first does not run out of
rounds. -/
def Eval.Extends (e e' : Eval α) : Prop := ∀ env, e env = .error .outOfRounds ∨ e' env = e env

namespace Eval.Extends

theorem refl (e : Eval α) : e.Extends e := fun _ ↦ .inr rfl

/-- If the first evaluation goes further under the larger bound, so does what comes after it. -/
theorem bind {e e' : Eval α} {f f' : α → Eval β} (h : e.Extends e')
    (hf : ∀ a, (f a).Extends (f' a)) : (e >>= f).Extends (e' >>= f') := by
  intro env
  show (e env >>= fun r ↦ f r.1 r.2) = .error .outOfRounds ∨
    (e' env >>= fun r ↦ f' r.1 r.2) = (e env >>= fun r ↦ f r.1 r.2)
  obtain h | h := h env
  · rw [h]
    exact .inl rfl
  · rw [h]
    cases e env with
    | error _ => exact .inr rfl
    | ok r => exact hf r.1 r.2

/-- Rounds go further if they may be more, or if each of them goes further. -/
theorem rounds {round round' : α → Eval (Bool × α)} (h : ∀ a, (round a).Extends (round' a))
    {n n' : Nat} (hn : n ≤ n') (a : α) :
    (Eval.rounds round n a).Extends (Eval.rounds round' n' a) := by
  induction n generalizing n' a with
  | zero => exact fun _ ↦ .inl rfl
  | succ n ih =>
    obtain ⟨n', rfl⟩ := Nat.exists_eq_add_of_lt hn
    refine (h a).bind fun ⟨again, a'⟩ ↦ ?_
    cases again with
    | false => exact refl _
    | true => exact ih (by omega) a'

end Eval.Extends

/-- The second meaning does what the first does, as far as that goes. -/
structure Meaning.Extends (m m' : Meaning) : Prop where
  run : ∀ keep, (m.run keep).Extends (m'.run keep)
  test : m.test.Extends m'.test

namespace Meaning.Extends

variable {m m' : Meaning}

/-- A meaning that is run both for its value and for its effects goes further if it does in both. -/
theorem ofRun {run run' : Bool → Eval (Option Value)} (h : ∀ keep, (run keep).Extends (run' keep)) :
    (Meaning.ofRun run).Extends (Meaning.ofRun run') :=
  ⟨h, (h true).bind fun _ ↦ .refl _⟩

/-- So does the value at another type. -/
theorem runAs (h : m.Extends m') (type : MachineType) :
    (m.runAs type).Extends (m'.runAs type) := by
  unfold Meaning.runAs
  split
  · exact h.run false
  · exact (h.run true).bind fun _ ↦ .refl _

/-- So does the number it is. -/
theorem numberAs (h : m.Extends m') (type : MachineType) :
    (m.numberAs type).Extends (m'.numberAs type) :=
  (h.runAs type).bind fun _ ↦ .refl _

end Meaning.Extends

/-! ### Every node -/

section Meaning

open Meaning

variable {s : Session} {bound bound' : Nat}

/-- A sequence goes further if each of its nodes does. -/
theorem meaningOf_extends {nodes : List Node}
    (h : ∀ n ∈ nodes, (meaning s bound n).Extends (meaning s bound' n)) (keep : Bool) :
    (meaningOf s bound nodes keep).Extends (meaningOf s bound' nodes keep) := by
  induction nodes with
  | nil =>
    simp only [meaningOf]
    exact .refl _
  | cons n rest ih =>
    cases rest with
    | nil =>
      simp only [meaningOf]
      exact (h n (List.mem_cons_self ..)).run keep
    | cons n' rest =>
      simp only [meaningOf]
      exact ((h n (List.mem_cons_self ..)).run false).bind fun _ ↦
        ih fun m hm ↦ h m (List.mem_cons_of_mem _ hm)

/-- So does an alternative. -/
theorem meaningOfElse_extends {arm : Option Node}
    (h : ∀ n ∈ arm, (meaning s bound n).Extends (meaning s bound' n)) (type : MachineType) :
    (meaningOfElse s bound type arm).Extends (meaningOfElse s bound' type arm) := by
  cases arm with
  | none =>
    simp only [meaningOfElse]
    exact .refl _
  | some n =>
    simp only [meaningOfElse]
    exact (h n rfl).runAs type

/-- What a sum or difference does. -/
def meaningOfCall (s : Session) (bound : Nat) (receiver : Node) (name : String) (argument : Node)
    (keep : Bool) : Eval (Option Value) := do
  let w ← s.width receiver
  let x ← (meaning s bound receiver).numberAs w.type
  let v ← s.width argument
  let y ← (meaning s bound argument).numberAs v.type
  return settled keep ((w.max v).wrap (← operate name x y))

/-- With a larger bound a node does what it did, as far as that went. -/
theorem meaning_extends (hle : bound ≤ bound') (n : Node) :
    (meaning s bound n).Extends (meaning s bound' n) := by
  induction n using Node.inductionOn with
  | assign name value type span ih =>
    rw [meaning, meaning]
    refine .ofRun fun keep ↦ (Eval.Extends.refl _).bind fun type ↦ ?_
    exact (ih.runAs type).bind fun _ ↦ .refl _
  | body nodes type span ih =>
    rw [meaning, meaning]
    exact .ofRun (meaningOf_extends ih)
  | call receiver name args type span ih ihargs =>
    match args, ihargs with
    | [], _ =>
      by_cases hname : name = "!"
      · subst hname
        rw [meaning, meaning]
        exact ⟨fun _ ↦ .refl _, ih.test.bind fun _ ↦ .refl _⟩
      · -- No other call without arguments means anything, with any bound.
        have hnone : ∀ bound, meaning s bound (.call receiver name [] type span) = illTyped := by
          intro bound
          rw [meaning]
          all_goals simp_all
        rw [hnone, hnone]
        exact ⟨fun _ ↦ .refl _, .refl _⟩
    | [argument], ihargs =>
      have ihargument := ihargs argument (List.mem_singleton_self _)
      have hrun : ∀ keep, (meaningOfCall s bound receiver name argument keep).Extends
          (meaningOfCall s bound' receiver name argument keep) := fun keep ↦
        (Eval.Extends.refl _).bind fun w ↦ (ih.numberAs _).bind fun x ↦
          (Eval.Extends.refl _).bind fun v ↦ (ihargument.numberAs _).bind fun y ↦ .refl _
      rw [meaning, meaning]
      refine ⟨hrun, ?_⟩
      cases hoperator : relation? name with
      | none =>
        exact (Meaning.Extends.ofRun hrun).test
      | some test =>
        exact (Eval.Extends.refl _).bind fun t ↦ (ih.numberAs t).bind fun x ↦
          (Eval.Extends.refl _).bind fun t' ↦ (ihargument.numberAs t').bind fun y ↦ .refl _
    | _ :: _ :: _, _ => exact ⟨fun _ ↦ .refl _, .refl _⟩
  | branch condition thenArm elseArm type span ihcondition ihthen ihelse =>
    rw [meaning, meaning]
    refine .ofRun fun keep ↦ (Eval.Extends.refl _).bind fun type ↦ ?_
    refine ihcondition.test.bind fun outcome ↦ ?_
    cases outcome with
    | true => exact (ihthen.runAs type).bind fun _ ↦ .refl _
    | false => exact (meaningOfElse_extends ihelse type).bind fun _ ↦ .refl _
  | loop condition content checkFirst negative type span ihcondition ihcontent =>
    rw [meaning, meaning]
    refine .ofRun fun keep ↦ (Eval.Extends.refl _).bind fun type ↦ ?_
    -- Only here the larger bound is used: there may be more rounds.
    refine (Eval.Extends.rounds (fun carried ↦ ?_) hle _).bind fun _ ↦ .refl _
    cases checkFirst with
    | true =>
      refine ihcondition.test.bind fun outcome ↦ ?_
      by_cases houtcome : outcome = negative
      · simp only [if_pos houtcome]
        exact .refl _
      · simp only [if_neg houtcome]
        exact (ihcontent.runAs type).bind fun _ ↦ .refl _
    | false =>
      exact (ihcontent.runAs type).bind fun _ ↦ ihcondition.test.bind fun _ ↦ .refl _
  | _ => exact ⟨fun _ ↦ .refl _, .refl _⟩

/-- An outcome that is reached with some bound is reached with every larger one. -/
theorem meaning_stable {n : Node} {keep : Bool} {env : Env} {r : Except Halt (Option Value × Env)}
    (h : (meaning s bound n).run keep env = r) (hr : r ≠ .error .outOfRounds)
    (hle : bound ≤ bound') : (meaning s bound' n).run keep env = r := by
  obtain hout | heq := (meaning_extends hle n).run keep env
  · exact absurd (h.symm.trans hout) hr
  · exact heq.trans h

end Meaning

end ScriptBytecode

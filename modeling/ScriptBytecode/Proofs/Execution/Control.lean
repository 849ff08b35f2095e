import ScriptBytecode.Proofs.Execution.Expressions

/-!
# Sequences, branches and loops follow their meaning

The code of a branch or a loop is made of pieces with two labels between them. What it does is said
of the pieces alone, by `realizes_branch` and `realizes_loop`: the labels lie where the code has
them, each piece follows its part of the evaluation, and so the whole follows the whole.

* `realizes_branch`, `realizes_loop`, `repeats_testFirst` and `repeats_testLast` are about pieces of
  code;
* `yields_sequence`, `yields_branch` and `yields_loop` say that the compiler emits these pieces.

**Two steps for each construct.** The lemmas about pieces know nothing of the compiler: they have
the pieces, their labels and what each piece does as hypotheses. The lemmas about the compiler know
nothing of runs: they name the pieces that were emitted and in which order the labels were created.
So a change in how a loop is laid out concerns one lemma of either sort.

**Rounds.** A round of a loop is a function of what is carried from the round before, and says
whether there is another one (`Repeats`). Both ways to test, first or last, come down to such
rounds, and the induction over their number is made once, in `realizes_loop`.

**What is carried** is the value of the loop, if it has one. It lies on the stack while the
condition is tested, which is why the condition has to run on top of operands that it does not
touch.
-/

namespace ScriptBytecode

open Meaning Gen

variable {s : Session} {kinds : String → StackKind} {g g' : GenState}

/-! ### Sequences -/

theorem Outcome.steady {keep : Bool} {eval : Nat → Eval (Option Value)} {type : MachineType}
    (h : Outcome s kinds g keep eval type g') : Steady s kinds g' := by
  obtain ⟨-, ⟨piece, hemits, -⟩⟩ := h
  exact hemits.steady

/-- A node for its effects and then another. -/
theorem Outcome.seq {keep : Bool} {eval eval' : Nat → Eval (Option Value)}
    {type type' : MachineType}
    {g'' : GenState} (h : Outcome s kinds g false eval type g')
    (h' : Outcome s kinds g' keep eval' type' g'') :
    Outcome s kinds g keep (fun bound ↦ do
      let _ ← eval bound
      eval' bound) type' g'' := by
  obtain ⟨hnone, piece, hemits, hreal⟩ := h
  obtain ⟨hkept, piece', hemits', hreal'⟩ := h'
  refine ⟨hkept, piece ++ piece', hemits.trans hemits', ?_⟩
  refine (hreal.later hemits'.keeps).append fun v results hv ↦ ?_
  obtain ⟨-, rfl⟩ := hv.eq_none (by simpa using hnone)
  exact hreal'

/-- A sequence is followed if each of its nodes is. -/
theorem yields_sequence {nodes : List Node}
    (h : ∀ n ∈ nodes, Simulates s kinds (node n) fun bound ↦ meaning s bound n)
    (hg : Steady s kinds g) (keep : Bool) :
    Yields (Gen.sequence nodes keep) g (Outcome s kinds g keep fun bound ↦
      meaningOf s bound nodes keep) := by
  induction nodes generalizing g with
  | nil =>
    simp only [Gen.sequence, meaningOf]
    exact yields_settle_void hg keep
  | cons n rest ih =>
    cases rest with
    | nil =>
      simp only [Gen.sequence, meaningOf]
      exact h n (List.mem_cons_self ..) g keep hg
    | cons n' rest =>
      simp only [Gen.sequence, meaningOf]
      refine ensures_bind (h n (List.mem_cons_self ..) g false hg) fun type g₁ hout ↦ ?_
      refine (ih (fun m hm ↦ h m (List.mem_cons_of_mem _ hm)) hout.steady).imp ?_
      exact fun type' g₂ hout' ↦ hout.seq hout'

/-! ### Labels around pieces -/

/-- Two labels that are created first may be bound in and after what comes next. -/
theorem Emits.enclose {g₁ g₂ : GenState} {piece piece' : List Instruction}
    (h : Emits s kinds { g with asm := g.asm.createLabel.createLabel } g₁ piece)
    (h' : Emits s kinds { g₁ with asm := g₁.asm.bind g.asm.nextLabel } g₂ piece') :
    Emits s kinds g { g₂ with asm := g₂.asm.bind g.asm.createLabel.nextLabel }
      (piece ++ .bind g.asm.nextLabel :: (piece' ++ [.bind g.asm.createLabel.nextLabel])) := by
  refine ⟨⟨h'.steady.session, h'.steady.built, h'.steady.oneKind⟩, h.keeps.trans h'.keeps, ?_⟩
  have hcreated : g.asm.createLabel.createLabel.labels.size = g.asm.labels.size + 2 := by
    rw [Assembler.size_createLabel, Assembler.size_createLabel]
  have hsize : g.asm.labels.size + 2 ≤ g₁.asm.labels.size := hcreated ▸ h.emitted.size_le
  have hsize' : g₁.asm.labels.size ≤ g₂.asm.labels.size := by simpa using h'.emitted.size_le
  constructor
  · simp [h'.emitted.code, h.emitted.code]
  · simp only [Assembler.size_bind]
    omega
  · have hinner : BindsWithin (g.asm.labels.size + 2) g₂.asm.labels.size (piece ++ piece') := by
      have hbinds := h.emitted.binds
      have hbinds' := h'.emitted.binds
      simp only [Assembler.size_createLabel, Assembler.size_bind] at hbinds hbinds'
      exact hbinds.append hbinds' hsize hsize'
    have hsecond : BindsWithin (g.asm.labels.size + 1) g₂.asm.labels.size
        (piece ++ (piece' ++ [.bind g.asm.createLabel.nextLabel])) := by
      rw [← List.append_assoc]
      exact .insert (by simp) (by simpa using hinner) (by omega)
    rw [Assembler.size_bind]
    exact .insert rfl hsecond (by omega)

/-! ### Branches -/

section Branch

variable {l : Locals} {x y : Label} {test thenArm elseArm : List Instruction}
  {evalTest : Nat → Eval Bool} {evalThen evalElse : Nat → Eval (Option Value)}
  {type : MachineType}

/-- The code of a branch: the condition jumps over the first arm, which jumps over the other. -/
theorem realizes_branch (htest : Branches l test false x evalTest)
    (hthen : Realizes l thenArm [] evalThen (Leaves type))
    (helse : Realizes l elseArm [] evalElse (Leaves type)) :
    Realizes l (test ++ thenArm ++ [.goto y] ++ .bind x :: (elseArm ++ [.bind y])) []
      (fun bound ↦ do if ← evalTest bound then evalThen bound else evalElse bound)
      (Leaves type) := by
  intro later hlater hapart program pc hplaced bound
  have hx := hplaced.position_bind
  have hy := hplaced.right.tail.position_bind
  refine (htest later hlater hapart program pc _ hplaced.left.left.left hx bound).bind ?_
  rintro outcome pc' results ⟨hpc, rfl⟩
  -- Both ways end with the binding of `y`, which changes nothing.
  have hend : ∀ v results, Leaves type v results → Follows later program bound
      (pc + (test ++ thenArm ++ [Instruction.goto y]).length + 1 + elseArm.length) results (pure v)
      fun v pc' results ↦ pc' = pc + (test ++ thenArm ++ [Instruction.goto y] ++
        Instruction.bind x :: (elseArm ++ [.bind y])).length ∧ Leaves type v results := by
    intro v results hv
    refine Follows.pass' hplaced.right.tail.right.head (Follows.pure ⟨?_, hv⟩)
    simp only [List.length_append, List.length_cons, List.length_nil]
    omega
  cases outcome with
  -- The test falls through to the first arm, and from its end control jumps to `y`.
  | true =>
    rw [if_neg (by simp)] at hpc
    subst hpc
    rw [← bind_pure (evalThen bound)]
    refine (hthen later hlater hapart program _ hplaced.left.left.right bound).bind ?_
    rintro v _ results ⟨rfl, hv⟩
    have hgoto := hplaced.left.right.head
    rw [List.length_append, ← Nat.add_assoc] at hgoto
    exact Follows.goto hgoto hy (hend v results hv)
  -- The test jumps to `x`, and the second arm runs into the binding of `y`.
  | false =>
    rw [if_pos rfl] at hpc
    subst hpc
    refine Follows.pass' hplaced.right.head ?_
    rw [← bind_pure (evalElse bound)]
    refine (helse later hlater hapart program _ hplaced.right.tail.left bound).bind ?_
    rintro v _ results ⟨rfl, hv⟩
    exact hend v results hv

end Branch

/-! ### Loops -/

section Loop

variable {l : Locals} {x y : Label} {type : MachineType}

/-- The code that drops the value carried from one round of a loop to the next. -/
def dropCarried (type : MachineType) : List Instruction := (type.kind?.map .pop).toList

/-- What is carried from round to round is dropped at the end. -/
theorem realizes_dropCarried {v : Option Value} {results : List Value} (h : Leaves type v results) :
    Realizes l (dropCarried type) results (fun _ ↦ pure ()) fun _ results ↦ results = [] := by
  unfold dropCarried
  cases hkind : type.kind? with
  | none =>
    obtain ⟨-, rfl⟩ := h.eq_none hkind
    exact .pure rfl
  | some k =>
    obtain ⟨x, -, rfl, rfl⟩ := h.exists_value hkind
    exact .instruction (Instruction.turns_pop x) rfl

/-- A piece follows a round of a loop. It ends where `x` is bound if there is another round, and
otherwise at its end, where `y` is bound. What is carried from round to round is on the stack. -/
def Repeats (l : Locals) (piece : List Instruction) (x y : Label)
    (round : Nat → Option Value → Eval (Bool × Option Value)) (type : MachineType) : Prop :=
  ∀ later, l.Keeps later → later.Apart → ∀ program pc head, Placed program pc piece →
    position? program x = some head → position? program y = some (pc + piece.length) →
      ∀ bound v results, Leaves type v results →
        Follows later program bound pc results (round bound v) fun r pc' results ↦
          Leaves type r.2 results ∧ pc' = if r.1 then head else pc + piece.length

/-- The code of a loop. -/
theorem realizes_loop {before round : List Instruction}
    {eval : Nat → Option Value → Eval (Bool × Option Value)} {start : Option Value}
    (hbefore : Realizes l before [] (fun _ ↦ pure start) (Leaves type))
    (hround : Repeats l round x y eval type) :
    Realizes l (before ++ .bind x :: (round ++ [.bind y])) []
      (fun bound ↦ Eval.rounds (eval bound) bound start) (Leaves type) := by
  intro later hlater hapart program pc hplaced bound
  have hx := hplaced.position_bind
  have hy := hplaced.right.tail.position_bind
  show Follows later program bound pc [] (Eval.rounds (eval bound) bound start) _
  rw [← pure_bind start (Eval.rounds (eval bound) bound)]
  refine (hbefore later hlater hapart program pc hplaced.left bound).bind ?_
  rintro v _ results ⟨rfl, hv⟩
  obtain ⟨rfl, hkind⟩ := hv
  have hrounds : Follows later program bound (pc + before.length) v.toList
      (Eval.rounds (eval bound) bound v) fun v pc' results ↦ v.map Value.kind = type.kind? ∧
        results = v.toList ∧ pc' = pc + before.length + 1 + round.length := by
    refine Follows.rounds hplaced.right.head (fun v hv ↦ ?_) bound
      (Nat.le_refl _) v hkind
    refine (hround later hlater hapart program _ _ hplaced.right.tail.left hx hy bound v v.toList
      ⟨rfl, hv⟩).imp ?_
    rintro r pc' results ⟨⟨hresults, hr⟩, hpc⟩
    exact ⟨hr, hresults, hpc⟩
  rw [← bind_pure (Eval.rounds (eval bound) bound v)]
  refine hrounds.bind ?_
  rintro v _ results ⟨hkind, rfl, rfl⟩
  refine Follows.pass' hplaced.right.tail.right.head (Follows.pure ⟨?_, rfl, hkind⟩)
  simp only [List.length_append, List.length_cons, List.length_nil]
  omega

variable {test content : List Instruction} {m m' : Nat → Meaning} {negative : Bool}

/-- The content of a loop takes the place of what was carried. -/
theorem realizes_content
    (hcontent : Realizes l content [] (fun bound ↦ (m' bound).runAs type) (Leaves type))
    {v : Option Value} {results : List Value} (h : Leaves type v results) :
    Realizes l (dropCarried type ++ content) results (fun bound ↦ (m' bound).runAs type)
      (Leaves type) := by
  have happend : Realizes l (dropCarried type ++ content) results
      (fun bound ↦ pure () >>= fun _ ↦ (m' bound).runAs type) (Leaves type) :=
    (realizes_dropCarried h).append fun _ _ hnil ↦ hnil ▸ hcontent
  simpa using happend

/-- The round of a loop that tests first. -/
theorem repeats_testFirst (htest : Branches l test negative y fun bound ↦ (m bound).test)
    (hcontent : Realizes l content [] (fun bound ↦ (m' bound).runAs type) (Leaves type)) :
    Repeats l (test ++ (dropCarried type ++ content) ++ [.goto x]) x y
      (fun bound ↦ testFirst (m bound) (m' bound) type negative) type := by
  intro later hlater hapart program pc head hplaced hx hy bound v results hv
  have htest' := htest later hlater hapart program pc _ hplaced.left.left hy bound
  refine (htest'.under results).bind ?_
  rintro outcome pc' _ ⟨_, rfl, hpc, rfl⟩
  by_cases houtcome : outcome = negative
  · rw [if_pos houtcome] at hpc ⊢
    exact Follows.pure ⟨hv, hpc⟩
  · rw [if_neg houtcome] at hpc ⊢
    subst hpc
    refine
      (realizes_content hcontent hv later hlater hapart program _ hplaced.left.right bound).bind ?_
    rintro v' _ results' ⟨rfl, hv'⟩
    have hgoto := hplaced.right.head
    rw [List.length_append, ← Nat.add_assoc] at hgoto
    exact Follows.goto hgoto hx (Follows.pure ⟨hv', rfl⟩)

/-- The round of a loop that tests last. -/
theorem repeats_testLast (htest : Branches l test (!negative) x fun bound ↦ (m bound).test)
    (hcontent : Realizes l content [] (fun bound ↦ (m' bound).runAs type) (Leaves type)) :
    Repeats l (dropCarried type ++ content ++ test) x y
      (fun bound ↦ testLast (m bound) (m' bound) type negative) type := by
  intro later hlater hapart program pc head hplaced hx hy bound v results hv
  refine (realizes_content hcontent hv later hlater hapart program _ hplaced.left bound).bind ?_
  rintro v' _ results' ⟨rfl, hv'⟩
  have htest' := htest later hlater hapart program _ _ hplaced.right hx bound
  refine (htest'.under results').bind ?_
  rintro outcome pc' _ ⟨_, rfl, hpc, rfl⟩
  refine Follows.pure ⟨hv', ?_⟩
  rw [hpc]
  cases outcome <;> cases negative <;> simp [Nat.add_assoc]

end Loop

/-! ### The code that is emitted -/

/-- To join the types of two branches only reads. -/
theorem yields_joinType (hg : Steady s kinds g) (type : SourceType) (span : Span) (keep : Bool) :
    Yields (joinType type span keep) g fun t g' ↦
      g' = g ∧ s.joinType type span keep = .ok t ∧ (keep = false → t = .void) := by
  cases keep with
  | false => exact ensures_pure ⟨rfl, rfl, fun _ ↦ rfl⟩
  | true =>
    refine ensures_query (fun t ht ↦ ⟨rfl, ?_, by simp⟩) fun _ _ ↦ trivial
    rw [hg.typeOf] at ht
    exact ht

/-- What a construct leaves at its type is its value, with the null reference in place of none. -/
theorem yields_settleVoid {piece : List Instruction} {eval : Nat → Eval (Option Value)}
    {type : MachineType} {keep : Bool} (hemits : Emits s kinds g g' piece)
    (hreal : Realizes g'.session.locals piece [] eval (Leaves type))
    (hkeep : keep = false → type = .void) :
    Yields (settleVoid type keep) g' (Outcome s kinds g keep fun bound ↦ do
      let v ← eval bound
      return settled keep (v.getD .null)) := by
  cases hkind : type.kind? with
  | none =>
    obtain rfl := MachineType.kind?_eq_none_iff.1 hkind
    cases keep with
    | false =>
      refine ⟨rfl, piece, hemits, hreal.map fun v results hv ↦ ?_⟩
      obtain ⟨rfl, rfl⟩ := hv.eq_none rfl
      exact ⟨none, fun _ ↦ rfl, .none rfl⟩
    -- A value is wanted and there is none: null stands in for it.
    | true =>
      refine ⟨rfl, _, hemits.snoc (i := .pushNull) (by simp), hreal.mapSnoc fun v results hv ↦ ?_⟩
      obtain ⟨rfl, rfl⟩ := hv.eq_none rfl
      exact ⟨some .null, [.null], fun _ ↦ rfl, fun _ _ _ _ ↦ rfl, .some rfl⟩
  | some k =>
    cases keep with
    | false =>
      obtain rfl := hkeep rfl
      cases hkind
    | true =>
      have hnot : ¬(true && type.isVoid) = true := by
        rw [Bool.true_and, MachineType.isVoid_iff]
        rintro rfl
        cases hkind
      unfold settleVoid
      rw [if_neg hnot]
      refine ⟨by rw [hkind]; rfl, piece, hemits, hreal.map fun v results hv ↦ ?_⟩
      obtain ⟨x, rfl, rfl, rfl⟩ := hv.exists_value hkind
      exact ⟨some x, fun _ ↦ rfl, .some hkind⟩

/-- The default value of a type is pushed if the type has one. -/
theorem yields_default (hg : Steady s kinds g) (type : MachineType) :
    Yields (if type.isVoid then pure () else emit (defaultValue type)) g fun _ g' ↦
      ∃ piece, Emits s kinds g g' piece ∧ Realizes g'.session.locals piece []
        (fun _ ↦ pure (type.kind?.map Value.default)) (Leaves type) := by
  cases hkind : type.kind? with
  | none =>
    obtain rfl := MachineType.kind?_eq_none_iff.1 hkind
    exact ⟨[], .refl hg, .pure (.none rfl)⟩
  | some k =>
    have hnot : ¬type.isVoid = true := by
      rw [MachineType.isVoid_iff]
      rintro rfl
      cases hkind
    rw [if_neg hnot]
    refine ⟨[defaultValue type], (Emits.refl hg).snoc ?_, .instruction ?_
      (.some (by rw [hkind, Value.kind_default]))⟩
    · unfold defaultValue
      rw [hkind]
      cases k <;> simp
    · unfold defaultValue
      rw [hkind]
      cases k <;> exact fun _ _ _ _ ↦ rfl

/-- The alternative of a branch follows its meaning, written or not. -/
theorem yields_alternative {elseArm : Option Node}
    (h : ∀ n ∈ elseArm, Simulates s kinds (node n) fun bound ↦ meaning s bound n)
    (hg : Steady s kinds g) (type : MachineType) :
    Yields (alternative type elseArm) g fun _ g' ↦ ∃ piece, Emits s kinds g g' piece ∧
      Realizes g'.session.locals piece [] (fun bound ↦ meaningOfElse s bound type elseArm)
        (Leaves type) := by
  cases elseArm with
  | none =>
    simp only [alternative, meaningOfElse]
    exact yields_default hg type
  | some n =>
    simp only [alternative, meaningOfElse]
    exact (h n rfl).receive hg type n.span

/-- Labels leave the session alone. -/
theorem Steady.withAsm (hg : Steady s kinds g) (asm : Assembler) :
    Steady s kinds { g with asm } := ⟨hg.session, hg.built, hg.oneKind⟩

/-- A branch follows its meaning if its condition and both arms follow theirs. -/
theorem yields_branch (hg : Steady s kinds g) {condition thenArm : Node} {elseArm : Option Node}
    (hcondition : Decides s kinds (node condition) fun bound ↦ meaning s bound condition)
    (hthen : Simulates s kinds (node thenArm) fun bound ↦ meaning s bound thenArm)
    (helse : ∀ n ∈ elseArm, Simulates s kinds (node n) fun bound ↦ meaning s bound n)
    (type : SourceType) (span : Span) (keep : Bool) :
    Yields (do
      let type ← joinType type span keep
      let otherwise ← createLabel
      let done ← createLabel
      let _ ← node condition (.jump false otherwise)
      receive type thenArm.span (node thenArm)
      emit (.goto done)
      bind otherwise
      alternative type elseArm
      bind done
      settleVoid type keep) g (Outcome s kinds g keep fun bound ↦ do
        let type ← Eval.static (s.joinType type span keep)
        let v ←
          if ← (meaning s bound condition).test then (meaning s bound thenArm).runAs type
          else meaningOfElse s bound type elseArm
        return settled keep (v.getD .null)) := by
  refine ensures_bind (yields_joinType hg type span keep) ?_
  rintro t g ⟨rfl, ht, hkeep⟩
  simp only [ht, Eval.static, pure_bind]
  refine ensures_createLabel_bind (ensures_createLabel_bind ?_)
  refine ensures_bind (hcondition _ false g.asm.nextLabel (hg.withAsm _)) ?_
  rintro - g₁ ⟨test, hemits₁, htest⟩
  refine ensures_bind (hthen.receive hemits₁.steady t thenArm.span) ?_
  rintro - g₂ ⟨first, hemits₂, hfirst⟩
  refine ensures_emit_bind (ensures_bindLabel_bind ?_)
  refine ensures_bind (yields_alternative helse
    ((hemits₂.steady.emits [.goto g.asm.createLabel.nextLabel]).withAsm _) t) ?_
  rintro - g₃ ⟨second, hemits₃, hsecond⟩
  refine ensures_bindLabel_bind ?_
  -- The two labels are created first, and the whole piece binds no other.
  have hemits := ((hemits₁.trans hemits₂).snoc (by simp)).enclose hemits₃
  have hreal := realizes_branch (y := g.asm.createLabel.nextLabel)
    (htest.later (hemits₂.keeps.trans hemits₃.keeps)) (hfirst.later hemits₃.keeps) hsecond
  have hsettle := yields_settleVoid hemits hreal hkeep
  have hite : ∀ (c : Bool) (a b : Eval (Option Value)) (f : Option Value → Eval (Option Value)),
      ((if c then a else b) >>= f) = if c then a >>= f else b >>= f := by
    intro c a b f
    cases c <;> rfl
  simp only [bind_assoc, hite] at hsettle
  exact hsettle

/-- A loop with a value starts out with the default of its type. -/
theorem yields_default_bind {α : Type} (hg : Steady s kinds g) {type : MachineType} {rest : Gen α}
    {post : α → GenState → Prop}
    (hrest : ∀ g' piece, Emits s kinds g g' piece → Realizes g'.session.locals piece []
      (fun _ ↦ pure (type.kind?.map Value.default)) (Leaves type) → Yields rest g' post) :
    Yields (do
      if !type.isVoid then emit (defaultValue type)
      rest) g post := by
  have hdefault := yields_default hg type
  by_cases hvoid : type.isVoid = true
  · rw [if_pos hvoid] at hdefault
    obtain ⟨piece, hemits, hreal⟩ := hdefault
    rw [hvoid]
    exact hrest g piece hemits hreal
  · rw [if_neg hvoid] at hdefault
    obtain ⟨piece, hemits, hreal⟩ := hdefault
    rw [Bool.eq_false_iff.2 hvoid]
    exact hrest _ piece hemits hreal

/-- Before each round, what was carried is dropped. -/
theorem yields_dropCarried_bind {α : Type} {type : MachineType} {rest : Gen α}
    {post : α → GenState → Prop} (hrest : Yields rest (g.emits (dropCarried type)) post) :
    Yields (do
      if let some kind := type.kind? then emit (.pop kind)
      rest) g post := by
  unfold dropCarried at hrest
  cases hkind : type.kind? with
  | none =>
    rw [hkind] at hrest
    exact hrest
  | some k =>
    rw [hkind] at hrest
    exact hrest

/-- A loop ends with the label that its last round leads to. -/
theorem yields_loop_end {g₁ g₂ : GenState} {before round : List Instruction} {type : MachineType}
    {eval : Nat → Option Value → Eval (Bool × Option Value)} {keep : Bool}
    (hemits : Emits s kinds { g with asm := g.asm.createLabel.createLabel } g₁ before)
    (hbefore : Realizes g₁.session.locals before []
      (fun _ ↦ pure (type.kind?.map Value.default)) (Leaves type))
    (hemits' : Emits s kinds { g₁ with asm := g₁.asm.bind g.asm.nextLabel } g₂ round)
    (hround : Repeats g₂.session.locals round g.asm.nextLabel g.asm.createLabel.nextLabel eval type)
    (hkeep : keep = false → type = .void) :
    Yields (do
      bind g.asm.createLabel.nextLabel
      settleVoid type keep) g₂ (Outcome s kinds g keep fun bound ↦ do
        let v ← Eval.rounds (eval bound) bound (type.kind?.map Value.default)
        return settled keep (v.getD .null)) := by
  refine ensures_bindLabel_bind ?_
  exact yields_settleVoid (hemits.enclose hemits')
    (realizes_loop (hbefore.later hemits'.keeps) hround) hkeep

theorem dropCarried_ne_bind (type : MachineType) : ∀ i ∈ dropCarried type, ∀ l, i ≠ .bind l := by
  intro i hi l
  unfold dropCarried at hi
  cases hkind : type.kind? with
  | none =>
    rw [hkind] at hi
    cases hi
  | some k =>
    rw [hkind] at hi
    obtain rfl := List.mem_singleton.1 hi
    simp

/-- A loop follows its meaning if its condition and its content follow theirs, on whichever side it
tests. -/
theorem yields_loop (hg : Steady s kinds g) {condition content : Node}
    (hcondition : Decides s kinds (node condition) fun bound ↦ meaning s bound condition)
    (hcontent : Simulates s kinds (node content) fun bound ↦ meaning s bound content)
    (checkFirst negative : Bool) (type : SourceType) (span : Span) (keep : Bool) :
    Yields (do
      let type ← joinType type span keep
      let before ← createLabel
      let done ← createLabel
      if !type.isVoid then emit (defaultValue type)
      bind before
      if checkFirst then
        let _ ← node condition (.jump negative done)
      if let some kind := type.kind? then emit (.pop kind)
      receive type content.span (node content)
      if checkFirst then emit (.goto before)
      else
        let _ ← node condition (.jump (!negative) before)
      bind done
      settleVoid type keep) g (Outcome s kinds g keep fun bound ↦ do
        let type ← Eval.static (s.joinType type span keep)
        let round :=
          if checkFirst then
            testFirst (meaning s bound condition) (meaning s bound content) type negative
          else testLast (meaning s bound condition) (meaning s bound content) type negative
        let v ← Eval.rounds round bound (type.kind?.map Value.default)
        return settled keep (v.getD .null)) := by
  refine ensures_bind (yields_joinType hg type span keep) ?_
  rintro t g ⟨rfl, ht, hkeep⟩
  simp only [ht, Eval.static, pure_bind]
  refine ensures_createLabel_bind (ensures_createLabel_bind ?_)
  refine yields_default_bind (hg.withAsm _) fun g₁ before hemits₁ hbefore ↦ ?_
  refine ensures_bindLabel_bind ?_
  have hdrop := dropCarried_ne_bind t
  have hg₁ := hemits₁.steady.withAsm (g₁.asm.bind g.asm.nextLabel)
  cases checkFirst with
  -- The test comes first: control leaves the loop from behind it, and jumps back at the end.
  | true =>
    refine ensures_bind (hcondition _ negative g.asm.createLabel.nextLabel hg₁) ?_
    rintro - g₂ ⟨test, hemits₂, htest⟩
    refine yields_dropCarried_bind ?_
    refine ensures_bind (hcontent.receive (hemits₂.steady.emits _) t content.span) ?_
    rintro - g₃ ⟨inner, hemits₃, hinner⟩
    refine ensures_emit_bind ?_
    have hround := hemits₂.trans ((Emits.instructions hemits₂.steady hdrop).trans hemits₃)
    refine yields_loop_end hemits₁ hbefore (hround.snoc (by simp)) ?_ hkeep
    exact repeats_testFirst (htest.later hemits₃.keeps) hinner
  -- The test comes last, and jumps back itself.
  | false =>
    refine yields_dropCarried_bind ?_
    refine ensures_bind (hcontent.receive (hg₁.emits _) t content.span) ?_
    rintro - g₂ ⟨inner, hemits₂, hinner⟩
    refine ensures_bind (hcondition g₂ (!negative) g.asm.nextLabel hemits₂.steady) ?_
    rintro - g₃ ⟨test, hemits₃, htest⟩
    have hround := ((Emits.instructions hg₁ hdrop).trans hemits₂).trans hemits₃
    refine yields_loop_end hemits₁ hbefore hround ?_ hkeep
    exact repeats_testLast htest (hinner.later hemits₃.keeps)

end ScriptBytecode

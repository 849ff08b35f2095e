import ScriptBytecode.Proofs.Stack.Statements

/-!
# The operand stack around branches and loops

A branch or loop creates two labels and binds both before it ends. The jumps to a label and the code
before it all arrive with one stack: below the value of the statement if it has one, with it on top
or not, there is what was there before. In a loop with a value the last value is on the stack when
the condition is tested, and is dropped before the next round.

`produces_branch` and `produces_loop` are the results; both go through the states of the two labels,
one instruction after another.

Both results have the parts as hypotheses, as `Delivers` of each node, so that the induction over
nodes need not know how a branch is made. Within a proof the two labels go by name and their states
are written out at each point (`LabelTable.withTwo`), since what has to be shown at the end is that
both are bound and that nothing else has changed in the table.

A missing alternative counts as the default value of the type (`ready_alternative`), and a loop that
never runs its body leaves the default that was pushed before it (`default_bind`): so the label
behind the loop is reached with one shape, whether a round was run or not.
-/

namespace ScriptBytecode.Gen

variable {o : Outset} {t : LabelTable} {g : GenState} {base : List StackKind}

/-! ### The type of a statement -/

/-- To join the types of two branches only reads, and there is no value to join where none is
wanted. -/
theorem ensures_joinType (h : Ready o t g base) (type : SourceType) (span : Span) (keep : Bool) :
    Ensures (joinType type span keep) g
      (fun type g' ↦ g' = g ∧ (keep = false → type = .void)) (Failed o) := by
  cases keep with
  | false => exact ensures_pure ⟨rfl, fun _ ↦ rfl⟩
  | true => exact ensures_query (fun _ _ ↦ ⟨rfl, nofun⟩) (h.failed (.typeOf ..))

/-- The value of a branch or a loop is left if it is wanted. -/
theorem left_settleVoid {type : MachineType} {keep : Bool}
    (h : Ready o t g (type.kind?.toList ++ base)) (hkeep : keep = false → type = .void) :
    Ensures (settleVoid type keep) g (Left o t base keep) (Failed o) := by
  cases keep with
  | false =>
    obtain rfl := hkeep rfl
    exact left_nothing h
  | true =>
    by_cases hvoid : type = .void
    · subst hvoid
      have hleft : Left o t base true .object { g with asm := g.asm.emit .pushNull } :=
        left_push h rfl rfl rfl nofun
      exact hleft
    · have hnot : type.isVoid = false :=
        Bool.eq_false_iff.2 fun h ↦ hvoid (MachineType.isVoid_iff.1 h)
      unfold settleVoid
      rw [hnot]
      exact ensures_pure ⟨by simpa using hvoid, h⟩

/-- An alternative leaves a value of the type of the branch, written or not. -/
theorem ready_alternative {elseArm : Option Node} (helse : ∀ n ∈ elseArm, Delivers (node n))
    (h : Ready o t g base) (type : MachineType) :
    Ensures (alternative type elseArm) g
      (fun _ g' ↦ Ready o t g' (type.kind?.toList ++ base)) (Failed o) := by
  cases elseArm with
  | some n =>
    rw [alternative]
    exact ready_receive (helse n rfl) h type n.span
  | none =>
    rw [alternative]
    cases hkind : type.kind? with
    | none =>
      obtain rfl := MachineType.kind?_eq_none_iff.1 hkind
      exact h
    | some kind =>
      rw [if_neg fun hvoid ↦ MachineType.ne_void_of_kind? hkind (MachineType.isVoid_iff.1 hvoid)]
      exact ready_default h hkind

/-! ### Branches -/

/-- A branch leaves one value if it is wanted and none if not. -/
theorem produces_branch {condition thenArm : Node} {elseArm : Option Node}
    (hcondition : Delivers (node condition)) (hthen : Delivers (node thenArm))
    (helse : ∀ n ∈ elseArm, Delivers (node n)) (type : SourceType) (span : Span) :
    Produces (fun keep ↦ do
      let type ← joinType type span keep
      let otherwise ← createLabel
      let done ← createLabel
      let _ ← node condition (.jump false otherwise)
      receive type thenArm.span (node thenArm)
      emit (.goto done)
      bind otherwise
      alternative type elseArm
      bind done
      settleVoid type keep) := by
  constructor
  intro o t g base keep h
  refine ensures_bind (ensures_joinType h type span keep) ?_
  rintro type g ⟨rfl, hkeep⟩
  refine ensures_createLabel_bind (ensures_createLabel_bind ?_)
  -- The two labels are followed by name from here on: `otherwise` is bound between the arms, `done`
  -- at the end.
  have h₀ := h.createLabels
  have hotherwise := LabelTable.get?_withTwo_first g.asm.labels
  have hdone := LabelTable.get?_withTwo_second g.asm.labels
  refine ensures_bind (hcondition.run (.jump false g.asm.labels.next) h₀
    ⟨_, hotherwise _ _, .inl rfl⟩) fun _ g₁ hleft ↦ ?_
  obtain rfl := hleft.eq_void_iff.2 rfl
  have h₁ : Ready o (.expecting _ g.asm.labels.next base) g₁ base := hleft.ready
  rw [LabelTable.expecting_withTwo_first] at h₁
  refine ensures_bind (ready_receive hthen h₁ type thenArm.span) fun _ g₂ h₂ ↦ ?_
  refine ensures_emit_bind (ensures_bindLabel_bind ?_)
  have h₃ := h₂.emit_goto ⟨_, hdone _ _, .inl rfl⟩
  rw [LabelTable.expecting_withTwo_second] at h₃
  have h₄ := h₃.bind (hotherwise _ _)
  rw [LabelTable.set_withTwo_first] at h₄
  refine ensures_bind (ready_alternative helse h₄ type) fun _ g₅ h₅ ↦ ?_
  refine ensures_bindLabel_bind ?_
  have h₆ := h₅.bind (hdone _ _) (.inr rfl)
  rw [LabelTable.set_withTwo_second] at h₆
  exact left_settleVoid (h₆.since (h.labels.trans (LabelTable.extends_withTwo _ rfl rfl))) hkeep

/-! ### Loops -/

/-- Before a loop with a value, a default value is pushed. -/
theorem default_bind {α : Type} {type : MachineType} {rest : Gen α} {post : α → GenState → Prop}
    (h : Ready o t g base)
    (hrest : ∀ g', Ready o t g' (type.kind?.toList ++ base) → Ensures rest g' post (Failed o)) :
    Ensures (do
      if !type.isVoid then emit (defaultValue type)
      rest) g post (Failed o) := by
  cases hkind : type.kind? with
  | none =>
    obtain rfl := MachineType.kind?_eq_none_iff.1 hkind
    exact hrest g h
  | some kind =>
    have hnot : type.isVoid = false := by
      refine Bool.eq_false_iff.2 fun hvoid ↦ ?_
      exact MachineType.ne_void_of_kind? hkind (MachineType.isVoid_iff.1 hvoid)
    rw [hkind] at hrest
    rw [hnot]
    exact ensures_emit_bind (hrest _ (ready_default h hkind))

/-- Before each round of a loop with a value, the last value is dropped. -/
theorem drop_bind {α : Type} {type : MachineType} {rest : Gen α} {post : α → GenState → Prop}
    (h : Ready o t g (type.kind?.toList ++ base))
    (hrest : ∀ g', Ready o t g' base → Ensures rest g' post (Failed o)) :
    Ensures (do
      if let some kind := type.kind? then emit (.pop kind)
      rest) g post (Failed o) := by
  cases hkind : type.kind? with
  | none =>
    rw [hkind] at h
    exact hrest g h
  | some kind =>
    rw [hkind] at h
    have h' : Ready o t g ([kind] ++ base) := h
    exact ensures_emit_bind (hrest _ (h'.emit (i := .pop kind) rfl rfl))

/-- So does a loop. -/
theorem produces_loop {condition content : Node} (hcondition : Delivers (node condition))
    (hcontent : Delivers (node content)) (checkFirst negative : Bool) (type : SourceType)
    (span : Span) :
    Produces (fun keep ↦ do
      let type ← joinType type span keep
      let before ← createLabel
      let done ← createLabel
      if !type.isVoid then emit (defaultValue type)
      bind before
      if checkFirst then
        let _ ← node condition (.jump negative done)
      if let some kind := type.kind? then emit (.pop kind)
      receive type content.span (node content)
      if checkFirst then emit (.goto before)
      else
        let _ ← node condition (.jump (!negative) before)
      bind done
      settleVoid type keep) := by
  constructor
  intro o t g base keep h
  refine ensures_bind (ensures_joinType h type span keep) ?_
  rintro type g ⟨rfl, hkeep⟩
  refine ensures_createLabel_bind (ensures_createLabel_bind ?_)
  have h₀ := h.createLabels
  have hbefore := LabelTable.get?_withTwo_first g.asm.labels
  have hdone := LabelTable.get?_withTwo_second g.asm.labels
  refine default_bind h₀ fun g₁ h₁ ↦ ensures_bindLabel_bind ?_
  have h₂ := h₁.bind (hbefore _ _) (.inl rfl)
  rw [LabelTable.set_withTwo_first] at h₂
  cases checkFirst with
  | true =>
    refine ensures_bind (hcondition.run (.jump negative g.asm.labels.create.next) h₂
      ⟨_, hdone _ _, .inl rfl⟩) fun _ g₃ hleft ↦ ?_
    obtain rfl := hleft.eq_void_iff.2 rfl
    have h₃ : Ready o (.expecting _ g.asm.labels.create.next _) g₃ _ := hleft.ready
    rw [LabelTable.expecting_withTwo_second] at h₃
    refine drop_bind h₃ fun g₄ h₄ ↦ ?_
    refine ensures_bind (ready_receive hcontent h₄ type content.span) fun _ g₅ h₅ ↦ ?_
    refine ensures_emit_bind (ensures_bindLabel_bind ?_)
    have h₆ := h₅.emit_goto ⟨_, hbefore _ _, .inr rfl⟩
    rw [LabelTable.expecting_withTwo_first] at h₆
    have h₇ := h₆.bind (hdone _ _)
    rw [LabelTable.set_withTwo_second] at h₇
    exact left_settleVoid (h₇.since (h.labels.trans (LabelTable.extends_withTwo _ rfl rfl))) hkeep
  | false =>
    refine drop_bind h₂ fun g₃ h₃ ↦ ?_
    refine ensures_bind (ready_receive hcontent h₃ type content.span) fun _ g₄ h₄ ↦ ?_
    refine ensures_bind (hcondition.run (.jump (!negative) g.asm.labels.next) h₄
      ⟨_, hbefore _ _, .inr rfl⟩) fun _ g₅ hleft ↦ ?_
    obtain rfl := hleft.eq_void_iff.2 rfl
    have h₅ : Ready o (.expecting _ g.asm.labels.next _) g₅ _ := hleft.ready
    rw [LabelTable.expecting_withTwo_first] at h₅
    refine ensures_bindLabel_bind ?_
    have h₆ := h₅.bind (hdone _ _) (.inl rfl)
    rw [LabelTable.set_withTwo_second] at h₆
    exact left_settleVoid (h₆.since (h.labels.trans (LabelTable.extends_withTwo _ rfl rfl))) hkeep

end ScriptBytecode.Gen

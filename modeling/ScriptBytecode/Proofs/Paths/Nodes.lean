import ScriptBytecode.Proofs.Defined.Nodes
import ScriptBytecode.Proofs.Defined.Scopes
import ScriptBytecode.Proofs.Paths.Constructs

/-!
# The code of nodes along which locals are followed

By induction on syntax trees, whatever a node is, and whatever it is compiled for, the walk through
the node goes along with its code.

`charts_node` is the induction. Its cases are the lemmas of this module and those on constructs.

Definitions within a node do not concern the locals around it, so to walk through a definition is no
step at all. That what is open is as it was behind a definition is used here only for code that
compiles; it is proved for failing code as well, where exits from definitions are considered.

Branches and loops of constants are not treated in a way of their own: the compiler emits both arms
of a branch whose condition is known, and the walk goes through both.
-/

namespace ScriptBytecode.Gen

variable {isStatic : Bool} {f f' f'' : Tracker.Step} {as as' as'' : Bool → Language Access}

/-! ### Lists of nodes -/

/-- Nodes one after another are walked one after another. -/
theorem charts_sequence {nodes : List Node}
    (h : ∀ n ∈ nodes, ChartsFor isStatic (node n) (n.track isStatic) (n.accesses isStatic))
    (keep : Bool) :
    Charts isStatic none (Node.trackAll isStatic nodes) (Node.sequenceAccesses isStatic nodes keep)
      (sequence nodes keep) := by
  induction nodes with
  | nil => exact charts_settle ..
  | cons n rest ih =>
    have hn := h n (List.mem_cons_self ..)
    have hrest := ih fun n hn ↦ h n (List.mem_cons_of_mem _ hn)
    cases rest with
    | nil =>
      rw [Node.trackAll, Node.trackAll, fish_pure]
      cases keep with
      | false => exact hn .discard
      | true => exact hn .push
    | cons m rest => exact (hn .discard).bind fun _ ↦ hrest

/-- So are arguments. -/
theorem charts_arguments {nodes : List Node}
    (h : ∀ n ∈ nodes, ChartsFor isStatic (node n) (n.track isStatic) (n.accesses isStatic)) :
    ChartsArgs isStatic nodes.length (arguments nodes) (Node.trackAll isStatic nodes)
      (Node.argumentAccesses isStatic nodes) := by
  induction nodes with
  | nil => exact fun params _ _ ↦ .pure _
  | cons n rest ih =>
    intro params hlength hparams
    cases params with
    | nil => cases hlength
    | cons param params =>
      obtain ⟨hparam, hparams⟩ := List.forall_mem_cons.1 hparams
      refine (charts_receive_value (h n (List.mem_cons_self ..)) hparam _).bind fun _ ↦ ?_
      exact ih (fun n hn ↦ h n (List.mem_cons_of_mem _ hn)) params (Nat.succ.inj hlength) hparams

/-- An alternative that is left out is no step. -/
theorem charts_alternative {arm : Option Node}
    (h : ∀ n ∈ arm, ChartsFor isStatic (node n) (n.track isStatic) (n.accesses isStatic))
    (type : MachineType) : Charts isStatic none (Node.trackAlternative isStatic arm)
      (Node.alternativeAccesses isStatic arm (!type.isVoid)) (alternative type arm) := by
  cases arm with
  | none => exact .ite (.pure _) (.emit (neutral_defaultValue type))
  | some n => exact charts_receive (h n rfl) ..

/-! ### Branches and loops -/

/-- A branch is walked through both of its arms, which come together behind it. -/
theorem charts_branch {condition thenArm : Node} {elseArm : Option Node}
    (hcondition : ChartsFor isStatic (node condition) f as)
    (hthen : ChartsFor isStatic (node thenArm) f' as')
    (helse : ∀ type : MachineType,
      Charts isStatic none f'' (as'' (!type.isVoid)) (alternative type elseArm)) (type : SourceType)
    (span : Span) (keep : Bool) : Charts isStatic none (.branch f f' f'')
      (joined type keep fun wanted ↦ as true * (as' wanted * as'' wanted)) (do
      let type ← joinType type span keep
      let otherwise ← createLabel
      let done ← createLabel
      let _ ← node condition (.jump false otherwise)
      receive type thenArm.span (node thenArm)
      emit (.goto done)
      bind otherwise
      alternative type elseArm
      bind done
      settleVoid type keep) := by
  refine charts_joinType (fun type ↦ ⟨fun {g} hg ↦ ?_⟩) ..
  refine ensures_createLabel_bind (ensures_createLabel_bind ?_)
  refine ensures_bind ((hcondition (.jump false g.asm.nextLabel)).run hg) fun _ g₁ h₁ ↦ ?_
  refine ensures_bind ((charts_receive hthen ..).run (h₁.hosts hg)) fun _ g₂ h₂ ↦ ?_
  refine ensures_emit_bind (ensures_bindLabel_bind ?_)
  have hg₂ := h₂.hosts (h₁.hosts hg)
  refine ensures_bind ((helse type).run hg₂) fun _ g₃ h₃ ↦ ?_
  have hbranch := Course.branch h₁ h₂ h₃
  exact ensures_bindLabel_bind ((charts_settleVoid ..).run_behind hbranch (h₃.hosts hg₂))

section Loops

variable {condition content : Node}

variable {α : Type} {g : GenState} {type : MachineType} {next : Gen α} {post : α → GenState → Prop}

/-- Before a loop that has a value, a value is there. -/
theorem yields_initial (h : ∀ g', Course isStatic none pure 1 g g' → Yields next g' post) :
    Yields (do
      if !type.isVoid then emit (defaultValue type)
      next) g post := by
  refine ensures_ite (fun _ ↦ ?_) fun _ ↦ h g (.refl g)
  exact ensures_emit_bind (h _ (.neutral g (neutral_defaultValue type)))

/-- In each round the value from before is dropped. -/
theorem yields_drop (h : ∀ g', Course isStatic none pure 1 g g' → Yields next g' post) :
    Yields (do
      if let some kind := type.kind? then emit (.pop kind)
      next) g post := by
  cases type.kind? with
  | none => exact h g (.refl g)
  | some kind => exact ensures_emit_bind (h _ (.neutral g ⟨rfl, rfl, rfl⟩))

/-- A loop that tests first is walked round by round, and left behind its test. -/
theorem charts_loop_first (hcondition : ChartsFor isStatic (node condition) f as)
    (hcontent : ChartsFor isStatic (node content) f' as') (hpointwise : f.Pointwise)
    (hpointwise' : f'.Pointwise) (negative : Bool) (type : MachineType) (keep : Bool) :
    Charts isStatic none (.loop true f f') (as true * as' (!type.isVoid)) (do
      let before ← createLabel
      let done ← createLabel
      if !type.isVoid then emit (defaultValue type)
      bind before
      let _ ← node condition (.jump negative done)
      if let some kind := type.kind? then emit (.pop kind)
      receive type content.span (node content)
      emit (.goto before)
      bind done
      settleVoid type keep) := by
  constructor
  intro g hg
  refine ensures_createLabel_bind (ensures_createLabel_bind ?_)
  refine yields_initial fun g₀ (h₀ : Course isStatic none ..) ↦ ensures_bindLabel_bind ?_
  have hg₀ := h₀.hosts hg
  refine ensures_bind ((hcondition (.jump negative g.asm.createLabel.nextLabel)).run hg₀) ?_
  intro _ g₁ h₁
  have hg₁ := h₁.hosts hg₀
  refine yields_drop fun g₂ (h₂ : Course isStatic none ..) ↦ ?_
  refine ensures_bind ((charts_receive hcontent ..).run (h₂.hosts hg₁)) fun _ g₃ h₃ ↦ ?_
  refine ensures_emit_bind (ensures_bindLabel_bind ?_)
  have hg₃ := h₃.hosts (h₂.hosts hg₁)
  have hloop := Course.loop_first h₀ h₁ (h₂.before h₃) hpointwise hpointwise'
  exact (charts_settleVoid ..).run_behind hloop hg₃

/-- So is a loop that tests last. -/
theorem charts_loop_last (hcondition : ChartsFor isStatic (node condition) f as)
    (hcontent : ChartsFor isStatic (node content) f' as') (hpointwise : f.Pointwise)
    (hpointwise' : f'.Pointwise) (negative : Bool) (type : MachineType) (keep : Bool) :
    Charts isStatic none (.loop false f f') (as' (!type.isVoid) * as true) (do
      let before ← createLabel
      let done ← createLabel
      if !type.isVoid then emit (defaultValue type)
      bind before
      if let some kind := type.kind? then emit (.pop kind)
      receive type content.span (node content)
      let _ ← node condition (.jump (!negative) before)
      bind done
      settleVoid type keep) := by
  constructor
  intro g hg
  refine ensures_createLabel_bind (ensures_createLabel_bind ?_)
  refine yields_initial fun g₀ (h₀ : Course isStatic none ..) ↦ ensures_bindLabel_bind ?_
  have hg₀ := h₀.hosts hg
  refine yields_drop fun g₁ (h₁ : Course isStatic none ..) ↦ ?_
  have hg₁ := h₁.hosts hg₀
  refine ensures_bind ((charts_receive hcontent ..).run hg₁) fun _ g₂ h₂ ↦ ?_
  have hg₂ := h₂.hosts hg₁
  refine ensures_bind ((hcondition (.jump (!negative) g.asm.nextLabel)).run hg₂) fun _ g₃ h₃ ↦ ?_
  have hloop := Course.loop_last h₀ (h₁.before (h₂.trans h₃)) (hpointwise'.fish hpointwise)
  exact ensures_bindLabel_bind ((charts_settleVoid ..).run_behind hloop (h₃.hosts hg₂))

end Loops

/-! ### Definitions -/

/-- A definition gives slots to locals of its own, and emits nothing here. -/
theorem charts_definition {α : Type} {act : SessionM α} {ds : List Definition}
    (h : act.Restores ds) (keep : Bool) : Charts isStatic none pure 1 (do
      let _ ← onSession act
      settle .void keep) := by
  have hsession : Charts isStatic none pure 1 (onSession act) := by
    constructor
    intro g _
    refine ensures_onSession ((h.run g.session).mono (fun _ s hs ↦ ?_) fun _ _ _ ↦ trivial)
    exact .onSession hs.resumed.continues (hs.types ▸ fun h ↦ h.typesAfter ..)
      hs.scopes.currentMethod?
  exact hsession.after fun _ ↦ charts_settle ..

/-! ### Every node -/

/-- A call may jump on its outcome, if it compares or negates. -/
theorem charts_node_call {receiver : Node} {args : List Node}
    (hreceiver : ChartsFor isStatic (node receiver) (receiver.track isStatic)
      (receiver.accesses isStatic))
    (hargs : ∀ n ∈ args, ChartsFor isStatic (node n) (n.track isStatic) (n.accesses isStatic))
    (name : String) (type : SourceType) (span : Span) :
    ChartsFor isStatic (node (.call receiver name args type span))
      (Node.track isStatic (.call receiver name args type span))
      (Node.accesses isStatic (.call receiver name args type span)) := by
  have hpasses := charts_arguments hargs
  have hcall := charts_call receiver hreceiver hpasses name span
  have hvalue := charts_deliver (.call receiver name args type span) hcall
  rw [Node.track]
  intro d
  rw [Node.accesses]
  cases d with
  | discard => exact hvalue .discard
  | push => exact hvalue .push
  | jump sense target =>
    have hvalue := hvalue (.jump sense target)
    rw [node]
    by_cases hmeta : receiver.type.isMeta = true
    · simp only [if_pos hmeta] at hvalue ⊢
      exact hvalue
    · simp only [if_neg hmeta] at hvalue ⊢
      split
      · exact (charts_compare hreceiver hpasses ..).result _
      · split
        · next hnegates =>
          -- a negation has no arguments, and jumps where its operand does not
          obtain rfl := List.isEmpty_iff.1 hnegates.2
          refine .query fun receiverType _ ↦ .ite ?_ hvalue
          rw [Node.trackAll, Node.argumentAccesses, fish_pure, mul_one]
          exact hreceiver (.jump (!sense) target)
        · exact hvalue

/-- Code for a value and for effects is code for any destination. -/
theorem charts_of_deliver {n : Node} {code : Bool → Gen MachineType}
    (hnode : ∀ d, node n d = deliver n d code)
    (hcode : ∀ keep, Charts isStatic none f (as keep) (code keep)) :
    ChartsFor isStatic (node n) f as := by
  rw [funext hnode]
  exact charts_deliver n hcode

/-- Whatever a node is, and whatever it is compiled for, the walk through it goes along with its
code. -/
theorem charts_node (isStatic : Bool) (n : Node) :
    ChartsFor isStatic (node n) (n.track isStatic) (n.accesses isStatic) := by
  induction n using Node.inductionOn with
  | script name body span _ => exact charts_of_deliver (fun d ↦ by rw [node]) fun _ ↦ .throw _
  | body nodes type span ih => exact charts_of_deliver (fun d ↦ by rw [node]) (charts_sequence ih)
  -- Definitions leave the code and the locals of the method alone, so they chart no step.
  | classDef name superclass interfaces members span _ =>
    have hmembers : (classMembers name members).Defines ⟨name, false⟩ _ :=
      defines_classMembers fun n _ ↦ (definesAll n).member _ name
    have hclass := SessionM.restores_defineClass hmembers superclass interfaces
      (members.any (·.isConstructorDef)) span
    exact charts_of_deliver (fun d ↦ by rw [node]) (charts_definition hclass)
  | methodDef name params returnType content staticDef span _ =>
    have hmethod := SessionM.restores_defineMethod ((definesAll content).node default) name params
      returnType staticDef span content.span
    exact charts_of_deliver (fun d ↦ by rw [node]) (charts_definition hmethod)
  | constructorDef params content span _ =>
    have hconstructor := SessionM.restores_defineConstructor ((definesAll content).node default)
      params span
    exact charts_of_deliver (fun d ↦ by rw [node]) (charts_definition hconstructor)
  | importDef full asName span =>
    have himport := SessionM.restores_importClass full asName span
    exact charts_of_deliver (fun d ↦ by rw [node]) (charts_definition himport)
  | literal value type span =>
    exact charts_of_deliver (fun d ↦ by rw [node]) (charts_literal value type span)
  | typeName name span =>
    exact charts_of_deliver (fun d ↦ by rw [node]) fun _ ↦ .ite (.throw _) (.pure _)
  | selfRef type span => exact charts_of_deliver (fun d ↦ by rw [node]) (charts_selfRef span)
  | readLocal name type span =>
    exact charts_of_deliver (fun d ↦ by rw [node]) (charts_readLocal name span)
  | assign name value type span ih =>
    exact charts_of_deliver (fun d ↦ by rw [node]) (charts_assign ih name value type span)
  | call receiver name args type span ihreceiver ihargs =>
    exact charts_node_call ihreceiver ihargs name type span
  | selfCall name args type span ih =>
    exact charts_of_deliver (fun d ↦ by rw [node]) (charts_callSelf (charts_arguments ih) name span)
  | branch condition thenArm elseArm type span ihcondition ihthen ihelse =>
    refine charts_of_deliver (fun d ↦ by rw [node]) ?_
    exact charts_branch ihcondition ihthen (charts_alternative ihelse) type span
  | loop condition content checkFirst negative type span ihcondition ihcontent =>
    refine charts_of_deliver (fun d ↦ by rw [node]) fun keep ↦ charts_joinType (fun type ↦ ?_) ..
    -- One round says what is known after any number of them, because the steps are pointwise.
    have hpointwise := condition.pointwise_track isStatic
    have hpointwise' := content.pointwise_track isStatic
    cases checkFirst with
    | true =>
      exact charts_loop_first ihcondition ihcontent hpointwise hpointwise' negative type keep
    | false =>
      exact charts_loop_last ihcondition ihcontent hpointwise hpointwise' negative type keep
  | noop span => exact charts_of_deliver (fun d ↦ by rw [node]) (charts_settle .void)

end ScriptBytecode.Gen

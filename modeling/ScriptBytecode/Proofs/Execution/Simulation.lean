import ScriptBytecode.Classes.Standard
import ScriptBytecode.Proofs.Execution.Control

/-!
# Compiled code does what the tree means

Every tree that computes with integers and locals is followed by its code, whatever it is compiled
for (`followed`). The induction is on the tree and takes values and conditions together, since a
branch is a value with a condition in it and a comparison is a condition with values in it.

What this says of a run of the machine is `run_compiled`: the code leaves the value of the
evaluation on whatever was on the stack, and memory that agrees with the environment that the
evaluation ends in. Where the evaluation goes on for any number of rounds, so does the machine for
any number of steps.

* `followed` is the induction, with one lemma for each kind of node before it;
* `run_compiled` is what it means for runs, and `run_compiled_countdown` a loop that counts down.

**What a result about code has to say** is more than what it leaves in one program. The code was
emitted behind other code and will have other code behind it, so it is run in any program in which
it is placed, at any position; that it is placed in itself is part of the result, and so is that it
binds no label twice.

**Where it may fail.** If a variable is read that nothing was stored in, the evaluation stops and
nothing is promised of the machine. If the slots of the variables are too many to be numbered, two
names may share a slot, and nothing is promised either (`Locals.Fits`). There is no third case: what
is compiled does not go wrong.
-/

namespace ScriptBytecode

open Meaning Gen

variable {s : Session} {kinds : String → StackKind}

/-! ### Every node -/

/-- The code of a node follows its meaning, whatever the node is compiled for. -/
structure Followed (s : Session) (kinds : String → StackKind) (n : Node) : Prop where
  simulates : Simulates s kinds (node n) fun bound ↦ meaning s bound n
  decides : Decides s kinds (node n) fun bound ↦ meaning s bound n

/-- A node that is delivered is followed if the code that delivers it is. -/
theorem followed_of_deliver {n : Node} {code : Bool → Gen MachineType}
    {run : Nat → Bool → Eval (Option Value)} (hnode : ∀ d, node n d = deliver n d code)
    (hmeaning : ∀ bound, meaning s bound n = ofRun (run bound))
    (h : ∀ g keep, Steady s kinds g →
      Yields (code keep) g (Outcome s kinds g keep fun bound ↦ run bound keep)) :
    Followed s kinds n := by
  have hnode' : node n = fun d ↦ deliver n d code := funext hnode
  constructor
  · rw [hnode', funext hmeaning]
    exact simulates_deliver h
  · rw [hnode', funext hmeaning]
    exact decides_deliver h

/-- A sum or a difference of values is delivered like any other value. -/
theorem node_call_eq_deliver {receiver argument : Node} {operator : String} (type : SourceType)
    (span : Span) (hoperator : operator = "+" ∨ operator = "-")
    (hvalue : receiver.type.isMeta = false) (d : Destination) :
    node (.call receiver operator [argument] type span) d =
      deliver (.call receiver operator [argument] type span) d fun keep ↦
        call receiver operator [argument] span (node receiver) (arguments [argument]) keep := by
  cases d with
  | discard | push =>
    rw [node]
    simp
  | jump sense target =>
    rw [node, if_neg (by simp [hvalue])]
    obtain rfl | rfl := hoperator <;> simp [Condition.ofOperator?]

/-- A sum or a difference is followed if both operands are. -/
theorem followed_calculate {receiver argument : Node} {operator : String}
    (hreceiver : Followed s kinds receiver) (hargument : Followed s kinds argument)
    (type : SourceType) (span : Span) (hoperator : operator = "+" ∨ operator = "-")
    (hvalue : receiver.type.isMeta = false)
    (hnumeric : ∀ t, s.valueType receiver = .ok t → (Width.ofType? t).isSome = true) :
    Followed s kinds (.call receiver operator [argument] type span) := by
  refine followed_of_deliver (node_call_eq_deliver type span hoperator hvalue) (fun bound ↦ ?_)
    fun g keep hg ↦ yields_call hg hreceiver.simulates hargument.simulates hvalue hnumeric operator
      span keep
  rw [meaning]
  obtain rfl | rfl := hoperator <;> rfl

/-- A comparison jumps on its outcome. -/
theorem decides_comparison {receiver argument : Node} {operator : String}
    (hreceiver : Followed s kinds receiver) (hargument : Followed s kinds argument)
    (type : SourceType) (span : Span) (hoperator : (relation? operator).isSome = true)
    (hvalue : receiver.type.isMeta = false) :
    Decides s kinds (node (.call receiver operator [argument] type span)) fun bound ↦
      meaning s bound (.call receiver operator [argument] type span) := by
  intro g sense target hg
  rw [relation?_eq, Option.isSome_map] at hoperator
  obtain ⟨test, hoperator⟩ := Option.isSome_iff_exists.1 hoperator
  have hrelation : relation? operator = some test.holds := by rw [relation?_eq, hoperator]; rfl
  have hnode : node (.call receiver operator [argument] type span) (.jump sense target) =
      compare test receiver operator [argument] span (node receiver) (arguments [argument]) sense
        target >>= fun _ ↦ pure .void := by
    rw [node, if_neg (by simp [hvalue]), hoperator]
  rw [hnode]
  refine ensures_bind (decides_compare hg hreceiver.simulates hargument.simulates test operator
    span sense target) ?_
  rintro - g' ⟨piece, hemits, hbranches⟩
  refine ensures_pure ⟨piece, hemits, ?_⟩
  have hmeaning : ∀ bound,
      (meaning s bound (.call receiver operator [argument] type span)).test = do
        let x ← (meaning s bound receiver).numberAs (← Eval.static (s.valueType receiver))
        let y ← (meaning s bound argument).numberAs (← Eval.static (s.valueType argument))
        return test.holds x y := by
    intro bound
    rw [meaning]
    simp only [hrelation]
  simp only [hmeaning]
  exact hbranches

/-- A negation turns the sense of a jump around. -/
theorem decides_negation {receiver : Node}
    (hreceiver : Decides s kinds (node receiver) fun bound ↦ meaning s bound receiver)
    (type : SourceType) (span : Span) (hvalue : receiver.type.isMeta = false)
    (hboolean : s.valueType receiver = .ok .boolean) :
    Decides s kinds (node (.call receiver "!" [] type span)) fun bound ↦
      meaning s bound (.call receiver "!" [] type span) := by
  intro g sense target hg
  have hoperator : Condition.ofOperator? "!" = none := by simp [Condition.ofOperator?]
  rw [node, if_neg (by simp [hvalue]), hoperator]
  dsimp only
  rw [if_pos ⟨rfl, rfl⟩]
  refine ensures_query_bind (fun t ht ↦ ?_) fun _ _ ↦ trivial
  obtain rfl : t = .boolean := Except.ok.inj (ht.symm.trans ((hg.valueType _).trans hboolean))
  rw [if_pos rfl]
  refine (hreceiver g (!sense) target hg).imp ?_
  rintro - g' ⟨piece, hemits, hbranches⟩
  exact ⟨piece, hemits, hbranches.not⟩

/-- Whatever is computed with integers and locals is computed by the code. -/
theorem followed (n : Node) : (Arithmetical s kinds n → Followed s kinds n) ∧
    (Decisive s kinds n → Decides s kinds (node n) fun bound ↦ meaning s bound n) := by
  induction n using Node.inductionOn with
  | literal value type span =>
    -- In each case the node is followed as a value, and a value that is a truth value decides.
    have hvalue : Arithmetical s kinds (.literal value type span) →
        Followed s kinds (.literal value type span) := by
      intro h
      refine followed_of_deliver (fun d ↦ by rw [node]) (fun bound ↦ by rw [meaning])
        fun g keep hg ↦ ?_
      cases h with
      | int n =>
        exact yields_constant hg rfl (fun _ ↦ rfl) (fun _ _ _ _ ↦ rfl) (by simp) rfl keep
      | long n =>
        exact yields_constant hg rfl (fun _ ↦ rfl) (fun _ _ _ _ ↦ rfl) (by simp) rfl keep
      | bool b =>
        exact yields_constant hg rfl (fun _ ↦ rfl) (fun _ _ _ _ ↦ rfl) (by simp) rfl keep
    refine ⟨hvalue, fun h ↦ ?_⟩
    cases h with
    | value hn => exact (hvalue hn).decides
  | readLocal name type span =>
    have hvalue : Followed s kinds (.readLocal name type span) :=
      followed_of_deliver (fun d ↦ by rw [node]) (fun bound ↦ by rw [meaning])
        fun g keep hg ↦ yields_readLocal hg name span keep
    exact ⟨fun _ ↦ hvalue, fun _ ↦ hvalue.decides⟩
  | noop span =>
    have hvalue : Followed s kinds (.noop span) :=
      followed_of_deliver (fun d ↦ by rw [node]) (fun bound ↦ by rw [meaning])
        fun g keep hg ↦ yields_settle_void hg keep
    exact ⟨fun _ ↦ hvalue, fun _ ↦ hvalue.decides⟩
  | assign name value type span ih =>
    have hvalue : Arithmetical s kinds (.assign name value type span) →
        Followed s kinds (.assign name value type span) := by
      intro h
      cases h with
      | assign hkind hvalue =>
        refine followed_of_deliver (fun d ↦ by rw [node]) (fun bound ↦ by rw [meaning])
          fun g keep hg ↦ ?_
        exact yields_assign hg (ih.1 hvalue).simulates hkind keep
    refine ⟨hvalue, fun h ↦ ?_⟩
    cases h with
    | value hn => exact (hvalue hn).decides
  | call receiver name args type span ih ihargs =>
    have hvalue : Arithmetical s kinds (.call receiver name args type span) →
        Followed s kinds (.call receiver name args type span) := by
      intro h
      cases h with
      | calculate _ _ hoperator hmeta hnumeric hreceiver hargument =>
        exact followed_calculate (ih.1 hreceiver)
          ((ihargs _ (List.mem_singleton_self _)).1 hargument) type span hoperator hmeta hnumeric
    refine ⟨hvalue, fun h ↦ ?_⟩
    cases h with
    -- The two conditions that are no values of their own.
    | comparison _ _ hoperator hmeta hreceiver hargument =>
      exact decides_comparison (ih.1 hreceiver)
        ((ihargs _ (List.mem_singleton_self _)).1 hargument) type span hoperator hmeta
    | negation _ _ hmeta hboolean hreceiver =>
      exact decides_negation (ih.2 hreceiver) type span hmeta hboolean
    | value hn => exact (hvalue hn).decides
  | body nodes type span ih =>
    have hvalue : Arithmetical s kinds (.body nodes type span) →
        Followed s kinds (.body nodes type span) := by
      intro h
      cases h with
      | body _ _ hnodes =>
        exact followed_of_deliver (fun d ↦ by rw [node]) (fun bound ↦ by rw [meaning])
          fun g keep hg ↦ yields_sequence (fun n hn ↦ ((ih n hn).1 (hnodes n hn)).simulates) hg keep
    refine ⟨hvalue, fun h ↦ ?_⟩
    cases h with
    | value hn => exact (hvalue hn).decides
  | branch condition thenArm elseArm type span ihcondition ihthen ihelse =>
    have hvalue : Arithmetical s kinds (.branch condition thenArm elseArm type span) →
        Followed s kinds (.branch condition thenArm elseArm type span) := by
      intro h
      cases h with
      | branch _ _ hcondition hthen helse =>
        exact followed_of_deliver (fun d ↦ by rw [node]) (fun bound ↦ by rw [meaning])
          fun g keep hg ↦ yields_branch hg (ihcondition.2 hcondition) (ihthen.1 hthen).simulates
            (fun n hn ↦ ((ihelse n hn).1 (helse n hn)).simulates) type span keep
    refine ⟨hvalue, fun h ↦ ?_⟩
    cases h with
    | value hn => exact (hvalue hn).decides
  | loop condition content checkFirst negative type span ihcondition ihcontent =>
    have hvalue : Arithmetical s kinds (.loop condition content checkFirst negative type span) →
        Followed s kinds (.loop condition content checkFirst negative type span) := by
      intro h
      cases h with
      | loop _ _ _ _ hcondition hcontent =>
        refine followed_of_deliver (fun d ↦ by rw [node]) (fun bound ↦ by rw [meaning])
          fun g keep hg ↦ ?_
        exact yields_loop hg (ihcondition.2 hcondition) (ihcontent.1 hcontent).simulates checkFirst
          negative type span keep
    refine ⟨hvalue, fun h ↦ ?_⟩
    cases h with
    | value hn => exact (hvalue hn).decides
  | _ =>
    refine ⟨nofun, fun h ↦ ?_⟩
    cases h with
    | value hn => cases hn

/-! ### Running the code -/

/-- The code that a tree is compiled to does what the tree means, on its own as well as in any
program that it is part of, if the slots of its variables can be numbered with 16 bits. -/
theorem run_compiled {g g' : GenState} {n : Node} {keep : Bool} {type : MachineType}
    (hbuilt : g.session.locals.Built) (hkinds : g.session.locals.OneKind kinds)
    (hn : Arithmetical g.session kinds n) (hok : node n (keepOrDiscard keep) g = .ok type g') :
    type.kind?.isSome = keep ∧ ∃ code, g'.asm.code = g.asm.code ++ code ∧
      (boundLabels code).Nodup ∧ Placed code 0 code ∧ (g'.session.locals.Fits →
      ∀ program pc, Placed program pc code → ∀ bound env base memory,
        Agrees g.session.locals env memory →
          Reaches program bound ⟨pc, base, memory⟩ ((meaning g.session bound n).run keep env)
            fun r c ↦ c.pc = pc + code.length ∧ c.stack = r.1.toList ++ base ∧
              r.1.map Value.kind = type.kind? ∧ Agrees g'.session.locals r.2 c.memory) := by
  have hg : Steady g.session kinds g :=
    ⟨(Session.withLocals_locals _).symm, hbuilt, hkinds⟩
  have hfollowed := ((followed n).1 hn).simulates g keep hg
  obtain ⟨hkept, code, hemits, hreal⟩ := hfollowed.of_ok hok
  have hnodup := hemits.emitted.binds.nodup
  refine ⟨hkept, code, hemits.emitted.code, hnodup, placed_self hnodup, ?_⟩
  intro hfits program pc hplaced bound env base memory hagrees
  have hagrees' : Agrees g'.session.locals env memory := by
    intro name v hv
    obtain ⟨w, hw, hload⟩ := hagrees name v hv
    obtain ⟨w', hw', hkind, hslot⟩ := hemits.keeps name w hw
    exact ⟨w', hw', by rw [hkind, hslot, hload]⟩
  have hapart := hemits.steady.built.apart hfits
  refine (hreal _ (.refl _) hapart program pc hplaced bound env base memory hagrees').imp ?_
  rintro ⟨v, env'⟩ c ⟨results, ⟨hpc, rfl, hkind⟩, hstack, hmemory⟩
  exact ⟨hpc, hstack, hkind, hmemory⟩

/-- Counts a variable down to zero. -/
def countdown : Node :=
  let n := Node.readLocal "n" (.named "int") {}
  .sequence
    [.store "n" (.int 3),
     .untilLoop (.binary n "==" (.int 0) (.named "boolean"))
       (.store "n" (.binary n "-" (.int 1) (.named "int"))), n]

/-- A static method of a script, before any of its code. -/
def GenState.ofMain : GenState :=
  { session :=
      { classes := .standard
        scopes :=
          { frames :=
              [.ofMethod { name := "main", flags := { isStatic := true } },
                .ofClass { cls := { name := "Script" }, isStaticBody := true }] } } }

/-- Counting down computes with integers and locals alone. -/
theorem arithmetical_countdown :
    Arithmetical GenState.ofMain.session (fun _ ↦ .int) countdown := by
  have hone : ∀ {r : Except CompileError MachineType} {t t' : MachineType},
      r.toOption = some t → r = .ok t' → t' = t := by
    rintro r t t' h rfl
    exact Option.some.inj h
  refine .body _ _ fun n hn ↦ ?_
  simp only [List.mem_cons, List.not_mem_nil, or_false] at hn
  obtain rfl | rfl | rfl := hn
  · exact .assign (fun t ht ↦ hone (t := .int) (by decide +kernel) ht ▸ rfl) (.int ..)
  · refine .loop _ _ _ _ ?_ ?_
    · exact .comparison _ _ rfl rfl (.readLocal ..) (.int ..)
    · exact .assign (fun t ht ↦ hone (t := .int) (by decide +kernel) ht ▸ rfl)
        (.calculate _ _ (.inr rfl) rfl (fun t ht ↦ hone (t := .int) (by decide +kernel) ht ▸ rfl)
          (.readLocal ..) (.int ..))
  · exact .readLocal ..

/-- Whatever lies on the stack, the code of the countdown comes to its end with zero on top. -/
theorem run_compiled_countdown : ∃ g', node countdown .push .ofMain = .ok .int g' ∧
    ∀ base memory, ∃ steps memory', Configuration.run g'.asm.code steps ⟨0, base, memory⟩ =
      some ⟨g'.asm.code.length, .int 0 :: base, memory'⟩ := by
  have hcompiles : ∃ g', node countdown .push .ofMain = .ok .int g' ∧ g'.session.locals.Fits := by
    have : (match node countdown .push .ofMain with
      | .ok type g' => decide (type = .int ∧ g'.session.locals.Fits)
      | .error .. => false) = true := by decide +kernel
    split at this
    · next g' h =>
      obtain ⟨rfl, hfits⟩ := of_decide_eq_true this
      exact ⟨g', h, hfits⟩
    · cases this
  have hevaluates : ∃ env, (meaning GenState.ofMain.session 5 countdown).run true (fun _ ↦ none) =
      .ok (some (.int 0), env) := by
    have : (match (meaning GenState.ofMain.session 5 countdown).run true (fun _ ↦ none) with
      | .ok (v, _) => decide (v = some (.int 0))
      | .error .. => false) = true := by decide +kernel
    split at this
    · next env h =>
      exact ⟨env, by rw [h, of_decide_eq_true this]⟩
    · cases this
  obtain ⟨g', hok, hfits⟩ := hcompiles
  obtain ⟨env, hevaluates⟩ := hevaluates
  have hok' : node countdown (keepOrDiscard true) .ofMain = .ok .int g' := hok
  obtain ⟨-, code, hcode, -, hplaced, hruns⟩ := run_compiled (g := .ofMain) .empty
    (fun _ _ h ↦ by cases h) arithmetical_countdown hok'
  refine ⟨g', hok, fun base memory ↦ ?_⟩
  obtain rfl : g'.asm.code = code := hcode
  have hagrees : Agrees GenState.ofMain.session.locals (fun _ ↦ none) memory :=
    fun _ _ h ↦ by cases h
  have := hruns hfits _ 0 hplaced 5 (fun _ ↦ none) base memory hagrees
  rw [hevaluates] at this
  obtain ⟨steps, ⟨pc, stack, memory'⟩, hrun, hpc, hstack, -⟩ := this
  obtain rfl : pc = 0 + g'.asm.code.length := hpc
  obtain rfl : stack = .int 0 :: base := hstack
  exact ⟨steps, memory', by rw [hrun, Nat.zero_add]⟩

end ScriptBytecode

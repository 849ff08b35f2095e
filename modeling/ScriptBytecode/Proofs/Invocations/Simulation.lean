import ScriptBytecode.Classes.Standard
import ScriptBytecode.Proofs.Invocations.Calls
import ScriptBytecode.Proofs.LocalSlots
import ScriptBytecode.Proofs.Stack.Units

/-!
# Calls run in source order

The code of a tree of calls does what the evaluation of the tree does (`simulates_node`). In terms
of runs (`run_calls`): it makes exactly the allocations and invocations that the evaluation makes,
in the same order, each once and each with the same receiver and arguments, and it leaves the value
of the tree, if that is wanted, on top of whatever was on the stack.

The only way for the code to stop on the way is to load a variable that has no value; it stops there
just when the evaluation does.

* `simulates_node` is the induction, over the trees that are made of calls;
* `run_calls` is what it means for runs, and `run_calls_appendMaximum` a call on a call on a new
  object.

**What is compared** is the whole history and not only the value: an invocation that the evaluation
does not make, or makes in another place or with other arguments, would show in it. The stack below
is left as it was, whatever lies there, so the same holds of code within an expression.

**What is assumed** is that the constructors of the host have no result, since a result would be
left on the stack below the new instance, and that the locals of the method were declared one by
one, so that a local holds values of one kind.
-/

namespace ScriptBytecode.Invocations

open Gen

variable {s : Session}

/-! ### Trees without calls -/

/-- A value that is kept or discarded is the code for that. -/
theorem deliver_keepOrDiscard (n : Node) (keep : Bool) (code : Bool → Gen MachineType) :
    deliver n (keepOrDiscard keep) code = code keep := by
  cases keep <;> rfl

/-- Nothing is done for a value that is not wanted. -/
theorem simulated_nothing : Simulated s false (pure .void) fun _ ↦ pure none :=
  .pure ⟨rfl, fun _ _ _ ↦ .pure ⟨rfl, rfl⟩⟩

/-- One instruction leaves a value that needs no evaluation. -/
theorem simulated_push {i : Instruction} {type : MachineType} {v : World → Datum}
    (hi : ∀ w slots, Holds s w slots → Turns w slots i [] [v w])
    (hkind : ∀ w, some (v w).kind = type.kind?) :
    Simulated s true (emit i >>= fun _ ↦ pure type) fun w ↦ pure (some (v w)) := by
  refine Appends.emit_bind (.pure ⟨?_, fun w slots hslots ↦ ?_⟩)
  · rw [← hkind ⟨fun _ ↦ 0, fun _ ↦ 0, fun _ ↦ .null, fun _ ↦ none, .null⟩]
    rfl
  · exact .cons (hi w slots hslots) (.pure ⟨rfl, hkind w⟩)

/-- A literal follows its evaluation. -/
theorem simulates_literal (value : Literal) (type : SourceType) (span : Span) :
    Simulates s (node (.literal value type span)) fun w ↦
      evaluate s w (.literal value type span) := by
  intro keep
  simp only [node, deliver_keepOrDiscard, evaluate]
  cases keep with
  | false => exact simulated_nothing
  | true =>
    cases value with
    | null =>
      refine Appends.query_bind fun inferred _ ↦ ?_
      refine simulated_push (v := fun _ ↦ .null) (fun _ _ _ _ _ ↦ rfl) fun _ ↦ ?_
      split
      · next hkind => exact hkind.symm
      · rfl
    | _ => exact simulated_push (fun _ _ _ _ _ ↦ rfl) fun _ ↦ rfl

/-- So does the current instance, -/
theorem simulates_selfRef (type : SourceType) (span : Span) :
    Simulates s (node (.selfRef type span)) fun w ↦ evaluate s w (.selfRef type span) := by
  intro keep
  simp only [node, deliver_keepOrDiscard, evaluate]
  refine Appends.get_bind fun g hg ↦ Appends.ite (fun _ ↦ Appends.throw_bind) fun hinstance ↦ ?_
  rw [hg] at hinstance ⊢
  cases s.scopes.currentClass? with
  | none => exact .throw
  | some scope =>
    cases keep with
    | false => exact simulated_nothing
    | true =>
      exact simulated_push (fun _ _ hslots ↦ Follows.self hslots (Bool.eq_false_iff.2 hinstance))
        fun _ ↦ rfl

/-- and a local that is read. -/
theorem simulates_readLocal (htyped : s.locals.Typed) (name : String) (type : SourceType)
    (span : Span) : Simulates s (node (.readLocal name type span)) fun w ↦
      evaluate s w (.readLocal name type span) := by
  intro keep
  simp only [node, deliver_keepOrDiscard, evaluate]
  refine Appends.get_bind fun g hg ↦ ?_
  rw [hg]
  cases hscope : s.scopes.currentMethod? with
  | none => exact .throw
  | some scope =>
    have hlocals : s.locals = scope.locals := by
      unfold Session.locals
      rw [hscope]
    dsimp only
    rw [← hlocals]
    cases hv : s.locals.get? name with
    | none => exact .throw
    | some v =>
      cases keep with
      | false => exact simulated_nothing
      | true =>
        have hkind := htyped hv
        refine Appends.emit_bind (.pure ⟨by rw [hkind]; rfl, fun w slots hslots ↦ ?_⟩)
        show Follows s w slots _ [] (w.read name >>= fun x ↦ pure (some x)) _
        refine (Follows.read hslots hv).map ?_
        rintro x _ ⟨rfl, hx⟩
        exact ⟨some x, rfl, rfl, by rw [hkind, ← hx]; rfl⟩

/-! ### Every tree of calls -/

/-- A call that is kept or discarded is the code for that. -/
theorem node_call_keepOrDiscard (receiver : Node) (name : String) (args : List Node)
    (type : SourceType) (span : Span) (keep : Bool) :
    node (.call receiver name args type span) (keepOrDiscard keep) =
      call receiver name args span (node receiver) (arguments args) keep := by
  cases keep with
  | false =>
    rw [node]
    · rfl
    · intro _ _ hjump
      cases hjump
  | true =>
    rw [node]
    · rfl
    · intro _ _ hjump
      cases hjump

/-- Every tree of calls is followed by its code. The induction is on the tree. -/
theorem simulates_node (hvoid : s.classes.VoidConstructors) (hlocals : s.locals.Typed) {n : Node}
    (hn : Calls n) : Simulates s (node n) fun w ↦ evaluate s w n := by
  induction hn with
  | literal value type span => exact simulates_literal value type span
  | readLocal name type span => exact simulates_readLocal hlocals name type span
  | selfRef type span => exact simulates_selfRef type span
  | @onType cls typeSpan name args type span _ ih =>
    intro keep
    have hargs := passes_arguments ih
    have hmeta : (Node.typeName cls typeSpan).type.isMeta = true := rfl
    rw [node_call_keepOrDiscard]
    unfold call
    rw [if_pos hmeta]
    refine Appends.query_bind fun c hc ↦ ?_
    simp only [evaluate, hmeta, if_true, hc, Run.static, pure_bind]
    -- A call on a type is a construction or a static call.
    by_cases hname : name = "new"
    · simp only [hname, if_true]
      exact simulated_construct hargs hvoid c span keep
    · simp only [hname, if_false]
      exact simulated_callStatic hargs c name span keep
  | @onValue receiver name args type span _ hvalue _ ihreceiver ih =>
    intro keep
    have hargs := passes_arguments ih
    rw [node_call_keepOrDiscard]
    unfold call
    rw [if_neg (by simp [hvalue])]
    refine Appends.query_bind fun receiverType htype ↦ ?_
    simp only [evaluate, hvalue, Bool.false_eq_true, if_false, htype, Run.static, pure_bind]
    -- A call on a value is arithmetic on a number, and a call of an instance member else.
    cases hwidth : Width.ofType? receiverType with
    | some width =>
      rw [← Width.type_eq_of_ofType? hwidth]
      exact simulated_calculate ihreceiver hargs width name span keep
    | none =>
      exact simulated_callInstance ihreceiver hargs (Session.valueType_ne_void htype) name span keep
  | @onSelf name args type span hname _ ih =>
    intro keep
    simp only [node, deliver_keepOrDiscard, evaluate]
    exact simulated_callSelf (passes_arguments ih) hname span keep

/-! ### Running the code -/

/-- The code of a tree of calls makes the invocations that the evaluation of the tree makes, and
leaves the value of the tree on the stack if it is wanted. -/
theorem run_calls {g g' : GenState} {n : Node} (hn : Calls n)
    (hvoid : g.session.classes.VoidConstructors) (hlocals : g.session.locals.Built) {keep : Bool}
    {type : MachineType} (hok : node n (keepOrDiscard keep) g = .ok type g') :
    g'.session = g.session ∧ type.kind?.isSome = keep ∧
      ∃ code, g'.asm.code = g.asm.code ++ code ∧
        ∀ w slots, Holds g.session w slots → ∀ base history,
          (∀ v history', evaluate g.session w n keep history = .ok (v, history') →
            State.run w slots code ⟨base, history⟩ = some ⟨v.toList ++ base, history'⟩ ∧
              v.map Datum.kind = type.kind?) ∧
          ∀ stop, evaluate g.session w n keep history = .error stop →
            Unset g.session w stop ∧ State.run w slots code ⟨base, history⟩ = none := by
  obtain ⟨code, rfl, hkept, hfollows⟩ :=
    (simulates_node hvoid hlocals.typed hn keep g rfl).of_ok hok
  refine ⟨rfl, hkept, code, g.code_emits code, fun w slots hslots base history ↦ ?_⟩
  have hrun := hfollows w slots hslots base history
  dsimp only at hrun
  constructor
  · intro v history' hevaluate
    rw [hevaluate] at hrun
    obtain ⟨results, hcode, rfl, hkind⟩ := hrun
    exact ⟨hcode, hkind⟩
  · intro stop hevaluate
    rw [hevaluate] at hrun
    exact hrun

/-- Appends the larger of two numbers to a new string builder. -/
def appendMaximum : Node :=
  .call (.construct "java.lang.StringBuilder" [.string "n"]) "append"
    [.call (.typeName "java.lang.Math" {}) "max" [.int 1, .long 2] (.named "long") {}]
    (.named "java.lang.StringBuilder") {}

/-- A world in which every invocation returns the same. -/
def sameAnswers : World where
  int _ := 0
  long _ := 42
  reference _ := .constant "n42"
  locals _ := none
  self := .null

/-- The builder is allocated and initialized before the numbers are compared; the first of them is
widened, and the larger is appended to that builder. -/
theorem run_calls_appendMaximum :
    let builder : ClassRef := { name := "java.lang.StringBuilder" }
    let math : ClassRef := { name := "java.lang.Math" }
    let history : History :=
      [.allocation builder,
        .invocation ⟨builder, "<init>", [.string], .void⟩ (some (.reference (.object 0)))
          [.reference (.constant "n")],
        .invocation ⟨math, "max", [.long, .long], .long⟩ none [.long 1, .long 2],
        .invocation ⟨builder, "append", [.long], .ref builder⟩ (some (.reference (.object 0)))
          [.long 42]]
    ∃ g', node appendMaximum .push { session := { classes := .standard } } = .ok (.ref builder) g' ∧
      ∀ base, State.run sameAnswers (fun _ ↦ some .null) g'.asm.code ⟨base, []⟩ =
        some ⟨.reference (.constant "n42") :: base, history⟩ := by
  intro builder math history
  have hcompiles : ∃ g', node appendMaximum (keepOrDiscard true)
      { session := { classes := .standard } } = .ok (.ref builder) g' := by
    have : (match node appendMaximum .push { session := { classes := .standard } } with
      | .ok type _ => decide (type = .ref builder)
      | .error .. => false) = true := by decide +kernel
    split at this
    · next g' h =>
      rw [of_decide_eq_true this] at h
      exact ⟨g', h⟩
    · cases this
  have hevaluates : evaluate { classes := .standard } sameAnswers appendMaximum true [] =
      .ok (some (.reference (.constant "n42")), history) := by
    have : (match evaluate { classes := .standard } sameAnswers appendMaximum true [] with
      | .ok outcome => decide (outcome = (some (.reference (.constant "n42")), history))
      | .error _ => false) = true := by decide +kernel
    split at this
    · next outcome h => rw [h, of_decide_eq_true this]
    · cases this
  have hcalls : Calls appendMaximum := by
    have hnumbers : ∀ n ∈ [Node.int 1, Node.long 2], Calls n := by
      simp only [List.forall_mem_cons]
      exact ⟨.literal .., .literal .., nofun⟩
    refine .onValue _ _ _ (.onType _ _ _ _ _ ?_) rfl ?_
    · exact List.forall_mem_singleton.2 (.literal ..)
    · exact List.forall_mem_singleton.2 (.onType _ _ _ _ _ hnumbers)
  have hholds : ∀ t : ClassTable, Holds { classes := t } sameAnswers fun _ ↦ some .null :=
    fun _ ↦ ⟨nofun, nofun, fun _ ↦ rfl⟩
  have hvoid :
    ({ session := { classes := .standard } } : GenState).session.classes.VoidConstructors := by
    dsimp only
    exact ClassTable.voidConstructors_standard
  obtain ⟨g', hok⟩ := hcompiles
  obtain ⟨-, -, code, hcode, hrun⟩ := run_calls hcalls hvoid .empty hok
  refine ⟨g', hok, fun base ↦ ?_⟩
  obtain ⟨hran, -⟩ := hrun sameAnswers _ (hholds .standard) base []
  rw [hcode]
  exact (hran _ _ hevaluates).1

end ScriptBytecode.Invocations

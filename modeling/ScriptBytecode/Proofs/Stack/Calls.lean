import ScriptBytecode.Proofs.Operands
import ScriptBytecode.Proofs.Stack.Values

/-!
# The operand stack around calls

Code for a call finds below the arguments what its instruction takes: a receiver if it is a call on
an instance, and the kinds of the parameters on top of it. The member that the call resolves to
accepts the arguments, so its parameters can have values and there are as many of them.

* `left_invoke` is what all calls of members have in common;
* `produces_construct`, `produces_callStatic`, `produces_callInstance`, `produces_callSelf` and
  `produces_calculate` are the calls, and `ready_compare` is a comparison.

**Where the kinds come from.** The instruction of a call takes the kinds of the parameters of the
member that it names. That these are the kinds of the arguments on the stack is not checked by the
assembler, which counts values only. It holds because each argument is compiled for the type of its
parameter (`Passes`), and because a member that a call resolves to accepts the types of the
arguments, so that it has as many parameters and each of them is of some kind.

**Where `void` comes from.** A call whose member has no result leaves the receiver where a value is
wanted, and a copy of it is made before the arguments are compiled. A constructor leaves nothing;
that its reference is there afterwards rests on constructors having no result, which is the one fact
about the classes of the host that has to be assumed.
-/

namespace ScriptBytecode

/-! ### Invocations -/

namespace Instruction

variable {m : MemberRef} {kinds : List StackKind}

theorem takes?_invokeStatic (h : kindsOf? m.params = some kinds) :
    (invokeStatic m).takes? = some (kinds.reverse ++ []) := by
  rw [takes?, h, List.append_nil]
  rfl

/-- A call on an instance takes the arguments and below them the receiver. -/
theorem takes?_invokeVirtual (h : kindsOf? m.params = some kinds) :
    (invokeVirtual m).takes? = some (kinds.reverse ++ [.reference]) := by
  rw [takes?, h]
  rfl

theorem takes?_invokeInterface (h : kindsOf? m.params = some kinds) :
    (invokeInterface m).takes? = some (kinds.reverse ++ [.reference]) := by
  rw [takes?, h]
  rfl

theorem takes?_invokeSpecial (h : kindsOf? m.params = some kinds) :
    (invokeSpecial m).takes? = some (kinds.reverse ++ [.reference]) := by
  rw [takes?, h]
  rfl

end Instruction

variable {o : Outset} {t : LabelTable} {g : GenState} {base taken : List StackKind}

/-- Arguments and what lies below them are taken together. -/
theorem Ready.emit_call {kinds : List StackKind} {i : Instruction}
    (h : Ready o t g (kinds.reverse ++ (taken ++ base)))
    (htakes : i.takes? = some (kinds.reverse ++ taken)) (hstraight : i.isStraight = true) :
    Ready o t { g with asm := g.asm.emit i } (i.leaves ++ base) := by
  rw [← List.append_assoc] at h
  exact h.emit htakes hstraight

namespace Gen

/-! ### Calls on a type -/

/-- A construction leaves one reference if it is wanted. -/
theorem produces_construct {args : List Node} {argsCode : ArgsCode}
    (hargs : Passes args.length argsCode) (cls : ClassRef) (span : Span) :
    Produces (construct cls args span argsCode) := by
  constructor
  intro o t g base keep h
  refine ensures_query_bind (fun types htypes ↦ ?_) (h.failed (.valueTypes ..))
  refine ensures_query_bind (fun m hm ↦ ?_) (h.failed (.resolve ..))
  obtain ⟨hlength, kinds, hkinds⟩ :=
    Session.params_of_areAssignable htypes (ClassTable.areAssignable_of_resolve hm)
  have hvoid : m.returnType = .void := h.session.good.constructors.returnType_of_resolve hm
  refine ensures_emit_bind (ensures_emit_bind ?_)
  have hnew : Ready o t _ ([.reference] ++ base) := h.emit_push (i := .new cls) rfl rfl
  have hdup : Ready o t _ ([.reference] ++ ([.reference] ++ base)) :=
    hnew.emit (i := .dup .reference) rfl rfl
  refine ensures_bind (ready_passArgs hargs hdup hlength hkinds) fun _ g' hready ↦ ?_
  refine ensures_emit_bind (left_settle ?_)
  have hcall := hready.emit_call (Instruction.takes?_invokeSpecial (m := m.toRef) hkinds) rfl
  rw [show (Instruction.invokeSpecial m.toRef).leaves = m.returnType.kind?.toList from rfl, hvoid]
    at hcall
  exact hcall

/-- A static call leaves the result of the member, or what stands in for it. -/
theorem produces_callStatic {args : List Node} {argsCode : ArgsCode}
    (hargs : Passes args.length argsCode) (cls : ClassRef) (name : String) (span : Span) :
    Produces (callStatic cls name args span argsCode) := by
  constructor
  intro o t g base keep h
  refine ensures_query_bind (fun types htypes ↦ ?_) (h.failed (.valueTypes ..))
  refine ensures_query_bind (fun m hm ↦ ?_) (h.failed (.resolve ..))
  obtain ⟨hlength, kinds, hkinds⟩ :=
    Session.params_of_areAssignable htypes (ClassTable.areAssignable_of_resolve hm)
  have h' : Ready o t g ([] ++ base) := h
  refine ensures_bind (ready_passArgs hargs h' hlength hkinds) fun _ g' hready ↦ ?_
  refine ensures_emit_bind (left_settle ?_)
  exact hready.emit_call (Instruction.takes?_invokeStatic (m := m.toRef) hkinds) rfl

/-! ### Calls on a value -/

/-- With its receiver on the stack, a call of an instance member leaves its result; in place of none
it leaves the receiver, if a value is wanted. -/
theorem left_invoke {args : List Node} {argsCode : ArgsCode} (hargs : Passes args.length argsCode)
    (h : Ready o t g ([.reference] ++ base)) {m : Member} {kinds : List StackKind}
    {i : Instruction} {standIn : MachineType} {keep : Bool}
    (hlength : m.params.length = args.length) (hkinds : kindsOf? m.params = some kinds)
    (htakes : i.takes? = some (kinds.reverse ++ [.reference])) (hstraight : i.isStraight = true)
    (hleaves : i.leaves = m.returnType.kind?.toList) (hstandIn : standIn.kind? = some .reference) :
    Ensures (do
      let chains := m.returnType.isVoid && keep
      if chains then emit (.dup .reference)
      passArgs args argsCode m.params
      emit i
      if chains then pure standIn else settle m.returnType keep) g (Left o t base keep)
      (Failed o) := by
  -- The receiver is copied if it is to stand in for a missing result.
  by_cases hchains : (m.returnType.isVoid && keep) = true
  · obtain ⟨hvoid, rfl⟩ := Bool.and_eq_true_iff.1 hchains
    have hdup : Ready o t _ ([.reference] ++ ([.reference] ++ base)) :=
      h.emit (i := .dup .reference) rfl rfl
    simp only [hvoid, Bool.and_true, if_true]
    refine ensures_emit_bind ?_
    refine ensures_bind (ready_passArgs hargs hdup hlength hkinds) fun _ g' hready ↦ ?_
    have hcall := hready.emit_call htakes hstraight
    rw [hleaves, MachineType.isVoid_iff.1 hvoid] at hcall
    refine ensures_emit_bind (ensures_pure ⟨?_, ?_⟩)
    · simpa using MachineType.ne_void_of_kind? hstandIn
    · rw [hstandIn]
      exact hcall
  · rw [Bool.not_eq_true] at hchains
    simp only [hchains, Bool.false_eq_true, if_false]
    refine ensures_bind (ready_passArgs hargs h hlength hkinds) fun _ g' hready ↦ ?_
    have hcall := hready.emit_call htakes hstraight
    rw [hleaves] at hcall
    exact ensures_emit_bind (left_settle hcall)

/-- So does a call on an instance, whose receiver waits below the arguments. -/
theorem produces_callInstance {receiver : Node} {receiverCode : Destination → Gen MachineType}
    (hreceiver : Delivers receiverCode) {args : List Node} {argsCode : ArgsCode}
    (hargs : Passes args.length argsCode) {receiverType : MachineType}
    (hne : receiverType ≠ .void) (name : String) (span : Span) :
    Produces (callInstance receiver receiverType name args span receiverCode argsCode) := by
  constructor
  intro o t g base keep h
  refine ensures_query_bind (fun cls hcls ↦ ?_) (h.failed (.receiverClass ..))
  refine ensures_query_bind (fun types htypes ↦ ?_) (h.failed (.valueTypes ..))
  refine ensures_query_bind (fun m hm ↦ ?_) (h.failed (.resolve ..))
  obtain ⟨hlength, kinds, hkinds⟩ :=
    Session.params_of_areAssignable htypes (ClassTable.areAssignable_of_resolve hm)
  have hreference := Session.kind?_of_receiverClass hcls hne
  refine ensures_bind (ready_receive hreceiver h receiverType receiver.span) fun _ g' hready ↦ ?_
  rw [hreference] at hready
  have htakes : (invocation cls m).takes? = some (kinds.reverse ++ [.reference]) := by
    unfold invocation
    split
    · exact Instruction.takes?_invokeInterface (m := m.toRef) hkinds
    · exact Instruction.takes?_invokeVirtual (m := m.toRef) hkinds
  have hstraight : (invocation cls m).isStraight = true := by
    unfold invocation
    split <;> rfl
  have hleaves : (invocation cls m).leaves = m.returnType.kind?.toList := by
    unfold invocation
    split <;> rfl
  exact left_invoke hargs hready hlength hkinds htakes hstraight hleaves hreference

/-! ### Arithmetic -/

/-- An operand that is widened is a 64-bit integer afterwards. -/
theorem widen_bind {α : Type} {widen : Bool} {k k' : StackKind} {rest : Gen α}
    {post : α → GenState → Prop} (h : Ready o t g (k :: base)) (hwiden : widen = true → k = .int)
    (hk' : (if widen then .long else k) = k')
    (hrest : ∀ g', Ready o t g' (k' :: base) → Ensures rest g' post (Failed o)) :
    Ensures (do
      if widen then emit .i2l
      rest) g post (Failed o) := by
  cases widen with
  | false =>
    obtain rfl : k = k' := hk'
    exact hrest g h
  | true =>
    obtain rfl : .long = k' := hk'
    obtain rfl := hwiden rfl
    have h' : Ready o t g ([.int] ++ base) := h
    exact ensures_emit_bind (hrest _ (h'.emit rfl rfl))

/-- An operation takes two integers of its width and leaves one. -/
theorem operation_takes {w : Width} {operator : String} {i : Instruction}
    (h : Arithmetic.operation? w operator = some i) :
    i.takes? = some [w.kind, w.kind] ∧ i.leaves = [w.kind] ∧ i.isStraight = true := by
  unfold Arithmetic.operation? at h
  split at h
  · obtain rfl := Option.some.inj h
    cases w <;> exact ⟨rfl, rfl, rfl⟩
  · obtain rfl := Option.some.inj h
    cases w <;> exact ⟨rfl, rfl, rfl⟩
  · cases h

/-- Arithmetic leaves one integer of the width of the operation. -/
theorem produces_calculate {receiver : Node} {receiverCode : Destination → Gen MachineType}
    (hreceiver : Delivers receiverCode) {args : List Node} {argsCode : ArgsCode}
    (hargs : Passes args.length argsCode) (width : Width) (name : String) (span : Span) :
    Produces (calculate receiver width name args span receiverCode argsCode) := by
  constructor
  intro o t g base keep h
  refine ensures_query_bind (fun types htypes ↦ ?_) (h.failed (.valueTypes ..))
  refine ensures_query_bind (fun plan hplan ↦ ?_) (h.failed (.plan ..))
  obtain ⟨type, v, rfl, hv, hoperation, hwidth, hwidenReceiver, hwidenArgument⟩ :=
    Arithmetic.plan_eq_ok hplan
  obtain ⟨htakes, hleaves, hstraight⟩ := operation_takes hoperation
  rw [Width.max_comm] at hwidenArgument
  have hlength : [type].length = args.length := Session.length_valueTypes htypes
  have hkinds : kindsOf? [type] = some [v.kind] := by
    rw [← Width.type_eq_of_ofType? hv]
    simp [kindsOf?]
  refine ensures_bind (ready_receive hreceiver h width.type receiver.span) fun _ g₁ h₁ ↦ ?_
  rw [Width.kind?_type] at h₁
  refine widen_bind h₁ (fun hw ↦ Width.kind_of_ne_max (hwidenReceiver ▸ hw))
    (hwidenReceiver ▸ Width.kind_max width v) fun g₂ h₂ ↦ ?_
  refine ensures_bind (ready_passArgs hargs h₂ hlength hkinds) fun _ g₃ h₃ ↦ ?_
  refine widen_bind h₃ (fun hw ↦ Width.kind_of_ne_max (hwidenArgument ▸ hw))
    (hwidenArgument ▸ Width.kind_max v width) fun g₄ h₄ ↦ ?_
  rw [Width.max_comm v width] at h₄
  have h₄' : Ready o t g₄ ([(width.max v).kind, (width.max v).kind] ++ base) := h₄
  have h₅ := h₄'.emit htakes hstraight
  rw [hleaves] at h₅
  refine ensures_emit_bind (left_settle ?_)
  rw [hwidth, Width.kind?_type]
  exact h₅

/-! ### Calls in general -/

/-- So a call on a receiver leaves a value if it is wanted, whichever of the three kinds it is. -/
theorem produces_call (receiver : Node) {receiverCode : Destination → Gen MachineType}
    (hreceiver : Delivers receiverCode) {args : List Node} {argsCode : ArgsCode}
    (hargs : Passes args.length argsCode) (name : String) (span : Span) :
    Produces (call receiver name args span receiverCode argsCode) := by
  constructor
  intro o t g base keep h
  unfold call
  refine ensures_ite (fun _ ↦ ?_) fun _ ↦ ?_
  · refine ensures_query_bind (fun cls _ ↦ ?_) (h.failed (.metaClass ..))
    refine ensures_ite (fun _ ↦ ?_) fun _ ↦ ?_
    · exact (produces_construct hargs cls span).run keep h
    · exact (produces_callStatic hargs cls name span).run keep h
  · refine ensures_query_bind (fun receiverType htype ↦ ?_) (h.failed (.valueType ..))
    have hne := Session.valueType_ne_void htype
    split
    · exact (produces_calculate hreceiver hargs _ name span).run keep h
    · exact (produces_callInstance hreceiver hargs hne name span).run keep h

/-- So does a call without receiver. -/
theorem produces_callSelf {args : List Node} {argsCode : ArgsCode}
    (hargs : Passes args.length argsCode) (name : String) (span : Span) :
    Produces (callSelf name args span argsCode) := by
  constructor
  intro o t g base keep h
  refine ensures_query_bind (fun callee hcallee ↦ ?_)
    (h.failed (.selfCallee _ _ _ (.valueTypes ..)))
  obtain ⟨cls, m⟩ := callee
  obtain ⟨types, htypes, hassignable⟩ := Session.areAssignable_of_selfCallee hcallee
  obtain ⟨hlength, kinds, hkinds⟩ := Session.params_of_areAssignable htypes hassignable
  refine ensures_ite (fun _ ↦ ?_) fun _ ↦ ?_
  · have h' : Ready o t g ([] ++ base) := h
    refine ensures_bind (ready_passArgs hargs h' hlength hkinds) fun _ g' hready ↦ ?_
    refine ensures_emit_bind (left_settle ?_)
    exact hready.emit_call (Instruction.takes?_invokeStatic (m := m.toRef) hkinds) rfl
  · refine ensures_emit_bind ?_
    have hload : Ready o t _ ([.reference] ++ base) :=
      h.emit_push (i := .load .reference 0) rfl rfl
    exact left_invoke hargs hload hlength hkinds
      (Instruction.takes?_invokeVirtual (m := m.toRef) hkinds) rfl rfl rfl

/-! ### Comparisons -/

/-- A comparison takes its operands off the stack, and its label expects what is left. -/
theorem ready_compare {left : Node} {leftCode : Destination → Gen MachineType}
    (hleft : Delivers leftCode) {args : List Node} {argsCode : ArgsCode}
    (hargs : Passes args.length argsCode) (h : Ready o t g base) {target : Label}
    (hadmits : t.Admits target base) (test : Condition) (operator : String) (span : Span)
    (sense : Bool) :
    Ensures (compare test left operator args span leftCode argsCode sense target) g
      (fun _ g' ↦ Ready o (t.expecting target base) g' base) (Failed o) := by
  unfold compare
  split
  · next right =>
    refine ensures_query_bind (fun leftType _ ↦ ?_) (h.failed (.valueType ..))
    refine ensures_query_bind (fun rightType _ ↦ ?_) (h.failed (.valueType ..))
    dsimp only
    have hpass : ∀ {k k' : StackKind} {g'}, rightType.kind? = some k' → Ready o t g' (k :: base) →
        Ensures (argsCode [rightType]) g' (fun _ g'' ↦ Ready o t g'' (k' :: k :: base))
          (Failed o) := by
      intro k k' g' hk' h'
      have hkinds : kindsOf? [rightType] = some [k'] := by simp [kindsOf?, hk']
      exact hargs.run [rightType] h' rfl hkinds
    split
    · exact ensures_throw (h.failed_located ..)
    · -- Operands of one narrow kind are compared by the branch;
      next hcomparison =>
      obtain ⟨k, k', hk, hk', -, -, rfl, rfl⟩ := comparison_eq_ok hcomparison
      refine ensures_bind (ready_receive hleft h leftType left.span) fun _ g₁ h₁ ↦ ?_
      rw [hk] at h₁
      refine ensures_bind (hpass hk' h₁) fun _ g₂ h₂ ↦ ?_
      have h₂' : Ready o t g₂ ([.int, .int] ++ base) := h₂
      exact h₂'.emit_branch (i := .jumpIfCompare _ target) rfl rfl rfl rfl hadmits
    · -- all others are wide by then, and compared first.
      next hcomparison =>
      obtain ⟨k, k', hk, hk', -, -, hwiden, hwiden'⟩ := comparison_eq_ok hcomparison
      refine ensures_bind (ready_receive hleft h leftType left.span) fun _ g₁ h₁ ↦ ?_
      rw [hk] at h₁
      refine widen_bind h₁ hwiden.1 hwiden.2 fun g₂ h₂ ↦ ?_
      refine ensures_bind (hpass hk' h₂) fun _ g₃ h₃ ↦ ?_
      refine widen_bind h₃ hwiden'.1 hwiden'.2 fun g₄ h₄ ↦ ?_
      have h₄' : Ready o t g₄ ([.long, .long] ++ base) := h₄
      have h₅ : Ready o t _ ([.int] ++ base) := h₄'.emit (i := .lcmp) rfl rfl
      exact ensures_emit_bind (h₅.emit_branch (i := .jumpIf _ target) rfl rfl rfl rfl hadmits)
  · exact ensures_throw (h.failed_located ..)

end Gen

end ScriptBytecode

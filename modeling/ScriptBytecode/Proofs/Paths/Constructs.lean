import ScriptBytecode.Proofs.Operands
import ScriptBytecode.Proofs.Paths.Charts
import ScriptBytecode.Proofs.Resolution

/-!
# Constructs along which locals are followed

Calls and conditions chart what their operands do: the receiver first, then the arguments. Reads and
stores of locals are where a step of the walk does something of its own. A branch or a loop charts
the step that brings the ways of control together.

* `charts_readLocal`, `charts_selfRef` and `charts_assign` are the accesses to locals;
* `charts_call`, `charts_callSelf` and `charts_compare` put operands together.

**What is left out.** Of a receiver that is a type there is no code, so whatever it contains is not
walked through. A read whose value is dropped checks that the local is known to the compiler, emits
nothing, and is no step of the walk.

**The receiver.** A call without a receiver loads `this` if the member that it resolves to is not
static. The walk does not resolve calls. It does not have to, since loading the receiver changes
nothing that is known of locals, and can only go wrong where there is none: there the call would
have to be one under the name that is reserved for constructors.
-/

namespace ScriptBytecode.Gen

variable {isStatic : Bool} {f f' : Tracker.Step} {as' : Language Access}

/-! ### Calls -/

section Calls

variable {receiver : Node} {args : List Node} {receiverCode : Destination → Gen MachineType}
  {argsCode : ArgsCode} {as : Bool → Language Access}

/-- A construction charts its arguments. -/
theorem charts_construct (hargs : ChartsArgs isStatic args.length argsCode f as') (cls : ClassRef)
    (span : Span) (keep : Bool) :
    Charts isStatic none f as' (construct cls args span argsCode keep) := by
  refine .query fun types _ ↦ .query fun m ⟨_, _, hm⟩ ↦ ?_
  have hparams := ClassTable.ne_void_of_areAssignable (ClassTable.areAssignable_of_resolve hm)
  refine .emit_bind ⟨rfl, rfl, rfl⟩ (.emit_bind ⟨rfl, rfl, rfl⟩ ?_)
  refine (charts_passArgs hargs hparams).before fun _ ↦ ?_
  exact .emit_bind ⟨rfl, rfl, rfl⟩ (charts_settle ..)

/-- So does a static call. -/
theorem charts_callStatic (hargs : ChartsArgs isStatic args.length argsCode f as') (cls : ClassRef)
    (name : String) (span : Span) (keep : Bool) :
    Charts isStatic none f as' (callStatic cls name args span argsCode keep) := by
  refine .query fun types _ ↦ .query fun m ⟨_, _, hm⟩ ↦ ?_
  have hparams := ClassTable.ne_void_of_areAssignable (ClassTable.areAssignable_of_resolve hm)
  refine (charts_passArgs hargs hparams).before fun _ ↦ ?_
  exact .emit_bind ⟨rfl, rfl, rfl⟩ (charts_settle ..)

/-- To invoke a member has nothing to do with locals. -/
theorem neutral_invocation (cls : ClassRef) (m : Member) : (invocation cls m).Neutral := by
  unfold invocation
  split <;> exact ⟨rfl, rfl, rfl⟩

/-- A call on an instance charts the receiver and then the arguments. -/
theorem charts_callInstance (hreceiver : ChartsFor isStatic receiverCode f as)
    (hargs : ChartsArgs isStatic args.length argsCode f' as') {receiverType : MachineType}
    (hvalue : receiverType ≠ .void) (name : String) (span : Span) (keep : Bool) :
    Charts isStatic none (f >=> f') (as true * as')
      (callInstance receiver receiverType name args span receiverCode argsCode keep) := by
  refine .query fun cls _ ↦ .query fun types _ ↦ .query fun m ⟨_, _, hm⟩ ↦ ?_
  have hparams := ClassTable.ne_void_of_areAssignable (ClassTable.areAssignable_of_resolve hm)
  refine (charts_receive_value hreceiver hvalue _).bind fun _ ↦ ?_
  have hrest : Charts isStatic none f' as' (do
      passArgs args argsCode m.params
      emit (invocation cls m)
      if m.returnType.isVoid && keep then pure receiverType
      else settle m.returnType keep) := by
    refine (charts_passArgs hargs hparams).before fun _ ↦ .emit_bind (neutral_invocation cls m) ?_
    exact .ite (.pure _) (charts_settle ..)
  exact .ite (.emit_bind ⟨rfl, rfl, rfl⟩ hrest) hrest

/-- Nor has an operation of arithmetic. -/
theorem neutral_operation {width : Width} {name : String} {types : List MachineType} {span : Span}
    {plan : Arithmetic.Plan} (h : Arithmetic.plan width name types span = .ok plan) :
    plan.operation.Neutral := by
  obtain ⟨type, v, -, -, hoperation, -⟩ := Arithmetic.plan_eq_ok h
  unfold Arithmetic.operation? at hoperation
  split at hoperation
  · rw [← Option.some.inj hoperation]
    cases width.max v <;> exact ⟨rfl, rfl, rfl⟩
  · rw [← Option.some.inj hoperation]
    cases width.max v <;> exact ⟨rfl, rfl, rfl⟩
  · cases hoperation

/-- The plan is made for one argument, so the types are as many as the arguments. -/
theorem charts_calculate (hreceiver : ChartsFor isStatic receiverCode f as)
    (hargs : ChartsArgs isStatic args.length argsCode f' as') (width : Width) (name : String)
    (span : Span) (keep : Bool) : Charts isStatic none (f >=> f') (as true * as')
      (calculate receiver width name args span receiverCode argsCode keep) := by
  refine .query fun types ⟨_, _, htypes⟩ ↦ .query fun plan ⟨_, _, hplan⟩ ↦ ?_
  have hparams := Session.valueTypes_ne_void htypes
  have hwidth : width.type ≠ .void := by cases width <;> exact nofun
  refine (charts_receive_value hreceiver hwidth _).bind fun _ ↦ ?_
  have hoperation : Charts isStatic none pure 1 (do
      emit plan.operation
      settle plan.width.type keep) :=
    .emit_bind (neutral_operation hplan) (charts_settle ..)
  have hrest : Charts isStatic none f' as' (do
      passArgs args argsCode types
      if plan.widenArgument then emit .i2l
      emit plan.operation
      settle plan.width.type keep) := by
    refine (charts_passArgs hargs hparams).before fun _ ↦ ?_
    exact .ite (.emit_bind ⟨rfl, rfl, rfl⟩ hoperation) hoperation
  exact .ite (.emit_bind ⟨rfl, rfl, rfl⟩ hrest) hrest

/-- A receiver that is a type is not compiled. -/
theorem charts_call (receiver : Node) (hreceiver : ChartsFor isStatic receiverCode f as)
    (hargs : ChartsArgs isStatic args.length argsCode f' as') (name : String) (span : Span)
    (keep : Bool) : Charts isStatic none (if receiver.type.isMeta then f' else f >=> f')
      (if receiver.type.isMeta then as' else as true * as')
      (call receiver name args span receiverCode argsCode keep) := by
  unfold call
  split
  · refine .query fun cls _ ↦ ?_
    exact .ite (charts_construct hargs ..) (charts_callStatic hargs ..)
  · refine .query fun receiverType ⟨_, _, htype⟩ ↦ ?_
    split
    · exact charts_calculate hreceiver hargs ..
    · exact charts_callInstance hreceiver hargs (Session.valueType_ne_void htype) ..

/-- The receiver is loaded for a member that is not static. Where there is no receiver, only a call
under the name of constructors would resolve to one. -/
theorem charts_callSelf (hargs : ChartsArgs isStatic args.length argsCode f as') (name : String)
    (span : Span) (keep : Bool) :
    Charts isStatic none (if isStatic && name == constructorName then fun _ ↦ none else f)
      ((if isStatic && name != constructorName then 1 else 1 + {[.receiver]}) * as')
      (callSelf name args span argsCode keep) := by
  refine .query ?_
  rintro ⟨cls, m⟩ ⟨s, hs, hcallee⟩
  obtain ⟨-, types, resolvesStatic, -, -, -, hm, hstaticOnly⟩ :=
    Session.resolve_of_selfCallee hcallee
  have hparams := ClassTable.ne_void_of_areAssignable (ClassTable.areAssignable_of_resolve hm)
  by_cases hstatic : m.flags.isStatic = true
  · have hcall : Charts isStatic none f (1 * as') (do
        passArgs args argsCode m.params
        emit (.invokeStatic m.toRef)
        settle m.returnType keep) := by
      rw [one_mul]
      refine (charts_passArgs hargs hparams).before fun _ ↦ ?_
      exact .emit_bind ⟨rfl, rfl, rfl⟩ (charts_settle ..)
    dsimp only
    rw [if_pos hstatic]
    refine (hcall.of_le fun t t' ht ↦ ?_).mono (mem_mul_of_forall fun word hword ↦ ?_)
    · split at ht
      · cases ht
      · exact ht
    · split
      · exact hword
      · exact (Language.mem_add ..).2 (.inl hword)
  · have hrest : Charts isStatic none f as' (do
        passArgs args argsCode m.params
        emit (.invokeVirtual m.toRef)
        if m.returnType.isVoid && keep then pure (.ref cls)
        else settle m.returnType keep) := by
      refine (charts_passArgs hargs hparams).before fun _ ↦ .emit_bind ⟨rfl, rfl, rfl⟩ ?_
      exact .ite (.pure _) (charts_settle ..)
    have hcall : Charts isStatic none (Tracker.Step.receiver isStatic >=> f)
      ({[.receiver]} * as') (do
        emit (.load .reference 0)
        if m.returnType.isVoid && keep then emit (.dup .reference)
        passArgs args argsCode m.params
        emit (.invokeVirtual m.toRef)
        if m.returnType.isVoid && keep then pure (.ref cls)
        else settle m.returnType keep) := by
      refine Charts.loadReceiver.bind fun _ ↦ ?_
      exact .ite (.emit_bind ⟨rfl, rfl, rfl⟩ hrest) hrest
    -- a member that is not static can only be a constructor where there is no receiver
    have hname : isStatic = true → name = constructorName := by
      rintro rfl
      by_contra hne
      obtain ⟨-, e, -, -, -, hflags⟩ := ClassTable.method_of_resolve hne hm
      rw [hstaticOnly hs.isStatic] at hflags
      exact hstatic hflags
    dsimp only
    rw [if_neg hstatic]
    refine (hcall.of_le fun t t' ht ↦ ?_).mono (mem_mul_of_forall fun word hword ↦ ?_)
    · cases isStatic with
      | false => exact ht
      | true =>
        rw [hname rfl] at ht
        cases ht
    · rw [if_neg fun hboth ↦ ?_]
      · exact (Language.mem_add ..).2 (.inr hword)
      · obtain ⟨hreceiver, hne⟩ := Bool.and_eq_true_iff.1 hboth
        exact bne_iff_ne.1 hne (hname hreceiver)

/-- Both operands are there when the jump compares them. -/
theorem charts_compare (hreceiver : ChartsFor isStatic receiverCode f as)
    (hargs : ChartsArgs isStatic args.length argsCode f' as') (test : Condition)
    (operator : String) (span : Span) (sense : Bool) (target : Label) :
    Charts isStatic (some target) (f >=> f') (as true * as')
      (compare test receiver operator args span receiverCode argsCode sense target) := by
  unfold compare
  split
  · next right =>
    refine .query fun leftType ⟨_, _, hleft⟩ ↦ .query fun rightType ⟨_, _, hright⟩ ↦ ?_
    have hpasses := hargs [rightType] rfl
      (List.forall_mem_singleton.2 (Session.valueType_ne_void hright))
    have hreceives := charts_receive_value hreceiver (Session.valueType_ne_void hleft) receiver.span
    dsimp only
    split
    · exact .throw _
    · exact hreceives.bind fun _ ↦ hpasses.before fun _ ↦ .jump rfl rfl
    · next widenLeft widenRight _ =>
      refine hreceives.bind fun _ ↦ ?_
      -- Widening charts no step, so all four ways to emit a comparison chart the same.
      have hjump : Charts isStatic (some target) pure 1 (do
          emit .lcmp
          emit (.jumpIf (if sense then test else test.negate) target)) :=
        .emit_bind ⟨rfl, rfl, rfl⟩ (.jump rfl rfl)
      have hrest : Charts isStatic (some target) f' as' (do
          argsCode [rightType]
          if widenRight then emit .i2l
          emit .lcmp
          emit (.jumpIf (if sense then test else test.negate) target)) := by
        refine hpasses.before fun _ ↦ ?_
        exact .ite (.emit_bind ⟨rfl, rfl, rfl⟩ hjump) hjump
      exact .ite (.emit_bind ⟨rfl, rfl, rfl⟩ hrest) hrest
  · exact .throw _

end Calls

/-! ### Constants, the receiver and locals -/

theorem charts_literal (value : Literal) (type : SourceType) (span : Span) (keep : Bool) :
    Charts isStatic none pure 1 (literal value type span keep) := by
  refine .ite (.pure _) ?_
  cases value with
  | null => exact .query fun _ _ ↦ .emit_bind ⟨rfl, rfl, rfl⟩ (.pure _)
  | _ => exact .emit_bind ⟨rfl, rfl, rfl⟩ (.pure _)

/-- The receiver is loaded only where it has been found that there is one. -/
theorem charts_selfRef (span : Span) (keep : Bool) :
    Charts isStatic none pure (if keep && !isStatic then {[.receiver]} else 1)
      (selfRef span keep) := by
  constructor
  intro g hg
  refine ensures_get_bind ?_
  dsimp only
  rw [hg.isStatic]
  cases isStatic with
  | true => exact ensures_throw_bind trivial
  | false =>
    refine ensures_pure_bind ?_
    split
    · exact ensures_throw trivial
    · cases keep with
      | false => exact (Charts.pure _).run hg
      | true => exact (Charts.loadInstance.before fun _ ↦ .pure _).run hg

/-- A local that is not wanted is not loaded. -/
theorem charts_readLocal (name : String) (span : Span) (keep : Bool) :
    Charts isStatic none (.read name) (if keep then {[.read name]} else 1)
      (readLocal name span keep) := by
  constructor
  intro g _
  refine ensures_get_bind ?_
  split
  · exact ensures_throw trivial
  · next scope hscope =>
    have hlocals : g.session.locals = scope.locals := by simp [Session.locals, hscope]
    split
    · exact ensures_throw trivial
    · next v hv =>
      cases keep with
      | false => exact ensures_pure (.skip g name)
      | true => exact ensures_emit_bind (ensures_pure (.read (hlocals ▸ hv)))

/-- The slots of a store are those that the name has from then on. -/
theorem charts_store (name : String) (type : MachineType) (span : Span) (keep : Bool)
    (result : MachineType) : Charts isStatic none (.write name) {[.write name]} (do
      let v ← onSession <|
        SessionM.declareLocal (.misuse span .localOutsideMethod) (·.declareStore name type span)
      if keep then emit (.dup v.kind)
      emit (.store v.kind v.slot)
      pure result) := by
  constructor
  intro g _
  have hdeclare : Yields (onSession (SessionM.declareLocal (.misuse span .localOutsideMethod)
      (·.declareStore name type span))) g fun v g' ↦ ∃ l,
        g.session.locals.declareStore name type span = .ok (v, l) ∧
        (g.session.withLocals l).locals = l ∧
          g' = { g with session := g.session.withLocals l } := by
    refine ensures_onSession (SessionM.ensures_declareLocal (fun v l hstore hl ↦ ?_)
      (fun _ _ ↦ trivial) fun _ ↦ trivial)
    exact ⟨l, hstore, hl, rfl⟩
  refine ensures_bind hdeclare ?_
  rintro v _ ⟨l, hstore, hl, rfl⟩
  cases keep with
  | false => exact ensures_emit_bind (ensures_pure (.write hstore hl))
  | true =>
    refine ensures_emit_bind (ensures_emit_bind (ensures_pure ?_))
    have hdup : Course isStatic none pure 1 g { g with asm := g.asm.emit (.dup v.kind) } :=
      .neutral g ⟨rfl, rfl, rfl⟩
    exact hdup.before (.write hstore hl)

/-- An assignment charts its value and then the store. -/
theorem charts_assign {valueCode : Destination → Gen MachineType} {as : Bool → Language Access}
    (hvalue : ChartsFor isStatic valueCode f as) (name : String) (value : Node) (type : SourceType)
    (span : Span) (keep : Bool) : Charts isStatic none (f >=> Tracker.Step.write name)
      (as true * {[.write name]}) (assign name value type span valueCode keep) := by
  have hrest : ∀ type : MachineType, type ≠ .void →
      Charts isStatic none (f >=> Tracker.Step.write name) (as true * {[.write name]}) (do
        receive type value.span valueCode
        let v ← onSession <|
          SessionM.declareLocal (.misuse span .localOutsideMethod) (·.declareStore name type span)
        if keep then emit (.dup v.kind)
        emit (.store v.kind v.slot)
        pure (if keep then type else .void)) := fun type htype ↦
    (charts_receive_value hvalue htype _).bind fun _ ↦ charts_store name type span keep _
  refine .query fun declared _ ↦ ?_
  dsimp only
  split
  · exact .query fun type ⟨_, _, htype⟩ ↦ hrest type (Session.valueType_ne_void htype)
  · next hvoid => exact hrest declared fun heq ↦ hvoid (MachineType.isVoid_iff.2 heq)

end ScriptBytecode.Gen

import ScriptBytecode.Proofs.Defined.Actions

/-!
# What constructs define

Calls, conditions and stores define what their operands do: the receiver first, then the arguments.
Of definitions it is shown here that they define themselves and then what stands within them.

There is one lemma for each construct; it takes what the parts define and yields what the construct
defines (`defines_call`, `defines_callSelf`, `defines_compare`, `defines_assign`).

None of the instructions of a construct defines anything, so these lemmas only have to follow the
order in which the codes of the parts stand. `defines_call` is the one with a case to tell apart: of
a receiver that is a type no code is emitted, and then what stands within the receiver is not
compiled at all.
-/

namespace ScriptBytecode

namespace Gen

variable {owner : Owner} {ds ds' : List Definition}

/-! ### Calls -/

section Calls

variable {receiver : Node} {args : List Node} {receiverCode : Destination → Gen MachineType}
  {argsCode : ArgsCode}

/-- A construction defines what its arguments do. -/
theorem defines_construct (hargs : DefinesArgs args.length argsCode owner ds) (cls : ClassRef)
    (span : Span) (keep : Bool) : Defines (construct cls args span argsCode keep) owner ds := by
  refine (defines_query _).after fun types ↦ (defines_query _).after fun m ↦ ?_
  refine (defines_emit _).after fun _ ↦ (defines_emit _).after fun _ ↦ ?_
  refine (defines_passArgs hargs _).before fun _ ↦ ?_
  exact (defines_emit _).after fun _ ↦ defines_settle ..

theorem defines_callStatic (hargs : DefinesArgs args.length argsCode owner ds) (cls : ClassRef)
    (name : String) (span : Span) (keep : Bool) :
    Defines (callStatic cls name args span argsCode keep) owner ds := by
  refine (defines_query _).after fun types ↦ (defines_query _).after fun m ↦ ?_
  refine (defines_passArgs hargs _).before fun _ ↦ ?_
  exact (defines_emit _).after fun _ ↦ defines_settle ..

/-- A call with a receiver defines what the receiver does, and then what the arguments do. -/
theorem defines_callInstance (hreceiver : DefinesFor receiverCode owner ds)
    (hargs : DefinesArgs args.length argsCode owner ds') (receiverType : MachineType)
    (name : String) (span : Span) (keep : Bool) :
    Defines (callInstance receiver receiverType name args span receiverCode argsCode keep) owner
      (ds ++ ds') := by
  refine (defines_query _).after fun cls ↦ ?_
  refine (defines_query _).after fun types ↦ (defines_query _).after fun m ↦ ?_
  refine (defines_receive hreceiver ..).bind fun _ ↦ ?_
  have hrest : Defines (do
      passArgs args argsCode m.params
      emit (invocation cls m)
      if m.returnType.isVoid && keep then pure receiverType
      else settle m.returnType keep) owner ds' := by
    refine (defines_passArgs hargs _).before fun _ ↦ (defines_emit _).after fun _ ↦ ?_
    exact .ite (.pure _) (defines_settle ..)
  exact .ite ((defines_emit _).after fun _ ↦ hrest) hrest

/-- So does an operator on numbers. -/
theorem defines_calculate (hreceiver : DefinesFor receiverCode owner ds)
    (hargs : DefinesArgs args.length argsCode owner ds') (width : Width) (name : String)
    (span : Span) (keep : Bool) :
    Defines (calculate receiver width name args span receiverCode argsCode keep) owner
      (ds ++ ds') := by
  refine (defines_query _).after fun types ↦ (defines_query _).after fun plan ↦ ?_
  refine (defines_receive hreceiver ..).bind fun _ ↦ ?_
  have hoperation : Defines (do
      emit plan.operation
      settle plan.width.type keep) owner [] :=
    (defines_emit _).after fun _ ↦ defines_settle ..
  have hrest : Defines (do
      passArgs args argsCode types
      if plan.widenArgument then emit .i2l
      emit plan.operation
      settle plan.width.type keep) owner ds' := by
    refine (defines_passArgs hargs _).before fun _ ↦ ?_
    exact .ite ((defines_emit _).after fun _ ↦ hoperation) hoperation
  exact .ite ((defines_emit _).after fun _ ↦ hrest) hrest

/-- A receiver that is a type is not compiled. -/
theorem defines_call (hreceiver : DefinesFor receiverCode owner ds)
    (hargs : DefinesArgs args.length argsCode owner ds') (name : String) (span : Span)
    (keep : Bool) : Defines (call receiver name args span receiverCode argsCode keep) owner
      ((if receiver.type.isMeta then [] else ds) ++ ds') := by
  unfold call
  split
  · refine (defines_query _).after fun cls ↦ ?_
    exact .ite (defines_construct hargs ..) (defines_callStatic hargs ..)
  · refine (defines_query _).after fun receiverType ↦ ?_
    split
    · exact defines_calculate hreceiver hargs ..
    · exact defines_callInstance hreceiver hargs ..

/-- A call without a receiver defines what its arguments do. -/
theorem defines_callSelf (hargs : DefinesArgs args.length argsCode owner ds) (name : String)
    (span : Span) (keep : Bool) : Defines (callSelf name args span argsCode keep) owner ds := by
  refine (defines_query _).after fun callee ↦ ?_
  obtain ⟨cls, m⟩ := callee
  refine .ite ?_ ?_
  · refine (defines_passArgs hargs _).before fun _ ↦ ?_
    exact (defines_emit _).after fun _ ↦ defines_settle ..
  · have hrest : Defines (do
        passArgs args argsCode m.params
        emit (.invokeVirtual m.toRef)
        if m.returnType.isVoid && keep then pure (.ref cls)
        else settle m.returnType keep) owner ds := by
      refine (defines_passArgs hargs _).before fun _ ↦ (defines_emit _).after fun _ ↦ ?_
      exact .ite (.pure _) (defines_settle ..)
    refine (defines_emit _).after fun _ ↦ ?_
    exact .ite ((defines_emit _).after fun _ ↦ hrest) hrest

/-- A comparison defines what its operands do. -/
theorem defines_compare (hreceiver : DefinesFor receiverCode owner ds)
    (hargs : DefinesArgs args.length argsCode owner ds') (test : Condition) (operator : String)
    (span : Span) (sense : Bool) (target : Label) :
    Defines (compare test receiver operator args span receiverCode argsCode sense target) owner
      (ds ++ ds') := by
  unfold compare
  split
  · next right =>
    refine (defines_query _).after fun leftType ↦ (defines_query _).after fun rightType ↦ ?_
    have hright : Defines (argsCode [rightType]) owner ds' := hargs _ rfl
    dsimp only
    split
    · exact .throw _
    · refine (defines_receive hreceiver ..).bind fun _ ↦ ?_
      exact hright.before fun _ ↦ defines_emit _
    · -- Either operand may be widened or not, which defines nothing; what follows is the same.
      next widenLeft widenRight _ =>
      refine (defines_receive hreceiver ..).bind fun _ ↦ ?_
      have hjump : Defines (do
          emit .lcmp
          emit (.jumpIf (if sense then test else test.negate) target)) owner [] :=
        (defines_emit _).after fun _ ↦ defines_emit _
      have hrest : Defines (do
          argsCode [rightType]
          if widenRight then emit .i2l
          emit .lcmp
          emit (.jumpIf (if sense then test else test.negate) target)) owner ds' := by
        refine hright.before fun _ ↦ ?_
        exact .ite ((defines_emit _).after fun _ ↦ hjump) hjump
      exact .ite ((defines_emit _).after fun _ ↦ hrest) hrest
  · exact .throw _

end Calls

/-! ### Constants, the receiver and locals -/

theorem defines_literal (value : Literal) (type : SourceType) (span : Span) (keep : Bool) :
    Defines (literal value type span keep) owner [] := by
  refine .ite (.pure _) ?_
  cases value with
  | null =>
    refine (defines_query _).after fun _ ↦ ?_
    exact (defines_emit _).after fun _ ↦ .pure _
  | _ => exact (defines_emit _).after fun _ ↦ .pure _

theorem defines_selfRef (span : Span) (keep : Bool) : Defines (selfRef span keep) owner [] := by
  refine .get fun g ↦ .ite (.throw _) ?_
  dsimp only
  split
  · exact .throw _
  · exact .ite ((defines_emit _).after fun _ ↦ .pure _) (.pure _)

theorem defines_readLocal (name : String) (span : Span) (keep : Bool) :
    Defines (readLocal name span keep) owner [] := by
  refine .get fun g ↦ ?_
  split
  · exact .throw _
  · split
    · exact .throw _
    · exact .ite ((defines_emit _).after fun _ ↦ .pure _) (.pure _)

/-- A store defines what the code of its value does. -/
theorem defines_assign {valueCode : Destination → Gen MachineType}
    (hvalue : DefinesFor valueCode owner ds) (name : String) (value : Node) (type : SourceType)
    (span : Span) (keep : Bool) :
    Defines (assign name value type span valueCode keep) owner ds := by
  have hstore : ∀ v : LocalVar, ∀ type : MachineType, Defines (do
      emit (.store v.kind v.slot)
      pure (if keep then type else .void)) owner [] := fun v type ↦
    (defines_emit _).after fun _ ↦ .pure _
  have hrest : ∀ type : MachineType, Defines (do
      receive type value.span valueCode
      let v ← onSession <|
        SessionM.declareLocal (.misuse span .localOutsideMethod) (·.declareStore name type span)
      if keep then emit (.dup v.kind)
      emit (.store v.kind v.slot)
      pure (if keep then type else .void)) owner ds := fun type ↦ by
    refine (defines_receive hvalue ..).before fun _ ↦ ?_
    refine (defines_onSession (SessionM.defines_declareLocal ..)).after fun v ↦ ?_
    exact .ite ((defines_emit _).after fun _ ↦ hstore v type) (hstore v type)
  refine (defines_query _).after fun declared ↦ ?_
  exact .ite ((defines_query _).after hrest) (hrest declared)

end Gen

end ScriptBytecode

import ScriptBytecode.Proofs.Discipline.Basic
import ScriptBytecode.Proofs.Operands
import ScriptBytecode.Proofs.Resolution

/-!
# Constructs under a discipline

The code of a construct has the property of a discipline if the code of its parts has it. For calls
this takes that the instruction which is emitted names the member that the call has resolved to.

In `callInstance`, `callStatic`, `callSelf` and `construct` the member that is called is found; all
other constructs only put together what `Discipline` lists.

The hypotheses are `For` the parts: whatever a part is compiled for, its code has the property. What
is proved is of the same form, so the cases of the induction over nodes only apply these lemmas.

Whether a load or a store may be emitted is a question that only the steps for locals and for the
receiver ask (`Discipline.readLocal`, `Discipline.storeLocal`, `Discipline.loadReceiver`); every
other instruction is no access to a local, and `isAccess_invocation` says so of the invocations.
-/

namespace ScriptBytecode.Discipline

variable {t : Setting} {ok : Node → Bool} {P : (α : Type) → Place → Gen α → Prop}
  {Q D : (α : Type) → Place → SessionM α → Prop} {place : Place}

/-! ### Emission -/

/-- An instruction that neither calls a member nor accesses a local may always be emitted. -/
theorem emitPlain (h : Discipline t ok P Q D) {i : Instruction} (hi : i.isInvocation = false)
    (haccess : i.isAccess = false) : P Unit place (Gen.emit i) :=
  h.emit (.plain hi) haccess

/-- Instructions may be emitted one after another. -/
theorem emitAll (h : Discipline t ok P Q D) {is : List Instruction}
    (his : ∀ i ∈ is, P Unit place (Gen.emit i)) : P PUnit place (Gen.emitAll is) := by
  induction is with
  | nil => exact h.gen.pure _
  | cons i is ih =>
    refine h.gen.bind (his i (List.mem_cons_self ..)) fun _ ↦ ?_
    exact ih fun i hi ↦ his i (List.mem_cons_of_mem _ hi)

theorem defaultValue (h : Discipline t ok P Q D) (type : MachineType) :
    P Unit place (Gen.emit (Gen.defaultValue type)) := by
  unfold Gen.defaultValue
  split <;> exact h.emitPlain rfl rfl

theorem placeholder (h : Discipline t ok P Q D) (type : MachineType) :
    P MachineType place (Gen.placeholder type) :=
  h.gen.bind (h.defaultValue type) fun _ ↦ h.gen.pure _

/-- A value is settled by at most one instruction, whether it is wanted or not. -/
theorem settle (h : Discipline t ok P Q D) (produced : MachineType) (keep : Bool) :
    P MachineType place (Gen.settle produced keep) := by
  unfold Gen.settle
  split
  · exact h.placeholder _
  · exact h.gen.pure _
  · exact h.gen.pure _
  · exact h.gen.bind (h.emitPlain rfl rfl) fun _ ↦ h.gen.pure _

theorem settleVoid (h : Discipline t ok P Q D) (type : MachineType) (keep : Bool) :
    P MachineType place (Gen.settleVoid type keep) :=
  Sequential.ite (h.placeholder _) (h.gen.pure _)

/-- A value is converted by at most one instruction, or cannot be converted. -/
theorem coerce (h : Discipline t ok P Q D) (actual target : MachineType) (span : Span) :
    P PUnit place (Gen.coerce actual target span) := by
  have hcode : ∀ conversion : Conversion, P PUnit place (Gen.emitAll conversion.code) := by
    intro conversion
    refine h.emitAll fun i hi ↦ ?_
    cases conversion with
    | widen =>
      obtain rfl := List.mem_singleton.1 hi
      exact h.emitPlain rfl rfl
    | _ => cases hi
  let next (conversion : Option Conversion) : Gen PUnit :=
    conversion.elim
      (if actual.kind? = some .reference ∧ target.kind? = some .reference then Pure.pure ⟨⟩
      else throw (.misuse span (.typeMismatch actual target)))
      fun conversion ↦ Gen.emitAll conversion.code
  have heq : Gen.coerce actual target span = MonadState.get >>= fun g ↦
      next (g.session.classes.conversion? actual target) := by
    refine congrArg (MonadState.get >>= ·) (funext fun g ↦ ?_)
    cases g.session.classes.conversion? actual target <;> rfl
  rw [heq]
  refine h.gen.get (·.classes.conversion? actual target) next (fun _ _ hs ↦ hs.conversion? _ _) ?_
  intro conversion _
  cases conversion with
  | none => exact Sequential.ite (h.gen.pure _) (h.gen.throw _)
  | some conversion => exact hcode conversion

/-! ### Parts -/

/-- Whatever it is compiled for, the code of a part has the property. -/
abbrev For (P : (α : Type) → Place → Gen α → Prop) (place : Place)
    (code : Destination → Gen MachineType) : Prop :=
  ∀ d, P MachineType place (code d)

/-- Whatever the parameter types are, the code of arguments has the property. -/
abbrev ForArgs (P : (α : Type) → Place → Gen α → Prop) (place : Place) (code : Gen.ArgsCode) :
    Prop :=
  ∀ params, P Unit place (code params)

/-- Code whose value is converted to the expected type is the code and the conversion. -/
theorem receive (h : Discipline t ok P Q D) {code : Destination → Gen MachineType}
    (hcode : For P place code) (target : MachineType) (span : Span) :
    P Unit place (Gen.receive target span code) := by
  refine Sequential.ite ?_ ?_
  · exact h.gen.bind (hcode .discard) fun _ ↦ h.gen.pure _
  · exact h.gen.bind (hcode .push) fun _ ↦ h.coerce ..

/-- Code that is asked for a value or none may be delivered to any destination. -/
theorem deliver (h : Discipline t ok P Q D) (n : Node) {code : Bool → Gen MachineType}
    (hcode : ∀ keep, P MachineType place (code keep)) : For P place (Gen.deliver n · code) := by
  intro d
  cases d with
  | discard => exact hcode false
  | push => exact hcode true
  | jump sense target =>
    refine h.query (.valueType n) fun type _ ↦ ?_
    refine Sequential.ite ?_ (h.gen.throw _)
    refine h.gen.bind (hcode true) fun actual ↦ ?_
    refine h.gen.bind (h.coerce ..) fun _ ↦ ?_
    exact h.gen.bind (h.emitPlain rfl rfl) fun _ ↦ h.gen.pure _

/-- Arguments are passed one by one, each converted to the type of its parameter. -/
theorem passArgs (h : Discipline t ok P Q D) {code : Gen.ArgsCode} (hcode : ForArgs P place code)
    (args : List Node) (params : List MachineType) :
    P Unit place (Gen.passArgs args code params) :=
  Sequential.ite (hcode params) (h.gen.throw _)

/-! ### Calls -/

section Calls

variable {receiver : Node} {args : List Node} {receiverCode : Destination → Gen MachineType}
  {argsCode : Gen.ArgsCode}

/-- What a call resolves to is read from the classes that are known. -/
theorem resolve (h : Discipline t ok P Q D) {α : Type} (cls : ClassRef) (name : String)
    (types : List MachineType) (isStatic : Bool) (span : Span) {next : Member → Gen α}
    (hnext : ∀ m, t.classes.resolve cls name types isStatic span = .ok m → P α place (next m)) :
    P α place (Gen.resolve cls name types isStatic span >>= next) := by
  refine h.query (.resolve ..) ?_
  rintro m ⟨s, hs, hm⟩
  exact hnext m (hs.classes ▸ hm)

/-- To construct an object emits a call of the constructor that has been resolved. -/
theorem construct (h : Discipline t ok P Q D) (hargs : ForArgs P place argsCode) (cls : ClassRef)
    (span : Span) (keep : Bool) :
    P MachineType place (Gen.construct cls args span argsCode keep) := by
  refine h.query (.valueTypes args) fun types _ ↦ ?_
  refine h.resolve cls constructorName types false span fun m hm ↦ ?_
  refine h.gen.bind (h.emitPlain rfl rfl) fun _ ↦ h.gen.bind (h.emitPlain rfl rfl) fun _ ↦ ?_
  refine h.gen.bind (h.passArgs hargs ..) fun _ ↦ ?_
  exact h.gen.bind (h.emit (.ofConstructor hm) rfl) fun _ ↦ h.settle ..

/-- To call a static member emits a call of the member that has been resolved. -/
theorem callStatic (h : Discipline t ok P Q D) {n : Node} {name : String} (hn : ok n = true)
    (hname : n.calledName? = some name) (hargs : ForArgs P place argsCode) (cls : ClassRef)
    (span : Span) (keep : Bool) :
    P MachineType place (Gen.callStatic cls name args span argsCode keep) := by
  refine h.query (.valueTypes args) fun types _ ↦ ?_
  refine h.resolve cls name types true span fun m hm ↦ ?_
  refine h.gen.bind (h.passArgs hargs ..) fun _ ↦ ?_
  exact h.gen.bind (h.emit (.ofStatic hn hname hm) rfl) fun _ ↦ h.settle ..

/-- To invoke a member is not to access a local. -/
theorem isAccess_invocation (cls : ClassRef) (m : Member) :
    (Gen.invocation cls m).isAccess = false := by
  unfold Gen.invocation
  split <;> rfl

/-- To call an instance member emits a call of the member that has been resolved, on the class of
the receiver. -/
theorem callInstance (h : Discipline t ok P Q D) {receiverType : MachineType} {name : String}
    {span : Span} (hcall : ∀ {cls : ClassRef} {types : List MachineType} {m : Member},
      Session.receiverClass receiverType name span = .ok cls →
      t.classes.resolve cls name types false span = .ok m → t.Calls (ok · = true) place cls m)
    (hreceiver : For P place receiverCode) (hargs : ForArgs P place argsCode) (keep : Bool) :
    P MachineType place
      (Gen.callInstance receiver receiverType name args span receiverCode argsCode keep) := by
  refine h.query (.const _) ?_
  rintro cls ⟨-, -, hcls⟩
  refine h.query (.valueTypes args) fun types _ ↦ ?_
  refine h.resolve cls name types false span fun m hm ↦ ?_
  refine h.gen.bind (h.receive hreceiver ..) fun _ ↦ ?_
  have hrest : P MachineType place (do
      Gen.passArgs args argsCode m.params
      Gen.emit (Gen.invocation cls m)
      if m.returnType.isVoid && keep then pure receiverType
      else Gen.settle m.returnType keep) := by
    refine h.gen.bind (h.passArgs hargs ..) fun _ ↦ ?_
    have hinvoke := h.emit (.ofInstance (hcall hcls hm)) (isAccess_invocation cls m)
    refine h.gen.bind hinvoke fun _ ↦ ?_
    exact Sequential.ite (h.gen.pure _) (h.settle ..)
  exact Sequential.ite (h.gen.bind (h.emitPlain rfl rfl) fun _ ↦ hrest) hrest

/-- A planned operation of arithmetic is one of the plain instructions. -/
theorem operation (h : Discipline t ok P Q D) {width : Width} {name : String}
    {types : List MachineType} {span : Span} {plan : Arithmetic.Plan}
    (hplan : Arithmetic.plan width name types span = .ok plan) :
    P Unit place (Gen.emit plan.operation) := by
  obtain ⟨type, v, -, -, hoperation, -⟩ := Arithmetic.plan_eq_ok hplan
  unfold Arithmetic.operation? at hoperation
  split at hoperation
  · rw [← Option.some.inj hoperation]
    cases width.max v <;> exact h.emitPlain rfl rfl
  · rw [← Option.some.inj hoperation]
    cases width.max v <;> exact h.emitPlain rfl rfl
  · cases hoperation

/-- Arithmetic is the code of both operands and the operation. -/
theorem calculate (h : Discipline t ok P Q D) (hreceiver : For P place receiverCode)
    (hargs : ForArgs P place argsCode) (width : Width) (name : String) (span : Span) (keep : Bool) :
    P MachineType place
      (Gen.calculate receiver width name args span receiverCode argsCode keep) := by
  refine h.query (.valueTypes args) fun types _ ↦ h.query (.const _) ?_
  rintro plan ⟨s, -, hplan⟩
  refine h.gen.bind (h.receive hreceiver ..) fun _ ↦ ?_
  have hoperation : P MachineType place (do
      Gen.emit plan.operation
      Gen.settle plan.width.type keep) :=
    h.gen.bind (h.operation hplan) fun _ ↦ h.settle ..
  have hrest : P MachineType place (do
      Gen.passArgs args argsCode types
      if plan.widenArgument then Gen.emit .i2l
      Gen.emit plan.operation
      Gen.settle plan.width.type keep) := by
    refine h.gen.bind (h.passArgs hargs ..) fun _ ↦ ?_
    exact Sequential.ite (h.gen.bind (h.emitPlain rfl rfl) fun _ ↦ hoperation) hoperation
  exact Sequential.ite (h.gen.bind (h.emitPlain rfl rfl) fun _ ↦ hrest) hrest

/-- A call on a receiver, whichever of the three kinds it is. -/
theorem call (h : Discipline t ok P Q D) {name : String} {type : SourceType} {span : Span}
    (hok : ok (.call receiver name args type span) = true) (hreceiver : For P place receiverCode)
    (hargs : ForArgs P place argsCode) (keep : Bool) :
    P MachineType place (Gen.call receiver name args span receiverCode argsCode keep) := by
  unfold Gen.call
  split
  · refine h.query (.metaClass ..) fun cls _ ↦ ?_
    exact Sequential.ite (h.construct hargs ..) (h.callStatic hok rfl hargs ..)
  · next hmeta =>
    refine h.query (.valueType receiver) ?_
    rintro receiverType ⟨s, hs, htype⟩
    split
    · exact h.calculate hreceiver hargs ..
    · refine h.callInstance (fun hcls hm ↦ ?_) hreceiver hargs keep
      exact .intro hok (Bool.eq_false_iff.2 hmeta) hs htype hcls hm

/-- A call without receiver, of a static or of an instance member of the class. -/
theorem callSelf (h : Discipline t ok P Q D) {name : String} {type : SourceType} {span : Span}
    (hok : ok (.selfCall name args type span) = true) (hargs : ForArgs P place argsCode)
    (keep : Bool) : P MachineType place (Gen.callSelf name args span argsCode keep) := by
  refine h.query (.selfCallee name (.valueTypes args) span) ?_
  rintro ⟨cls, m⟩ ⟨s, hs, hcallee⟩
  obtain ⟨scope, types, isStatic, hscope, rfl, -, hm, hstaticOnly⟩ :=
    Session.resolve_of_selfCallee hcallee
  have howner : scope.cls.name = place.name := by
    obtain ⟨c, hc, hname, -⟩ := hs.within
    rw [hscope] at hc
    rw [Option.some.inj hc, hname]
  have hemit := h.emit (.ofSelf (.intro hok howner (hs.classes ▸ hm)))
  dsimp only
  split
  · next hstatic =>
    rw [if_pos hstatic] at hemit
    refine h.gen.bind (h.passArgs hargs ..) fun _ ↦ ?_
    exact h.gen.bind (hemit rfl) fun _ ↦ h.settle ..
  · next hstatic =>
    rw [if_neg hstatic] at hemit
    have hrest : P MachineType place (do
        Gen.passArgs args argsCode m.params
        Gen.emit (.invokeVirtual m.toRef)
        if m.returnType.isVoid && keep then pure (.ref scope.cls)
        else Gen.settle m.returnType keep) := by
      refine h.gen.bind (h.passArgs hargs ..) fun _ ↦ h.gen.bind (hemit rfl) fun _ ↦ ?_
      exact Sequential.ite (h.gen.pure _) (h.settle ..)
    have hload : P Unit place (Gen.emit (.load .reference 0)) := by
      -- without an instance, only a constructor is not static
      refine h.loadReceiver fun hplace ↦ ⟨_, hok, congrArg some ?_⟩
      refine Classical.byContradiction fun hreserved ↦ ?_
      obtain ⟨-, e, -, -, -, hflags⟩ := ClassTable.method_of_resolve hreserved hm
      rw [hstaticOnly (hs.isStatic.trans hplace)] at hflags
      exact hstatic hflags
    refine h.gen.bind hload fun _ ↦ ?_
    exact Sequential.ite (h.gen.bind (h.emitPlain rfl rfl) fun _ ↦ hrest) hrest

/-- A comparison is the code of both sides and a branch. -/
theorem compare (h : Discipline t ok P Q D) (hreceiver : For P place receiverCode)
    (hargs : ForArgs P place argsCode) (test : Condition) (operator : String) (span : Span)
    (sense : Bool) (target : Label) : P Unit place
      (Gen.compare test receiver operator args span receiverCode argsCode sense target) := by
  unfold Gen.compare
  split
  · next right =>
    refine h.query (.valueType receiver) fun leftType _ ↦ ?_
    refine h.query (.valueType right) fun rightType _ ↦ ?_
    dsimp only
    split
    · exact h.gen.throw _
    · refine h.gen.bind (h.receive hreceiver ..) fun _ ↦ ?_
      exact h.gen.bind (hargs _) fun _ ↦ h.emitPlain rfl rfl
    · next widenLeft widenRight _ =>
      refine h.gen.bind (h.receive hreceiver ..) fun _ ↦ ?_
      have hjump : P Unit place (do
          Gen.emit .lcmp
          Gen.emit (.jumpIf (if sense then test else test.negate) target)) :=
        h.gen.bind (h.emitPlain rfl rfl) fun _ ↦ h.emitPlain rfl rfl
      have hrest : P Unit place (do
          argsCode [rightType]
          if widenRight then Gen.emit .i2l
          Gen.emit .lcmp
          Gen.emit (.jumpIf (if sense then test else test.negate) target)) := by
        refine h.gen.bind (hargs _) fun _ ↦ ?_
        exact Sequential.ite (h.gen.bind (h.emitPlain rfl rfl) fun _ ↦ hjump) hjump
      exact Sequential.ite (h.gen.bind (h.emitPlain rfl rfl) fun _ ↦ hrest) hrest
  · exact h.gen.throw _

end Calls

/-! ### Constants, the receiver and stores -/

/-- A literal is at most one instruction. -/
theorem literal (h : Discipline t ok P Q D) (value : Literal) (type : SourceType) (span : Span)
    (keep : Bool) : P MachineType place (Gen.literal value type span keep) := by
  refine Sequential.ite (h.gen.pure _) ?_
  cases value with
  | null =>
    refine h.query (.typeOf type span) fun _ _ ↦ ?_
    exact h.gen.bind (h.emitPlain rfl rfl) fun _ ↦ h.gen.pure _
  | _ => exact h.gen.bind (h.emitPlain rfl rfl) fun _ ↦ h.gen.pure _

/-- The receiver is read where there is one. -/
theorem selfRef (h : Discipline t ok P Q D) (span : Span) (keep : Bool) :
    P MachineType place (Gen.selfRef span keep) := by
  -- of the current class only its name is used, and not the methods that it has so far
  let load (cls : Option ClassRef) : Gen MachineType :=
    cls.elim (throw (.misuse span .selfOutsideClass)) fun cls ↦
      if keep then do
        Gen.emit (.load .reference 0)
        pure (.ref cls)
      else pure .void
  let next (read : Bool × Option ClassRef) : Gen MachineType :=
    if read.1 then throw (.misuse span .selfInStatic) else load read.2
  have hload : ∀ cls, place.isStatic = false → P MachineType place (load cls) := by
    intro cls hplace
    cases cls with
    | none => exact h.gen.throw _
    | some cls =>
      have hreceiver := h.loadReceiver fun hstatic ↦ absurd hstatic (Bool.eq_false_iff.1 hplace)
      exact Sequential.ite (h.gen.bind hreceiver fun _ ↦ h.gen.pure _) (h.gen.pure _)
  have heq : Gen.selfRef span keep = MonadState.get >>= fun g ↦
      next (g.session.scopes.isStatic, g.session.scopes.currentClass?.map (·.cls)) := by
    refine congrArg (MonadState.get >>= ·) (funext fun g ↦ ?_)
    dsimp only
    cases g.session.scopes.isStatic <;> cases g.session.scopes.currentClass? <;> rfl
  rw [heq]
  refine h.gen.get (fun s ↦ (s.scopes.isStatic, s.scopes.currentClass?.map (·.cls))) next
    (fun s s' hs ↦ ?_) ?_
  · rw [hs.isStatic, hs.map_currentClass? fun _ ↦ rfl]
  · rintro ⟨isStatic, cls⟩ ⟨s, hs, hread⟩
    obtain ⟨hstatic, -⟩ := Prod.mk.inj hread
    cases isStatic with
    | true => exact h.gen.throw _
    | false => exact hload cls (hs.isStatic.symm.trans hstatic)

/-- An assignment is the code of the value and a store, if the node is one that may be compiled
here. -/
theorem assign (h : Discipline t ok P Q D) {n : Node} {name : String} (hn : ok n = true)
    (hname : n.storedName? = some name) {valueCode : Destination → Gen MachineType}
    (hvalue : For P place valueCode) (value : Node) (type : SourceType) (span : Span)
    (keep : Bool) :
    P MachineType place (Gen.assign name value type span valueCode keep) := by
  have hrest : ∀ type : MachineType, P MachineType place (do
      Gen.receive type value.span valueCode
      let v ← Gen.onSession <|
        SessionM.declareLocal (.misuse span .localOutsideMethod) (·.declareStore name type span)
      if keep then Gen.emit (.dup v.kind)
      Gen.emit (.store v.kind v.slot)
      pure (if keep then type else .void)) := by
    intro type
    refine h.gen.bind (h.receive hvalue ..) fun _ ↦ ?_
    exact h.storeLocal hn hname (.misuse span .localOutsideMethod) type span keep (h.gen.pure _)
  refine h.query (.typeOf type span) fun declared _ ↦ ?_
  exact Sequential.ite (h.query (.valueType value) fun type _ ↦ hrest type) (hrest declared)

end ScriptBytecode.Discipline

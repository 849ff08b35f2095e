import ScriptBytecode.Compile.Calls
import ScriptBytecode.Proofs.Recast.Readings

/-!
# Constructs in a changed session

Where a change is faithful, the code of a construct is the same in the changed session if the code
of its parts is. The types that are found on the way are familiar, so the conversions between them
are the same, and so are the members that calls resolve to.

There is one lemma for each construct, as for disciplines; here each of them also says that the type
which the code leaves is familiar.

The assembler knows nothing of classes and options, so emitting instructions carries any change.
What matters is everything in between that looks something up, and each look-up has a hypothesis in
`Recast.Faithful` or a lemma about what is read.
-/

namespace ScriptBytecode.Recast

variable {r : Recast}

/-- Whatever it is compiled for, the code of a part carries the change. -/
abbrev For (r : Recast) (code : Destination → Gen MachineType) : Prop :=
  ∀ d, r.OnGen (code d) r.familiar

/-- For all parameters of familiar types, the code of arguments carries the change. -/
abbrev ForArgs (r : Recast) (code : Gen.ArgsCode) : Prop :=
  ∀ params, (∀ param ∈ params, r.familiar param) → r.OnGen (code params) fun _ ↦ True

/-! ### Emission -/

theorem onGen_emitAll (is : List Instruction) : r.OnGen (Gen.emitAll is) fun _ ↦ True := by
  induction is with
  | nil => exact .pure trivial
  | cons i is ih => exact (onGen_emit i).bind fun _ _ ↦ ih

/-- An instruction that may be left out is emitted before an action, or left out. -/
theorem onGen_emit_if {α : Type} {post : α → Prop} (c : Bool) (i : Instruction) {next : Gen α}
    (hnext : r.OnGen next post) : r.OnGen (do
      if c then Gen.emit i
      next) post :=
  .ite (fun _ ↦ (onGen_emit i).bind fun _ _ ↦ hnext) fun _ ↦ hnext

/-- Arguments are passed alike if their code is alike and their parameters are familiar. -/
theorem onGen_passArgs {code : Gen.ArgsCode} (hcode : r.ForArgs code) (args : List Node)
    {params : List MachineType} (hparams : ∀ param ∈ params, r.familiar param) :
    r.OnGen (Gen.passArgs args code params) fun _ ↦ True :=
  .ite (fun _ ↦ hcode params hparams) fun _ ↦ .throw _

/-! ### Locals -/

/-- A declaration carries the change if sessions in which it succeeds are still changed. -/
theorem onSession_declareLocal {outside : CompileError}
    {declare : Locals → Except CompileError (LocalVar × Locals)}
    (hvalid : ∀ {s : Session} {v : LocalVar} {l : Locals}, r.valid s →
      declare s.locals = .ok (v, l) → r.valid (s.withLocals l)) :
    r.OnSession (SessionM.declareLocal outside declare) fun _ ↦ True := by
  refine ⟨fun {s} hs ↦ ⟨?_, ?_⟩⟩
  · have hcurrent : (r.session s).scopes.currentMethod? = s.scopes.currentMethod? :=
      r.currentMethod?_scopes _
    have hmirrors : Mirrors r.session (SessionM.declareLocal outside declare) s
        fun _ _ ↦ True := by
      refine .get_bind (by rw [hcurrent]) ?_
      cases s.scopes.currentMethod? with
      | none => exact .throw outside
      | some scope =>
        dsimp only
        cases declare scope.locals with
        | error e => exact ⟨rfl, trivial⟩
        | ok declared =>
          have hlocals := (r.session_withLocals s declared.2).symm
          exact ⟨congrArg (EStateM.Result.ok declared.1) hlocals, trivial⟩
    exact hmirrors.same
  · exact SessionM.ensures_declareLocal (fun _ _ hl _ ↦ ⟨trivial, hvalid hs hl⟩)
      (fun _ _ ↦ trivial) fun _ ↦ trivial

namespace Faithful

variable (h : r.Faithful)

include h

/-! ### Values -/

theorem placeholder {type : MachineType} (htype : r.familiar type) :
    r.OnGen (Gen.placeholder type) r.familiar := by
  refine (onGen_emit _).bind fun _ _ ↦ .pure ?_
  split
  · exact h.object
  · exact htype

theorem settle {produced : MachineType} (hproduced : r.familiar produced) (keep : Bool) :
    r.OnGen (Gen.settle produced keep) r.familiar := by
  unfold Gen.settle
  split
  · exact h.placeholder hproduced
  · exact .pure h.void
  · exact .pure hproduced
  · exact (onGen_emit _).bind fun _ _ ↦ .pure h.void

theorem settleVoid {type : MachineType} (htype : r.familiar type) (keep : Bool) :
    r.OnGen (Gen.settleVoid type keep) r.familiar :=
  .ite (fun _ ↦ h.placeholder htype) fun _ ↦ .pure htype

/-- Familiar types convert alike. -/
theorem coerce {actual target : MachineType} (hactual : r.familiar actual)
    (htarget : r.familiar target) (span : Span) :
    r.OnGen (Gen.coerce actual target span) fun _ ↦ True := by
  refine ⟨fun {g} hg ↦ ?_⟩
  have hconversion : (r.gen g).session.classes.conversion? actual target =
      g.session.classes.conversion? actual target := h.conversion? hg hactual htarget
  refine .get_bind (by rw [hconversion]) ?_
  cases g.session.classes.conversion? actual target with
  | some conversion => exact (onGen_emitAll conversion.code).run hg
  | none =>
    have hnone : r.OnGen (if actual.kind? = some .reference ∧ target.kind? = some .reference
        then (Pure.pure ⟨⟩ : Gen PUnit)
        else MonadExcept.throw (.misuse span (.typeMismatch actual target)))
        fun _ ↦ True := .ite (fun _ ↦ .pure trivial) fun _ ↦ .throw _
    exact hnone.run hg

/-- A value is received alike if its type is familiar. -/
theorem receive {code : Destination → Gen MachineType} (hcode : r.For code) {target : MachineType}
    (htarget : r.familiar target) (span : Span) :
    r.OnGen (Gen.receive target span code) fun _ ↦ True := by
  refine .ite (fun _ ↦ ?_) fun _ ↦ ?_
  · exact (hcode .discard).bind fun _ _ ↦ .pure trivial
  · exact (hcode .push).bind fun _ hactual ↦ h.coerce hactual htarget span

/-- A node is delivered alike if what it names is allowed. -/
theorem deliver {n : Node} (hn : n.all (Node.names r.allows) = true)
    {code : Bool → Gen MachineType} (hcode : ∀ keep, r.OnGen (code keep) r.familiar) :
    r.For (Gen.deliver n · code) := by
  intro d
  cases d with
  | discard => exact hcode false
  | push => exact hcode true
  | jump sense target =>
    refine (h.valueType hn).onGen.bind fun type _ ↦ .ite (fun _ ↦ ?_) fun _ ↦ .throw _
    refine (hcode true).bind fun actual hactual ↦ ?_
    refine (h.coerce hactual h.boolean n.span).bind fun _ _ ↦ ?_
    exact (onGen_emit _).bind fun _ _ ↦ .pure h.void

/-! ### Calls -/

section Calls

variable {args : List Node} {argsCode : Gen.ArgsCode}
  (hargs : ∀ n ∈ args, n.all (Node.names r.allows) = true) (hcode : r.ForArgs argsCode)

include hargs hcode

/-- A construction is compiled alike if its class is familiar. -/
theorem construct {cls : ClassRef} (hcls : r.familiar (.ref cls)) (span : Span) (keep : Bool) :
    r.OnGen (Gen.construct cls args span argsCode keep) r.familiar := by
  refine (h.valueTypes hargs).onGen.bind fun types htypes ↦ ?_
  refine (h.resolve constructorName false span hcls htypes).onGen.bind fun m hm ↦ ?_
  refine (onGen_emit _).bind fun _ _ ↦ (onGen_emit _).bind fun _ _ ↦ ?_
  refine (onGen_passArgs hcode args hm.2).bind fun _ _ ↦ ?_
  exact (onGen_emit _).bind fun _ _ ↦ h.settle hcls keep

/-- So is a static call, -/
theorem callStatic {cls : ClassRef} (hcls : r.familiar (.ref cls)) (name : String) (span : Span)
    (keep : Bool) : r.OnGen (Gen.callStatic cls name args span argsCode keep) r.familiar := by
  refine (h.valueTypes hargs).onGen.bind fun types htypes ↦ ?_
  refine (h.resolve name true span hcls htypes).onGen.bind fun m hm ↦ ?_
  refine (onGen_passArgs hcode args hm.2).bind fun _ _ ↦ ?_
  exact (onGen_emit _).bind fun _ _ ↦ h.settle hm.1 keep

/-- and a call on an instance of a familiar type. -/
theorem callInstance {receiver : Node} {receiverType : MachineType}
    {receiverCode : Destination → Gen MachineType} (hreceiver : r.For receiverCode)
    (htype : r.familiar receiverType) (name : String) (span : Span) (keep : Bool) :
    r.OnGen (Gen.callInstance receiver receiverType name args span receiverCode argsCode keep)
      r.familiar := by
  refine (h.receiverClass htype name span).onGen.bind fun cls hcls ↦ ?_
  refine (h.valueTypes hargs).onGen.bind fun types htypes ↦ ?_
  refine (h.resolve name false span hcls htypes).onGen.bind fun m hm ↦ ?_
  refine (h.receive hreceiver htype receiver.span).bind fun _ _ ↦ onGen_emit_if _ _ ?_
  refine (onGen_passArgs hcode args hm.2).bind fun _ _ ↦ (onGen_emit _).bind fun _ _ ↦ ?_
  exact .ite (fun _ ↦ .pure htype) fun _ ↦ h.settle hm.1 keep

/-- Arithmetic is compiled alike if both operands are. -/
theorem calculate {receiver : Node} {receiverCode : Destination → Gen MachineType}
    (hreceiver : r.For receiverCode) (width : Width) (name : String) (span : Span) (keep : Bool) :
    r.OnGen (Gen.calculate receiver width name args span receiverCode argsCode keep)
      r.familiar := by
  refine (h.valueTypes hargs).onGen.bind fun types htypes ↦ ?_
  have hplan : r.Reads (fun _ ↦ Arithmetic.plan width name types span) fun _ ↦ True :=
    .const fun _ _ ↦ trivial
  refine hplan.onGen.bind fun plan _ ↦ ?_
  refine (h.receive hreceiver (h.width width) receiver.span).bind fun _ _ ↦ onGen_emit_if _ _ ?_
  refine (onGen_passArgs hcode args htypes).bind fun _ _ ↦ onGen_emit_if _ _ ?_
  exact (onGen_emit _).bind fun _ _ ↦ h.settle (h.width plan.width) keep

/-- A call on a receiver is compiled alike, whichever of the three kinds it is. -/
theorem call {receiver : Node} {receiverCode : Destination → Gen MachineType}
    (hnode : receiver.all (Node.names r.allows) = true) (hreceiver : r.For receiverCode)
    (name : String) (span : Span) (keep : Bool) :
    r.OnGen (Gen.call receiver name args span receiverCode argsCode keep) r.familiar := by
  refine .ite (fun _ ↦ ?_) fun _ ↦ ?_
  · refine (h.metaClass (Node.passes_of_all hnode) name span).onGen.bind fun cls hcls ↦ ?_
    exact .ite (fun _ ↦ h.construct hargs hcode hcls span keep)
      fun _ ↦ h.callStatic hargs hcode hcls name span keep
  · refine (h.valueType hnode).onGen.bind fun receiverType htype ↦ ?_
    split
    · exact h.calculate hargs hcode hreceiver _ name span keep
    · exact h.callInstance hargs hcode hreceiver htype name span keep

/-- So is a call without receiver. -/
theorem callSelf (name : String) (span : Span) (keep : Bool) :
    r.OnGen (Gen.callSelf name args span argsCode keep) r.familiar := by
  have hcallee := h.selfCallee name (h.valueTypes hargs) span
  refine hcallee.onGen.bind fun callee hfound ↦ ?_
  obtain ⟨hcls, hreturn, hparams⟩ := hfound
  refine .ite (fun _ ↦ ?_) fun _ ↦ ?_
  · refine (onGen_passArgs hcode args hparams).bind fun _ _ ↦ ?_
    exact (onGen_emit _).bind fun _ _ ↦ h.settle hreturn keep
  · refine (onGen_emit _).bind fun _ _ ↦ onGen_emit_if _ _ ?_
    refine (onGen_passArgs hcode args hparams).bind fun _ _ ↦ (onGen_emit _).bind fun _ _ ↦ ?_
    exact .ite (fun _ ↦ .pure hcls) fun _ ↦ h.settle hreturn keep

/-! ### Conditions -/

/-- A comparison is compiled alike if both sides are. -/
theorem compare {left : Node} {leftCode : Destination → Gen MachineType}
    (hnode : left.all (Node.names r.allows) = true) (hleft : r.For leftCode) (test : Condition)
    (operator : String) (span : Span) (sense : Bool) (target : Label) :
    r.OnGen (Gen.compare test left operator args span leftCode argsCode sense target)
      fun _ ↦ True := by
  unfold Gen.compare
  split
  · next right =>
    refine (h.valueType hnode).onGen.bind fun leftType hleftType ↦ ?_
    have hright := hargs right (List.mem_singleton_self _)
    refine (h.valueType hright).onGen.bind fun rightType hrightType ↦ ?_
    have hoperand : ∀ param ∈ [rightType], r.familiar param := fun param hparam ↦ by
      obtain rfl := List.mem_singleton.1 hparam
      exact hrightType
    dsimp only
    split
    · exact .throw _
    · refine (h.receive hleft hleftType left.span).bind fun _ _ ↦ ?_
      exact (hcode _ hoperand).bind fun _ _ ↦ onGen_emit _
    · refine (h.receive hleft hleftType left.span).bind fun _ _ ↦ onGen_emit_if _ _ ?_
      refine (hcode _ hoperand).bind fun _ _ ↦ onGen_emit_if _ _ ?_
      exact (onGen_emit _).bind fun _ _ ↦ onGen_emit _
  · exact .throw _

end Calls

/-! ### Constants, the receiver and locals -/

/-- A literal is compiled alike if its type is allowed. -/
theorem literal {type : SourceType}
    (htype : ∀ name ∈ type.mentioned, r.allows name = true) (value : Literal) (span : Span)
    (keep : Bool) : r.OnGen (Gen.literal value type span keep) r.familiar := by
  have hpush : ∀ (i : Instruction) {type : MachineType}, r.familiar type →
      r.OnGen (do
        Gen.emit i
        Pure.pure type) r.familiar := fun i _ htype ↦ (onGen_emit i).bind fun _ _ ↦ .pure htype
  refine .ite (fun _ ↦ .pure h.void) fun _ ↦ ?_
  cases value with
  | int n => exact hpush _ (h.width .narrow)
  | long n => exact hpush _ (h.width .wide)
  | bool b => exact hpush _ h.boolean
  | string text => exact hpush _ h.string
  | null =>
    refine (h.typeOf span htype).onGen.bind fun inferred hinferred ↦ hpush _ ?_
    split
    · exact hinferred
    · exact h.object

theorem selfRef (span : Span) (keep : Bool) : r.OnGen (Gen.selfRef span keep) r.familiar := by
  refine ⟨fun {g} hg ↦ ?_⟩
  have hstatic : (r.gen g).session.scopes.isStatic = g.session.scopes.isStatic :=
    r.isStatic_scopes _
  have hcurrent : (r.gen g).session.scopes.currentClass? =
      g.session.scopes.currentClass?.map r.classScope := r.currentClass?_scopes _
  -- The current class is the changed one, which `familiar` says nothing of unless there is one.
  cases hc : g.session.scopes.currentClass? with
  | none =>
    rw [hc] at hcurrent
    refine .get_bind ?_ ?_
    · dsimp only
      rw [hstatic, hcurrent, hc]
      rfl
    · dsimp only
      rw [hc]
      have hnone : r.OnGen (if g.session.scopes.isStatic then
          (MonadExcept.throw (.misuse span .selfInStatic) : Gen MachineType)
          else MonadExcept.throw (.misuse span .selfOutsideClass)) r.familiar :=
        .ite (fun _ ↦ .throw _) fun _ ↦ .throw _
      exact hnone.run hg
  | some c =>
    rw [hc] at hcurrent
    have hcls := (h.current hg hc).1
    refine .get_bind ?_ ?_
    · dsimp only
      rw [hstatic, hcurrent, hc]
      rfl
    · dsimp only
      rw [hc]
      have hsome : r.OnGen (if g.session.scopes.isStatic then
          (MonadExcept.throw (.misuse span .selfInStatic) : Gen MachineType)
          else if keep then do
            Gen.emit (.load .reference 0)
            Pure.pure (.ref c.cls)
          else Pure.pure .void) r.familiar :=
        .ite (fun _ ↦ .throw _) fun _ ↦
          .ite (fun _ ↦ (onGen_emit _).bind fun _ _ ↦ .pure hcls) fun _ ↦ .pure h.void
      exact hsome.run hg

theorem readLocal (name : String) (span : Span) (keep : Bool) :
    r.OnGen (Gen.readLocal name span keep) r.familiar := by
  refine ⟨fun {g} hg ↦ ?_⟩
  have hcurrent : (r.gen g).session.scopes.currentMethod? = g.session.scopes.currentMethod? :=
    r.currentMethod?_scopes _
  refine .get_bind (by rw [hcurrent]) ?_
  cases hscope : g.session.scopes.currentMethod? with
  | none => exact .throw _
  | some scope =>
    dsimp only
    cases hget : scope.locals.get? name with
    | none => exact .throw _
    | some v =>
      have hlocals : g.session.locals = scope.locals := by
        unfold Session.locals
        rw [hscope]
      have hv : r.familiar v.type := h.localType hg (by rw [hlocals]; exact hget)
      have hread : r.OnGen (if keep then do
          Gen.emit (.load v.kind v.slot)
          Pure.pure v.type
        else Pure.pure .void) r.familiar :=
        .ite (fun _ ↦ (onGen_emit _).bind fun _ _ ↦ .pure hv) fun _ ↦ .pure h.void
      exact hread.run hg

/-- An assignment is compiled alike if its value is, and its type is allowed. -/
theorem assign {value : Node} {valueCode : Destination → Gen MachineType}
    (hnode : value.all (Node.names r.allows) = true) (hcode : r.For valueCode) {type : SourceType}
    (htype : ∀ name ∈ type.mentioned, r.allows name = true) (name : String) (span : Span)
    (keep : Bool) : r.OnGen (Gen.assign name value type span valueCode keep) r.familiar := by
  have hstore : ∀ type, r.familiar type → r.OnGen (do
      Gen.receive type value.span valueCode
      let v ← Gen.onSession <|
        SessionM.declareLocal (.misuse span .localOutsideMethod) (·.declareStore name type span)
      if keep then Gen.emit (.dup v.kind)
      Gen.emit (.store v.kind v.slot)
      Pure.pure (if keep then type else .void)) r.familiar := by
    intro type htype
    refine (h.receive hcode htype value.span).bind fun _ _ ↦ ?_
    have hdeclare : r.OnSession (SessionM.declareLocal (.misuse span .localOutsideMethod)
        (·.declareStore name type span)) fun _ ↦ True :=
      onSession_declareLocal fun hs hl ↦ h.declareStore hs htype hl
    refine (onGen_onSession hdeclare).bind fun v _ ↦ onGen_emit_if _ _ ?_
    refine (onGen_emit _).bind fun _ _ ↦ .pure ?_
    split
    · exact htype
    · exact h.void
  refine (h.typeOf span htype).onGen.bind fun declared hdeclared ↦ .ite (fun _ ↦ ?_) fun _ ↦ ?_
  · exact (h.valueType hnode).onGen.bind fun type htype ↦ hstore type htype
  · exact hstore declared hdeclared

end Faithful

end ScriptBytecode.Recast

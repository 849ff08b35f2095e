import ScriptBytecode.Compile.Node
import ScriptBytecode.Proofs.Invocations.Pieces
import ScriptBytecode.Proofs.Operands
import ScriptBytecode.Proofs.Resolution

/-!
# The code of calls

Each kind of call is followed by its code if its receiver and its arguments are. While arguments are
evaluated the receiver waits below them on the stack, and so does whatever was there before.

Static calls, calls on an instance, calls without receiver, constructions and arithmetic each have
one lemma; `passes_arguments` is what all of them need of the arguments.

**Order.** The receiver comes before the arguments, the arguments come from left to right, and an
instance is allocated before the arguments of its constructor. That the instructions are in this
order is what the lemmas are about; that each of them does what its step of the evaluation does is a
lemma about single instructions.

**Copies.** Where a member returns nothing and a value is wanted, the receiver is copied before the
arguments are evaluated (`appends_invokeInstance`), and where an instance is made it is copied
before its constructor takes it. Arguments run on top of both copies and leave them alone.

**Types are read, not computed.** The member that is invoked, and the types that its arguments are
widened to, are read from the session by the compiler and by the evaluation alike. So there is no
lemma about overloads here.
-/

namespace ScriptBytecode.Invocations

open Gen

variable {s : Session} {w : World} {slots : Slots}

/-! ### Values -/

/-- A value of the type is left, or none if the type is `void`. -/
def Leaves (type : MachineType) (v : Option Datum) (results : List Datum) : Prop :=
  results = v.toList ∧ v.map Datum.kind = type.kind?

/-- The code does what the evaluation does, and leaves a value if `keep` is true. -/
def Simulated (s : Session) (keep : Bool) (code : Gen MachineType)
    (eval : World → Run (Option Datum)) : Prop :=
  Appends s code fun type piece ↦ type.kind?.isSome = keep ∧
    ∀ w slots, Holds s w slots → Follows s w slots piece [] (eval w) (Leaves type)

/-- The code of a tree does what its evaluation does, for its value or not. -/
def Simulates (s : Session) (code : Destination → Gen MachineType)
    (eval : World → Bool → Run (Option Datum)) : Prop :=
  ∀ keep, Simulated s keep (code (keepOrDiscard keep)) fun w ↦ eval w keep

/-- A value of the right kind is not changed. -/
theorem convert_of_kind {v : Datum} {type : MachineType} (h : some v.kind = type.kind?) :
    v.convert type = v := by
  unfold Datum.convert
  rw [← h]
  cases v <;> rfl

/-- A value that is settled is left only if it is wanted. In place of no value null is left. -/
theorem appends_settle (produced : MachineType) (keep : Bool) :
    Appends s (settle produced keep) fun type code ↦ type.kind?.isSome = keep ∧
      ∀ w slots (v : Option Datum) (standIn : Datum), v.map Datum.kind = produced.kind? →
        (produced = .void → keep = true → standIn = .null) →
        Follows s w slots code v.toList (pure (wanted keep (v.getD standIn))) (Leaves type) := by
  intro g _
  refine ensures_settle ?_ ?_ ?_ ?_
  · rintro rfl rfl
    refine ⟨[.pushNull], rfl, rfl, fun w slots v standIn hv hnull ↦ ?_⟩
    obtain rfl := Option.map_eq_none_iff.1 hv
    obtain rfl := hnull rfl rfl
    exact .cons (fun _ _ ↦ rfl) (.pure ⟨rfl, rfl⟩)
  · rintro rfl rfl
    refine ⟨[], rfl, rfl, fun w slots v standIn hv _ ↦ ?_⟩
    obtain rfl := Option.map_eq_none_iff.1 hv
    exact .pure ⟨rfl, rfl⟩
  · rintro hne rfl
    refine ⟨[], rfl, ?_, fun w slots v standIn hv _ ↦ ?_⟩
    · rw [Option.isSome_iff_ne_none]
      exact mt MachineType.kind?_eq_none_iff.1 hne
    · cases v with
      | none => exact absurd (MachineType.kind?_eq_none_iff.1 hv.symm) hne
      | some x => exact .pure ⟨rfl, hv⟩
  · rintro kind hkind rfl
    refine ⟨[.pop kind], rfl, rfl, fun w slots v standIn hv _ ↦ ?_⟩
    rw [hkind] at hv
    obtain ⟨x, rfl, rfl⟩ := Option.map_eq_some_iff.1 hv
    exact .cons (turns_pop x) (.pure ⟨rfl, rfl⟩)

/-- A value that is coerced is converted to the target type. -/
theorem appends_coerce (actual target : MachineType) (span : Span) :
    Appends s (coerce actual target span) fun _ code ↦ ∀ w slots (v : Datum),
      some v.kind = actual.kind? → Follows s w slots code [v] (pure (v.convert target))
        fun x results ↦ results = [x] ∧ some x.kind = target.kind? := by
  intro g _
  refine ensures_coerce ?_ ?_ trivial
  · intro hsame
    refine ⟨[], rfl, fun w slots v hv ↦ ?_⟩
    rw [convert_of_kind (hv.trans hsame)]
    exact .pure ⟨rfl, hv.trans hsame⟩
  · intro hactual htarget
    refine ⟨[.i2l], rfl, fun w slots v hv ↦ ?_⟩
    obtain ⟨n, rfl⟩ := Datum.exists_int_of_kind (Option.some.inj (hv.trans hactual))
    have hwide : (Datum.int n).convert target = .long n.toInt64 := by
      unfold Datum.convert
      rw [htarget]
    rw [hwide, htarget]
    exact .cons (fun _ _ ↦ rfl) (.pure ⟨rfl, rfl⟩)

/-- A value that is received is the operand of an evaluation. -/
theorem appends_receive {code : Destination → Gen MachineType}
    {eval : World → Bool → Run (Option Datum)} (h : Simulates s code eval) {target : MachineType}
    {kind : StackKind} (hkind : target.kind? = some kind) (span : Span) :
    Appends s (receive target span code) fun _ piece ↦ ∀ w slots, Holds s w slots →
      Follows s w slots piece [] (operand (eval w true) target) fun v results ↦
        results = [v] ∧ v.kind = kind := by
  have hvoid : ¬target.isVoid = true := by
    intro hvoid
    rw [MachineType.isVoid_iff.1 hvoid] at hkind
    cases hkind
  unfold receive
  rw [if_neg hvoid]
  refine (h true).bind ?_
  rintro actual piece ⟨hkept, hpiece⟩
  refine (appends_coerce actual target span).imp fun _ piece' hpiece' w slots hslots ↦ ?_
  refine (hpiece w slots hslots).bind ?_
  rintro v _ ⟨rfl, hv⟩
  cases v with
  | none =>
    rw [← hv] at hkept
    cases hkept
  | some v =>
    refine (hpiece' w slots v hv).imp ?_
    rintro x results ⟨hresults, hx⟩
    exact ⟨hresults, Option.some.inj (hx.trans hkind)⟩

/-! ### Arguments -/

/-- The code of arguments does what their evaluation does, and leaves the last one on top. -/
def Passes (s : Session) (count : Nat) (code : ArgsCode)
    (eval : World → List MachineType → Run (List Datum)) : Prop :=
  ∀ params kinds, params.length = count → kindsOf? params = some kinds →
    Appends s (code params) fun _ piece ↦ ∀ w slots, Holds s w slots →
      Follows s w slots piece [] (eval w params) fun vs results ↦
        results = vs.reverse ∧ State.Fit vs params

/-- Arguments are passed as they are evaluated, if each of them follows its evaluation. -/
theorem passes_arguments {nodes : List Node}
    (h : ∀ n ∈ nodes, Simulates s (node n) fun w ↦ evaluate s w n) :
    Passes s nodes.length (arguments nodes) fun w ↦ evaluateArguments s w nodes := by
  induction nodes with
  | nil =>
    intro params kinds hlength _
    obtain rfl := List.eq_nil_of_length_eq_zero hlength
    refine Appends.pure fun w slots _ ↦ ?_
    have hnone : evaluateArguments s w [] [] = pure [] := by rw [evaluateArguments]; simp
    show Follows s w slots [] [] (evaluateArguments s w [] []) _
    rw [hnone]
    exact .pure ⟨rfl, rfl⟩
  | cons n nodes ih =>
    intro params kinds hlength hkinds
    cases params with
    | nil => cases hlength
    | cons param params =>
      obtain ⟨kind, hkind, hkinds⟩ := Option.bind_eq_some_iff.1 hkinds
      obtain ⟨kinds, hkinds, -⟩ := Option.bind_eq_some_iff.1 hkinds
      have hrest := ih (fun n hn ↦ h n (List.mem_cons_of_mem _ hn)) params kinds
        (Nat.succ.inj hlength) hkinds
      rw [arguments]
      refine (appends_receive (h n (List.mem_cons_self ..)) hkind n.span).bind ?_
      intro _ piece hpiece
      refine hrest.imp fun _ piece' hpiece' w slots hslots ↦ ?_
      show Follows s w slots _ [] (evaluateArguments s w (n :: nodes) (param :: params)) _
      rw [evaluateArguments]
      refine (hpiece w slots hslots).bind ?_
      rintro v _ ⟨rfl, hv⟩
      -- the arguments after the first are evaluated while it lies below them
      refine ((hpiece' w slots hslots).under [v]).map ?_
      rintro vs _ ⟨_, rfl, rfl, hfit⟩
      refine ⟨v :: vs, rfl, by simp, ?_⟩
      show some v.kind :: vs.map _ = param.kind? :: params.map _
      rw [hv, hkind, hfit]

/-- The code of arguments leaves them on the stack, in reverse, each of the kind of its
parameter. -/
theorem appends_passArgs {args : List Node} {code : ArgsCode}
    {eval : World → List MachineType → Run (List Datum)} (h : Passes s args.length code eval)
    {params : List MachineType} {kinds : List StackKind} (hlength : params.length = args.length)
    (hkinds : kindsOf? params = some kinds) :
    Appends s (passArgs args code params) fun _ piece ↦ ∀ w slots, Holds s w slots →
      Follows s w slots piece [] (eval w params) fun vs results ↦
        results = vs.reverse ∧ State.Fit vs params := by
  unfold passArgs
  rw [if_pos hlength.symm]
  exact h params kinds hlength hkinds

/-! ### Calls on a type -/

/-- An invocation leaves its result, which is then settled. -/
theorem appends_invoke (i : Instruction) (m : MemberRef) (keep : Bool) :
    Appends s (emit i >>= fun _ ↦ settle m.returnType keep) fun type code ↦
      type.kind?.isSome = keep ∧ ∀ w slots operands (run : Run (Option Datum)) (standIn : Datum),
        (m.returnType = .void → keep = true → standIn = .null) →
        Follows s w slots [i] operands run (Leaves m.returnType) →
        Follows s w slots code operands (run >>= fun result ↦
          pure (wanted keep (result.getD standIn))) (Leaves type) := by
  refine Appends.emit_bind ((appends_settle m.returnType keep).imp ?_)
  rintro type code ⟨hkept, hsettled⟩
  refine ⟨hkept, fun w slots operands run standIn hnull hrun ↦ ?_⟩
  refine hrun.consBind ?_
  rintro result _ ⟨rfl, hkind⟩
  exact hsettled w slots result standIn hkind hnull

section OnType

variable {args : List Node} {code : ArgsCode} {eval : World → List MachineType → Run (List Datum)}

/-- An instance is allocated, then the arguments are evaluated, and the constructor is invoked. -/
theorem simulated_construct (hargs : Passes s args.length code eval)
    (hvoid : s.classes.VoidConstructors) (cls : ClassRef) (span : Span) (keep : Bool) :
    Simulated s keep (construct cls args span code keep) (fun w ↦ do
      let types ← Run.static (s.valueTypes args)
      let m ← Run.static (s.classes.resolve cls constructorName types false span)
      let object ← World.allocate cls
      let args ← eval w m.params
      let _ ← w.invoke m.toRef (some object) args
      pure (wanted keep object)) := by
  refine Appends.query_bind fun types htypes ↦ Appends.query_bind fun m hm ↦ ?_
  obtain ⟨hlength, kinds, hkinds⟩ :=
    Session.params_of_areAssignable htypes (ClassTable.areAssignable_of_resolve hm)
  have hreturn : m.toRef.returnType = .void := hvoid.returnType_of_resolve hm
  simp only [htypes, hm, Run.static, pure_bind]
  refine Appends.emit_bind (Appends.emit_bind ?_)
  refine (appends_passArgs hargs hlength hkinds).bind fun _ piece hpiece ↦ Appends.emit_bind ?_
  refine (appends_settle (.ref cls) keep).imp ?_
  rintro type piece' ⟨hkept, hsettled⟩
  refine ⟨hkept, fun w slots hslots ↦ ?_⟩
  refine (Follows.allocate cls).consBind ?_
  rintro object _ ⟨rfl, hobject⟩
  -- a second reference to the instance waits below until the constructor has returned
  refine Follows.cons (hobject ▸ turns_dup object) ?_
  refine ((hpiece w slots hslots).under [object, object]).bind ?_
  rintro vs _ ⟨_, rfl, rfl, hfit⟩
  rw [List.append_cons]
  have hinvoke : Follows s w slots [.invokeSpecial m.toRef] _ _ (Leaves m.toRef.returnType) :=
    .invokeInstance (fun _ ↦ rfl) hfit hobject
  refine (hinvoke.under [object]).consBind ?_
  rintro result _ ⟨_, rfl, rfl, hkind⟩
  rw [hreturn] at hkind
  obtain rfl := Option.map_eq_none_iff.1 hkind
  exact hsettled w slots (some object) .null (congrArg some hobject) nofun

/-- The arguments are evaluated and the member is invoked. -/
theorem simulated_callStatic (hargs : Passes s args.length code eval) (cls : ClassRef)
    (name : String) (span : Span) (keep : Bool) :
    Simulated s keep (callStatic cls name args span code keep) (fun w ↦ do
      let types ← Run.static (s.valueTypes args)
      let m ← Run.static (s.classes.resolve cls name types true span)
      let args ← eval w m.params
      let result ← w.invoke m.toRef none args
      pure (wanted keep (result.getD .null))) := by
  refine Appends.query_bind fun types htypes ↦ Appends.query_bind fun m hm ↦ ?_
  obtain ⟨hlength, kinds, hkinds⟩ :=
    Session.params_of_areAssignable htypes (ClassTable.areAssignable_of_resolve hm)
  simp only [htypes, hm, Run.static, pure_bind]
  refine (appends_passArgs hargs hlength hkinds).bind fun _ piece hpiece ↦ ?_
  refine (appends_invoke (.invokeStatic m.toRef) m.toRef keep).imp ?_
  rintro type piece' ⟨hkept, hinvoked⟩
  refine ⟨hkept, fun w slots hslots ↦ (hpiece w slots hslots).bind ?_⟩
  rintro vs _ ⟨rfl, hfit⟩
  exact hinvoked w slots _ _ .null (fun _ _ ↦ rfl) (.invokeStatic hfit)

end OnType

/-! ### Calls on a value -/

section OnValue

variable {args : List Node} {code : ArgsCode} {eval : World → List MachineType → Run (List Datum)}

/-- With the receiver on the stack, the arguments are evaluated and the member is invoked. If it
returns nothing and a value is wanted, the receiver is kept below the arguments. -/
theorem appends_invokeInstance (hargs : Passes s args.length code eval) {m : Member}
    {kinds : List StackKind} {i : Instruction} {standIn : MachineType}
    (hlength : m.params.length = args.length) (hkinds : kindsOf? m.params = some kinds)
    (hi : ∀ w slots c, State.execute w slots c i = c.invoke w m.toRef true)
    (hstandIn : standIn.kind? = some .reference) (keep : Bool) :
    Appends s (do
      let chains := m.returnType.isVoid && keep
      if chains then emit (.dup .reference)
      passArgs args code m.params
      emit i
      if chains then pure standIn else settle m.returnType keep) fun type piece ↦
        type.kind?.isSome = keep ∧ ∀ w slots, Holds s w slots → ∀ receiver : Datum,
          receiver.kind = .reference → Follows s w slots piece [receiver] (do
            let args ← eval w m.params
            let result ← w.invoke m.toRef (some receiver) args
            pure (wanted keep (result.getD receiver))) (Leaves type) := by
  have hinvoke : ∀ w slots (receiver : Datum) (vs : List Datum), receiver.kind = .reference →
      State.Fit vs m.params → Follows s w slots [i] (vs.reverse ++ [receiver])
        (w.invoke m.toRef (some receiver) vs) (Leaves m.returnType) :=
    fun w slots receiver vs hreceiver hfit ↦ .invokeInstance (hi w slots) hfit hreceiver
  -- The receiver is copied if it is to stand in for a missing result.
  by_cases hchains : (m.returnType.isVoid && keep) = true
  · obtain ⟨hvoid, rfl⟩ := Bool.and_eq_true_iff.1 hchains
    simp only [hvoid, Bool.and_true, if_true]
    refine Appends.emit_bind ?_
    refine (appends_passArgs hargs hlength hkinds).bind fun _ piece hpiece ↦ ?_
    refine Appends.emit_bind (Appends.pure ⟨by rw [hstandIn]; rfl, ?_⟩)
    intro w slots hslots receiver hreceiver
    refine Follows.cons (hreceiver ▸ turns_dup receiver) ?_
    refine ((hpiece w slots hslots).under [receiver, receiver]).bind ?_
    rintro vs _ ⟨_, rfl, rfl, hfit⟩
    rw [List.append_cons]
    refine ((hinvoke w slots receiver vs hreceiver hfit).under [receiver]).map ?_
    rintro result _ ⟨_, rfl, rfl, hkind⟩
    rw [MachineType.isVoid_iff.1 hvoid] at hkind
    obtain rfl := Option.map_eq_none_iff.1 hkind
    refine ⟨_, rfl, rfl, ?_⟩
    rw [hstandIn, ← hreceiver]
    rfl
  · rw [Bool.not_eq_true] at hchains
    simp only [hchains, Bool.false_eq_true, if_false]
    refine (appends_passArgs hargs hlength hkinds).bind fun _ piece hpiece ↦ ?_
    refine (appends_invoke i m.toRef keep).imp ?_
    rintro type piece' ⟨hkept, hinvoked⟩
    refine ⟨hkept, fun w slots hslots receiver hreceiver ↦ ?_⟩
    refine ((hpiece w slots hslots).under [receiver]).bind ?_
    rintro vs _ ⟨_, rfl, rfl, hfit⟩
    refine hinvoked w slots _ _ receiver (fun hvoid hkeep ↦ ?_)
      (hinvoke w slots receiver vs hreceiver hfit)
    rw [hkeep, Bool.and_true] at hchains
    rw [show m.returnType = .void from hvoid] at hchains
    cases hchains

/-- The receiver is evaluated, then the arguments, and the member is invoked. -/
theorem simulated_callInstance {receiver : Node} {receiverCode : Destination → Gen MachineType}
    {receiverEval : World → Bool → Run (Option Datum)}
    (hreceiver : Simulates s receiverCode receiverEval) (hargs : Passes s args.length code eval)
    {type : MachineType} (htype : type ≠ .void) (name : String) (span : Span) (keep : Bool) :
    Simulated s keep (callInstance receiver type name args span receiverCode code keep) (fun w ↦ do
      let types ← Run.static (s.valueTypes args)
      let cls ← Run.static (Session.receiverClass type name span)
      let m ← Run.static (s.classes.resolve cls name types false span)
      let receiver ← operand (receiverEval w true) type
      let args ← eval w m.params
      let result ← w.invoke m.toRef (some receiver) args
      pure (wanted keep (result.getD receiver))) := by
  refine Appends.query_bind fun cls hcls ↦ Appends.query_bind fun types htypes ↦
    Appends.query_bind fun m hm ↦ ?_
  obtain ⟨hlength, kinds, hkinds⟩ :=
    Session.params_of_areAssignable htypes (ClassTable.areAssignable_of_resolve hm)
  have hkind := Session.kind?_of_receiverClass hcls htype
  simp only [htypes, hcls, hm, Run.static, pure_bind]
  refine (appends_receive hreceiver hkind receiver.span).bind fun _ piece hpiece ↦ ?_
  have hinvocation : ∀ w slots c,
      State.execute w slots c (invocation cls m) = c.invoke w m.toRef true := by
    intro w slots c
    unfold invocation
    split <;> rfl
  refine (appends_invokeInstance hargs hlength hkinds hinvocation hkind keep).imp ?_
  rintro result piece' ⟨hkept, hcalled⟩
  refine ⟨hkept, fun w slots hslots ↦ (hpiece w slots hslots).bind ?_⟩
  rintro v _ ⟨rfl, hv⟩
  exact hcalled w slots hslots v hv

/-- In a static context only static members are called without a receiver. -/
theorem isStatic_of_selfCallee {name : String} {types : Except CompileError (List MachineType)}
    {span : Span} {cls : ClassRef} {m : Member}
    (h : s.selfCallee name types span = .ok (cls, m)) (hname : name ≠ constructorName)
    (hstatic : s.scopes.isStatic = true) : m.flags.isStatic = true := by
  unfold Session.selfCallee at h
  split at h
  · obtain ⟨args, -, h⟩ := Session.ok_of_bind h
    rw [if_pos hstatic] at h
    obtain ⟨m', hm', h⟩ := Session.ok_of_bind h
    obtain ⟨-, rfl⟩ := Prod.mk.inj (Except.ok.inj h)
    obtain ⟨-, e, -, -, -, hflag⟩ := ClassTable.method_of_resolve hname hm'
    exact hflag
  · cases h

/-- A call without a receiver is one on the current instance, unless the member is static. -/
theorem simulated_callSelf (hargs : Passes s args.length code eval) {name : String}
    (hname : name ≠ constructorName) (span : Span) (keep : Bool) :
    Simulated s keep (callSelf name args span code keep) (fun w ↦ do
      let (_, m) ← Run.static (s.selfCallee name (s.valueTypes args) span)
      let args ← eval w m.params
      if m.flags.isStatic then
        let result ← w.invoke m.toRef none args
        pure (wanted keep (result.getD .null))
      else
        let self := .reference w.self
        let result ← w.invoke m.toRef (some self) args
        pure (wanted keep (result.getD self))) := by
  refine Appends.query_bind fun callee hcallee ↦ ?_
  obtain ⟨cls, m⟩ := callee
  obtain ⟨types, htypes, hassignable⟩ := Session.areAssignable_of_selfCallee hcallee
  obtain ⟨hlength, kinds, hkinds⟩ := Session.params_of_areAssignable htypes hassignable
  simp only [hcallee, Run.static, pure_bind]
  refine Appends.ite (fun hstatic ↦ ?_) fun hinstance ↦ ?_
  · simp only [hstatic, if_true]
    refine (appends_passArgs hargs hlength hkinds).bind fun _ piece hpiece ↦ ?_
    refine (appends_invoke (.invokeStatic m.toRef) m.toRef keep).imp ?_
    rintro type piece' ⟨hkept, hinvoked⟩
    refine ⟨hkept, fun w slots hslots ↦ (hpiece w slots hslots).bind ?_⟩
    rintro vs _ ⟨rfl, hfit⟩
    exact hinvoked w slots _ _ .null (fun _ _ ↦ rfl) (.invokeStatic hfit)
  · simp only [hinstance]
    -- An instance member can only be called where there is an instance.
    have hscope : s.scopes.isStatic = false :=
      Bool.eq_false_iff.2 (mt (isStatic_of_selfCallee hcallee hname) hinstance)
    refine Appends.emit_bind ?_
    refine (appends_invokeInstance hargs hlength hkinds (fun _ _ _ ↦ rfl) rfl keep).imp ?_
    rintro type piece ⟨hkept, hcalled⟩
    exact ⟨hkept, fun w slots hslots ↦
      .cons (Follows.self hslots hscope) (hcalled w slots hslots _ rfl)⟩

end OnValue

/-! ### Arithmetic -/

/-- An operand of an operation is widened to the width of the operation. -/
theorem turns_widen (v v' : Width) {x : Datum} (hx : x.kind = v.kind) (w : World) (slots : Slots) :
    if v != v.max v' then Turns w slots .i2l [x] [x.convert (v.max v').type]
    else x.convert (v.max v').type = x := by
  cases v with
  | narrow =>
    obtain ⟨n, rfl⟩ := Datum.exists_int_of_kind hx
    cases v' with
    | narrow => rfl
    | wide => exact fun _ _ ↦ rfl
  | wide =>
    obtain ⟨n, rfl⟩ := Datum.exists_long_of_kind hx
    rfl

/-- With both operands at its width, an operation leaves what the operator makes of them. -/
theorem turns_operation {v v' : Width} {operator : String} {i : Instruction}
    (hi : Arithmetic.operation? (v.max v') operator = some i) {x y : Datum}
    (hx : x.kind = v.kind) (hy : y.kind = v'.kind) :
    ∃ result, (∀ w slots, Turns w slots i
        [y.convert (v.max v').type, x.convert (v.max v').type] [result]) ∧
      Datum.operate? operator x [y] = some result ∧ result.kind = (v.max v').kind := by
  have hoperator : operator = "+" ∧ i = (v.max v').add ∨ operator = "-" ∧ i = (v.max v').sub := by
    unfold Arithmetic.operation? at hi
    split at hi
    · exact .inl ⟨rfl, (Option.some.inj hi).symm⟩
    · exact .inr ⟨rfl, (Option.some.inj hi).symm⟩
    · cases hi
  cases v with
  | narrow =>
    obtain ⟨a, rfl⟩ := Datum.exists_int_of_kind hx
    cases v' with
    | narrow =>
      obtain ⟨b, rfl⟩ := Datum.exists_int_of_kind hy
      rcases hoperator with ⟨rfl, rfl⟩ | ⟨rfl, rfl⟩
      all_goals exact ⟨_, fun _ _ _ _ ↦ rfl, rfl, rfl⟩
    | wide =>
      obtain ⟨b, rfl⟩ := Datum.exists_long_of_kind hy
      rcases hoperator with ⟨rfl, rfl⟩ | ⟨rfl, rfl⟩
      all_goals exact ⟨_, fun _ _ _ _ ↦ rfl, rfl, rfl⟩
  | wide =>
    obtain ⟨a, rfl⟩ := Datum.exists_long_of_kind hx
    cases v' with
    | narrow =>
      obtain ⟨b, rfl⟩ := Datum.exists_int_of_kind hy
      rcases hoperator with ⟨rfl, rfl⟩ | ⟨rfl, rfl⟩
      all_goals exact ⟨_, fun _ _ _ _ ↦ rfl, rfl, rfl⟩
    | wide =>
      obtain ⟨b, rfl⟩ := Datum.exists_long_of_kind hy
      rcases hoperator with ⟨rfl, rfl⟩ | ⟨rfl, rfl⟩
      all_goals exact ⟨_, fun _ _ _ _ ↦ rfl, rfl, rfl⟩

/-- An operand that is widened on the stack. -/
theorem Follows.widen {α : Type} {widen : Bool} {x x' : Datum} {code : List Instruction}
    {run : Run α} {post : α → List Datum → Prop} (below : List Datum)
    (hx : if widen then Turns w slots .i2l [x] [x'] else x' = x)
    (h : Follows s w slots code (x' :: below) run post) :
    Follows s w slots ((if widen then [.i2l] else []) ++ code) (x :: below) run post := by
  cases widen with
  | true =>
    refine .cons (fun base hist ↦ ?_) h
    exact hx (below ++ base) hist
  | false =>
    obtain rfl : x' = x := hx
    exact h

/-- An operand may be widened before what follows. -/
theorem Appends.widen {α : Type} {widen : Bool} {rest : Gen α}
    {post : α → List Instruction → Prop}
    (h : Appends s rest fun a code ↦ post a ((if widen then [.i2l] else []) ++ code)) :
    Appends s (do
      if widen then emit .i2l
      rest) post := by
  cases widen with
  | true => exact Appends.emit_bind h
  | false => exact h

/-- The operands are evaluated from left to right and the operation is carried out. -/
theorem simulated_calculate {receiver : Node} {receiverCode : Destination → Gen MachineType}
    {receiverEval : World → Bool → Run (Option Datum)}
    (hreceiver : Simulates s receiverCode receiverEval) {args : List Node} {code : ArgsCode}
    {eval : World → List MachineType → Run (List Datum)} (hargs : Passes s args.length code eval)
    (width : Width) (name : String) (span : Span) (keep : Bool) :
    Simulated s keep (calculate receiver width name args span receiverCode code keep) (fun w ↦ do
      let types ← Run.static (s.valueTypes args)
      let x ← operand (receiverEval w true) width.type
      let ys ← eval w types
      let result ← Run.demand (Datum.operate? name x ys)
      pure (wanted keep result)) := by
  -- The receiver is widened before the argument is evaluated, so widening comes up at two places.
  refine Appends.query_bind fun types htypes ↦ Appends.query_bind fun plan hplan ↦ ?_
  obtain ⟨type, width', rfl, hwidth', hoperation, hwidth, hwidenReceiver, hwidenArgument⟩ :=
    Arithmetic.plan_eq_ok hplan
  have hlength : [type].length = args.length := Session.length_valueTypes htypes
  have hkinds : kindsOf? [type] = some [width'.kind] := by
    rw [← Width.type_eq_of_ofType? hwidth']
    simp [kindsOf?]
  simp only [htypes, Run.static, pure_bind]
  refine (appends_receive hreceiver width.kind?_type receiver.span).bind fun _ piece hpiece ↦ ?_
  refine Appends.widen ?_
  refine (appends_passArgs hargs hlength hkinds).bind fun _ piece' hpiece' ↦ ?_
  refine Appends.widen (Appends.emit_bind ?_)
  refine (appends_settle plan.width.type keep).imp ?_
  rintro result piece'' ⟨hkept, hsettled⟩
  refine ⟨hkept, fun w slots hslots ↦ (hpiece w slots hslots).bind ?_⟩
  rintro x _ ⟨rfl, hx⟩
  rw [hwidenReceiver]
  refine Follows.widen [] (turns_widen width width' hx w slots) ?_
  refine ((hpiece' w slots hslots).under [_]).bind ?_
  rintro ys _ ⟨_, rfl, rfl, hfit⟩
  obtain ⟨y, hys, hy⟩ := List.map_eq_singleton_iff.1 hfit
  have hy : y.kind = width'.kind := by
    have hkind : some y.kind = type.kind? := hy
    rw [← Width.type_eq_of_ofType? hwidth', Width.kind?_type] at hkind
    exact Option.some.inj hkind
  obtain ⟨result, hturns, hresult, hkind⟩ := turns_operation hoperation hx hy
  subst hys
  have hwiden := turns_widen width' width hy w slots
  rw [Width.max_comm width' width] at hwiden
  rw [hwidenArgument, hresult]
  refine Follows.widen [_] hwiden (.cons (hturns w slots) ?_)
  refine hsettled w slots (some result) .null ?_ ?_
  · rw [hwidth, Width.kind?_type, ← hkind]
    rfl
  · -- An operation never returns nothing.
    intro hvoid
    rw [hwidth] at hvoid
    cases width <;> cases width' <;> cases hvoid

end ScriptBytecode.Invocations

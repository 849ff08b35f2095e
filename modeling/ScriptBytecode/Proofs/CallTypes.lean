import ScriptBytecode.Compile.Node
import ScriptBytecode.Proofs.Discipline.Basic
import ScriptBytecode.Proofs.Ensures

/-!
# The type of a call, found in two ways

Compiling a call yields the type of the value that the call leaves. `Session.valueType` finds a type
for the same call without emitting anything, and it is that type which overloads are resolved by and
local slots are chosen by, before the call is compiled. Both read the session that the call is
compiled in, since nothing is emitted before the member is resolved.

The two agree on every call without an inferred type, with one exception: an operator on a number
leaves a number, and is typed as a reference to the root class.

The lemmas come in pairs: `valueType_construct`, `valueType_callStatic`, `valueType_callInstance`,
`valueType_calculate` and `valueType_callSelf` say which type is found, and `yields_construct` and
its like what the code leaves. `valueType_eq_of_node` is the result, and `valueType_untypedSum` the
exception at work.

**Why they could differ.** The two look alike but are written apart: the one asks for the member and
takes its result, the other emits the receiver, passes the arguments and says at the end what is
left. Three things have to come out the same on both sides: which member it is, what stands in where
the member has no result, and that a call on a type and one on a value are told apart alike.

**What is not covered.** A call that has an inferred type is given that type without being looked
at, and nothing is said of it. Nor is anything said of calls that do not compile.

**The exception** is stated as it is, and not left out: for an operator on a number the type that is
found beforehand is the root class, and the code leaves a number (`Session.isArithmetic_eq` says
when a call is one).
-/

namespace ScriptBytecode

/-! ### Typing calls -/

namespace Session

/-- A name refers to the member, if it is called on the class with the arguments. -/
def Refers (s : Session) (cls : ClassRef) (name : String) (args : List Node) (isStatic : Bool)
    (span : Span) (m : Member) : Prop :=
  ∃ types, s.valueTypes args = .ok types ∧ s.classes.resolve cls name types isStatic span = .ok m

/-- Whether the node is an operator on a number: a call whose receiver is a value of a numeric
type. -/
def isArithmetic (s : Session) : Node → Bool
  | .call receiver _ _ _ _ => !receiver.type.isMeta &&
      (s.valueType receiver).toOption.any fun type ↦ (Width.ofType? type).isSome
  | _ => false

variable {s : Session} {receiver : Node} {name : String} {args : List Node} {type : SourceType}
  {span : Span} {cls : ClassRef} {receiverType : MachineType} {m : Member}

/-- An operator is never applied to a type. -/
theorem isArithmetic_of_isMeta (hmeta : receiver.type.isMeta = true) :
    s.isArithmetic (.call receiver name args type span) = false := by
  simp [isArithmetic, hmeta]

/-- On a value, a call is an operator or not by the type of that value. -/
theorem isArithmetic_eq (hmeta : receiver.type.isMeta = false)
    (hreceiver : s.valueType receiver = .ok receiverType) :
    s.isArithmetic (.call receiver name args type span) = (Width.ofType? receiverType).isSome := by
  show (!receiver.type.isMeta && (s.valueType receiver).toOption.any _) = _
  rw [hmeta, hreceiver]
  rfl

section Untyped

variable (hvoid : s.typeOf type span = .ok .void)

include hvoid

/-- The value of a construction is an instance of the class. -/
theorem valueType_construct (hmeta : receiver.type.isMeta = true)
    (hcls : s.metaClass receiver.type receiver.span "new" span = .ok cls) :
    s.valueType (.call receiver "new" args type span) = .ok (.ref cls) := by
  unfold valueType
  rw [hvoid]
  show (if receiver.type.isMeta = true then _ else _) = _
  rw [if_pos hmeta, hcls]
  rfl

/-- The value of a call on a type is the result of the static member it resolves to. -/
theorem valueType_callStatic (hmeta : receiver.type.isMeta = true)
    (hcls : s.metaClass receiver.type receiver.span name span = .ok cls) (hname : name ≠ "new")
    (hm : s.Refers cls name args true span m) :
    s.valueType (.call receiver name args type span) = .ok (resultType m .object) := by
  obtain ⟨types, htypes, hm⟩ := hm
  unfold valueType
  rw [hvoid]
  show (if receiver.type.isMeta = true then _ else _) = _
  rw [if_pos hmeta, hcls]
  show (if name = "new" then _ else _) = _
  rw [if_neg hname, htypes]
  show (s.classes.resolve cls name types true span >>= _) = _
  rw [hm]
  rfl

/-- The value of a call with a receiver is the result of the member it resolves to, or the receiver
if there is no result. -/
theorem valueType_callInstance (hmeta : receiver.type.isMeta = false)
    (hreceiver : s.valueType receiver = .ok receiverType)
    (hwidth : Width.ofType? receiverType = none)
    (hcls : receiverClass receiverType name span = .ok cls)
    (hm : s.Refers cls name args false span m) :
    s.valueType (.call receiver name args type span) = .ok (resultType m receiverType) := by
  obtain ⟨types, htypes, hm⟩ := hm
  unfold valueType
  rw [hvoid]
  show (if receiver.type.isMeta = true then _ else _) = _
  rw [if_neg (Bool.eq_false_iff.1 hmeta), hreceiver]
  show (pure receiverType >>= _) = _
  rw [pure_bind, hwidth]
  show (receiverClass receiverType name span >>= _) = _
  rw [hcls, htypes]
  show (s.classes.resolve cls name types false span >>= _) = _
  rw [hm]
  rfl

/-- An operator on a number is taken for a reference to the root class. -/
theorem valueType_calculate {width : Width} (hmeta : receiver.type.isMeta = false)
    (hreceiver : s.valueType receiver = .ok receiverType)
    (hwidth : Width.ofType? receiverType = some width) :
    s.valueType (.call receiver name args type span) = .ok .object := by
  unfold valueType
  rw [hvoid]
  show (if receiver.type.isMeta = true then _ else _) = _
  rw [if_neg (Bool.eq_false_iff.1 hmeta), hreceiver]
  show (pure receiverType >>= _) = _
  rw [pure_bind, hwidth]

/-- The value of a call without a receiver is the result of the member it resolves to; without one
it is the instance, where there is one. -/
theorem valueType_callSelf
    (hm : s.selfCallee name (s.valueTypes args) span = .ok (cls, m)) :
    s.valueType (.selfCall name args type span) =
      .ok (resultType m (if m.flags.isStatic then .object else .ref cls)) := by
  unfold valueType
  rw [hvoid]
  show (s.selfCallee name (s.valueTypes args) span >>= _) = _
  rw [hm]
  rfl

end Untyped

end Session

/-! ### Emitting calls -/

namespace Gen

variable {g : GenState} {args : List Node} {argsCode : ArgsCode} {name : String} {span : Span}
  {cls : ClassRef} {receiver : Node} {receiverCode : Destination → Gen MachineType}

/-- Of code that only what follows it is asked about, nothing need be known. -/
theorem yields_bind_of_forall {α β : Type} {act : Gen α} {next : α → Gen β}
    {post : β → GenState → Prop} (h : ∀ a g, Yields (next a) g post) :
    Yields (act >>= next) g post := by
  have hact : Yields act g fun _ _ ↦ True := yields_iff.2 fun _ _ _ ↦ trivial
  exact ensures_bind hact fun a g _ ↦ h a g

/-- An action that may come first makes no difference to what holds in the end, if that holds from
every state. -/
theorem yields_when_of_forall {α : Type} {c : Prop} [Decidable c] {act : Gen Unit}
    {next : Unit → Gen α} {post : α → GenState → Prop} (h : ∀ g, Yields (next ()) g post) :
    Yields (if c then act >>= next else next ()) g post :=
  ensures_ite (fun _ ↦ yields_bind_of_forall fun _ ↦ h) fun _ ↦ h g

/-- A value that is wanted is left, and made up if there is none. -/
theorem yields_settle (produced : MachineType) :
    Yields (settle produced true) g fun t _ ↦
      t = if produced.isVoid then .object else produced := by
  unfold settle
  cases hkind : produced.kind? with
  | none =>
    rw [MachineType.kind?_eq_none_iff] at hkind
    rw [hkind]
    exact ensures_emit_bind (ensures_pure rfl)
  | some kind =>
    have hvoid : produced.isVoid = false := by
      rw [Bool.eq_false_iff, Ne, MachineType.isVoid_iff, ← MachineType.kind?_eq_none_iff, hkind]
      exact Option.some_ne_none _
    rw [hvoid]
    exact ensures_pure rfl

/-- A member that is called leaves its result. -/
theorem yields_settle_returnType (m : Member) :
    Yields (settle m.returnType true) g fun t _ ↦ t = Session.resultType m .object :=
  yields_settle m.returnType

/-- A member without a result leaves what the code has kept below its arguments. -/
theorem yields_chain (m : Member) (standIn : MachineType) :
    Yields (if m.returnType.isVoid && true then pure standIn else settle m.returnType true) g
      fun t _ ↦ t = Session.resultType m standIn := by
  unfold Session.resultType
  rw [Bool.and_true]
  refine ensures_ite (fun hvoid ↦ ?_) fun hvoid ↦ ?_
  · rw [if_pos hvoid]
    exact ensures_pure rfl
  · rw [if_neg hvoid]
    exact (yields_settle m.returnType).imp fun t _ ht ↦ by rw [ht, if_neg hvoid]

/-- The member of a call is found before anything is emitted. -/
theorem yields_resolve_bind {isStatic : Bool} {next : Member → Gen MachineType}
    {post : MachineType → GenState → Prop}
    (h : ∀ m, g.session.Refers cls name args isStatic span m → Yields (next m) g post) :
    Yields (do next (← resolve cls name (← valueTypes args) isStatic span)) g post := by
  refine ensures_query_bind (fun types htypes ↦ ?_) fun _ _ ↦ trivial
  exact ensures_query_bind (fun m hm ↦ h m ⟨types, htypes, hm⟩) fun _ _ ↦ trivial

/-- Code for a construction leaves an instance of the class. -/
theorem yields_construct :
    Yields (construct cls args span argsCode true) g fun t _ ↦ t = .ref cls := by
  refine yields_resolve_bind fun m _ ↦ ensures_emit_bind (ensures_emit_bind ?_)
  exact yields_bind_of_forall fun _ _ ↦ ensures_emit_bind (yields_settle (.ref cls))

/-- Code for a call on a type leaves the result of a static member that the call resolves to. -/
theorem yields_callStatic :
    Yields (callStatic cls name args span argsCode true) g fun t _ ↦
      ∃ m, g.session.Refers cls name args true span m ∧ t = Session.resultType m .object := by
  refine yields_resolve_bind fun m hm ↦ yields_bind_of_forall fun _ _ ↦ ensures_emit_bind ?_
  exact (yields_settle_returnType m).imp fun t _ ht ↦ ⟨m, hm, ht⟩

/-- Code for a call with a receiver leaves the result of a member that the call resolves to, or the
receiver. -/
theorem yields_callInstance (receiverType : MachineType) :
    Yields (callInstance receiver receiverType name args span receiverCode argsCode true) g
      fun t _ ↦ ∃ cls m, Session.receiverClass receiverType name span = .ok cls ∧
        g.session.Refers cls name args false span m ∧
        t = Session.resultType m receiverType := by
  refine ensures_query_bind (fun cls hcls ↦ ?_) fun _ _ ↦ trivial
  refine yields_resolve_bind fun m hm ↦ yields_bind_of_forall fun _ _ ↦ ?_
  refine yields_when_of_forall fun _ ↦ yields_bind_of_forall fun _ _ ↦ ensures_emit_bind ?_
  exact (yields_chain m receiverType).imp fun t _ ht ↦ ⟨cls, m, hcls, hm, ht⟩

/-- An operator on a number leaves a number. -/
theorem yields_calculate (width : Width) :
    Yields (calculate receiver width name args span receiverCode argsCode true) g
      fun t _ ↦ ∃ w : Width, t = w.type := by
  refine ensures_query_bind (fun types _ ↦ ?_) fun _ _ ↦ trivial
  refine ensures_query_bind (fun plan _ ↦ ?_) fun _ _ ↦ trivial
  refine yields_bind_of_forall fun _ _ ↦ yields_when_of_forall fun _ ↦ ?_
  refine yields_bind_of_forall fun _ _ ↦ yields_when_of_forall fun _ ↦ ensures_emit_bind ?_
  have hvoid : plan.width.type.isVoid = false := by cases plan.width <;> rfl
  refine (yields_settle plan.width.type).imp fun t _ ht ↦ ⟨plan.width, ?_⟩
  rw [ht, hvoid]
  rfl

/-- The types that the code of a call and its typing end with. -/
def TypesAgree (s : Session) (n : Node) (t : MachineType) : Prop :=
  s.valueType n = .ok (if s.isArithmetic n then .object else t) ∧
    (s.isArithmetic n = true → ∃ w : Width, t = w.type)

/-- Code for a call with a receiver leaves a value of the type that was found without emitting
it. -/
theorem typesAgree_call {type : SourceType} (hvoid : g.session.typeOf type span = .ok .void) :
    Yields (call receiver name args span receiverCode argsCode true) g
      fun t _ ↦ TypesAgree g.session (.call receiver name args type span) t := by
  refine ensures_ite (fun hmeta ↦ ?_) fun hmeta ↦ ?_
  · -- on a type, the call is a construction or a static call
    have harith : g.session.isArithmetic (.call receiver name args type span) = false :=
      Session.isArithmetic_of_isMeta hmeta
    refine ensures_query_bind (fun cls hcls ↦ ?_) fun _ _ ↦ trivial
    refine ensures_ite (fun hname ↦ ?_) fun hname ↦ ?_
    · subst hname
      refine yields_construct.imp fun t _ ht ↦ ?_
      rw [TypesAgree, harith, ht]
      exact ⟨Session.valueType_construct hvoid hmeta hcls, nofun⟩
    · refine yields_callStatic.imp fun t _ ⟨m, hm, ht⟩ ↦ ?_
      rw [TypesAgree, harith, ht]
      exact ⟨Session.valueType_callStatic hvoid hmeta hcls hname hm, nofun⟩
  · -- on a value, the type that the value was given tells an operator from a call of a member
    have hvalue := Bool.eq_false_iff.2 hmeta
    refine ensures_query_bind (fun receiverType hreceiver ↦ ?_) fun _ _ ↦ trivial
    have harith : g.session.isArithmetic (.call receiver name args type span) =
        (Width.ofType? receiverType).isSome := Session.isArithmetic_eq hvalue hreceiver
    cases hwidth : Width.ofType? receiverType with
    | some width =>
      refine (yields_calculate width).imp fun t _ ht ↦ ?_
      rw [TypesAgree, harith, hwidth]
      exact ⟨Session.valueType_calculate hvoid hvalue hreceiver hwidth, fun _ ↦ ht⟩
    | none =>
      refine (yields_callInstance receiverType).imp fun t _ ⟨cls, m, hcls, hm, ht⟩ ↦ ?_
      rw [TypesAgree, harith, hwidth, ht]
      exact ⟨Session.valueType_callInstance hvoid hvalue hreceiver hwidth hcls hm, nofun⟩

/-- So does code for a call without a receiver. -/
theorem typesAgree_callSelf {type : SourceType} (hvoid : g.session.typeOf type span = .ok .void) :
    Yields (callSelf name args span argsCode true) g
      fun t _ ↦ TypesAgree g.session (.selfCall name args type span) t := by
  refine ensures_query_bind (fun ⟨cls, m⟩ hm ↦ ?_) fun _ _ ↦ trivial
  have htyped := Session.valueType_callSelf hvoid hm
  -- without an instance there is nothing that a member without a result could leave
  refine ensures_ite (fun hstatic ↦ ?_) fun hstatic ↦ ?_
  · rw [if_pos hstatic] at htyped
    refine yields_bind_of_forall fun _ _ ↦ ensures_emit_bind ?_
    refine (yields_settle_returnType m).imp fun t _ ht ↦ ?_
    rw [TypesAgree, ht]
    exact ⟨htyped, nofun⟩
  · rw [if_neg hstatic] at htyped
    refine ensures_emit_bind (yields_when_of_forall fun _ ↦ yields_bind_of_forall fun _ _ ↦ ?_)
    refine ensures_emit_bind ((yields_chain m (.ref cls)).imp fun t _ ht ↦ ?_)
    rw [TypesAgree, ht]
    exact ⟨htyped, nofun⟩

/-- If a call without an inferred type is compiled for its value, that value is of the type that the
call was given before, unless it is a number: an operator on a number is taken for an object. -/
theorem valueType_eq_of_node {n : Node} {g g' : GenState} {t : MachineType}
    (hn : n.calledName?.isSome = true) (hvoid : g.session.typeOf n.type n.span = .ok .void)
    (h : node n .push g = .ok t g') :
    g.session.valueType n = .ok (if g.session.isArithmetic n then .object else t) ∧
      (g.session.isArithmetic n = true → ∃ w : Width, t = w.type) := by
  cases n with
  | call receiver name args type span =>
    have hcall : call receiver name args span (node receiver) (arguments args) true g =
        .ok t g' := h
    exact (typesAgree_call hvoid).of_ok hcall
  | selfCall name args type span =>
    have hcall : callSelf name args span (arguments args) true g = .ok t g' := h
    exact (typesAgree_callSelf hvoid).of_ok hcall
  | _ => cases hn

/-- A session in which nothing is open and only the classes of the host are known. -/
def hosted : GenState := { session := { classes := .standard } }

/-- A string that is appended to a builder after the builder was emptied, where none of the calls
has an inferred type. -/
def appending : Node :=
  .call (.call (.construct "java.lang.StringBuilder" []) "setLength" [.int 0] .none {}) "append"
    [.string "x"] .none {}

theorem valueType_eq_of_node_appending : ∃ t g', appending.calledName?.isSome = true ∧
    hosted.session.typeOf appending.type appending.span = .ok .void ∧
    node appending .push hosted = .ok t g' ∧
    hosted.session.valueType appending =
      .ok (if hosted.session.isArithmetic appending then .object else t) ∧
    (hosted.session.isArithmetic appending = true → ∃ w : Width, t = w.type) := by
  have hcompiles : (match node appending .push hosted with | .ok .. => true | .error .. => false) =
      true := by decide +kernel
  cases hcompile : node appending .push hosted with
  | ok t g' =>
    have hvoid : hosted.session.typeOf appending.type appending.span = .ok .void := rfl
    exact ⟨t, g', rfl, hvoid, rfl, valueType_eq_of_node rfl hvoid hcompile⟩
  | error e g' =>
    rw [hcompile] at hcompiles
    cases hcompiles

/-- A sum of two numbers, without an inferred type. -/
def untypedSum : Node := .binary (.int 1) "+" (.int 2) .none

/-- The code of the sum leaves a number where an object was announced. -/
theorem valueType_untypedSum : ∃ g',
    hosted.session.typeOf untypedSum.type untypedSum.span = .ok .void ∧
    node untypedSum .push hosted = .ok .int g' ∧
    hosted.session.valueType untypedSum = .ok .object :=
  ⟨_, rfl, rfl, rfl⟩

end Gen

end ScriptBytecode

import ScriptBytecode.Proofs.Stack.Ready

/-!
# Values on the operand stack

What code does to the operand stack follows from the type that it returns: a value of that type is
left on the stack, and nothing for `void`. Code that is told to keep its value never returns `void`,
and code that is told not to always does (`Produces`). A node compiled for a destination does the
same, and if the destination is a jump, its label expects the stack that the jump leaves
(`Delivers`). Arguments leave the values of their parameters, the last on top (`Passes`).

**The type decides.** Code is told whether to keep its value, and answers with a type; that the
answer is `void` just if nothing was to be kept (`Left.eq_void_iff`) is proved with the shape of the
stack and never apart from it. So whoever compiles a node for its value need not ask whether it has
one.

**Jumps are destinations.** A condition is compiled for a jump, and then the stack that its label
expects is what was there below the operands (`Destination.labels`). `delivers_deliver` is the step
from `Produces` to `Delivers` for all nodes that produce a value first and have it tested
afterwards; comparisons and negations are the nodes that do not, and have lemmas of their own.

* `left_settle`, `ready_coerce` and `ready_receive` are what happens to a value that is there
  already;
* `ready_passArgs` is about arguments, which are compiled for the types of parameters.
-/

namespace ScriptBytecode

/-! ### What code leaves -/

/-- A value of the given type is on the stack, if one is to be kept, and otherwise nothing. -/
structure Left (o : Outset) (t : LabelTable) (base : List StackKind) (keep : Bool)
    (type : MachineType) (g : GenState) : Prop where
  eq_void_iff : type = .void ↔ keep = false
  ready : Ready o t g (type.kind?.toList ++ base)

/-- The code leaves its value if it is told to. -/
structure Produces (code : Bool → Gen MachineType) : Prop where
  run : ∀ {o t g base} (keep : Bool), Ready o t g base →
    Ensures (code keep) g (Left o t base keep) (Failed o)

namespace Destination

/-- Whether the value is to stay on the stack. -/
def keeps : Destination → Bool
  | push => true
  | discard | jump .. => false

/-- The jump of the destination, if it has one, may reach its label with the given stack. -/
def Admitted (t : LabelTable) (base : List StackKind) : Destination → Prop
  | jump _ target => t.Admits target base
  | discard | push => True

/-- The labels once the destination has been reached. -/
def labels (t : LabelTable) (base : List StackKind) : Destination → LabelTable
  | jump _ target => t.expecting target base
  | discard | push => t

end Destination

/-- The code carries its value to any destination. -/
structure Delivers (code : Destination → Gen MachineType) : Prop where
  run : ∀ {o t g base} (d : Destination), Ready o t g base → d.Admitted t base →
    Ensures (code d) g (Left o (d.labels t base) base d.keeps) (Failed o)

/-- The code leaves arguments for any parameters, if there are as many of them. -/
structure Passes (count : Nat) (code : Gen.ArgsCode) : Prop where
  run : ∀ {o t g base} (params : List MachineType) {kinds : List StackKind},
    Ready o t g base → params.length = count → kindsOf? params = some kinds →
    Ensures (code params) g (fun _ g' ↦ Ready o t g' (kinds.reverse ++ base)) (Failed o)

/-! ### Carrying values -/

theorem MachineType.ne_void_of_kind? {type : MachineType} {kind : StackKind}
    (h : type.kind? = some kind) : type ≠ .void := by
  rintro rfl
  cases h

namespace Gen

variable {o : Outset} {t : LabelTable} {g : GenState} {base : List StackKind}

theorem defaultValue_leaves {type : MachineType} {kind : StackKind} (h : type.kind? = some kind) :
    (defaultValue type).leaves = [kind] := by
  unfold defaultValue
  rw [h]
  cases kind <;> rfl

theorem defaultValue_takes (type : MachineType) : (defaultValue type).takes? = some [] := by
  unfold defaultValue
  split <;> rfl

theorem defaultValue_isStraight (type : MachineType) : (defaultValue type).isStraight = true := by
  unfold defaultValue
  split <;> rfl

/-- A default value is a value of its type. -/
theorem ready_default {type : MachineType} {kind : StackKind} (h : Ready o t g base)
    (hkind : type.kind? = some kind) :
    Ready o t { g with asm := g.asm.emit (defaultValue type) } (kind :: base) := by
  have hready := h.emit_push (defaultValue_takes type) (defaultValue_isStraight type)
  rwa [defaultValue_leaves hkind] at hready

/-- A value that is on the stack is left there if it is wanted, and dropped if not. -/
theorem left_settle {produced : MachineType} {keep : Bool}
    (h : Ready o t g (produced.kind?.toList ++ base)) :
    Ensures (settle produced keep) g (Left o t base keep) (Failed o) := by
  refine ensures_settle ?_ ?_ ?_ ?_
  · rintro rfl rfl
    exact ⟨by simp [MachineType.object], h.emit_push rfl rfl⟩
  · rintro rfl rfl
    exact ⟨by simp, h⟩
  · rintro hne rfl
    exact ⟨by simpa using hne, h⟩
  · rintro kind hkind rfl
    rw [hkind] at h
    have h' : Ready o t g ([kind] ++ base) := h
    exact ⟨by simp, h'.emit rfl rfl⟩

/-- A coerced value has the kind of the target. -/
theorem ready_coerce {actual target : MachineType} {span : Span}
    (h : Ready o t g (actual.kind?.toList ++ base)) :
    Ensures (coerce actual target span) g
      (fun _ g' ↦ Ready o t g' (target.kind?.toList ++ base)) (Failed o) := by
  refine ensures_coerce ?_ ?_ (h.failed_located ..)
  · intro hkinds
    rwa [hkinds] at h
  · intro hactual htarget
    rw [hactual] at h
    rw [htarget]
    have h' : Ready o t g ([.int] ++ base) := h
    exact h'.emit rfl rfl

/-- Code that is received leaves a value of the type it is received at. -/
theorem ready_receive {code : Destination → Gen MachineType} (hcode : Delivers code)
    (h : Ready o t g base) (target : MachineType) (span : Span) :
    Ensures (receive target span code) g
      (fun _ g' ↦ Ready o t g' (target.kind?.toList ++ base)) (Failed o) := by
  unfold receive
  refine ensures_ite (fun hvoid ↦ ?_) fun _ ↦ ?_
  · obtain rfl := MachineType.isVoid_iff.1 hvoid
    refine ensures_bind (hcode.run .discard h trivial) fun type g' hleft ↦ ?_
    obtain rfl := hleft.eq_void_iff.2 rfl
    exact hleft.ready
  · exact ensures_bind (hcode.run .push h trivial) fun type g' hleft ↦ ready_coerce hleft.ready

/-- A truth value that is tested decides a jump. -/
theorem left_jumpIf {actual : MachineType} {span : Span} {condition : Condition} {target : Label}
    (h : Ready o t g (actual.kind?.toList ++ base)) (hadmits : t.Admits target base) :
    Ensures (do
      coerce actual .boolean span
      emit (.jumpIf condition target)
      pure .void) g (Left o (t.expecting target base) base false) (Failed o) := by
  refine ensures_bind (ready_coerce h) fun _ g' hready ↦ ?_
  have hready' : Ready o t g' ([.int] ++ base) := hready
  exact ⟨by simp, hready'.emit_branch rfl rfl rfl rfl hadmits⟩

/-- Code that produces a value for keeping or for dropping delivers it to any destination. -/
theorem delivers_deliver (n : Node) {code : Bool → Gen MachineType} (hcode : Produces code) :
    Delivers fun d ↦ deliver n d code := by
  constructor
  intro o t g base d h hadmitted
  cases d with
  | discard => exact hcode.run false h
  | push => exact hcode.run true h
  | jump sense target =>
    refine ensures_query_bind (fun type _ ↦ ?_) (h.failed (.valueType ..))
    have htest : Ensures (do
        let actual ← code true
        coerce actual .boolean n.span
        emit (.jumpIf (if sense then .ne else .eq) target)
        pure .void) g (Left o (t.expecting target base) base false) (Failed o) :=
      ensures_bind (hcode.run true h) fun actual g' hleft ↦ left_jumpIf hleft.ready hadmitted
    by_cases htype : type = .boolean
    · rw [if_pos htype]
      exact htest
    · rw [if_neg htype]
      exact ensures_throw_bind (h.failed_located ..)

/-- Arguments are passed if there are as many as parameters. -/
theorem ready_passArgs {args : List Node} {code : ArgsCode} (hcode : Passes args.length code)
    (h : Ready o t g base) {params : List MachineType} {kinds : List StackKind}
    (hlength : params.length = args.length) (hkinds : kindsOf? params = some kinds) :
    Ensures (passArgs args code params) g (fun _ g' ↦ Ready o t g' (kinds.reverse ++ base))
      (Failed o) := by
  unfold passArgs
  rw [if_pos hlength.symm]
  exact hcode.run params h hlength hkinds

end Gen

end ScriptBytecode

import ScriptBytecode.Compile.Node
import ScriptBytecode.Proofs.Stack.Values

/-!
# The operand stack around statements

Constants and reads push a value, and a store takes one: the locals of a method hold values of the
kinds that their types say. Branches and loops have labels of their own, which are bound by the time
the statement ends; control arrives at each with one stack, whichever way it comes.

* `left_store` and `produces_assign` are about stores, `produces_readLocal` and `produces_literal`
  about what is pushed;
* `produces_sequence` and `passes_arguments` are about several nodes.

A read pushes a value of the kind that its slots are for, while its type is the one that the table
of locals has for the name. That the two agree is the invariant of locals (`Locals.Typed`), which is
part of every good session; a store keeps it up, and may move the variable to other slots to do so.

A sequence leaves the value of its last node only, and an empty one has no value at all. Arguments
are different: each is wanted, and they stay on the stack in their order until the call takes them.
-/

namespace ScriptBytecode.Gen

variable {o : Outset} {t : LabelTable} {g : GenState} {base : List StackKind}

/-! ### Constants, the receiver and locals -/

theorem left_nothing (h : Ready o t g base) : Left o t base false .void g :=
  ⟨by simp, h⟩

/-- An instruction that only pushes leaves its value. -/
theorem left_push {i : Instruction} {type : MachineType} (h : Ready o t g base)
    (htakes : i.takes? = some []) (hstraight : i.isStraight = true)
    (hleaves : i.leaves = type.kind?.toList) (hne : type ≠ .void) :
    Left o t base true type { g with asm := g.asm.emit i } := by
  refine ⟨by simpa using hne, ?_⟩
  rw [← hleaves]
  exact h.emit_push htakes hstraight

/-- A literal leaves its value if it is wanted. -/
theorem produces_literal (value : Literal) (type : SourceType) (span : Span) :
    Produces (literal value type span) := by
  constructor
  intro o t g base keep h
  cases keep with
  | false => exact left_nothing h
  | true =>
    cases value with
    | int n => exact left_push (i := .pushInt n) h rfl rfl rfl nofun
    | long n => exact left_push (i := .pushLong n) h rfl rfl rfl nofun
    | bool b => exact left_push (i := .pushInt _) h rfl rfl rfl nofun
    | string text => exact left_push (i := .pushString text) h rfl rfl rfl nofun
    | null =>
      refine ensures_query_bind (fun inferred _ ↦ ?_) (h.failed (.typeOf ..))
      refine ensures_emit_bind (ensures_pure ?_)
      split
      · next hkind =>
        refine left_push (i := .pushNull) h rfl rfl ?_ (MachineType.ne_void_of_kind? hkind)
        rw [hkind]
        rfl
      · exact left_push (i := .pushNull) h rfl rfl rfl nofun

/-- So does the current instance, -/
theorem produces_selfRef (span : Span) : Produces (selfRef span) := by
  constructor
  intro o t g base keep h
  refine ensures_get_bind ?_
  by_cases hstatic : g.session.scopes.isStatic = true
  · rw [if_pos hstatic]
    exact ensures_throw_bind (h.failed_located ..)
  · rw [if_neg hstatic]
    cases g.session.scopes.currentClass? with
    | none => exact ensures_throw (h.failed_located ..)
    | some scope =>
      cases keep with
      | false => exact left_nothing h
      | true => exact left_push (i := .load .reference 0) h rfl rfl rfl nofun

/-- and a local, whose slots have the kind of its type. -/
theorem produces_readLocal (name : String) (span : Span) : Produces (readLocal name span) := by
  constructor
  intro o t g base keep h
  refine ensures_get_bind ?_
  cases hmethod : g.session.scopes.currentMethod? with
  | none => exact ensures_throw (h.failed_located ..)
  | some scope =>
    have hlocals : g.session.locals = scope.locals := by simp [Session.locals, hmethod]
    dsimp only
    cases hget : scope.locals.get? name with
    | none => exact ensures_throw (h.failed_located ..)
    | some v =>
      have hkind : v.type.kind? = some v.kind := h.session.good.locals (hlocals ▸ hget)
      cases keep with
      | false => exact left_nothing h
      | true =>
        refine left_push (i := .load v.kind v.slot) h rfl rfl ?_
          (MachineType.ne_void_of_kind? hkind)
        rw [hkind]
        rfl

/-- A store takes a value of the kind of its variable, and leaves one more if it is to be kept. -/
theorem left_store {valueCode : Destination → Gen MachineType} (hvalue : Delivers valueCode)
    (h : Ready o t g base) (name : String) (value : Node) (type : MachineType) (span : Span)
    (keep : Bool) :
    Ensures (do
      receive type value.span valueCode
      let v ← onSession <|
        SessionM.declareLocal (.misuse span .localOutsideMethod) (·.declareStore name type span)
      if keep then emit (.dup v.kind)
      emit (.store v.kind v.slot)
      pure (if keep then type else .void)) g (Left o t base keep) (Failed o) := by
  refine ensures_bind (ready_receive hvalue h type value.span) fun _ g' h' ↦ ?_
  have hdeclare : Ensures (onSession <| SessionM.declareLocal (.misuse span .localOutsideMethod)
      (·.declareStore name type span)) g'
      (fun v g'' ↦ type.kind? = some v.kind ∧ Ready o t g'' ([v.kind] ++ base)) (Failed o) := by
    refine ensures_onSession (SessionM.ensures_declareLocal (fun v l hstore _ ↦ ?_) ?_ ?_)
    · obtain ⟨-, hkind, -⟩ := Locals.declareStore_cases hstore
      rw [hkind] at h'
      exact
        ⟨hkind, h'.onSession (h'.session.withLocals (h'.session.good.locals.declareStore hstore))⟩
    · exact h'.failed (.declareStore ..)
    · exact fun _ ↦ h'.failed_located ..
  refine ensures_bind hdeclare ?_
  rintro v g'' ⟨hkind, hready⟩
  cases keep with
  | false => exact left_nothing (hready.emit (i := .store v.kind v.slot) rfl rfl)
  | true =>
    have hdup : Ready o t _ ([v.kind] ++ ([v.kind] ++ base)) :=
      hready.emit (i := .dup v.kind) rfl rfl
    refine ⟨by simpa using MachineType.ne_void_of_kind? hkind, ?_⟩
    rw [show (if true then type else .void : MachineType) = type from rfl, hkind]
    exact hdup.emit (i := .store v.kind v.slot) rfl rfl

/-- An assignment takes the value, and leaves a copy of it if it is wanted. -/
theorem produces_assign {valueCode : Destination → Gen MachineType} (hvalue : Delivers valueCode)
    (name : String) (value : Node) (type : SourceType) (span : Span) :
    Produces (assign name value type span valueCode) := by
  constructor
  intro o t g base keep h
  refine ensures_query_bind (fun declared _ ↦ ?_) (h.failed (.typeOf ..))
  refine ensures_ite (fun _ ↦ ?_) fun _ ↦ ?_
  · refine ensures_query_bind (fun type _ ↦ ?_) (h.failed (.valueType ..))
    exact left_store hvalue h name value type span keep
  · exact left_store hvalue h name value declared span keep

/-! ### Sequences -/

theorem delivers_keepOrDiscard {code : Destination → Gen MachineType} (hcode : Delivers code) :
    Produces fun keep ↦ code (keepOrDiscard keep) := by
  constructor
  intro o t g base keep h
  cases keep with
  | false => exact hcode.run .discard h trivial
  | true => exact hcode.run .push h trivial

/-- A sequence leaves the value of its last node. -/
theorem produces_sequence {nodes : List Node} (hnodes : ∀ n ∈ nodes, Delivers (node n)) :
    Produces (sequence nodes) := by
  induction nodes with
  | nil =>
    constructor
    intro o t g base keep h
    rw [sequence]
    exact left_settle h
  | cons n rest ih =>
    have hn := hnodes n (List.mem_cons_self ..)
    have hrest := ih fun n hn ↦ hnodes n (List.mem_cons_of_mem _ hn)
    constructor
    intro o t g base keep h
    cases rest with
    | nil =>
      rw [sequence]
      exact (delivers_keepOrDiscard hn).run keep h
    | cons n' rest =>
      rw [sequence]
      · refine ensures_bind (hn.run .discard h trivial) fun type g' hleft ↦ ?_
        obtain rfl := hleft.eq_void_iff.2 rfl
        exact hrest.run keep hleft.ready
      · simp

/-! ### Arguments -/

/-- Arguments leave their values, the last on top. -/
theorem passes_arguments {nodes : List Node} (hnodes : ∀ n ∈ nodes, Delivers (node n)) :
    Passes nodes.length (arguments nodes) := by
  induction nodes with
  | nil =>
    constructor
    intro o t g base params kinds h hlength hkinds
    obtain rfl := List.length_eq_zero_iff.1 hlength
    obtain rfl := Option.some.inj hkinds
    rw [arguments]
    · exact h
    · simp
  | cons n rest ih =>
    have hn := hnodes n (List.mem_cons_self ..)
    have hrest := ih fun n hn ↦ hnodes n (List.mem_cons_of_mem _ hn)
    constructor
    intro o t g base params kinds h hlength hkinds
    cases params with
    | nil => cases hlength
    | cons param params =>
      obtain ⟨kind, hkind, hkinds⟩ := Option.bind_eq_some_iff.1 hkinds
      obtain ⟨kinds, hkinds', hkinds⟩ := Option.bind_eq_some_iff.1 hkinds
      obtain rfl := Option.some.inj hkinds
      rw [arguments]
      refine ensures_bind (ready_receive hn h param n.span) fun _ g' h' ↦ ?_
      rw [hkind] at h'
      refine (hrest.run params h' (Nat.succ.inj hlength) hkinds').imp fun _ g'' h'' ↦ ?_
      rw [List.reverse_cons, List.append_assoc]
      exact h''

end ScriptBytecode.Gen

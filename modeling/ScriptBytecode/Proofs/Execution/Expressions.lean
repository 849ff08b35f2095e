import ScriptBytecode.Compile.Node
import ScriptBytecode.Proofs.Execution.Fragment
import ScriptBytecode.Proofs.Execution.Pieces
import ScriptBytecode.Proofs.Operands

/-!
# Expressions follow their meaning

Constants, reads and stores of locals, sums and differences, and comparisons each have one lemma
(`yields_constant`, `yields_readLocal`, `yields_assign`, `yields_calculate`, `decides_compare`),
which takes what is known of the operands.

**Three ways to say what code does.** `Simulates` is for code that is run for its value or for its
effects, `Decides` for code that jumps, and `Outcome` for what one run of the compiler has emitted.
The lemmas about a construct have the first two of its parts as hypotheses.

**Locals change on the way.** Operands are compiled one after another, and a store in the first may
add a variable that the second does not know of. Types do not depend on locals (`valueType`), and
pieces that were emitted before go on to do what they did (`Realizes.later`); so the pieces of both
operands can be put together although they were emitted from different tables.

**Numbers.** An operand is widened after it was evaluated, and the number that it stands for stays
the same (`Simulates.operand`). So both the operation and its meaning can be said of numbers, and
widths enter only where the result is cut to one.
-/

namespace ScriptBytecode

open Meaning Gen

/-! ### What evaluation depends on -/

namespace Value

/-- A value of the right kind is not changed. -/
theorem convert_of_kind {v : Value} {type : MachineType} (h : type.kind? = some v.kind) :
    v.convert type = pure v := by
  unfold convert
  rw [if_pos h]

/-- A narrow integer is widened. -/
theorem convert_int {type : MachineType} (h : type.kind? = some .long) (n : Int32) :
    (int n).convert type = pure (long n.toInt64) := by
  unfold convert
  rw [if_neg (by simp [h, kind]), h]

end Value

namespace Steady

variable {s : Session} {kinds : String → StackKind} {g : GenState}

/-- The type of a value is the one it had at the start, whatever locals there are by now. -/
theorem valueType (h : Steady s kinds g) (n : Node) : g.session.valueType n = s.valueType n := by
  rw [h.session, Session.valueType_withLocals]

theorem valueTypes (h : Steady s kinds g) (nodes : List Node) :
    g.session.valueTypes nodes = s.valueTypes nodes :=
  Session.valueTypes_congr fun n _ ↦ h.valueType n

/-- So is what a type stands for. -/
theorem typeOf (h : Steady s kinds g) (type : SourceType) (span : Span) :
    g.session.typeOf type span = s.typeOf type span := by
  rw [h.session]
  rfl

end Steady

/-! ### Code and meaning -/

/-- The values on the stack are the one value of a type that has values, and none otherwise. -/
def Leaves (type : MachineType) (v : Option Value) (results : List Value) : Prop :=
  results = v.toList ∧ v.map Value.kind = type.kind?

namespace Leaves

variable {type : MachineType} {v : Option Value} {results : List Value}

theorem some {x : Value} (h : type.kind? = some x.kind) : Leaves type (some x) [x] :=
  ⟨rfl, h.symm⟩

theorem none (h : type.kind? = none) : Leaves type none [] := ⟨rfl, h.symm⟩

/-- Code of a type with values leaves one. -/
theorem exists_value (h : Leaves type v results) {k : StackKind} (hk : type.kind? = .some k) :
    ∃ x, v = .some x ∧ results = [x] ∧ x.kind = k := by
  obtain ⟨rfl, hv⟩ := h
  obtain ⟨x, rfl, hx⟩ := Option.map_eq_some_iff.1 (hv.trans hk)
  exact ⟨x, rfl, rfl, hx⟩

/-- Code of a type without values leaves none. -/
theorem eq_none (h : Leaves type v results) (hk : type.kind? = .none) :
    v = .none ∧ results = [] := by
  obtain ⟨rfl, hv⟩ := h
  obtain rfl := Option.map_eq_none_iff.1 (hv.trans hk)
  exact ⟨rfl, rfl⟩

end Leaves

/-- A piece was emitted that follows an evaluation and leaves a value of the type, if `keep` says
so. -/
structure Outcome (s : Session) (kinds : String → StackKind) (g : GenState) (keep : Bool)
    (eval : Nat → Eval (Option Value)) (type : MachineType) (g' : GenState) : Prop where
  kept : type.kind?.isSome = keep
  piece : ∃ piece, Emits s kinds g g' piece ∧
    Realizes g'.session.locals piece [] eval (Leaves type)

/-- Code that runs for its value or for its effects follows a meaning. -/
def Simulates (s : Session) (kinds : String → StackKind) (code : Destination → Gen MachineType)
    (m : Nat → Meaning) : Prop :=
  ∀ g keep, Steady s kinds g → Yields (code (keepOrDiscard keep)) g
    (Outcome s kinds g keep fun bound ↦ (m bound).run keep)

/-- Code that jumps on a truth value follows a meaning. -/
def Decides (s : Session) (kinds : String → StackKind) (code : Destination → Gen MachineType)
    (m : Nat → Meaning) : Prop :=
  ∀ g sense target, Steady s kinds g → Yields (code (.jump sense target)) g fun _ g' ↦
    ∃ piece, Emits s kinds g g' piece ∧
      Branches g'.session.locals piece sense target fun bound ↦ (m bound).test

variable {s : Session} {kinds : String → StackKind} {g : GenState}

/-! ### Values at a type -/

/-- A value that is received at a type is the value of the evaluation at that type. -/
theorem Simulates.receive {code : Destination → Gen MachineType} {m : Nat → Meaning}
    (h : Simulates s kinds code m) (hg : Steady s kinds g) (type : MachineType) (span : Span) :
    Yields (receive type span code) g fun _ g' ↦ ∃ piece, Emits s kinds g g' piece ∧
      Realizes g'.session.locals piece [] (fun bound ↦ (m bound).runAs type) (Leaves type) := by
  unfold Gen.receive
  by_cases hvoid : type.isVoid
  · rw [if_pos hvoid]
    refine ensures_bind (h g false hg) ?_
    rintro actual g' ⟨hnone, ⟨piece, hemits, hreal⟩⟩
    refine ensures_pure ⟨piece, hemits, ?_⟩
    simp only [runAs, if_pos hvoid]
    refine hreal.imp fun v results ⟨hresults, hkind⟩ ↦ ⟨hresults, ?_⟩
    have hactual : actual.kind? = none := by simpa using hnone
    have htype : type.kind? = none := by simpa using hvoid
    rw [hkind, hactual, htype]
  · have hne : type ≠ .void := fun h ↦ hvoid (MachineType.isVoid_iff.2 h)
    rw [if_neg hvoid]
    refine ensures_bind (h g true hg) ?_
    rintro actual g' ⟨-, ⟨piece, hemits, hreal⟩⟩
    simp only [runAs, if_neg hvoid]
    refine ensures_coerce (fun hsame ↦ ⟨piece, hemits, ?_⟩)
      (fun hint hlong ↦ ⟨piece ++ [.i2l], hemits.snoc (by simp), ?_⟩) trivial
    · obtain ⟨k, hk⟩ := Option.ne_none_iff_exists'.1 (mt MachineType.kind?_eq_none_iff.1 hne)
      refine hreal.map fun v results hv ↦ ?_
      obtain ⟨x, rfl, rfl, hx⟩ := hv.exists_value (hsame.trans hk)
      have hkind : type.kind? = some x.kind := by rw [hk, hx]
      exact ⟨some x, fun _ ↦ by simp [Value.convert_of_kind hkind], .some hkind⟩
    · refine hreal.mapSnoc fun v results hv ↦ ?_
      obtain ⟨x, rfl, rfl, hx⟩ := hv.exists_value hint
      obtain ⟨n, rfl⟩ := Value.exists_int_of_kind hx
      exact ⟨some (.long n.toInt64), [.long n.toInt64],
        fun _ ↦ by simp [Value.convert_int hlong], fun _ _ _ _ ↦ rfl, .some hlong⟩

/-! ### Delivery -/

section Deliver

variable {n : Node} {code : Bool → Gen MachineType} {run : Nat → Bool → Eval (Option Value)}

/-- Code that follows its meaning for a value and for its effects does so for any destination. -/
theorem simulates_deliver
    (h : ∀ g keep, Steady s kinds g →
      Yields (code keep) g (Outcome s kinds g keep fun bound ↦ run bound keep)) :
    Simulates s kinds (fun d ↦ deliver n d code) fun bound ↦ ofRun (run bound) := by
  intro g keep hg
  cases keep with
  | false => exact h g false hg
  | true => exact h g true hg

/-- A truth value is tested by comparing it to zero. -/
theorem decides_deliver
    (h : ∀ g keep, Steady s kinds g →
      Yields (code keep) g (Outcome s kinds g keep fun bound ↦ run bound keep)) :
    Decides s kinds (fun d ↦ deliver n d code) fun bound ↦ ofRun (run bound) := by
  intro g sense target hg
  refine ensures_query_bind (fun type htype ↦ ?_) fun _ _ ↦ trivial
  refine ensures_ite (fun _ ↦ ?_) fun _ ↦ ensures_throw_bind trivial
  refine ensures_bind (h g true hg) ?_
  rintro actual g' ⟨-, ⟨piece, hemits, hreal⟩⟩
  have hcoerce : Yields (coerce actual .boolean n.span) g' fun _ g'' ↦
      g'' = g' ∧ actual.kind? = some .int :=
    ensures_coerce (fun hsame ↦ ⟨rfl, hsame⟩) (fun _ hlong ↦ by cases hlong) trivial
  refine ensures_bind hcoerce ?_
  rintro - _ ⟨rfl, hint⟩
  refine ⟨_, hemits.snoc (by simp), hreal.branches fun v results hv ↦ ?_⟩
  obtain ⟨x, rfl, rfl, hx⟩ := hv.exists_value hint
  obtain ⟨n, rfl⟩ := Value.exists_int_of_kind hx
  exact ⟨n.toInt ≠ 0, fun _ ↦ rfl, Instruction.decides_jumpIf .ne n sense target⟩

end Deliver

/-! ### Constants and locals -/

/-- Nothing is emitted for nothing. -/
theorem Outcome.nothing (hg : Steady s kinds g) :
    Outcome s kinds g false (fun _ ↦ pure none) .void g :=
  ⟨rfl, [], .refl hg, .pure (.none rfl)⟩

/-- One instruction pushes the value. -/
theorem Outcome.push (hg : Steady s kinds g) {i : Instruction} {v : Value} {type : MachineType}
    (hi : i.Turns [] [v]) (hbind : ∀ l, i ≠ .bind l) (hkind : type.kind? = some v.kind) :
    Outcome s kinds g true (fun _ ↦ pure (some v)) type (g.emits [i]) :=
  ⟨by rw [hkind]; rfl, [i], (Emits.refl hg).snoc hbind, .instruction hi (.some hkind)⟩

/-- In place of no value there is the null reference. -/
theorem yields_settle_void (hg : Steady s kinds g) (keep : Bool) :
    Yields (settle .void keep) g (Outcome s kinds g keep fun _ ↦ pure (settled keep .null)) := by
  cases keep with
  | false => exact .nothing hg
  | true =>
    exact Outcome.push hg (fun _ _ _ _ ↦ rfl) (by simp [defaultValue, MachineType.kind?]) rfl

/-- A literal pushes its value, or nothing where the value is unwanted. -/
theorem yields_constant (hg : Steady s kinds g) {value : Literal} {type : SourceType}
    {span : Span} {i : Instruction} {v : Value} {t : MachineType} (hvalue : value.value = pure v)
    (hcode : ∀ g, literal value type span true g = .ok t (g.emits [i])) (hi : i.Turns [] [v])
    (hbind : ∀ l, i ≠ .bind l) (hkind : t.kind? = some v.kind) (keep : Bool) :
    Yields (literal value type span keep) g
      (Outcome s kinds g keep fun _ ↦ return settled keep (← value.value)) := by
  simp only [hvalue, pure_bind]
  cases keep with
  | false => exact .nothing hg
  | true =>
    refine yields_iff.2 fun t' g' hok ↦ ?_
    obtain ⟨rfl, rfl⟩ := EStateM.Result.ok.inj ((hcode g).symm.trans hok)
    exact Outcome.push hg hi hbind hkind

/-- A local is read from its slots, or not at all where the value is unwanted. -/
theorem yields_readLocal (hg : Steady s kinds g) (name : String) (span : Span) (keep : Bool) :
    Yields (readLocal name span keep) g (Outcome s kinds g keep fun _ ↦
      if keep then some <$> Eval.read name else return none) := by
  refine ensures_get_bind ?_
  split
  · trivial
  · next scope hscope =>
    split
    · trivial
    · next v hget =>
      cases keep with
      | false => exact .nothing hg
      | true =>
        have hlocal : g.session.locals.get? name = some v := by
          simpa [Session.locals, hscope] using hget
        have hkind := hg.built.typed hlocal
        refine ⟨by rw [hkind]; rfl, _, (Emits.refl hg).snoc (by simp), ?_⟩
        simp only [if_true, map_eq_pure_bind]
        refine (Realizes.read hlocal).map fun x results hread ↦ ?_
        obtain ⟨hresults, hx⟩ := hread
        exact ⟨some x, fun _ ↦ rfl, hresults, by rw [hkind, ← hx]; rfl⟩

/-- A store at a type, once that is known. -/
theorem yields_store (hg : Steady s kinds g) {code : Destination → Gen MachineType}
    {m : Nat → Meaning} (hcode : Simulates s kinds code m) {name : String} {type : MachineType}
    (hkind : type.kind? = some (kinds name)) (outside : CompileError) (span valueSpan : Span)
    (keep : Bool) :
    Yields (do
      receive type valueSpan code
      let v ← onSession <| SessionM.declareLocal outside (·.declareStore name type span)
      if keep then emit (.dup v.kind)
      emit (.store v.kind v.slot)
      pure (if keep then type else .void)) g (Outcome s kinds g keep fun bound ↦ do
        match ← (m bound).runAs type with
        | some v =>
          Eval.write name v
          return settled keep v
        | none => throw .illTyped) := by
  refine ensures_bind (hcode.receive hg type valueSpan) ?_
  rintro - g' ⟨piece, hemits, hreal⟩
  refine ensures_bind (hemits.steady.declareStore hkind ..) ?_
  rintro v g'' ⟨hdeclared, hget, hv⟩
  replace hemits := hemits.trans hdeclared
  -- The store may move the variable, so what the value left is looked at with the new locals.
  replace hreal := hreal.later hdeclared.keeps
  rw [List.append_nil] at hemits
  cases keep with
  | false =>
    refine ⟨rfl, _, hemits.snoc (by simp), hreal.append fun x? results hx ↦ ?_⟩
    obtain ⟨x, rfl, rfl, hkindx⟩ := hx.exists_value hv
    exact (Realizes.write hget hkindx).map fun _ results hresults ↦
      ⟨none, fun _ ↦ rfl, hresults ▸ .none rfl⟩
  -- A copy of the value stays on the stack.
  | true =>
    refine ⟨by simp [hv], _, (hemits.snoc (by simp)).snoc (by simp), ?_⟩
    rw [List.append_assoc]
    refine hreal.append fun x? results hx ↦ ?_
    obtain ⟨x, rfl, rfl, hkindx⟩ := hx.exists_value hv
    refine .cons (hkindx ▸ Instruction.turns_dup x)
      ((Realizes.write hget hkindx).map fun _ results hresults ↦ ?_)
    exact ⟨some x, fun _ ↦ rfl, hresults ▸ .some (by rw [hkindx]; exact hv)⟩

/-- An assignment follows its meaning: the value is evaluated, converted and stored. -/
theorem yields_assign (hg : Steady s kinds g) {code : Destination → Gen MachineType}
    {m : Nat → Meaning} (hcode : Simulates s kinds code m) {name : String} {value : Node}
    {type : SourceType} {span : Span}
    (hkind : ∀ t, s.storeType value type span = .ok t → t.kind? = some (kinds name))
    (keep : Bool) :
    Yields (assign name value type span code keep) g (Outcome s kinds g keep fun bound ↦ do
      match ← (m bound).runAs (← Eval.static (s.storeType value type span)) with
      | some v =>
        Eval.write name v
        return settled keep v
      | none => throw .illTyped) := by
  refine ensures_query_bind (fun declared hdeclared ↦ ?_) fun _ _ ↦ trivial
  rw [hg.typeOf] at hdeclared
  have hdeclaredType : s.storeType value type span =
      if declared.isVoid then s.valueType value else .ok declared := by
    unfold Session.storeType
    rw [hdeclared]
    rfl
  have hstore : ∀ t, s.storeType value type span = .ok t → _ := fun t ht ↦
    yields_store hg hcode (hkind t ht) (.misuse span .localOutsideMethod) span value.span keep
  refine ensures_ite (fun hvoid ↦ ?_) fun hvoid ↦ ?_
  · refine ensures_query_bind (fun t ht ↦ ?_) fun _ _ ↦ trivial
    rw [hg.valueType] at ht
    rw [if_pos hvoid, ht] at hdeclaredType
    simp only [hdeclaredType, Eval.static, pure_bind]
    exact hstore t hdeclaredType
  · rw [if_neg hvoid] at hdeclaredType
    simp only [hdeclaredType, Eval.static, pure_bind]
    exact hstore declared hdeclaredType

/-! ### Numbers -/

/-- There is one value on the stack, of the given kind, and it stands for the number. -/
def Numbers (k : StackKind) (n : Int) (results : List Value) : Prop :=
  ∃ v : Value, results = [v] ∧ v.kind = k ∧ v.number? = some n

/-- A narrow operand is on the stack as it is. -/
theorem Numbers.exists_int {n : Int} {results : List Value} (h : Numbers .int n results) :
    ∃ x : Int32, results = [.int x] ∧ x.toInt = n := by
  obtain ⟨v, rfl, hkind, hn⟩ := h
  obtain ⟨x, rfl⟩ := Value.exists_int_of_kind hkind
  exact ⟨x, rfl, Option.some.inj hn⟩

/-- So is a wide operand. -/
theorem Numbers.exists_long {n : Int} {results : List Value} (h : Numbers .long n results) :
    ∃ x : Int64, results = [.long x] ∧ x.toInt = n := by
  obtain ⟨v, rfl, hkind, hn⟩ := h
  obtain ⟨x, rfl⟩ := Value.exists_long_of_kind hkind
  exact ⟨x, rfl, Option.some.inj hn⟩

/-- A value that is received at a type of numbers is the number of the evaluation. -/
theorem Simulates.number {code : Destination → Gen MachineType} {m : Nat → Meaning}
    (h : Simulates s kinds code m) (hg : Steady s kinds g) {type : MachineType} {k : StackKind}
    (hk : type.kind? = some k) (hnumeric : k ≠ .reference) (span : Span) :
    Yields (Gen.receive type span code) g fun _ g' ↦ ∃ piece, Emits s kinds g g' piece ∧
      Realizes g'.session.locals piece [] (fun bound ↦ (m bound).numberAs type) (Numbers k) := by
  refine (h.receive hg type span).imp fun _ g' ⟨piece, hemits, hreal⟩ ↦ ⟨piece, hemits, ?_⟩
  refine hreal.map fun v? results hv ↦ ?_
  obtain ⟨v, rfl, rfl, rfl⟩ := hv.exists_value hk
  cases v with
  | int n => exact ⟨n.toInt, fun _ ↦ rfl, _, rfl, rfl, rfl⟩
  | long n => exact ⟨n.toInt, fun _ ↦ rfl, _, rfl, rfl, rfl⟩
  | null => exact absurd rfl hnumeric

/-- An operand is a number, which stays the same when it is widened. -/
theorem Simulates.operand {α : Type} {code : Destination → Gen MachineType} {m : Nat → Meaning}
    (h : Simulates s kinds code m) (hg : Steady s kinds g) {type : MachineType} {k : StackKind}
    (hk : type.kind? = some k) (hnumeric : k ≠ .reference) {widen : Bool}
    (hwiden : widen = true → k = .int) {span : Span} {rest : Gen α} {post : α → GenState → Prop}
    (hrest : ∀ g' piece, Emits s kinds g g' piece →
      Realizes g'.session.locals piece [] (fun bound ↦ (m bound).numberAs type)
        (Numbers (if widen then .long else k)) → Yields rest g' post) :
    Yields (do
      Gen.receive type span code
      if widen then emit .i2l
      rest) g post := by
  refine ensures_bind (h.number hg hk hnumeric span) ?_
  rintro - g' ⟨piece, hemits, hreal⟩
  cases widen with
  | false => exact hrest g' piece hemits hreal
  | true =>
    obtain rfl := hwiden rfl
    refine hrest (g'.emits [.i2l]) _ (hemits.snoc (by simp)) (hreal.snoc fun n results hn ↦ ?_)
    obtain ⟨x, rfl, rfl⟩ := hn.exists_int
    exact ⟨[.long x.toInt64], fun _ _ _ _ ↦ rfl, _, rfl, rfl, by simp [Value.number?]⟩

/-- Two operands, the second on top of the first. -/
def Operands (k : StackKind) (r : Int × Int) (results : List Value) : Prop :=
  ∃ xs ys, results = ys ++ xs ∧ Numbers k r.1 xs ∧ Numbers k r.2 ys

/-- The code of two operands leaves both. -/
theorem realizes_operands {l : Locals} {piece piece' : List Instruction}
    {eval eval' : Nat → Eval Int} {k : StackKind} (h : Realizes l piece [] eval (Numbers k))
    (h' : Realizes l piece' [] eval' (Numbers k)) :
    Realizes l (piece ++ piece') []
      (fun bound ↦ do
        let x ← eval bound
        let y ← eval' bound
        return (x, y)) (Operands k) := by
  refine h.append fun x xs hx ↦ (h'.under xs).map fun y results ⟨ys, hresults, hy⟩ ↦ ?_
  exact ⟨(x, y), fun _ ↦ rfl, xs, ys, hresults, hx, hy⟩

/-! ### Sums and differences -/

theorem arguments_single (n : Node) (type : MachineType) :
    arguments [n] [type] = receive type n.span (node n) := by
  have hnil : arguments [] [] = pure () := by
    rw [arguments]
    simp
  rw [arguments, hnil]
  exact bind_pure_unit

theorem passArgs_single (n : Node) (type : MachineType) :
    passArgs [n] (arguments [n]) [type] = receive type n.span (node n) :=
  arguments_single n type

namespace Width

theorem operation_ne_bind {w : Width} {operator : String} {i : Instruction}
    (h : Arithmetic.operation? w operator = some i) (l : Label) : i ≠ .bind l := by
  rintro rfl
  unfold Arithmetic.operation? at h
  split at h <;> cases w <;> cases h

/-- An operation computes the number that the operator makes, cut to the width. -/
theorem turns_operation {w : Width} {operator : String} {i : Instruction}
    (h : Arithmetic.operation? w operator = some i) {r : Int × Int} {operands : List Value}
    (hr : Operands w.kind r operands) :
    ∃ n, operate operator r.1 r.2 = pure n ∧ i.Turns operands [w.wrap n] := by
  obtain ⟨x, y⟩ := r
  obtain ⟨xs, ys, rfl, hx, hy⟩ := hr
  unfold Arithmetic.operation? at h
  split at h
  · obtain rfl := Option.some.inj h
    refine ⟨x + y, rfl, ?_⟩
    cases w with
    -- The machine wraps around where the operation does: `Int32.ofInt` is a homomorphism.
    | narrow =>
      obtain ⟨a, rfl, rfl⟩ := hx.exists_int
      obtain ⟨b, rfl, rfl⟩ := hy.exists_int
      rw [wrap, Int32.ofInt_add, Int32.ofInt_toInt, Int32.ofInt_toInt]
      exact fun _ _ _ _ ↦ rfl
    | wide =>
      obtain ⟨a, rfl, rfl⟩ := hx.exists_long
      obtain ⟨b, rfl, rfl⟩ := hy.exists_long
      rw [wrap, Int64.ofInt_add, Int64.ofInt_toInt, Int64.ofInt_toInt]
      exact fun _ _ _ _ ↦ rfl
  · obtain rfl := Option.some.inj h
    refine ⟨x - y, rfl, ?_⟩
    cases w with
    | narrow =>
      obtain ⟨a, rfl, rfl⟩ := hx.exists_int
      obtain ⟨b, rfl, rfl⟩ := hy.exists_int
      rw [wrap, Int32.ofInt_sub, Int32.ofInt_toInt, Int32.ofInt_toInt]
      exact fun _ _ _ _ ↦ rfl
    | wide =>
      obtain ⟨a, rfl, rfl⟩ := hx.exists_long
      obtain ⟨b, rfl, rfl⟩ := hy.exists_long
      rw [wrap, Int64.ofInt_sub, Int64.ofInt_toInt, Int64.ofInt_toInt]
      exact fun _ _ _ _ ↦ rfl
  · cases h

@[simp] theorem kind_wrap (w : Width) (n : Int) : (w.wrap n).kind = w.kind := by cases w <;> rfl

end Width

/-- What an operation leaves is dropped if it is not wanted. -/
theorem yields_settle_value {g' : GenState} {piece : List Instruction} {eval : Nat → Eval Value}
    {type : MachineType} (hemits : Emits s kinds g g' piece)
    (hreal : Realizes g'.session.locals piece [] eval fun v results ↦
      results = [v] ∧ type.kind? = some v.kind) {k : StackKind} (hk : type.kind? = some k)
    (keep : Bool) :
    Yields (settle type keep) g' (Outcome s kinds g keep fun bound ↦
      return settled keep (← eval bound)) := by
  refine ensures_settle ?_ ?_ ?_ ?_
  · rintro rfl
    cases hk
  · rintro rfl
    cases hk
  · rintro - rfl
    refine ⟨by rw [hk]; rfl, piece, hemits, hreal.map fun v results ⟨hresults, hv⟩ ↦ ?_⟩
    exact ⟨some v, fun _ ↦ rfl, hresults ▸ .some hv⟩
  · rintro k' hk' rfl
    refine ⟨rfl, _, hemits.snoc (by simp), hreal.mapSnoc fun v results ⟨hresults, hv⟩ ↦ ?_⟩
    obtain rfl : v.kind = k' := Option.some.inj (hv.symm.trans hk')
    exact ⟨none, [], fun _ ↦ rfl, hresults ▸ Instruction.turns_pop v, .none rfl⟩

/-- What the operation of a plan computes. -/
theorem yields_calculate (hg : Steady s kinds g) {receiver argument : Node}
    {m m' : Nat → Meaning} (hreceiver : Simulates s kinds (node receiver) m)
    (hargument : Simulates s kinds (node argument) m') {w : Width} {type : MachineType}
    (htype : s.valueType receiver = .ok type) (hw : Width.ofType? type = some w)
    (operator : String) (span : Span) (keep : Bool) :
    Yields (calculate receiver w operator [argument] span (node receiver) (arguments [argument])
      keep) g (Outcome s kinds g keep fun bound ↦ do
        let w ← s.width receiver
        let x ← (m bound).numberAs w.type
        let v ← s.width argument
        let y ← (m' bound).numberAs v.type
        return settled keep ((w.max v).wrap (← operate operator x y))) := by
  refine ensures_query_bind (fun types htypes ↦ ?_) fun _ _ ↦ trivial
  refine ensures_query_bind (fun plan hplan ↦ ?_) fun _ _ ↦ trivial
  rw [hg.valueTypes] at htypes
  obtain ⟨type', v, rfl, hv, hoperation, hwidth, hwiden, hwiden'⟩ := Arithmetic.plan_eq_ok hplan
  have htype' : s.valueType argument = .ok type' := Session.valueTypes_single htypes
  obtain rfl := Width.type_eq_of_ofType? hv
  have hwidths : s.width receiver = pure w ∧ s.width argument = pure v := by
    simp [Session.width, htype, htype', Eval.static, hw, hv]
  simp only [hwidths.1, hwidths.2, pure_bind, hwidth, passArgs_single]
  refine hreceiver.operand hg w.kind?_type w.kind_ne_reference
    (fun h ↦ Width.kind_of_ne_max (hwiden ▸ h)) fun g₁ piece₁ hemits₁ hreal₁ ↦ ?_
  refine hargument.operand hemits₁.steady v.kind?_type v.kind_ne_reference
    (fun h ↦ Width.kind_of_ne_max (v := w) (by rw [← Width.max_comm, ← hwiden', h]))
    fun g₂ piece₂ hemits₂ hreal₂ ↦ ?_
  -- Each operand is on the stack at the wider of both widths.
  rw [hwiden, Width.kind_max] at hreal₁
  rw [hwiden', Width.max_comm, Width.kind_max, ← Width.max_comm] at hreal₂
  have hemits := (hemits₁.trans hemits₂).snoc (Width.operation_ne_bind hoperation)
  have hreal : Realizes _ (piece₁ ++ piece₂ ++ [plan.operation]) []
      (fun bound ↦ _ >>= fun (r : Int × Int) ↦ do
        return (w.max v).wrap (← operate operator r.1 r.2)) fun n results ↦
        results = [n] ∧ (w.max v).type.kind? = some n.kind :=
    (realizes_operands (hreal₁.later hemits₂.keeps) hreal₂).mapSnoc fun r operands hr ↦ by
      obtain ⟨n, hn, hturns⟩ := Width.turns_operation hoperation hr
      exact ⟨(w.max v).wrap n, _, fun _ ↦ by rw [hn, pure_bind], hturns, rfl, by simp⟩
  have hsettle := yields_settle_value hemits hreal (Width.kind?_type _) keep
  simp only [bind_assoc, pure_bind] at hsettle
  exact hsettle

/-- A call on a number is an operation. -/
theorem yields_call (hg : Steady s kinds g) {receiver argument : Node} {m m' : Nat → Meaning}
    (hreceiver : Simulates s kinds (node receiver) m)
    (hargument : Simulates s kinds (node argument) m') (hvalue : receiver.type.isMeta = false)
    (hnumeric : ∀ t, s.valueType receiver = .ok t → (Width.ofType? t).isSome = true)
    (operator : String) (span : Span) (keep : Bool) :
    Yields (call receiver operator [argument] span (node receiver) (arguments [argument]) keep) g
      (Outcome s kinds g keep fun bound ↦ do
        let w ← s.width receiver
        let x ← (m bound).numberAs w.type
        let v ← s.width argument
        let y ← (m' bound).numberAs v.type
        return settled keep ((w.max v).wrap (← operate operator x y))) := by
  unfold Gen.call
  rw [if_neg (by simp [hvalue])]
  refine ensures_query_bind (fun type htype ↦ ?_) fun _ _ ↦ trivial
  rw [hg.valueType] at htype
  obtain ⟨w, hw⟩ := Option.isSome_iff_exists.1 (hnumeric type htype)
  rw [hw]
  exact yields_calculate hg hreceiver hargument htype hw operator span keep

/-! ### Comparisons -/

/-- Narrow operands are compared by the branch itself. -/
theorem decides_operands_int {test : Condition} {r : Int × Int} {operands : List Value}
    (hr : Operands .int r operands) (sense : Bool) (target : Label) :
    (Instruction.jumpIfCompare (if sense then test else test.negate) target).Decides operands
      (test.holds r.1 r.2) sense target := by
  obtain ⟨x, y⟩ := r
  obtain ⟨xs, ys, rfl, hx, hy⟩ := hr
  obtain ⟨a, rfl, rfl⟩ := hx.exists_int
  obtain ⟨b, rfl, rfl⟩ := hy.exists_int
  exact Instruction.decides_jumpIfCompare test a b sense target

/-- Comparing 64-bit integers leaves an integer that compares to zero as they do to each other. -/
theorem turns_lcmp {r : Int × Int} {operands : List Value} (hr : Operands .long r operands) :
    ∃ n : Int32, Instruction.lcmp.Turns operands [.int n] ∧
      ∀ test : Condition, test.holds n.toInt 0 = test.holds r.1 r.2 := by
  obtain ⟨x, y⟩ := r
  obtain ⟨xs, ys, rfl, hx, hy⟩ := hr
  obtain ⟨a, rfl, rfl⟩ := hx.exists_long
  obtain ⟨b, rfl, rfl⟩ := hy.exists_long
  exact ⟨order a b, fun _ _ _ _ ↦ rfl, fun test ↦ test.holds_order a b⟩

/-- A comparison jumps on the outcome of the evaluation. -/
theorem decides_compare (hg : Steady s kinds g) {left right : Node} {m m' : Nat → Meaning}
    (hleft : Simulates s kinds (node left) m) (hright : Simulates s kinds (node right) m')
    (test : Condition) (operator : String) (span : Span) (sense : Bool) (target : Label) :
    Yields (compare test left operator [right] span (node left) (arguments [right]) sense target) g
      fun _ g' ↦ ∃ piece, Emits s kinds g g' piece ∧
        Branches g'.session.locals piece sense target fun bound ↦ do
          let x ← (m bound).numberAs (← Eval.static (s.valueType left))
          let y ← (m' bound).numberAs (← Eval.static (s.valueType right))
          return test.holds x y := by
  refine ensures_query_bind (fun leftType hleftType ↦ ?_) fun _ _ ↦ trivial
  refine ensures_query_bind (fun rightType hrightType ↦ ?_) fun _ _ ↦ trivial
  rw [hg.valueType] at hleftType hrightType
  simp only [hleftType, hrightType, Eval.static, pure_bind, arguments_single]
  split
  · trivial
  · -- Narrow operands are compared by the branch.
    next hcomparison =>
    obtain ⟨k, k', hk, hk', hnumeric, hnumeric', rfl, rfl⟩ := comparison_eq_ok hcomparison
    refine ensures_bind (hleft.number hg hk hnumeric left.span) ?_
    rintro - g₁ ⟨piece₁, hemits₁, hreal₁⟩
    refine ensures_bind (hright.number hemits₁.steady hk' hnumeric' right.span) ?_
    rintro - g₂ ⟨piece₂, hemits₂, hreal₂⟩
    refine ⟨_, (hemits₁.trans hemits₂).snoc (by simp), ?_⟩
    have hbranches := (realizes_operands (hreal₁.later hemits₂.keeps) hreal₂).branches
      fun r operands hr ↦ ⟨test.holds r.1 r.2, fun _ ↦ rfl, decides_operands_int hr sense target⟩
    simpa only [bind_assoc, pure_bind] using hbranches
  · -- Wide operands are compared first, and the branch tests the outcome.
    next widenLeft widenRight hcomparison =>
    obtain ⟨k, k', hk, hk', hnumeric, hnumeric', ⟨hwl, hl⟩, ⟨hwr, hr⟩⟩ :=
      comparison_eq_ok hcomparison
    refine hleft.operand hg hk hnumeric hwl fun g₁ piece₁ hemits₁ hreal₁ ↦ ?_
    refine hright.operand hemits₁.steady hk' hnumeric' hwr fun g₂ piece₂ hemits₂ hreal₂ ↦ ?_
    rw [hl] at hreal₁
    rw [hr] at hreal₂
    refine ⟨_, ((hemits₁.trans hemits₂).snoc (i := .lcmp) (by simp)).snoc (by simp), ?_⟩
    have hcompared : Realizes _ (piece₁ ++ piece₂ ++ [.lcmp]) [] _ fun (r : Int × Int) results ↦
        ∃ n : Int32, results = [.int n] ∧ test.holds n.toInt 0 = test.holds r.1 r.2 :=
      (realizes_operands (hreal₁.later hemits₂.keeps) hreal₂).snoc fun r operands hr ↦ by
        obtain ⟨n, hturns, hn⟩ := turns_lcmp hr
        exact ⟨[.int n], hturns, n, rfl, hn test⟩
    have hbranches := hcompared.branches fun r operands ⟨n, hn, heq⟩ ↦ by
      subst hn
      exact ⟨test.holds n.toInt 0, fun _ ↦ by rw [heq],
        Instruction.decides_jumpIf test n sense target⟩
    simpa only [bind_assoc, pure_bind] using hbranches

end ScriptBytecode

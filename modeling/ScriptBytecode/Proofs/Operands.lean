import ScriptBytecode.Compile.Calls

/-!
# The kinds of operands

An arithmetic operation or a comparison is planned from the types of its operands. Once the plan is
there, the operands are known to be integers, and those that the plan widens to be narrow ones.

Both plans are made by the compiler before any code is emitted. What follows here is read off a plan
that was made, without the code: which operands are widened, and that those are `int` where the
operation is one on 64-bit integers. References take part neither in arithmetic
(`Width.kind_ne_reference`) nor in a comparison, and truth values may be compared as the integers
that they are to the machine.
-/

namespace ScriptBytecode

open Gen

/-! ### Operands of arithmetic -/

/-- The kind of the integers of a width. -/
def Width.kind : Width → StackKind
  | narrow => .int
  | wide => .long

namespace Width

@[simp] theorem kind?_type (w : Width) : w.type.kind? = some w.kind := by cases w <;> rfl

theorem kind_ne_reference (w : Width) : w.kind ≠ .reference := by cases w <;> simp [kind]

/-- An operand that is widened is a 32-bit integer. -/
theorem kind_of_ne_max {w v : Width} (h : (w != w.max v) = true) : w.kind = .int := by
  cases w <;> cases v <;> simp_all [max, kind]

/-- The wider of two widths is the one of the operation, once the narrow operand is widened. -/
theorem kind_max (w v : Width) :
    (if w != w.max v then .long else w.kind) = (w.max v).kind := by
  cases w <;> cases v <;> rfl

theorem max_comm (w v : Width) : w.max v = v.max w := by cases w <;> cases v <;> rfl

end Width

/-- A plan is for one argument, and widens the operands that are narrower than the result. -/
theorem Arithmetic.plan_eq_ok {w : Width} {operator : String} {types : List MachineType}
    {span : Span} {p : Plan} (h : plan w operator types span = .ok p) :
    ∃ type v, types = [type] ∧ Width.ofType? type = some v ∧
      operation? (w.max v) operator = some p.operation ∧ p.width = w.max v ∧
      p.widenReceiver = (w != w.max v) ∧ p.widenArgument = (v != w.max v) := by
  unfold plan at h
  split at h
  · next hplan =>
    obtain rfl := Except.ok.inj h
    unfold plan? at hplan
    split at hplan
    · next type =>
      obtain ⟨v, hv, hplan⟩ := Option.bind_eq_some_iff.1 hplan
      obtain ⟨i, hi, hplan⟩ := Option.bind_eq_some_iff.1 hplan
      obtain rfl := Option.some.inj hplan
      exact ⟨type, v, rfl, hv, hi, rfl, rfl, rfl⟩
    · cases hplan
  · cases h

/-! ### Operands of comparisons -/

/-- How a value of the given kind becomes one that is compared as a 64-bit integer. -/
def Widens (widen : Bool) (k : StackKind) : Prop :=
  (widen = true → k = .int) ∧ (if widen then .long else k) = StackKind.long

/-- Both operands of a comparison are numbers of one kind, once 32-bit integers are widened. -/
theorem comparison_eq_ok {test : Condition} {operator : String} {left right : MachineType}
    {c : Comparison} (h : comparison test operator left right = .ok c) :
    ∃ k k', left.kind? = some k ∧ right.kind? = some k' ∧ k ≠ .reference ∧ k' ≠ .reference ∧
      match c with
      | .narrow => k = .int ∧ k' = .int
      | .wide widenLeft widenRight => Widens widenLeft k ∧ Widens widenRight k' := by
  -- All pairs of types are gone through; only few of them can be compared.
  cases left with
  | primitive p =>
    cases right with
    | primitive q =>
      refine ⟨p.kind, q.kind, rfl, rfl, by cases p <;> simp [Primitive.kind],
        by cases q <;> simp [Primitive.kind], ?_⟩
      cases p with
      | boolean =>
        cases q with
        | boolean =>
          simp only [comparison, MachineType.primitive?] at h
          split at h
          · obtain rfl := Except.ok.inj h
            exact ⟨rfl, rfl⟩
          · cases h
        | int | long => cases h
      | int =>
        cases q with
        | boolean => cases h
        | int =>
          obtain rfl := Except.ok.inj h
          exact ⟨rfl, rfl⟩
        | long =>
          obtain rfl := Except.ok.inj h
          exact ⟨⟨fun _ ↦ rfl, rfl⟩, ⟨by simp, rfl⟩⟩
      | long =>
        cases q with
        | boolean => cases h
        | int =>
          obtain rfl := Except.ok.inj h
          exact ⟨⟨by simp, rfl⟩, ⟨fun _ ↦ rfl, rfl⟩⟩
        | long =>
          obtain rfl := Except.ok.inj h
          exact ⟨⟨by simp, rfl⟩, ⟨by simp, rfl⟩⟩
    | _ => cases p <;> cases h
  | _ => cases h

end ScriptBytecode

import Mathlib.Algebra.Group.Nat.Defs
import ScriptBytecode.Bytecode.Instruction

/-!
# Ranges of slots

A variable takes as many slots as values of its kind are wide. A `SlotRange` is such slots, counted
with natural numbers: what code has room for is a matter of those who number the slots.

Ranges that follow upon one another without a gap `Fill` the slots from the first one up to the end
of the last. Then each ends before the next ones begin (`Fill.pairwise`), so any two that have a
slot in common are one and the same (`Fill.eq_of_meets`), and the highest ends where the filled
slots end (`Fill.exists_limit_eq`).

Values of two slots are why this takes more than different numbers: two ranges can have different
first slots and a slot in common. All lemmas on layouts are about ranges, and none of them looks at
single slots.
-/

namespace ScriptBytecode

/-- Slots for a value of some kind. -/
structure SlotRange where
  /-- The kind of the values that the slots are for. -/
  kind : StackKind
  /-- The first of the slots. -/
  slot : Nat
deriving DecidableEq, Repr

namespace SlotRange

/-- The first slot after the range. -/
def limit (r : SlotRange) : Nat := r.slot + r.kind.width

/-- A slot of the range. -/
def Covers (r : SlotRange) (n : Nat) : Prop := r.slot ≤ n ∧ n < r.limit

/-- The ranges have a slot in common. -/
def Meets (r r' : SlotRange) : Prop := ∃ n, r.Covers n ∧ r'.Covers n

/-- The ranges fill the slots from one up to another, in order and without a gap. -/
inductive Fill : Nat → List SlotRange → Nat → Prop
  | nil (n : Nat) : Fill n [] n
  | cons (r : SlotRange) {rest : List SlotRange} {stop : Nat} (h : Fill r.limit rest stop) :
    Fill r.slot (r :: rest) stop

namespace Fill

variable {start stop : Nat} {rs : List SlotRange} {r r' : SlotRange}

/-- What is filled ends behind where it starts. -/
theorem le (h : Fill start rs stop) : start ≤ stop := by
  induction h with
  | nil n => exact Nat.le_refl n
  | cons r _ ih =>
    have hlimit : r.slot ≤ r.limit := Nat.le_add_right ..
    omega

/-- All of the ranges lie within the slots that they fill. -/
theorem bounds (h : Fill start rs stop) (hr : r ∈ rs) : start ≤ r.slot ∧ r.limit ≤ stop := by
  induction h with
  | nil => cases hr
  | cons r' hrest ih =>
    have hlimit : r'.slot ≤ r'.limit := Nat.le_add_right ..
    obtain rfl | hrest' := List.mem_cons.1 hr
    · exact ⟨Nat.le_refl _, hrest.le⟩
    · have := ih hrest'
      omega

/-- Each range ends before the next ones begin. -/
theorem pairwise (h : Fill start rs stop) : rs.Pairwise fun r r' ↦ r.limit ≤ r'.slot := by
  induction h with
  | nil => exact .nil
  | cons r hrest ih => exact .cons (fun r' hr' ↦ (hrest.bounds hr').1) ih

/-- Ranges that meet are the same. -/
theorem eq_of_meets (h : Fill start rs stop) (hr : r ∈ rs) (hr' : r' ∈ rs) (hmeets : r.Meets r') :
    r = r' := by
  obtain ⟨n, ⟨hle, hlt⟩, hle', hlt'⟩ := hmeets
  induction h with
  | nil => cases hr
  | cons r₀ hrest ih =>
    obtain rfl | hin := List.mem_cons.1 hr <;> obtain rfl | hin' := List.mem_cons.1 hr'
    · rfl
    · have := (hrest.bounds hin').1
      omega
    · have := (hrest.bounds hin).1
      omega
    · exact ih hin hin'

/-- Some range ends where the filled slots end, if there is one at all. -/
theorem exists_limit_eq (h : Fill start rs stop) :
    rs = [] ∧ start = stop ∨ ∃ r ∈ rs, r.limit = stop := by
  induction h with
  | nil => exact .inl ⟨rfl, rfl⟩
  | cons r hrest ih =>
    obtain ⟨-, hlimit⟩ | ⟨r', hr', hlimit⟩ := ih
    · exact .inr ⟨r, List.mem_cons_self .., hlimit⟩
    · exact .inr ⟨r', List.mem_cons_of_mem _ hr', hlimit⟩

end Fill

/-- What ends before something else begins does not meet it. -/
theorem not_meets_of_limit_le {r r' : SlotRange} (h : r.limit ≤ r'.slot) : ¬r.Meets r' := by
  rintro ⟨n, ⟨-, hlt⟩, hle, -⟩
  omega

theorem Meets.symm {r r' : SlotRange} (h : r.Meets r') : r'.Meets r := by
  obtain ⟨n, hr, hr'⟩ := h
  exact ⟨n, hr', hr⟩

end SlotRange

/-! ### Instructions -/

namespace Instruction

variable {i : Instruction} {r : SlotRange}

/-- Whether an instruction reads or writes a local. -/
def isAccess : Instruction → Bool
  | load .. | store .. => true
  | _ => false

/-- The slots that an instruction reads or writes, if it accesses a local. -/
def access? : Instruction → Option SlotRange
  | load kind slot | store kind slot => some ⟨kind, slot.toNat⟩
  | _ => none

theorem access?_of_isAccess (h : i.isAccess = false) : i.access? = none := by
  cases i <;> first | rfl | cases h

/-- The instruction reads or writes the slots, as far as they can be numbered with 16 bits. -/
inductive Names (r : SlotRange) : Instruction → Prop
  | load : Names r (.load r.kind (.ofNat r.slot))
  | store : Names r (.store r.kind (.ofNat r.slot))

/-- Slots that can be numbered are those that are accessed. -/
theorem Names.access?_eq (h : i.Names r) (hlimit : r.limit < 2 ^ 16) : i.access? = some r := by
  have hslot : (UInt16.ofNat r.slot).toNat = r.slot :=
    UInt16.toNat_ofNat_of_lt' (Nat.lt_of_le_of_lt (Nat.le_add_right ..) hlimit)
  cases h with
  | load | store => exact congrArg (fun slot ↦ some (SlotRange.mk r.kind slot)) hslot

end Instruction

end ScriptBytecode

import Mathlib.Data.List.Nodup
import Mathlib.Data.List.Pairwise
import ScriptBytecode.Proofs.LocalSlots
import ScriptBytecode.Proofs.Slots.Ranges

/-!
# Allotments of slots

An `Allotment` says for which names, and for values of which kinds, slots are handed out, one after
another: once for each variable when it is declared, and once more each time that a store moves a
variable. This decides which slots they are (`Allotment.slots`) and which of them a name means
(`Allotment.current?`), and no two of them meet, whether they are for different names or for one
(`Allotment.eq_or_apart`).

A table of locals has an allotment (`Locals.allotment`), and numbers its slots with 16 bits. If the
slots are few enough for that (`Locals.Fits`), names mean the slots that they are allotted
(`Locals.Built.current?_eq`), the variables of different names lie apart (`Locals.Built.apart`), and
the size of the table is that of the allotment (`Locals.Built.toNat_size`). Otherwise a number
stands for several slots.

**Natural numbers on the one side, 16 bits on the other.** In an allotment slots have natural
numbers, and different ones are different. In the table of locals numbers are of 16 bits, and begin
anew after 65535 without any error. That both agree is proved for tables that fit, and for no
others. It is not assumed of any of them: whether a table fits is a question about what has been
given out.

An allotment depends on names and kinds only, so it can be read off a method and the accesses of its
code, with no table of locals. Layouts are stated in terms of such allotments.
-/

namespace ScriptBytecode

/-! ### Slots in order -/

/-- For which names slots are handed out, and for values of which kinds, in order. -/
abbrev Allotment := List (String × StackKind)

namespace Allotment

variable {a b : Allotment} {name other : String} {kind : StackKind} {r : SlotRange}

/-- How many slots are handed out. -/
def width (a : Allotment) : Nat := stackSlots (a.map Prod.snd)

/-- The slots that are handed out, from a first one on. -/
def slotsFrom (first : Nat) : Allotment → List (String × SlotRange)
  | [] => []
  | (name, kind) :: rest => (name, ⟨kind, first⟩) :: slotsFrom (first + kind.width) rest

/-- The slots that are handed out. -/
def slots (a : Allotment) : List (String × SlotRange) := a.slotsFrom 0

/-- The slots that a name means: those that it was given last. -/
def current? (a : Allotment) (name : String) : Option SlotRange :=
  (a.slots.reverse.find? (·.1 == name)).map Prod.snd

/-- The allotment once a value has been stored for a name: it is given further slots, unless those
that it means are for values of that kind. -/
def store (a : Allotment) (name : String) (kind : StackKind) : Allotment :=
  if (a.current? name).map (·.kind) = some kind then a else a ++ [(name, kind)]

/-- Slots are counted over all that they are handed out for. -/
theorem width_append (a b : Allotment) : width (a ++ b) = a.width + b.width := by
  unfold width
  rw [List.map_append, stackSlots_append]

theorem width_concat (a : Allotment) (name : String) (kind : StackKind) :
    width (a ++ [(name, kind)]) = a.width + kind.width := by
  rw [width_append]
  rfl

/-- No value takes more than two slots. -/
theorem width_le_length (a : Allotment) : a.width ≤ 2 * a.length := by
  induction a with
  | nil => exact Nat.le_refl 0
  | cons p rest ih =>
    have hkind : p.2.width ≤ 2 := by cases p.2 <;> decide
    have hwidth : width (p :: rest) = p.2.width + width rest := rfl
    rw [hwidth, List.length_cons]
    omega

theorem slotsFrom_append (first : Nat) (a b : Allotment) :
    slotsFrom first (a ++ b) = slotsFrom first a ++ slotsFrom (first + a.width) b := by
  induction a generalizing first with
  | nil => rfl
  | cons p rest ih =>
    have hwidth : width (p :: rest) = p.2.width + width rest := rfl
    rw [List.cons_append, slotsFrom, slotsFrom, ih, hwidth, Nat.add_assoc, List.cons_append]

/-- Further slots are handed out behind all others. -/
theorem slots_append (a b : Allotment) : slots (a ++ b) = a.slots ++ slotsFrom a.width b := by
  rw [slots, slotsFrom_append, Nat.zero_add, slots]

/-- One name more is allotted the slots behind all others. -/
theorem slots_concat (a : Allotment) (name : String) (kind : StackKind) :
    slots (a ++ [(name, kind)]) = a.slots ++ [(name, ⟨kind, a.width⟩)] :=
  slots_append ..

/-- The names that slots are handed out for are kept with the slots. -/
theorem map_fst_slots (a : Allotment) : a.slots.map Prod.fst = a.map Prod.fst := by
  have hfrom : ∀ first, (a.slotsFrom first).map Prod.fst = a.map Prod.fst := by
    induction a with
    | nil => exact fun _ ↦ rfl
    | cons p rest ih => exact fun first ↦ congrArg (p.1 :: ·) (ih _)
  exact hfrom 0

theorem width_le (h : a <+: b) : a.width ≤ b.width := by
  obtain ⟨rest, rfl⟩ := h
  rw [width_append]
  exact Nat.le_add_right ..

theorem prefix_slots (h : a <+: b) : a.slots <+: b.slots := by
  obtain ⟨rest, rfl⟩ := h
  rw [slots_append]
  exact List.prefix_append ..

theorem slots_subset (h : a <+: b) : a.slots ⊆ b.slots := (prefix_slots h).subset

theorem eq_nil_of_slots (h : a.slots = []) : a = [] := by
  have hnames := a.map_fst_slots
  rw [h] at hnames
  exact List.map_eq_nil_iff.1 hnames.symm

/-! ### No two meet -/

/-- The slots of an allotment follow one another without a gap. -/
theorem fill_slotsFrom (first : Nat) (a : Allotment) :
    SlotRange.Fill first ((slotsFrom first a).map Prod.snd) (first + a.width) := by
  induction a generalizing first with
  | nil => exact .nil first
  | cons p rest ih =>
    have hrest := ih (first + p.2.width)
    rw [Nat.add_assoc] at hrest
    exact .cons ⟨p.2, first⟩ hrest

/-- The slots follow upon one another without a gap, from the first one on. -/
theorem fill (a : Allotment) : SlotRange.Fill 0 (a.slots.map Prod.snd) a.width := by
  have h := fill_slotsFrom 0 a
  rwa [Nat.zero_add] at h

/-- Slots that are handed out end before those begin that are handed out later. -/
theorem pairwise (a : Allotment) : a.slots.Pairwise fun p q ↦ p.2.limit ≤ q.2.slot :=
  List.pairwise_map.1 a.fill.pairwise

/-- All slots lie below the number of them. -/
theorem limit_le {p : String × SlotRange} (h : p ∈ a.slots) : p.2.limit ≤ a.width :=
  (a.fill.bounds (List.mem_map_of_mem h)).2

/-- Slots that are handed out twice are apart, be it for one name or for two. -/
theorem eq_or_apart {p q : String × SlotRange} (hp : p ∈ a.slots) (hq : q ∈ a.slots) :
    p = q ∨ p.2.limit ≤ q.2.slot ∨ q.2.limit ≤ p.2.slot := by
  refine or_iff_not_imp_left.2 fun hne ↦ ?_
  have : Std.Symm fun p q : String × SlotRange ↦
      p.2.limit ≤ q.2.slot ∨ q.2.limit ≤ p.2.slot := ⟨fun _ _ ↦ Or.symm⟩
  have happart : a.slots.Pairwise fun p q ↦ p.2.limit ≤ q.2.slot ∨ q.2.limit ≤ p.2.slot :=
    a.pairwise.imp Or.inl
  exact happart.forall hp hq hne

/-- Slots of different names do not meet. -/
theorem not_meets {r' : SlotRange} (hr : (name, r) ∈ a.slots) (hr' : (other, r') ∈ a.slots)
    (hne : name ≠ other) : ¬r.Meets r' := by
  obtain heq | hbefore | hbehind := eq_or_apart hr hr'
  · exact absurd (congrArg Prod.fst heq) hne
  · exact SlotRange.not_meets_of_limit_le hbefore
  · exact fun hmeets ↦ SlotRange.not_meets_of_limit_le hbehind hmeets.symm

/-! ### What a name means -/

/-- The slots that a name means have been handed out for it. -/
theorem mem_of_current? (h : a.current? name = some r) : (name, r) ∈ a.slots := by
  obtain ⟨⟨other, r⟩, hfind, rfl⟩ := Option.map_eq_some_iff.1 h
  obtain rfl : other = name := by simpa using List.find?_some hfind
  exact List.mem_reverse.1 (List.mem_of_find?_eq_some hfind)

/-- Slots that were handed out for a name are those that it means, if there are no others for it. -/
theorem current?_of_nodup (h : (a.map Prod.fst).Nodup) (hr : (name, r) ∈ a.slots) :
    a.current? name = some r := by
  cases hcurrent : a.current? name with
  | none =>
    rw [current?, Option.map_eq_none_iff, List.find?_eq_none] at hcurrent
    exact absurd (beq_self_eq_true name) (hcurrent _ (List.mem_reverse.2 hr))
  | some r' =>
    have hsame := List.inj_on_of_nodup_map (a.map_fst_slots ▸ h) (mem_of_current? hcurrent) hr rfl
    exact congrArg some (congrArg Prod.snd hsame)

/-- A name means the slots that it was allotted last. -/
theorem current?_concat_self (a : Allotment) (name : String) (kind : StackKind) :
    current? (a ++ [(name, kind)]) name = some ⟨kind, a.width⟩ := by
  simp [current?, slots_concat]

/-- Other names mean what they meant. -/
theorem current?_concat_of_ne (a : Allotment) (kind : StackKind) (h : other ≠ name) :
    current? (a ++ [(name, kind)]) other = a.current? other := by
  simp [current?, slots_concat, h.symm]

/-- Where a name means slots for values of the right kind, a store changes nothing. -/
theorem store_of_kind (h : a.current? name = some r) : a.store name r.kind = a := by
  unfold store
  rw [h]
  exact if_pos rfl

/-- Otherwise the name is given the next slots. -/
theorem store_of_kind_ne (h : ∀ r, a.current? name = some r → r.kind ≠ kind) :
    a.store name kind = a ++ [(name, kind)] := by
  refine if_neg fun heq ↦ ?_
  obtain ⟨r, hr, hkind⟩ := Option.map_eq_some_iff.1 heq
  exact h r hr hkind

/-- What was handed out is not handed out again. -/
theorem prefix_store (a : Allotment) (name : String) (kind : StackKind) :
    a <+: a.store name kind := by
  unfold store
  split
  · exact List.prefix_refl a
  · exact List.prefix_append ..

end Allotment

/-! ### Tables of locals -/

namespace LocalVar

variable {v : LocalVar} {r : SlotRange}

/-- The slots of a variable. -/
def range (v : LocalVar) : SlotRange := ⟨v.kind, v.slot.toNat⟩

/-- The variable lies in the slots, as far as they can be numbered with 16 bits. -/
structure LiesIn (v : LocalVar) (r : SlotRange) : Prop where
  kind : v.kind = r.kind
  slot : v.slot = .ofNat r.slot

/-- Numbers that do not wrap around are the slots themselves. -/
theorem LiesIn.range_eq (h : v.LiesIn r) (hlimit : r.limit < 2 ^ 16) : v.range = r := by
  have hslot : r.slot < 2 ^ 16 := Nat.lt_of_le_of_lt (Nat.le_add_right ..) hlimit
  unfold range
  rw [h.kind, h.slot, UInt16.toNat_ofNat_of_lt' hslot]

end LocalVar

namespace Locals

variable {l l' : Locals} {v w : LocalVar} {name other : String} {type : MachineType} {span : Span}

/-- What slots were handed out for. -/
def allotment (l : Locals) : Allotment := (l.bindings.map fun v ↦ (v.name, v.kind)).reverse

/-- The slots are few enough to be numbered. -/
def Fits (l : Locals) : Prop := l.allotment.width < 2 ^ 16

instance (l : Locals) : Decidable l.Fits := inferInstanceAs (Decidable (_ < _))

@[simp] theorem allotment_allocate (l : Locals) (name : String) (type : MachineType)
    (kind : StackKind) : (l.allocate name type kind).allotment = l.allotment ++ [(name, kind)] := by
  simp [allotment, allocate, fresh]

/-- Giving a variable another type hands out nothing. -/
theorem allotment_replace (l : Locals) (v : LocalVar) (type : MachineType) :
    ({ l with bindings := l.bindings.replace v { v with type } } : Locals).allotment =
      l.allotment := by
  have hmap : ∀ vs : List LocalVar,
      (vs.replace v { v with type }).map (fun v ↦ (v.name, v.kind)) =
        vs.map fun v ↦ (v.name, v.kind) := by
    intro vs
    induction vs with
    | nil => rfl
    | cons u us ih =>
      rw [List.replace_cons]
      split
      · next heq =>
        obtain rfl := beq_iff_eq.1 heq
        rfl
      · rw [List.map_cons, List.map_cons, ih]
  exact congrArg List.reverse (hmap l.bindings)

/-- Each name means a variable in the slots that it is allotted, and the free slots begin behind all
of them. -/
structure Numbered (l : Locals) : Prop where
  current : ∀ name, Option.Rel LocalVar.LiesIn (l.get? name) (l.allotment.current? name)
  nextSlot : l.nextSlot = .ofNat l.allotment.width
  size : l.Fits → l.size.toNat = l.allotment.width

namespace Numbered

theorem empty : Numbered {} := ⟨fun _ ↦ .none, rfl, fun _ ↦ rfl⟩

/-- A table stays numbered when a variable is allocated. -/
theorem allocate (h : l.Numbered) (name : String) (type : MachineType) (kind : StackKind) :
    (l.allocate name type kind).Numbered := by
  have hlimit : (l.fresh name type kind).limit =
      .ofNat (l.allocate name type kind).allotment.width := by
    rw [allotment_allocate, Allotment.width_concat, UInt16.ofNat_add, ← h.nextSlot]
    rfl
  refine ⟨fun other ↦ ?_, hlimit, fun hfits ↦ ?_⟩
  · rw [allotment_allocate]
    by_cases hne : other = name
    · subst hne
      rw [get?_allocate_self, Allotment.current?_concat_self]
      exact .some ⟨rfl, h.nextSlot⟩
    · rw [get?_allocate_of_ne l type kind (Ne.symm hne), Allotment.current?_concat_of_ne _ _ hne]
      exact h.current other
  · have hwidth : l.allotment.width + kind.width < 2 ^ 16 := by
      rwa [Fits, allotment_allocate, Allotment.width_concat] at hfits
    have hsize := h.size (Nat.lt_of_le_of_lt (Nat.le_add_right ..) hwidth)
    rw [allotment_allocate, Allotment.width_concat] at hlimit ⊢
    show (max l.size (l.fresh name type kind).limit).toNat = _
    rw [toNat_max, hsize, hlimit, UInt16.toNat_ofNat_of_lt' hwidth]
    exact Nat.max_eq_right (Nat.le_add_right ..)

/-- A store hands out what its allotment does. -/
theorem declareStore (h : l.Numbered) (hstore : l.declareStore name type span = .ok (v, l')) :
    l'.Numbered ∧ l'.allotment = l.allotment.store name v.kind := by
  unfold Locals.declareStore at hstore
  split at hstore
  · cases hstore
  · next kind _ =>
    have hcurrent := h.current name
    split at hstore
    · next w hw =>
      rw [hw] at hcurrent
      obtain ⟨r, hr, hlies⟩ : ∃ r, l.allotment.current? name = some r ∧ w.LiesIn r := by
        generalize l.allotment.current? name = o at hcurrent
        cases hcurrent with
        | some hlies => exact ⟨_, rfl, hlies⟩
      -- A variable of the same kind keeps its slots, and the allotment stays as it is.
      split at hstore
      · obtain ⟨rfl, rfl⟩ := Prod.mk.inj (Except.ok.inj hstore)
        have hallotment := allotment_replace l w type
        refine ⟨⟨fun other ↦ ?_, ?_, ?_⟩, ?_⟩
        · rw [hallotment, get?_replace hw]
          split
          · next heq =>
            rw [heq, hr]
            exact .some ⟨hlies.kind, hlies.slot⟩
          · exact h.current other
        · rw [hallotment]
          exact h.nextSlot
        · rw [Fits, hallotment]
          exact h.size
        · rw [hallotment, hlies.kind, Allotment.store_of_kind hr]
      · next hne =>
        obtain ⟨rfl, rfl⟩ := Prod.mk.inj (Except.ok.inj hstore)
        refine ⟨h.allocate .., ?_⟩
        rw [allotment_allocate]
        refine (Allotment.store_of_kind_ne fun r' hr' ↦ ?_).symm
        obtain rfl := Option.some.inj (hr'.symm.trans hr)
        exact hlies.kind ▸ hne
    · next hw =>
      obtain ⟨rfl, rfl⟩ := Prod.mk.inj (Except.ok.inj hstore)
      refine ⟨h.allocate .., ?_⟩
      rw [allotment_allocate]
      refine (Allotment.store_of_kind_ne fun r' hr' ↦ ?_).symm
      rw [hw, hr'] at hcurrent
      cases hcurrent

end Numbered

/-- However variables are declared, names mean slots that are numbered in the order of the
allotment. -/
theorem Built.numbered (h : l.Built) : l.Numbered := by
  induction h with
  | empty => exact .empty
  | this _ hthis ih =>
    obtain ⟨-, rfl⟩ := declareThis_eq_ok hthis
    exact ih.allocate ..
  | param _ hparam ih =>
    obtain ⟨kind, -, -, rfl⟩ := declareParam_eq_ok hparam
    exact ih.allocate ..
  | store _ hstore ih => exact (ih.declareStore hstore).1

/-- A store hands out what its allotment does. -/
theorem Built.allotment_declareStore (h : l.Built)
    (hstore : l.declareStore name type span = .ok (v, l')) :
    l'.allotment = l.allotment.store name v.kind :=
  (h.numbered.declareStore hstore).2

/-- What a name means lies in the slots that it is allotted, as far as they can be numbered. -/
theorem Built.liesIn (h : l.Built) (hv : l.get? name = some v) :
    ∃ r, l.allotment.current? name = some r ∧ v.LiesIn r := by
  have hcurrent := h.numbered.current name
  rw [hv] at hcurrent
  generalize l.allotment.current? name = o at hcurrent
  cases hcurrent with
  | some hlies => exact ⟨_, rfl, hlies⟩

/-- If the slots can be numbered, a name means those that it is allotted. -/
theorem Built.current?_eq (h : l.Built) (hfits : l.Fits) (name : String) :
    l.allotment.current? name = (l.get? name).map LocalVar.range := by
  cases hv : l.get? name with
  | none =>
    have hcurrent := h.numbered.current name
    rw [hv] at hcurrent
    generalize l.allotment.current? name = o at hcurrent
    cases hcurrent
    rfl
  | some v =>
    obtain ⟨r, hr, hlies⟩ := h.liesIn hv
    rw [hr, Option.map_some, hlies.range_eq (Nat.lt_of_le_of_lt
      (Allotment.limit_le (Allotment.mem_of_current? hr)) hfits)]

/-- The variables that different names mean do not share slots. -/
def Apart (l : Locals) : Prop :=
  ∀ ⦃name other v w⦄, l.get? name = some v → l.get? other = some w → name ≠ other →
    v.range.limit ≤ w.range.slot ∨ w.range.limit ≤ v.range.slot

/-- If the slots can be numbered, the variables of different names lie apart. -/
theorem Built.apart (h : l.Built) (hfits : l.Fits) : l.Apart := by
  intro name other v w hv hw hne
  have hmem : ∀ {name v}, l.get? name = some v → (name, v.range) ∈ l.allotment.slots := by
    intro name v hv
    refine Allotment.mem_of_current? ?_
    rw [h.current?_eq hfits, hv, Option.map_some]
  exact (Allotment.eq_or_apart (hmem hv) (hmem hw)).resolve_left fun heq ↦
    hne (congrArg Prod.fst heq)

/-- If the slots can be numbered, the table is as large as its allotment. -/
theorem Built.toNat_size (h : l.Built) (hfits : l.Fits) : l.size.toNat = l.allotment.width :=
  h.numbered.size hfits

end Locals

end ScriptBytecode

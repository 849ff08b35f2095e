import ScriptBytecode.Proofs.Classes.Assignability
import ScriptBytecode.Proofs.Emission

/-!
# Conversion as an order of types

Conversion without being asked to is an order of the types of values, as long as a class is known by
its name only (`MachineType.byName`): types that convert to each other differ in the dispatch of a
class at most. For classes this is that the hierarchy has no cycles, and that nothing leads from the
root class, which every reference converts to, back down.

Whether a conversion takes an instruction depends on the kinds of the two types only
(`conversion?_kinds`). So a value that is converted step by step has gone through the same code as
one that is converted at once (`isAssignable_order`).

**Up to the dispatch of a class.** A type of objects has a name and says whether it is that of an
interface. Conversions go by the name alone, so two types that differ in the latter only convert to
each other without being equal. No table knows a class as both, but a type may be written down that
way; `byName` is what is compared.

**`void` is outside of the order.** It converts to nothing and nothing to it, not even to itself.

**Code.** Between types of values there is one conversion that takes an instruction, and it leads
from one kind to another. A chain of conversions can cross from `int` to `long` at most once, which
is why its code is that of the conversion at once (`exists_conversion?_trans`).
-/

namespace ScriptBytecode

namespace MachineType

/-- The type, with the dispatch of a class left out. -/
def byName : MachineType → MachineType
  | ref c => ofClass c.name
  | type => type

/-- Types of the same name are the same, or a class with another dispatch. -/
theorem byName_eq_iff {a b : MachineType} :
    a.byName = b.byName ↔ a = b ∨ ∃ c d, a = ref c ∧ b = ref d ∧ c.name = d.name := by
  constructor
  · intro hname
    cases a <;> cases b <;> simp_all [byName, ofClass]
  · rintro (rfl | ⟨c, d, rfl, rfl, hname⟩)
    · rfl
    · exact congrArg ofClass hname

end MachineType

/-! ### Types that convert to each other -/

namespace Hierarchy

variable {h : Hierarchy} {a b : MachineType}

/-- Names that lead to each other are the same. -/
theorem Acyclic.eq_of_leads (hacyclic : h.Acyclic) {x y : String} (hxy : h.Leads x y)
    (hyx : h.Leads y x) : x = y := by
  rcases Relation.ReflTransGen.cases_head hxy with heq | ⟨z, hbelow, hzy⟩
  · exact heq
  · exact absurd (.head' hbelow (hzy.trans hyx)) (hacyclic x)

/-- Types that convert to each other are the same up to the dispatch of a class. -/
theorem Converts.antisymm (hacyclic : h.Acyclic) (hrooted : h.Rooted) (hab : h.Converts a b)
    (hba : h.Converts b a) : a.byName = b.byName := by
  cases hab with
  | primitive p => rfl
  | widen => cases hba
  | array element => rfl
  | object element hd => cases hba
  | @reference c d hd =>
    cases hba with
    | reference hc =>
      refine MachineType.byName_eq_iff.2 (.inr ⟨c, d, rfl, rfl, ?_⟩)
      -- the root class leads to nothing, so conversions to it do not go round in a circle either
      rcases hd with hd | hcd
      · rw [hd] at hc ⊢
        exact hrooted.eq_of_leads hc
      · rcases hc with hc | hdc
        · rw [hc] at hcd ⊢
          exact (hrooted.eq_of_leads (.inr hcd)).symm
        · exact hacyclic.eq_of_leads hcd hdc

end Hierarchy

namespace ClassTable

variable {t : ClassTable} {a b : MachineType}

/-- Every type of values converts to itself. -/
theorem isAssignable_self_iff : t.isAssignable a a = true ↔ a ≠ .void := by
  cases a <;> simp [isAssignable, conversion?]

/-- Values of two types can stand for each other just when the types have the same name. -/
theorem isAssignable_antisymm_iff (hclosed : t.hierarchy.Closed) (hacyclic : t.hierarchy.Acyclic)
    (hrooted : t.hierarchy.Rooted) :
    t.isAssignable a b = true ∧ t.isAssignable b a = true ↔ a ≠ .void ∧ a.byName = b.byName := by
  constructor
  · rintro ⟨hab, hba⟩
    have hvoid : a ≠ .void := by
      rintro rfl
      simp [isAssignable] at hab
    rw [isAssignable_iff hclosed] at hab hba
    exact ⟨hvoid, hab.antisymm hacyclic hrooted hba⟩
  · rintro ⟨hvoid, hname⟩
    rcases MachineType.byName_eq_iff.1 hname with rfl | ⟨c, d, rfl, rfl, heq⟩
    · exact ⟨isAssignable_self_iff.2 hvoid, isAssignable_self_iff.2 hvoid⟩
    · simp [isAssignable, conversion?, heq]

end ClassTable

/-! ### Conversions one after another -/

/-- Where there is a conversion, its code is all that a coercion emits. -/
theorem Gen.coerce_eq {g : GenState} {a b : MachineType} {k : Conversion} (span : Span)
    (h : g.session.classes.conversion? a b = some k) :
    coerce a b span g = .ok ⟨⟩ (g.emits k.code) := by
  refine Ensures.eq_ok ?_
  unfold coerce
  refine ensures_get_bind ?_
  rw [h]
  exact ensures_emitAll ⟨rfl, rfl⟩

namespace ClassTable

variable {t : ClassTable} {a b c : MachineType} {k k' : Conversion}

/-- An instruction is needed if the kinds of the two types differ, and only then. -/
theorem conversion?_code (h : t.conversion? a b = some k) :
    k.code = if a.kind? = b.kind? then [] else [.i2l] := by
  rcases conversion?_kinds h with ⟨hcode, hsame⟩ | ⟨hcode, ha, hb⟩
  · rw [hcode, if_pos hsame]
  · rw [hcode, ha, hb]
    rfl

/-- A value that is converted twice has gone through the code that converts it at once. -/
theorem exists_conversion?_trans (hclosed : t.hierarchy.Closed) (hrooted : t.hierarchy.Rooted)
    (h : t.conversion? a b = some k) (h' : t.conversion? b c = some k') :
    ∃ k'', t.conversion? a c = some k'' ∧ k.code ++ k'.code = k''.code := by
  have hab : t.isAssignable a b = true := Option.isSome_of_eq_some h
  have hbc : t.isAssignable b c = true := Option.isSome_of_eq_some h'
  obtain ⟨k'', h''⟩ := Option.isSome_iff_exists.1 (isAssignable_trans hclosed hrooted hab hbc)
  refine ⟨k'', h'', ?_⟩
  rcases conversion?_kinds h with ⟨hcode, hsame⟩ | ⟨hcode, ha, hb⟩
  · rw [hcode, conversion?_code h', conversion?_code h'', hsame, List.nil_append]
  · rcases conversion?_kinds h' with ⟨hcode', hsame⟩ | ⟨-, hb', -⟩
    · rw [hcode, hcode', conversion?_code h'', ← hsame, ha, hb]
      rfl
    · -- a 64-bit integer is not widened again
      rw [hb] at hb'
      cases hb'

/-- Whatever has been added to the standard classes: every type but `void` converts to itself, what
converts to a type converts to all that this one converts to, and types that convert to each other
have the same name. Nothing converts to or from `void`. A conversion and one that follows it emit
what the conversion from the first type to the last emits. -/
theorem isAssignable_order (additions : List Addition) :
    let t := standard.run additions
    (∀ a, t.isAssignable a a = true ↔ a ≠ .void) ∧
      (∀ a b c, t.isAssignable a b = true → t.isAssignable b c = true →
        t.isAssignable a c = true) ∧
      (∀ a b, t.isAssignable a b = true ∧ t.isAssignable b a = true ↔
        a ≠ .void ∧ a.byName = b.byName) ∧
      (∀ a, t.isAssignable .void a = false ∧ t.isAssignable a .void = false) ∧
      ∀ a b c k k', t.conversion? a b = some k → t.conversion? b c = some k' →
        (∃ k'', t.conversion? a c = some k'' ∧ k.code ++ k'.code = k''.code) ∧
        ∀ (span : Span) (g : GenState), g.session.classes = t →
          (Gen.coerce a b span >>= fun _ ↦ Gen.coerce b c span) g = Gen.coerce a c span g := by
  intro t
  have h : t.Consistent := (built_standard.run additions).consistent
  have hrooted : t.hierarchy.Rooted := rooted_run additions
  refine ⟨fun _ ↦ isAssignable_self_iff, fun _ _ _ ↦ isAssignable_trans h.closed hrooted,
    fun _ _ ↦ isAssignable_antisymm_iff h.closed h.acyclic hrooted,
    fun _ ↦ by simp [isAssignable], fun a b c k k' hab hbc ↦ ?_⟩
  obtain ⟨k'', hac, hcode⟩ := exists_conversion?_trans h.closed hrooted hab hbc
  refine ⟨⟨k'', hac, hcode⟩, fun span g hclasses ↦ ?_⟩
  rw [← hclasses] at hab hbc hac
  have hsecond : Gen.coerce b c span (g.emits k.code) = .ok ⟨⟩ ((g.emits k.code).emits k'.code) :=
    Gen.coerce_eq span hbc
  rw [bind_eq_of_ok (Gen.coerce_eq span hab), hsecond, Gen.coerce_eq span hac, ← hcode,
    GenState.emits_append]

/-- What `isAssignable_order` says of a class, of the interface that it implements, and of one above
that is only mentioned: to declare it below the class is refused. -/
theorem isAssignable_order_person :
    let person := ClassEntry.ofClass "Person" |>.implements "Named"
    let named := ClassEntry.ofInterface "Named" |>.implements "Shown"
    let shown := ClassEntry.ofInterface "Shown" |>.implements "Person"
    let t := standard.run [.ofClass person, .ofClass named, .ofClass shown]
    let type (e : ClassEntry) : MachineType := .ref e.cls
    t.get? "Shown" = none ∧
      t.isAssignable (type person) (type named) = true ∧
      t.isAssignable (type named) (type shown) = true ∧
      t.isAssignable (type person) (type shown) = true ∧
      t.isAssignable (type shown) (type person) = false ∧
      t.isAssignable (type named) (.ofClass "Named") = true ∧
      (type named).byName = (MachineType.ofClass "Named").byName ∧
      ∀ (span : Span) (g : GenState), g.session.classes = t →
        (Gen.coerce .int .long span >>= fun _ ↦ Gen.coerce .long .long span) g =
          Gen.coerce .int .long span g := by
  intro person named shown t type
  obtain ⟨-, htrans, hantisymm, -, hcode⟩ :=
    isAssignable_order [.ofClass person, .ofClass named, .ofClass shown]
  obtain ⟨hnone, hnamed, hshown, hback, hsame⟩ : t.get? "Shown" = none ∧
      t.isAssignable (type person) (type named) = true ∧
      t.isAssignable (type named) (type shown) = true ∧
      t.isAssignable (type shown) (type person) = false ∧
      t.isAssignable (type named) (.ofClass "Named") = true ∧
      t.isAssignable (.ofClass "Named") (type named) = true := by decide +kernel
  exact ⟨hnone, hnamed, hshown, htrans _ _ _ hnamed hshown, hback, hsame.1,
    ((hantisymm _ _).1 hsame).2, (hcode .int .long .long .widen .identity rfl rfl).2⟩

end ClassTable

end ScriptBytecode

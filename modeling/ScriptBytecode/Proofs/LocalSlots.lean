import ScriptBytecode.Scope.Locals

/-!
# What names mean

Local variables are only ever allocated by declaring the receiver, a parameter or a store
(`Locals.Built`). What a declaration does to the variables that names mean is said once, by
`declareStore_cases` for stores and by `get?_allocate_self` and `get?_allocate_of_ne` for the rest.

However often variables are declared, each of them holds values of the kind of its type
(`Locals.Built.typed`).

Where every name is only ever stored with one kind (`Locals.OneKind`), no store moves a variable, so
what was there before keeps its slot (`Locals.Keeps`).

**Kinds, not types, decide about slots.** A store under a name that means a variable of the same
kind keeps the slots and replaces the type; any other store allocates. `Locals.declareStore_cases`
says so in full and is what all later facts about stores are derived from: which name means what
afterwards, in which slots, and that all other names mean what they meant.

Slots are numbers of 16 bits here and may wrap around; nothing in this module depends on their being
apart. That they are is the subject of allotments of slots.
-/

namespace ScriptBytecode.Locals

variable {l l' : Locals} {v : LocalVar} {name : String} {type : MachineType} {span : Span}

/-! ### What a name means after a declaration -/

/-- What a name means goes by that name. -/
theorem name_of_get? (h : l.get? name = some v) : v.name = name := by
  have := List.find?_some h
  simpa using this

/-- Giving the variable that a name means another type changes nothing else. -/
theorem get?_replace (h : l.get? name = some v) (type : MachineType) (other : String) :
    ({ l with bindings := l.bindings.replace v { v with type } } : Locals).get? other =
      if other = name then some { v with type } else l.get? other := by
  have hname := name_of_get? h
  unfold get? at h ⊢
  obtain ⟨bindings, nextSlot, size⟩ := l
  dsimp only at h ⊢
  induction bindings with
  | nil => simp at h
  | cons w ws ih =>
    by_cases hw : w.name = name
    · have hv : w = v := by simpa [hw] using h
      subst hv
      by_cases hother : other = name
      · simp [hother, hname]
      · simp [hother, hname, Ne.symm hother]
    · have hne : w ≠ v := fun heq ↦ hw (heq ▸ hname)
      rw [List.find?_cons_of_neg (by simpa using hw)] at h
      rw [List.replace_cons, beq_false_of_ne hne.symm]
      by_cases hother : w.name = other
      · have : other ≠ name := fun heq ↦ hw (hother.trans heq)
        simp [hother, this]
      · simpa [hother] using ih h

/-- A type that variables can have is the type of values of some kind. -/
theorem kindOf_eq_ok {k : StackKind} (h : kindOf type name span = .ok k) : type.kind? = some k := by
  unfold kindOf at h
  split at h
  · next hk => rw [hk, Except.ok.inj h]
  · exact absurd h (by simp)

/-- All that a store does. The name means the variable stored to afterwards, which keeps its slot if
it held values of the same kind before and lies in a fresh slot otherwise. -/
theorem declareStore_cases (h : l.declareStore name type span = .ok (v, l')) :
    v.type = type ∧ type.kind? = some v.kind ∧ l'.get? name = some v ∧
      (∀ other, other ≠ name → l'.get? other = l.get? other) ∧
      ((∃ w, l.get? name = some w ∧ w.kind = v.kind ∧ w.slot = v.slot ∧
          l'.nextSlot = l.nextSlot) ∨
        ((∀ w, l.get? name = some w → w.kind ≠ v.kind) ∧ v.slot = l.nextSlot ∧
          l'.nextSlot = v.limit)) := by
  unfold declareStore at h
  cases hkind : kindOf type name span with
  | error e => rw [hkind] at h; exact absurd h (by simp)
  | ok k =>
    rw [hkind] at h
    have hk := kindOf_eq_ok hkind
    -- Two cases make a variable anew: there was none, or it held values of another kind.
    have hfresh : ∀ (_ : (l.fresh name type k, l.allocate name type k) = (v, l')),
        v.type = type ∧ type.kind? = some v.kind ∧ l'.get? name = some v ∧
          (∀ other, other ≠ name → l'.get? other = l.get? other) ∧ v.kind = k ∧
          v.slot = l.nextSlot ∧ l'.nextSlot = v.limit := by
      intro heq
      obtain ⟨rfl, rfl⟩ := Prod.mk.inj heq
      exact ⟨rfl, hk, get?_allocate_self .., fun other hne ↦
        get?_allocate_of_ne l type k (Ne.symm hne), rfl, rfl, rfl⟩
    cases hget : l.get? name with
    | none =>
      simp only [hget] at h
      obtain ⟨htype, hkv, hself, hothers, -, hslot, hnext⟩ := hfresh (Except.ok.inj h)
      exact ⟨htype, hkv, hself, hothers, .inr ⟨by simp, hslot, hnext⟩⟩
    | some w =>
      simp only [hget] at h
      split at h
      · next hsame =>
        obtain ⟨rfl, rfl⟩ := Prod.mk.inj (Except.ok.inj h)
        refine ⟨rfl, by rw [hk, hsame], ?_, fun other hne ↦ ?_, .inl ⟨w, rfl, rfl, rfl, rfl⟩⟩
        · rw [get?_replace hget, if_pos rfl]
        · rw [get?_replace hget, if_neg hne]
      · next hdiffers =>
        obtain ⟨htype, hkv, hself, hothers, rfl, hslot, hnext⟩ := hfresh (Except.ok.inj h)
        refine ⟨htype, hkv, hself, hothers, .inr ⟨fun w' hw' ↦ ?_, hslot, hnext⟩⟩
        rwa [← Option.some.inj hw']

/-- To declare the receiver is to allocate it. -/
theorem declareThis_eq_ok {cls : ClassRef} (h : l.declareThis cls = .ok (v, l')) :
    v = l.fresh "this" (.ref cls) .reference ∧ l' = l.allocate "this" (.ref cls) .reference := by
  unfold declareThis at h
  split at h
  · obtain ⟨rfl, rfl⟩ := Prod.mk.inj (Except.ok.inj h)
    exact ⟨rfl, rfl⟩
  · exact absurd h (by simp)

/-- To declare a parameter is to allocate it, with the kind of its type. -/
theorem declareParam_eq_ok (h : l.declareParam name type span = .ok (v, l')) :
    ∃ k, type.kind? = some k ∧ v = l.fresh name type k ∧ l' = l.allocate name type k := by
  unfold declareParam at h
  split at h
  · exact absurd h (by simp)
  · split at h
    · next hkind =>
      obtain ⟨rfl, rfl⟩ := Prod.mk.inj (Except.ok.inj h)
      exact ⟨_, kindOf_eq_ok hkind, rfl, rfl⟩
    · exact absurd h (by simp)

/-- The name of a parameter means nothing before it is declared. -/
theorem get?_of_declareParam (h : l.declareParam name type span = .ok (v, l')) :
    l.get? name = none := by
  unfold declareParam at h
  split at h
  · exact absurd h (by simp)
  · next hnew => simpa using hnew

/-! ### Kinds of values -/

/-- Each variable holds values of the kind of its type. -/
def Typed (l : Locals) : Prop := ∀ ⦃name v⦄, l.get? name = some v → v.type.kind? = some v.kind

theorem Typed.empty : Typed {} := nofun

/-- A name can be given any fresh variable of the kind of its type. -/
theorem Typed.allocate (h : l.Typed) {k : StackKind} (hk : type.kind? = some k) :
    (l.allocate name type k).Typed := by
  intro other w hw
  by_cases hne : name = other
  · subst hne
    rw [get?_allocate_self] at hw
    rw [← Option.some.inj hw]
    exact hk
  · rw [get?_allocate_of_ne l type k hne] at hw
    exact h hw

/-- A store gives a variable the type of the value, and a value of that type the slots for it. -/
theorem Typed.declareStore (h : l.Typed)
    (hstore : l.declareStore name type span = .ok (v, l')) : l'.Typed := by
  obtain ⟨rfl, hk, hself, hothers, -⟩ := declareStore_cases hstore
  intro other w hw
  by_cases hne : other = name
  · subst hne
    obtain rfl := Option.some.inj (hw.symm.trans hself)
    exact hk
  · exact h (hothers other hne ▸ hw)

/-! ### Locals that declarations make -/

/-- The local variables that declarations make. -/
inductive Built : Locals → Prop
  | empty : Built {}
  | this {l l' : Locals} {cls : ClassRef} {v : LocalVar} (h : Built l)
      (hthis : l.declareThis cls = .ok (v, l')) : Built l'
  | param {l l' : Locals} {name : String} {type : MachineType} {span : Span} {v : LocalVar}
      (h : Built l) (hparam : l.declareParam name type span = .ok (v, l')) : Built l'
  | store {l l' : Locals} {name : String} {type : MachineType} {span : Span} {v : LocalVar}
      (h : Built l) (hstore : l.declareStore name type span = .ok (v, l')) : Built l'

/-- However they were declared, variables hold values of the kinds of their types. -/
theorem Built.typed (h : Built l) : l.Typed := by
  induction h with
  | empty => exact Typed.empty
  | this _ hthis ih =>
    obtain ⟨-, rfl⟩ := declareThis_eq_ok hthis
    exact ih.allocate rfl
  | param _ hparam ih =>
    obtain ⟨k, hk, -, rfl⟩ := declareParam_eq_ok hparam
    exact ih.allocate hk
  | store _ hstore ih => exact ih.declareStore hstore

/-! ### Names of one kind -/

/-- Each variable holds values of the kind of its name. -/
def OneKind (kinds : String → StackKind) (l : Locals) : Prop :=
  ∀ name v, l.get? name = some v → v.kind = kinds name

/-- What a name means in `l` it still means in `l'`, in the same slots and for values of the same
kind. -/
def Keeps (l l' : Locals) : Prop :=
  ∀ name v, l.get? name = some v → ∃ w, l'.get? name = some w ∧ w.kind = v.kind ∧ w.slot = v.slot

/-- Locals keep what they have. -/
theorem Keeps.refl (l : Locals) : l.Keeps l := fun _ v h ↦ ⟨v, h, rfl, rfl⟩

/-- What is kept twice is kept. -/
theorem Keeps.trans {l'' : Locals} (h : l.Keeps l') (h' : l'.Keeps l'') : l.Keeps l'' := by
  intro name v hv
  obtain ⟨w, hw, hkind, hslot⟩ := h name v hv
  obtain ⟨u, hu, hkind', hslot'⟩ := h' name w hw
  exact ⟨u, hu, hkind'.trans hkind, hslot'.trans hslot⟩

/-- A store with the kind of its name keeps every variable in its slots. -/
theorem OneKind.declareStore {kinds : String → StackKind} (h : l.OneKind kinds)
    (hstore : l.declareStore name type span = .ok (v, l')) (hkind : v.kind = kinds name) :
    l'.OneKind kinds ∧ l.Keeps l' := by
  obtain ⟨-, -, hself, hothers, hslot⟩ := declareStore_cases hstore
  refine ⟨fun other w hw ↦ ?_, fun other w hw ↦ ?_⟩ <;> by_cases hne : other = name
  · subst hne
    obtain rfl : w = v := Option.some.inj (hw.symm.trans hself)
    exact hkind
  · exact h other w (hothers other hne ▸ hw)
  · subst hne
    obtain ⟨u, hu, huv, hsame, -⟩ | ⟨hmoved, -⟩ := hslot
    · obtain rfl : w = u := Option.some.inj (hw.symm.trans hu)
      exact ⟨v, hself, huv.symm, hsame.symm⟩
    · exact absurd ((h _ w hw).trans hkind.symm) (hmoved w hw)
  · exact ⟨w, (hothers other hne).trans hw, rfl, rfl⟩

end ScriptBytecode.Locals

import ScriptBytecode.Bytecode.LabelTable

/-!
# The labels that a piece of code leaves behind

A piece of code creates labels of its own and binds all of them, and leaves the labels that were
there before as they were: its label table `Extends` the one it started from. A piece with jumps out
of it does more. Such a jump fixes the stack of the label that it reaches, in a table that `Admits`
the jump; `expecting` is the table afterwards.

Branches and loops have two labels of their own. `withTwo` is a table with both of them, in whatever
state they are while the construct is emitted.

These are facts about the table alone, without code and without an assembler. `Extends` is the frame
of a piece of code with no jumps out of it, and an order (`Extends.refl`, `Extends.trans`), so the
pieces of a construct compose without a word about the labels in between. `Extends.set` and
`Extends.expecting` say that a change to a label of the outer table commutes with an extension of
it: this is how a jump out of a construct, made deep within one of its parts, is seen from outside.

`expecting` is defined for every label, and leaves a table that does not have the label as it is.
The jump itself may be refused; `jump_of_admits` and `of_jump_eq_ok` are the two directions.
-/

namespace ScriptBytecode.LabelTable

variable {t t' t'' : LabelTable} {l l' : Label} {state state' : LabelState} {stack : List StackKind}

/-! ### Looking up labels -/

theorem get?_set_self (h : t.get? l = some state) : (t.set l state').get? l = some state' := by
  have hlt : l.index < t.states.length := (List.getElem?_eq_some_iff.1 h).1
  simp [get?, set, hlt]

theorem set_eq_self (h : t.get? l = some state) : t.set l state = t := by
  obtain ⟨hlt, hget⟩ := List.getElem?_eq_some_iff.1 h
  unfold set
  rw [← hget, List.set_getElem_self]

theorem get?_set_of_ne (t : LabelTable) (state : LabelState) (h : l ≠ l') :
    (t.set l state).get? l' = t.get? l' := by
  have hne : l.index ≠ l'.index := fun heq ↦ h (by cases l; cases l'; simp_all)
  simp [get?, set, List.getElem?_set_ne hne]

theorem get?_next (t : LabelTable) : t.get? t.next = none := by
  simp [get?, next]

theorem get?_create_next (t : LabelTable) : t.create.get? t.next = some {} := by
  simp [get?, next, create]

theorem get?_create_of_ne (t : LabelTable) (h : l ≠ t.next) : t.create.get? l = t.get? l := by
  have hne : l.index ≠ t.states.length := fun heq ↦ h (by cases l; simp_all [next])
  unfold get? create
  obtain hlt | hgt := Nat.lt_or_gt_of_ne hne
  · exact List.getElem?_append_left hlt
  · have hlong : (t.states ++ [({} : LabelState)]).length ≤ l.index := by
      simpa using Nat.succ_le_of_lt hgt
    rw [List.getElem?_eq_none hlong, List.getElem?_eq_none (Nat.le_of_lt hgt)]

/-- The label created next is none of those that are there. -/
theorem ne_next (h : t.get? l = some state) : l ≠ t.next := by
  rintro rfl
  rw [get?_next] at h
  cases h

/-- A label that is there stays there when one more is created. -/
theorem get?_create_of_some (h : t.get? l = some state) : t.create.get? l = some state :=
  (get?_create_of_ne t (ne_next h)).trans h

/-! ### Jumps out of a piece of code -/

/-- The table once a jump has reached a label with the given stack. -/
def expecting (t : LabelTable) (l : Label) (stack : List StackKind) : LabelTable :=
  match t.get? l with
  | some state => t.set l { state with stack := some stack }
  | none => t

/-- A jump may reach the label with the given stack. -/
def Admits (t : LabelTable) (l : Label) (stack : List StackKind) : Prop :=
  ∃ state, t.get? l = some state ∧ (state.stack = none ∨ state.stack = some stack)

theorem expecting_eq_set (h : t.get? l = some state) :
    t.expecting l stack = t.set l { state with stack := some stack } := by
  unfold expecting
  rw [h]

/-- A label that was jumped to expects that stack. -/
theorem get?_expecting_self (h : t.get? l = some state) :
    (t.expecting l stack).get? l = some { state with stack := some stack } := by
  rw [expecting_eq_set h]
  exact get?_set_self h

theorem get?_expecting_of_ne (h : l ≠ l') : (t.expecting l stack).get? l' = t.get? l' := by
  unfold expecting
  split
  · exact get?_set_of_ne t _ h
  · rfl

/-- A jump that is admitted fixes the stack that its label expects. -/
theorem jump_of_admits (h : t.Admits l stack) : t.jump l stack = .ok (t.expecting l stack) := by
  obtain ⟨⟨bound, st⟩, hget, hstack⟩ := h
  unfold jump expecting
  rw [hget]
  obtain rfl | rfl := hstack
  · rfl
  · dsimp only
    rw [if_pos rfl, set_eq_self hget]

/-- A jump that is not refused was admitted. -/
theorem of_jump_eq_ok (h : t.jump l stack = .ok t') :
    t.Admits l stack ∧ t' = t.expecting l stack := by
  have hadmits : t.Admits l stack := by
    unfold jump at h
    split at h
    · cases h
    · next state hget =>
      refine ⟨state, hget, ?_⟩
      split at h
      · next hnone => exact .inl hnone
      · next expected hexpected =>
        split at h
        · next heq => exact .inr (heq ▸ hexpected)
        · cases h
  exact ⟨hadmits, Except.ok.inj (h.symm.trans (jump_of_admits hadmits))⟩

/-- A position that is not refused is the first one of the label, and where control arrives from
above, no jump has arrived with another stack. -/
theorem of_bind_eq_ok {current outcome : Option (List StackKind)}
    (h : t.bind l current = (t', .ok outcome)) : ∃ known,
      t.get? l = some { bound := false, stack := known } ∧
        (∀ stack, current = some stack → known = none ∨ known = some stack) ∧
        t' = t.set l { bound := true, stack := known <|> current } ∧
        outcome = (known <|> current) := by
  unfold bind at h
  split at h
  · cases h
  · next state hget =>
    obtain ⟨bound, known⟩ := state
    cases bound with
    | true => cases h
    | false =>
      refine ⟨known, hget, ?_⟩
      cases current with
      | none =>
        cases h
        exact ⟨fun _ h ↦ (by cases h), rfl, rfl⟩
      | some actual =>
        cases known with
        | none =>
          cases h
          exact ⟨fun _ _ ↦ .inl rfl, rfl, rfl⟩
        | some expected =>
          rw [if_neg Bool.false_ne_true] at h
          dsimp only at h
          split at h
          · next heq =>
            cases h
            exact ⟨fun stack hstack ↦ .inr (heq ▸ hstack), rfl, rfl⟩
          · cases h

/-! ### Extensions -/

/-- Every label is as it was, and those that were created since have a position. -/
structure Extends (t t' : LabelTable) : Prop where
  kept : ∀ {l : Label} {state : LabelState}, t.get? l = some state → t'.get? l = some state
  bound : ∀ {l : Label} {state : LabelState}, t.get? l = none → t'.get? l = some state →
    state.bound = true

namespace Extends

theorem refl (t : LabelTable) : t.Extends t where
  kept h := h
  bound hnone hsome := by
    rw [hnone] at hsome
    cases hsome

/-- What extends twice extends. -/
theorem trans (h : t.Extends t') (h' : t'.Extends t'') : t.Extends t'' where
  kept hget := h'.kept (h.kept hget)
  bound {l state} hnone hsome := by
    cases hmid : t'.get? l with
    | none => exact h'.bound hmid hsome
    | some state' =>
      obtain rfl := Option.some.inj ((h'.kept hmid).symm.trans hsome)
      exact h.bound hnone hmid

/-- A jump that was admitted still is. -/
theorem admits (h : t.Extends t') (hl : t.Admits l stack) : t'.Admits l stack := by
  obtain ⟨state, hget, hstack⟩ := hl
  exact ⟨state, h.kept hget, hstack⟩

/-- What happens to a label of both tables leaves one an extension of the other. -/
theorem set (h : t.Extends t') (hl : t.get? l = some state) (state' : LabelState) :
    (t.set l state').Extends (t'.set l state') := by
  constructor
  · intro l' state'' hget
    by_cases hne : l = l'
    · subst hne
      rw [get?_set_self hl] at hget
      rw [get?_set_self (h.kept hl), hget]
    · rw [get?_set_of_ne _ _ hne] at hget ⊢
      exact h.kept hget
  · intro l' state'' hnone hsome
    by_cases hne : l = l'
    · subst hne
      rw [get?_set_self hl] at hnone
      cases hnone
    · rw [get?_set_of_ne _ _ hne] at hnone hsome
      exact h.bound hnone hsome

/-- A jump out of both tables leaves one an extension of the other. -/
theorem expecting (h : t.Extends t') (hl : t.Admits l stack) :
    (t.expecting l stack).Extends (t'.expecting l stack) := by
  obtain ⟨state, hstate, -⟩ := hl
  rw [expecting_eq_set hstate, expecting_eq_set (h.kept hstate)]
  exact h.set hstate _

end Extends

/-! ### Two labels of a construct -/

/-- The table with the two labels that are created next, in the given states. -/
def withTwo (t : LabelTable) (first second : LabelState) : LabelTable :=
  { states := t.states ++ [first, second] }

variable {first second : LabelState}

/-- To create two labels makes a table with two new ones. -/
theorem create_create (t : LabelTable) : t.create.create = t.withTwo {} {} := by
  simp [create, withTwo]

theorem get?_withTwo_first (t : LabelTable) (first second : LabelState) :
    (t.withTwo first second).get? t.next = some first := by
  simp [withTwo, get?, next]

theorem get?_withTwo_second (t : LabelTable) (first second : LabelState) :
    (t.withTwo first second).get? t.create.next = some second := by
  simp [withTwo, get?, next, create]

theorem set_withTwo_first (t : LabelTable) (first second state : LabelState) :
    (t.withTwo first second).set t.next state = t.withTwo state second := by
  simp [withTwo, set, next]

theorem set_withTwo_second (t : LabelTable) (first second state : LabelState) :
    (t.withTwo first second).set t.create.next state = t.withTwo first state := by
  simp [withTwo, set, next, create]

theorem expecting_withTwo_first (t : LabelTable) (first second : LabelState) :
    (t.withTwo first second).expecting t.next stack =
      t.withTwo { first with stack := some stack } second := by
  rw [expecting_eq_set (get?_withTwo_first ..), set_withTwo_first]

theorem expecting_withTwo_second (t : LabelTable) (first second : LabelState) :
    (t.withTwo first second).expecting t.create.next stack =
      t.withTwo first { second with stack := some stack } := by
  rw [expecting_eq_set (get?_withTwo_second ..), set_withTwo_second]

/-- Once both labels are bound, the table is an extension. -/
theorem extends_withTwo (t : LabelTable) (hfirst : first.bound = true)
    (hsecond : second.bound = true) : t.Extends (t.withTwo first second) := by
  constructor
  · intro l state hget
    have hlt : l.index < t.states.length := (List.getElem?_eq_some_iff.1 hget).1
    unfold get? withTwo
    rw [List.getElem?_append_left hlt]
    exact hget
  · intro l state hnone hsome
    unfold get? withTwo at hsome
    rw [List.getElem?_append_right (List.getElem?_eq_none_iff.1 hnone)] at hsome
    have hmem := List.mem_of_getElem? hsome
    obtain rfl | hmem := List.mem_cons.1 hmem
    · exact hfirst
    · obtain rfl := List.mem_singleton.1 hmem
      exact hsecond

end ScriptBytecode.LabelTable

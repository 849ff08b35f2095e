import ScriptBytecode.Proofs.Ensures
import ScriptBytecode.Proofs.Execution.Machine

/-!
# What the assembler has been given

Whatever it finds wrong, an assembler takes every instruction it is given, and labels are numbered
in the order of creation. `Emitted a a' piece` says that between `a` and `a'` the instructions of
`piece` were added and that the labels bound in `piece` were all created in between, each bound
once. So the pieces that the parts of a construct emit one after another never bind the same label.

* `BindsWithin` says which labels a piece binds, and `BindsWithin.append` that pieces bind apart;
* `Emitted` is closed under going on (`Emitted.trans`) and under each step of an assembler;
* `GenState.emits` is what several plain instructions do to the state of a code generator.

**Independent of faults.** None of this asks that nothing is wrong. An instruction is added to the
code whatever its effect, so what a piece consists of can be read off the calls alone (`code_emit`,
`code_bind`), and questions about stacks are kept apart from questions about code.

**Labels by number.** A label is the number of labels created before it. Labels of different pieces
are therefore different because their numbers lie in different ranges, and no list of labels has to
be carried along. `BindsWithin.insert` is for constructs, whose own label is created before those of
its parts and bound between them.
-/

namespace ScriptBytecode

namespace Assembler

/-! ### Instructions and labels -/

@[simp] theorem code_fail (a : Assembler) (f : Fault) : (a.fail f).code = a.code := rfl

@[simp] theorem labels_fail (a : Assembler) (f : Fault) : (a.fail f).labels = a.labels := rfl

@[simp] theorem code_pushResult (a : Assembler) (i : Instruction) :
    (a.pushResult i).code = a.code := by
  unfold pushResult
  split <;> rfl

@[simp] theorem labels_pushResult (a : Assembler) (i : Instruction) :
    (a.pushResult i).labels = a.labels := by
  unfold pushResult
  split <;> rfl

@[simp] theorem code_applyEffect (a : Assembler) (i : Instruction) :
    (a.applyEffect i).code = a.code := by
  unfold applyEffect
  dsimp only
  repeat' split
  all_goals simp

@[simp] theorem labels_applyEffect (a : Assembler) (i : Instruction) :
    (a.applyEffect i).labels = a.labels := by
  unfold applyEffect
  dsimp only
  repeat' split
  all_goals simp

@[simp] theorem code_applyJump (a : Assembler) (i : Instruction) :
    (a.applyJump i).code = a.code := by
  unfold applyJump
  repeat' split
  all_goals simp

/-- To jump to a label creates none. -/
theorem size_of_jump {t t' : LabelTable} {l : Label} {stack : List StackKind}
    (h : t.jump l stack = .ok t') : t'.size = t.size := by
  unfold LabelTable.jump at h
  split at h
  · cases h
  · split at h
    · cases h
      exact LabelTable.size_set ..
    · split at h
      · cases h
        rfl
      · cases h

@[simp] theorem size_applyJump (a : Assembler) (i : Instruction) :
    (a.applyJump i).labels.size = a.labels.size := by
  unfold applyJump
  split
  · rfl
  · split
    · next h => exact size_of_jump h
    · simp

/-- Whatever its effect, an instruction is added to the code. -/
@[simp] theorem code_emit (a : Assembler) (i : Instruction) :
    (a.emit i).code = a.code ++ [i] := by
  simp [emit]

/-- An instruction creates no label. -/
@[simp] theorem size_emit (a : Assembler) (i : Instruction) :
    (a.emit i).labels.size = a.labels.size := by
  simp [emit]

/-- To bind a label creates none. -/
theorem size_labels_bind (t : LabelTable) (l : Label) (current : Option (List StackKind)) :
    (t.bind l current).1.size = t.size := by
  unfold LabelTable.bind
  split
  · rfl
  · split
    · rfl
    · dsimp only
      split
      · split <;> simp
      · simp

/-- To bind a label is an instruction, whatever is wrong with the label. -/
@[simp] theorem code_bind (a : Assembler) (l : Label) :
    (a.bind l).code = a.code ++ [.bind l] := by
  unfold bind
  dsimp only
  split <;> simp

@[simp] theorem size_bind (a : Assembler) (l : Label) :
    (a.bind l).labels.size = a.labels.size := by
  unfold bind
  dsimp only
  split <;> simp [size_labels_bind]

@[simp] theorem code_createLabel (a : Assembler) : a.createLabel.code = a.code := rfl

@[simp] theorem size_createLabel (a : Assembler) :
    a.createLabel.labels.size = a.labels.size + 1 := by
  simp [createLabel]

@[simp] theorem index_nextLabel (a : Assembler) : a.nextLabel.index = a.labels.size := rfl

/-- Code is finished if nothing was found wrong and every label has a position. -/
theorem of_finish_eq_ok {a : Assembler} {code : Code} (h : a.finish = .ok code) :
    a.fault = none ∧ a.labels.unbound = [] ∧ code = ⟨a.code, a.maxStack⟩ := by
  unfold finish at h
  split at h
  · cases h
  · cases h
  · next hfault hunbound => exact ⟨hfault, hunbound, (Except.ok.inj h).symm⟩

end Assembler

/-! ### Pieces of code -/

/-- The labels bound in a piece of code are bound once each, and their numbers lie in a range. -/
structure BindsWithin (lo hi : Nat) (piece : List Instruction) : Prop where
  nodup : (boundLabels piece).Nodup
  range : ∀ l ∈ boundLabels piece, lo ≤ l.index ∧ l.index < hi

namespace BindsWithin

variable {lo mid hi : Nat} {piece piece' : List Instruction} {l : Label}

/-- Nothing binds nothing. -/
theorem nil (lo hi : Nat) : BindsWithin lo hi [] := by
  constructor <;> simp

/-- Pieces that bind labels from ranges one after the other never bind the same. -/
theorem append (h : BindsWithin lo mid piece) (h' : BindsWithin mid hi piece')
    (hlo : lo ≤ mid) (hhi : mid ≤ hi) : BindsWithin lo hi (piece ++ piece') where
  nodup := by
    rw [boundLabels_append, List.nodup_append]
    refine ⟨h.nodup, h'.nodup, fun a ha b hb heq ↦ ?_⟩
    have := h.range a ha
    have := h'.range b hb
    subst heq
    omega
  range l hl := by
    rw [boundLabels_append, List.mem_append] at hl
    obtain hl | hl := hl
    · have := h.range l hl
      omega
    · have := h'.range l hl
      omega

/-- A label created before all others of a piece may be bound within it. -/
theorem insert (hl : l.index = lo) (h : BindsWithin (lo + 1) hi (piece ++ piece'))
    (hlt : lo < hi) : BindsWithin lo hi (piece ++ .bind l :: piece') := by
  subst hl
  have hperm : (boundLabels (piece ++ .bind l :: piece')).Perm
      (l :: boundLabels (piece ++ piece')) := by
    simp only [boundLabels_append, boundLabels_bind_cons]
    exact List.perm_middle
  constructor
  · refine hperm.nodup_iff.2 (List.nodup_cons.2 ⟨fun hmem ↦ ?_, h.nodup⟩)
    have := h.range l hmem
    omega
  · intro l' hl'
    obtain rfl | hl' := List.mem_cons.1 (hperm.mem_iff.1 hl')
    · exact ⟨Nat.le_refl _, hlt⟩
    · have := h.range l' hl'
      omega

end BindsWithin

/-- The instructions of a piece were added, with the labels that it binds. -/
structure Emitted (a a' : Assembler) (piece : List Instruction) : Prop where
  code : a'.code = a.code ++ piece
  size_le : a.labels.size ≤ a'.labels.size
  binds : BindsWithin a.labels.size a'.labels.size piece

namespace Emitted

variable {a a' a'' : Assembler} {piece piece' : List Instruction}

/-- Nothing was added. -/
theorem refl (a : Assembler) : Emitted a a [] :=
  ⟨by simp, Nat.le_refl _, .nil ..⟩

/-- What was added in two steps was added in one. -/
theorem trans (h : Emitted a a' piece) (h' : Emitted a' a'' piece') :
    Emitted a a'' (piece ++ piece') where
  code := by rw [h'.code, h.code, List.append_assoc]
  size_le := Nat.le_trans h.size_le h'.size_le
  binds := h.binds.append h'.binds h.size_le h'.size_le

/-- An instruction that binds no label was added. -/
theorem emit (a : Assembler) {i : Instruction} (h : ∀ l, i ≠ .bind l) :
    Emitted a (a.emit i) [i] where
  code := by simp
  size_le := by simp
  binds := by constructor <;> simp [boundLabels_cons_of_ne h]

end Emitted

/-! ### Code for values -/

/-- The state with more instructions emitted. -/
def GenState.emits (g : GenState) (is : List Instruction) : GenState :=
  { g with asm := is.foldl Assembler.emit g.asm }

@[simp] theorem GenState.code_emits (g : GenState) (is : List Instruction) :
    (g.emits is).asm.code = g.asm.code ++ is := by
  induction is generalizing g with
  | nil => exact (List.append_nil _).symm
  | cons i is ih => exact (ih (g.emits [i])).trans (by simp [emits])

/-- Instructions are emitted one after another. -/
theorem GenState.emits_append (g : GenState) (is js : List Instruction) :
    g.emits (is ++ js) = (g.emits is).emits js := by
  simp [emits]

/-- Instructions other than `bind` are a piece of code. -/
theorem GenState.emitted_emits (g : GenState) {is : List Instruction}
    (h : ∀ i ∈ is, ∀ l, i ≠ .bind l) : Emitted g.asm (g.emits is).asm is := by
  induction is generalizing g with
  | nil => exact .refl _
  | cons i is ih =>
    exact (Emitted.emit g.asm (h i (List.mem_cons_self ..))).trans
      (ih (g.emits [i]) fun j hj ↦ h j (List.mem_cons_of_mem _ hj))

/-- Converting between types with a conversion is converting between their kinds: nothing is needed
if the kinds are the same, and otherwise a 32-bit integer is widened. -/
theorem ClassTable.conversion?_kinds {t : ClassTable} {source target : MachineType}
    {conversion : Conversion} (h : t.conversion? source target = some conversion) :
    conversion.code = [] ∧ source.kind? = target.kind? ∨
      conversion.code = [.i2l] ∧ source.kind? = some .int ∧ target.kind? = some .long := by
  unfold ClassTable.conversion? at h
  split at h
  · next p q =>
    split at h
    · next heq =>
      cases h
      exact .inl ⟨rfl, by rw [heq]⟩
    · split at h
      · next hwiden =>
        cases h
        obtain ⟨rfl, rfl⟩ := hwiden
        exact .inr ⟨rfl, rfl, rfl⟩
      · cases h
  · split at h
    · cases h
      exact .inl ⟨rfl, rfl⟩
    · split at h
      · cases h
        exact .inl ⟨rfl, rfl⟩
      · cases h
  · split at h
    · cases h
      exact .inl ⟨rfl, rfl⟩
    · cases h
  · split at h
    · cases h
      exact .inl ⟨rfl, rfl⟩
    · cases h
  · cases h

namespace Gen

variable {g : GenState} {fails : CompileError → GenState → Prop}

/-- To emit several instructions is to emit each of them. -/
theorem ensures_emitAll {is : List Instruction} {post : PUnit → GenState → Prop}
    (h : post ⟨⟩ (g.emits is)) : Ensures (emitAll is) g post fails := by
  induction is generalizing g with
  | nil => exact h
  | cons i is ih => exact ih h

/-- Settling a value leaves one value if one is wanted and none otherwise. -/
theorem ensures_settle {produced : MachineType} {keep : Bool}
    {post : MachineType → GenState → Prop}
    (hmade : produced = .void → keep = true → post .object (g.emits [.pushNull]))
    (hnone : produced = .void → keep = false → post .void g)
    (hkept : produced ≠ .void → keep = true → post produced g)
    (hdropped : ∀ k, produced.kind? = some k → keep = false → post .void (g.emits [.pop k])) :
    Ensures (settle produced keep) g post fails := by
  unfold settle
  cases hkind : produced.kind? with
  | none =>
    obtain rfl := MachineType.kind?_eq_none_iff.1 hkind
    cases keep with
    | true => exact hmade rfl rfl
    | false => exact hnone rfl rfl
  | some k =>
    have hne : produced ≠ .void := by
      rintro rfl
      exact absurd hkind (by simp [MachineType.kind?])
    cases keep with
    | true => exact hkept hne rfl
    | false => exact hdropped k hkind rfl

/-- A value that is coerced is left alone or widened, to the kind of the target. -/
theorem ensures_coerce {actual target : MachineType} {span : Span}
    {post : PUnit → GenState → Prop}
    (hsame : actual.kind? = target.kind? → post ⟨⟩ g)
    (hwiden : actual.kind? = some .int → target.kind? = some .long → post ⟨⟩ (g.emits [.i2l]))
    (herr : fails (.misuse span (.typeMismatch actual target)) g) :
    Ensures (coerce actual target span) g post fails := by
  unfold coerce
  refine ensures_get_bind ?_
  split
  · next conversion hconv =>
    obtain ⟨hcode, hkinds⟩ | ⟨hcode, hactual, htarget⟩ := ClassTable.conversion?_kinds hconv
    · rw [hcode]
      exact ensures_emitAll (hsame hkinds)
    · rw [hcode]
      exact ensures_emitAll (hwiden hactual htarget)
  · split
    · next h => exact ensures_pure (hsame (h.1.trans h.2.symm))
    · exact ensures_throw herr

end Gen

end ScriptBytecode

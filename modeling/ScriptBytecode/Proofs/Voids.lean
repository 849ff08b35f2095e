import ScriptBytecode.Proofs.Lookups

/-!
# Names for no value

A type name can stand for no value at all: this is what `void` is for, and the name that no
identifier can spell. Declarations and imports make names stand for classes, and never for nothing.
So however a type table has come about, all its names that stand for no value are among these two
(`TypeTable.VoidsNamed`), and a construct whose type is `void` to the compiler has a type in the
source that says so (`Session.canBeVoid_of_typeOf`).

The second of the two names is what a construct without an inferred type has. So a branch or a loop
whose type is neither of them surely has a value, and what its code does can be read off the source.
-/

namespace ScriptBytecode

/-- The type may be the one of constructs without a value. -/
def SourceType.canBeVoid (type : SourceType) : Bool :=
  !type.isArray && (type.name == "void" || type.name == noneName)

namespace TypeTable

variable {t : TypeTable} {classes : ClassTable} {type : SourceType}

/-- Only names that say so stand for no value. -/
def VoidsNamed (t : TypeTable) : Prop :=
  ∀ ⦃type⦄, t.lookup? type = some .void → type.canBeVoid = true

namespace VoidsNamed

/-- To enter a class for a name takes away at most a name for no value. -/
theorem insertClass (h : t.VoidsNamed) (name : String) (c : ClassRef) :
    (t.insertClass name (.ref c)).VoidsNamed := by
  intro type hvoid
  rw [lookup?_insertClass] at hvoid
  split at hvoid
  · cases hvoid
  · exact h hvoid

/-- Of the names that are built in, only these two stand for no value. -/
theorem builtin : TypeTable.builtin.VoidsNamed := by
  have hentries : ∀ p ∈ TypeTable.builtin.entries, p.2 = .void → p.1.canBeVoid = true := by decide
  intro type hvoid
  obtain ⟨front, rest, hentry, -⟩ := List.lookup_eq_some_iff.1 hvoid
  exact hentries (type, .void) (hentry ▸ List.mem_append_right front (List.mem_cons_self ..)) rfl

/-- To name classes makes no name stand for no value. -/
theorem foldl_insertClass (h : t.VoidsNamed) (names : List String) (c : ClassRef) :
    (names.foldl (fun t name ↦ t.insertClass name (.ref c)) t).VoidsNamed := by
  induction names generalizing t with
  | nil => exact h
  | cons name names ih => exact ih (h.insertClass name c)

/-- Nor does an import that succeeds, -/
theorem importClass {short : List String} {full : String} {span : Span}
    {r : MachineType × TypeTable}
    (h : t.VoidsNamed) (himport : t.importClass classes short full span = .ok r) :
    r.2.VoidsNamed := by
  unfold TypeTable.importClass at himport
  split at himport
  · cases himport
  · obtain rfl := Except.ok.inj himport
    exact h.foldl_insertClass ..

/-- nor one of any class, -/
theorem withImport (h : t.VoidsNamed) (classes : ClassTable) (full : String)
    (asName : Option String) : (t.withImport classes full asName).VoidsNamed := by
  unfold TypeTable.withImport
  split
  · exact h.foldl_insertClass ..
  · exact h

/-- nor any definition. -/
theorem typesAfter (h : t.VoidsNamed) (classes : ClassTable) (ds : List Definition) :
    (typesAfter classes t ds).VoidsNamed := by
  induction ds generalizing t with
  | nil => exact h
  | cons d ds ih =>
    refine ih ?_
    obtain ((⟨full, asName, span⟩ | _) | _) := d
    · exact h.withImport classes full asName
    all_goals exact h

/-- What stands for no value can do so. -/
theorem canBeVoid_of_resolve? (h : t.VoidsNamed) (hvoid : t.resolve? classes type = some .void) :
    type.canBeVoid = true := by
  unfold resolve? at hvoid
  split at hvoid
  · next machine hlookup =>
    obtain rfl := Option.some.inj hvoid
    exact h hlookup
  · split at hvoid
    · obtain ⟨machine, -, harray⟩ := Option.map_eq_some_iff.1 hvoid
      cases harray
    · next harray =>
      unfold resolveName? at hvoid
      split at hvoid
      · next machine hlookup =>
        obtain rfl := Option.some.inj hvoid
        obtain ⟨-, hname⟩ := Bool.and_eq_true_iff.1 (h hlookup)
        exact Bool.and_eq_true_iff.2 ⟨by simpa using harray, hname⟩
      · obtain ⟨c, -, hclass⟩ := Option.map_eq_some_iff.1 hvoid
        cases hclass

end VoidsNamed

end TypeTable

namespace Session

variable {s : Session} {type : SourceType} {span : Span}

/-- A construct whose type is `void` to the compiler has a type in the source that says so. -/
theorem canBeVoid_of_typeOf (hs : s.types.VoidsNamed) (h : s.typeOf type span = .ok .void) :
    type.canBeVoid = true := by
  unfold typeOf TypeTable.resolve at h
  split at h
  · next machine hresolve =>
    obtain rfl := Except.ok.inj h
    exact hs.canBeVoid_of_resolve? hresolve
  · cases h

end Session

end ScriptBytecode

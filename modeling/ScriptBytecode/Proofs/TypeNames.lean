import ScriptBytecode.Proofs.Lookups

/-!
# What names stand for

A name is looked up in four forms: as a type of values and as that type itself, and both of them for
arrays. A change to a type table makes entries for the first two forms only, and the others are
looked up by their parts. So all forms stand for one thing, or for arrays of it, as long as what is
entered for a type itself is entered for its values (`Coherent`).

* `InPlace` has the changes as a host makes them, entry by entry. What is imported under two names
  is imported under the first, and then the second name is entered. Since only the first of these
  steps can be refused, an import is made as a whole (`InPlace.importPair_eq`).
* `Change.names` and `Change.machine?` say what a change comes to, and `lastGiven?` is the last one
  of some changes that were made to a name.

Whatever changes have been tried, a name stands for what the last one to it has made it stand for;
if there is none, for what it is built in for; and if it is not built in, for the class of that name
(`resolve_run`).

**Refusals.** The only change that can be refused is the import of a class that is not known
(`perform_eq_error_iff`), and it is refused before anything is entered
(`perform_of_machine?_eq_none`). So a run goes on after a refusal as if it had not been tried, and
`lastGiven?` passes over it.

**What the four forms have in common** is the answer, not the entry: a type itself stands for the
class that its values are of, an array for arrays of what its elements stand for. `Coherent` is the
invariant that keeps the first two in step; arrays have no entries at all.

**What is not said.** Nothing is said of the order of changes to different names, because it does
not matter (`resolve?_run_congr`). A class of the name counts only where neither a change nor the
built-in names say otherwise, and it may be a class that is registered later.
-/

namespace ScriptBytecode

namespace SourceType

/-- The type of arrays of the named type. -/
def arrayOf (name : String) : SourceType := { name, isArray := true }

theorem named_beq_named (name other : String) : (named name == named other) = (name == other) :=
  Bool.eq_iff_iff.2 (by simp [named])

theorem named_beq_metaOf (name other : String) : (named name == metaOf other) = false := by
  simp [named, metaOf]

end SourceType

namespace TypeTable

variable {t : TypeTable} {classes : ClassTable} {name : String} {machine : MachineType}

/-! ### Imports -/

/-- A class that is known is imported under all of the names. -/
theorem importClass_of_known {full : String} {c : ClassRef} (h : classes.classRef? full = some c)
    (t : TypeTable) (short : List String) (span : Span) :
    t.importClass classes short full span =
      .ok (.ref c, short.foldl (·.insertClass · (.ref c)) t) := by
  rw [importClass, h]

/-- A class that is not known is imported under none of them. -/
theorem importClass_of_unknown {full : String} (h : classes.classRef? full = none) (t : TypeTable)
    (short : List String) (span : Span) :
    t.importClass classes short full span = .error (.located span (.unknownType full)) := by
  rw [importClass, h]

/-! ### Changes made in place -/

/-- An action on a type table that changes it in place. -/
abbrev InPlace := EStateM CompileError TypeTable

namespace InPlace

/-- Enters a machine type for a source type. -/
def enter (type : SourceType) (machine : MachineType) :
    InPlace Unit := modify (·.insert type machine)

/-- Enters a machine type for a name, as a type itself and then for its values. -/
def enterClass (name : String) (machine : MachineType) : InPlace Unit := do
  enter (.metaOf name) machine
  enter (.named name) machine

/-- Makes a short name stand for a known class. -/
def importClass (classes : ClassTable) (short full : String) (span : Span) :
    InPlace MachineType := do
  match classes.classRef? full with
  | none => throw (.located span (.unknownType full))
  | some c =>
    enterClass short (.ref c)
    pure (.ref c)

/-- Makes two names stand for a known class, one after the other. -/
def importPair (classes : ClassTable) (first second full : String) (span : Span) :
    InPlace MachineType := do
  let machine ← importClass classes first full span
  enterClass second machine
  pure machine

/-- A class is imported in place as it is imported as a whole. -/
theorem importClass_eq (classes : ClassTable) (short full : String) (span : Span) :
    importClass classes short full span = wholly (·.importClass classes [short] full span) := by
  funext t
  rw [importClass]
  cases h : classes.classRef? full with
  | none =>
    rw [wholly_of_error (importClass_of_unknown h ..)]
    rfl
  | some c =>
    rw [wholly_of_ok (importClass_of_known h ..)]
    rfl

/-- So is a class under two names: once the first one is entered, the second one cannot be
refused. -/
theorem importPair_eq (classes : ClassTable) (first second full : String) (span : Span) :
    importPair classes first second full span =
      wholly (·.importClass classes [first, second] full span) := by
  funext t
  rw [importPair, importClass_eq]
  cases h : classes.classRef? full with
  | none =>
    have hfirst : wholly (·.importClass classes [first] full span) t =
        .error (.located span (.unknownType full)) t :=
      wholly_of_error (importClass_of_unknown h ..)
    rw [bind_eq_of_error hfirst, wholly_of_error (importClass_of_unknown h ..)]
  | some c =>
    have hfirst : wholly (·.importClass classes [first] full span) t =
        .ok (.ref c) (t.insertClass first (.ref c)) :=
      wholly_of_ok (importClass_of_known h ..)
    rw [bind_eq_of_ok hfirst, wholly_of_ok (importClass_of_known h ..)]
    rfl

end InPlace

/-! ### Changes -/

/-- What a type table can be asked to do. -/
inductive Change where
  /-- Enter a machine type for a name. -/
  | enter (name : String) (machine : MachineType)
  /-- Import a class under a short name. -/
  | importClass (classes : ClassTable) (short full : String) (span : Span)
  /-- Import a class under two names. -/
  | importPair (classes : ClassTable) (first second full : String) (span : Span)

namespace Change

/-- The names that the change is about. -/
def names : Change → List String
  | enter name _ => [name]
  | importClass _ short _ _ => [short]
  | importPair _ first second _ _ => [first, second]

/-- What these names are to stand for; nothing for the import of a class that is not known. -/
def machine? : Change → Option MachineType
  | enter _ machine => some machine
  | importClass classes _ full _ | importPair classes _ _ full _ =>
    (classes.classRef? full).map .ref

end Change

/-- Makes a change in place. -/
def perform : Change → InPlace Unit
  | .enter name machine => InPlace.enterClass name machine
  | .importClass classes short full span => discard <| InPlace.importClass classes short full span
  | .importPair classes first second full span =>
    discard <| InPlace.importPair classes first second full span

/-- The table that a change leaves, whether it is made or refused. -/
def after (t : TypeTable) (c : Change) : TypeTable :=
  match perform c t with
  | .ok _ t' => t'
  | .error _ t' => t'

/-- The table that is left when some changes have been tried in turn. -/
def run (t : TypeTable) (cs : List Change) : TypeTable := cs.foldl after t

/-- A change that is not refused enters its names and nothing else. -/
theorem perform_of_machine? {c : Change} (h : c.machine? = some machine) (t : TypeTable) :
    perform c t = .ok () (c.names.foldl (·.insertClass · machine) t) := by
  cases c with
  | enter name machine' =>
    obtain rfl := Option.some.inj h
    rfl
  | importClass classes short full span =>
    obtain ⟨c, hc, rfl⟩ := Option.map_eq_some_iff.1 h
    rw [perform, InPlace.importClass_eq]
    exact bind_eq_of_ok (wholly_of_ok (importClass_of_known hc ..))
  | importPair classes first second full span =>
    obtain ⟨c, hc, rfl⟩ := Option.map_eq_some_iff.1 h
    rw [perform, InPlace.importPair_eq]
    exact bind_eq_of_ok (wholly_of_ok (importClass_of_known hc ..))

/-- A change that is refused leaves the table as it was. -/
theorem perform_of_machine?_eq_none {c : Change} (h : c.machine? = none) (t : TypeTable) :
    ∃ err, perform c t = .error err t := by
  cases c with
  | enter name machine' => cases h
  | importClass classes short full span =>
    rw [perform, InPlace.importClass_eq]
    have hunknown := importClass_of_unknown (Option.map_eq_none_iff.1 h) t [short] span
    exact ⟨_, bind_eq_of_error (wholly_of_error hunknown)⟩
  | importPair classes first second full span =>
    rw [perform, InPlace.importPair_eq]
    have hunknown := importClass_of_unknown (Option.map_eq_none_iff.1 h) t [first, second] span
    exact ⟨_, bind_eq_of_error (wholly_of_error hunknown)⟩

/-- A change is refused if it is the import of a class that is not known, and only then. -/
theorem perform_eq_error_iff {c : Change} {u : TypeTable} :
    (∃ err, perform c t = .error err u) ↔ c.machine? = none ∧ u = t := by
  cases h : c.machine? with
  | none =>
    obtain ⟨err, hrefused⟩ := perform_of_machine?_eq_none h t
    rw [hrefused]
    simp [eq_comm]
  | some machine =>
    rw [perform_of_machine? h]
    simp

/-! ### Lookups after changes -/

/-- After a change its names are looked up as it says, unless it was refused. Entries for arrays and
those for other names stay. -/
theorem lookup?_after (t : TypeTable) (c : Change) (type : SourceType) :
    (t.after c).lookup? type =
      if type.name ∈ c.names ∧ type.isArray = false then c.machine? <|> t.lookup? type
      else t.lookup? type := by
  cases h : c.machine? with
  | none =>
    obtain ⟨err, hrefused⟩ := perform_of_machine?_eq_none h t
    rw [after, hrefused]
    simp
  | some machine =>
    rw [after, perform_of_machine? h, lookup?_foldl_insertClass fun _ ↦ machine]
    rfl

/-- What the last of the changes to a name that were made has made it stand for. -/
def lastGiven? (cs : List Change) (name : String) : Option MachineType :=
  cs.reverse.findSome? fun c ↦ if name ∈ c.names then c.machine? else none

/-- The changes to other names do not matter for this. -/
theorem lastGiven?_filter (cs : List Change) (name : String) :
    lastGiven? (cs.filter (name ∈ ·.names)) name = lastGiven? cs name := by
  unfold lastGiven?
  rw [← List.filter_reverse]
  induction cs.reverse with
  | nil => rfl
  | cons c cs ih =>
    by_cases hname : name ∈ c.names
    · simp [hname, List.findSome?_cons, ih]
    · simp [hname, ih]

/-- After some changes a name is looked up as the last one to it says. -/
theorem lookup?_run (t : TypeTable) (cs : List Change) (type : SourceType) :
    (t.run cs).lookup? type =
      if type.isArray then t.lookup? type else lastGiven? cs type.name <|> t.lookup? type := by
  induction cs generalizing t with
  | nil => simp [run, lastGiven?]
  | cons c cs ih =>
    have hlast : lastGiven? (c :: cs) type.name =
        (lastGiven? cs type.name <|> if type.name ∈ c.names then c.machine? else none) := by
      simp [lastGiven?]
    -- what the later changes do not say, the first one does, over the table from before
    show ((t.after c).run cs).lookup? type = _
    rw [ih, lookup?_after, hlast]
    by_cases harray : type.isArray = true
    · simp [harray]
    · by_cases hname : type.name ∈ c.names
      · simp [harray, hname, Option.or_assoc]
      · simp [harray, hname]

/-! ### The built-in names -/

/-- What the built-in names stand for. -/
def builtinNames : List (String × MachineType) :=
  [("Object", .object), ("String", .string), ("string", .string), (SourceType.noneName, .void),
    ("void", .void), ("boolean", .boolean), ("int", .int), ("long", .long)]

theorem lookup?_builtin_named (name : String) :
    builtin.lookup? (.named name) = builtinNames.lookup name := by
  have hnone : SourceType.none = .named SourceType.noneName := rfl
  simp only [lookup?, builtin, insertClass, insert, builtinNames, hnone, List.lookup_cons,
    List.lookup_nil, SourceType.named_beq_named, SourceType.named_beq_metaOf]

/-! ### Coherent tables -/

/-- No entry is for an array type, and what is entered for a type itself is entered for its
values. -/
structure Coherent (t : TypeTable) : Prop where
  array : ∀ type : SourceType, type.isArray = true → t.lookup? type = none
  instance? : ∀ name machine, t.lookup? (.metaOf name) = some machine →
    t.lookup? (.named name) = some machine

namespace Coherent

/-- Entries for plain names only are coherent. -/
theorem of_named {entries : List (SourceType × MachineType)}
    (h : ∀ e ∈ entries, e.1 = .named e.1.name) : Coherent { entries } := by
  have hlookup : ∀ type : SourceType, type ≠ .named type.name →
      entries.lookup type = none := by
    intro type htype
    rw [List.lookup_eq_none_iff]
    intro e he
    rw [bne_iff_ne]
    rintro rfl
    exact htype (h e he)
  constructor
  · intro type harray
    refine hlookup type fun heq ↦ ?_
    rw [heq] at harray
    cases harray
  · intro name machine hmeta
    -- nothing is entered for a type itself
    have hnone : entries.lookup (.metaOf name) = none :=
      hlookup (.metaOf name) (by simp [SourceType.metaOf, SourceType.named])
    cases hnone.symm.trans hmeta

/-- A class is entered for both. -/
theorem insertClass (h : t.Coherent) (name : String) (machine : MachineType) :
    (t.insertClass name machine).Coherent := by
  constructor
  · intro type harray
    rw [lookup?_insertClass, if_neg (by simp [harray])]
    exact h.array type harray
  · intro other machine' hmeta
    rw [lookup?_insertClass] at hmeta ⊢
    by_cases hname : other = name
    · rw [if_pos ⟨hname, rfl⟩] at hmeta ⊢
      exact hmeta
    · rw [if_neg fun h ↦ hname h.1] at hmeta ⊢
      exact h.instance? other machine' hmeta

theorem builtin : TypeTable.builtin.Coherent := by
  refine insertClass (insertClass (insertClass (of_named ?_) ..) ..) ..
  decide

/-- A change enters classes, or nothing. -/
theorem after (h : t.Coherent) (c : Change) : (t.after c).Coherent := by
  cases hmachine : c.machine? with
  | none =>
    obtain ⟨err, hrefused⟩ := perform_of_machine?_eq_none hmachine t
    rw [TypeTable.after, hrefused]
    exact h
  | some machine =>
    rw [TypeTable.after, perform_of_machine? hmachine]
    exact List.foldlRecOn c.names _ h fun _ hu name _ ↦ hu.insertClass name machine

/-- Whatever changes are made, all forms of a name agree. -/
theorem run (h : t.Coherent) (cs : List Change) : (t.run cs).Coherent :=
  List.foldlRecOn cs _ h fun _ hu c _ ↦ hu.after c

end Coherent

/-! ### What names stand for -/

section Resolution

variable {type other : SourceType}

/-- Forms of one name that resolve alike fail alike. -/
theorem resolve_congr (h : t.resolve? classes other = t.resolve? classes type)
    (hname : other.name = type.name) (span : Span) :
    t.resolve classes other span = t.resolve classes type span := by
  unfold resolve
  rw [h, hname]

/-- A plain type is looked up by its name. -/
theorem resolve?_named (t : TypeTable) (classes : ClassTable) (name : String) :
    t.resolve? classes (.named name) = t.resolveName? classes name := by
  unfold resolve?
  cases hlookup : t.lookup? (.named name) with
  | none => rfl
  | some machine =>
    unfold resolveName?
    rw [hlookup]

/-- So is the type itself, in a coherent table. -/
theorem Coherent.resolve?_metaOf (h : t.Coherent) (classes : ClassTable) (name : String) :
    t.resolve? classes (.metaOf name) = t.resolveName? classes name := by
  unfold resolve?
  cases hmeta : t.lookup? (.metaOf name) with
  | none => rfl
  | some machine =>
    unfold resolveName?
    rw [h.instance? name machine hmeta]

/-- Arrays are looked up by their elements. -/
theorem Coherent.resolve?_of_isArray (h : t.Coherent) (classes : ClassTable)
    (harray : type.isArray = true) :
    t.resolve? classes type = (t.resolveName? classes type.name).map .array := by
  unfold resolve?
  rw [h.array type harray]
  simp [harray]

/-- After some changes a plain name stands for what the last one to it says, for what it is built in
for, or for a class. -/
theorem resolveName?_run (cs : List Change) (classes : ClassTable) (name : String) :
    (builtin.run cs).resolveName? classes name =
      (lastGiven? cs name <|> builtinNames.lookup name <|> (classes.classRef? name).map .ref) := by
  have hlookup : (builtin.run cs).lookup? (.named name) =
      (lastGiven? cs name <|> builtinNames.lookup name) := by
    rw [lookup?_run, lookup?_builtin_named]
    rfl
  unfold resolveName?
  rw [hlookup]
  cases lastGiven? cs name with
  | some machine => rfl
  | none => cases builtinNames.lookup name <;> rfl

/-- The changes to other names do not matter for any form of a name. -/
theorem resolve?_run_congr {cs cs' : List Change} (classes : ClassTable)
    (h : cs'.filter (type.name ∈ ·.names) = cs.filter (type.name ∈ ·.names)) :
    (builtin.run cs').resolve? classes type = (builtin.run cs).resolve? classes type := by
  have hlast : lastGiven? cs' type.name = lastGiven? cs type.name := by
    rw [← lastGiven?_filter cs', h, lastGiven?_filter]
  have hlookup : ∀ other : SourceType, other.name = type.name →
      (builtin.run cs').lookup? other = (builtin.run cs).lookup? other := by
    intro other hname
    rw [lookup?_run, lookup?_run, hname, hlast]
  unfold resolve? resolveName?
  rw [hlookup type rfl, hlookup (.named type.name) rfl]

end Resolution

/-- Whatever changes have been tried, all four forms of a name stand for one thing, or for arrays of
it: for what the last change to the name that was made says, for what the name is built in for, or
for the class of that name. Changes to other names do not matter, and a change is refused only if it
imports a class that is not known; then it leaves the table as it was. -/
theorem resolve_run (cs : List Change) (classes : ClassTable) (name : String) (span : Span) :
    let t := builtin.run cs
    t.resolve classes (.named name) span =
        (match lastGiven? cs name <|> builtinNames.lookup name <|>
            (classes.classRef? name).map .ref with
          | some machine => .ok machine
          | none => .error (.located span (.unknownType name))) ∧
      t.resolve classes (.metaOf name) span = t.resolve classes (.named name) span ∧
      t.resolve classes (.arrayOf name) span =
        (t.resolve classes (.named name) span).map .array ∧
      t.resolve classes (SourceType.arrayOf name).asMeta span =
        t.resolve classes (.arrayOf name) span ∧
      (∀ cs', cs'.filter (name ∈ ·.names) = cs.filter (name ∈ ·.names) →
        ∀ type : SourceType, type.name = name →
          (builtin.run cs').resolve classes type span = t.resolve classes type span) ∧
      ∀ c u, (∃ err, perform c t = .error err u) ↔ c.machine? = none ∧ u = t := by
  intro t
  have ht : t.Coherent := Coherent.builtin.run cs
  -- In a coherent table the three other forms come down to the name.
  have hnamed : t.resolve? classes (.named name) = t.resolveName? classes name :=
    resolve?_named t classes name
  have hmeta : t.resolve? classes (.metaOf name) = t.resolve? classes (.named name) :=
    (ht.resolve?_metaOf classes name).trans hnamed.symm
  have harray : t.resolve? classes (.arrayOf name) = (t.resolveName? classes name).map .array :=
    ht.resolve?_of_isArray classes rfl
  have hmetaArray : t.resolve? classes (SourceType.arrayOf name).asMeta =
      t.resolve? classes (.arrayOf name) :=
    (ht.resolve?_of_isArray classes rfl).trans harray.symm
  refine ⟨?_, ?_, ?_, ?_, ?_, fun c u ↦ perform_eq_error_iff⟩
  · unfold resolve
    rw [hnamed, resolveName?_run]
    rfl
  · exact resolve_congr hmeta rfl span
  · unfold resolve
    rw [hnamed, harray]
    cases t.resolveName? classes name <;> rfl
  · exact resolve_congr hmetaArray rfl span
  · rintro cs' hcs type rfl
    unfold resolve
    rw [resolve?_run_congr classes hcs]

/-- The list interface and nothing else. -/
def listClasses : ClassTable := { classes := [.ofInterface "java.util.List"] }

/-- Three changes to one name, of which the last one is refused. -/
def overriding : List Change :=
  [.enter "List" .long, .importPair listClasses "List" "JList" "java.util.List" {},
    .importClass listClasses "List" "java.util.Deque" {}]

theorem resolve_run_overriding :
    (builtin.run overriding).resolve listClasses (.arrayOf "List") {} =
      .ok (.array (.ref ⟨"java.util.List", true⟩)) ∧
    (builtin.run overriding).resolve listClasses (.named "Deque") {} =
      .error (.located {} (.unknownType "Deque")) := by
  obtain ⟨hnamed, -, harray, -⟩ := resolve_run overriding listClasses "List" {}
  obtain ⟨hunknown, -⟩ := resolve_run overriding listClasses "Deque" {}
  rw [hnamed] at harray
  exact ⟨harray, hunknown⟩

end TypeTable

end ScriptBytecode

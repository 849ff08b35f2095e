import ScriptBytecode.Compile.Definitions
import ScriptBytecode.Proofs.Lookups
import ScriptBytecode.Proofs.OpenScopes
import ScriptBytecode.Source.Induction

/-!
# What is read from sessions that are alike

Compilation reads a session only in a few ways: it looks up type names and classes, asks how types
convert and what calls resolve to, and looks at what is open. Sessions that agree in these readings
may differ in much else, in the order of classes and members, in what has been compiled so far, and
in the words of an error. A reading that is `Settled` gives the same value in all of them, or none.

`Session.ReadsAlike` lists the readings, `Settled` says what depends on them alone, and
`Settled.valueType` is the one that takes an induction on syntax trees.

**Why not equality of sessions.** The order in which things were declared or compiled shows in a
session although it must not show in what is compiled. Two sessions that differ in it are never
equal, and to say that they are equal up to order in each of their tables would have to be said
again for each order. `Session.ReadsAlike` says instead what compilation can tell apart.

**Errors.** A reading that fails in one of the sessions fails in the other, but perhaps in other
words. One reading looks at an error that another one has met: a call without a receiver is tried
again if no member was applicable. So that kind of failure has to be the same on both sides
(`ResolvesAlike`).
-/

namespace ScriptBytecode

/-! ### Alike results -/

/-- Whether a call was refused because no member takes its arguments. -/
def isNotApplicable : Except CompileError Member → Bool
  | .error (.located _ (.noApplicableMethod ..)) => true
  | _ => false

/-- Only one error says that no member is applicable. -/
theorem eq_of_isNotApplicable {e : CompileError} (h : isNotApplicable (.error e) = true) :
    ∃ span owner name args, e = .located span (.noApplicableMethod owner name args) := by
  unfold isNotApplicable at h
  split at h
  · next heq => exact ⟨_, _, _, _, Except.error.inj heq⟩
  · cases h

/-- Two ways to resolve a call end in the same member, or both in an error of the same kind. -/
structure ResolvesAlike (r r' : Except CompileError Member) : Prop where
  member : r.toOption = r'.toOption
  notApplicable : isNotApplicable r = isNotApplicable r'

/-! ### Alike sessions -/

namespace Session

/-- Two sessions in which compilation reads the same. -/
structure ReadsAlike (s s' : Session) : Prop where
  types : ∀ type, s.types.lookup? type = s'.types.lookup? type
  classRef? : ∀ name, s.classes.classRef? name = s'.classes.classRef? name
  conversion? : ∀ source target,
    s.classes.conversion? source target = s'.classes.conversion? source target
  resolve : ∀ cls name args isStatic span, ResolvesAlike
    (s.classes.resolve cls name args isStatic span) (s'.classes.resolve cls name args isStatic span)
  outline : s.scopes.outline = s'.scopes.outline
  epilogue : s.options.epilogue = s'.options.epilogue

/-- The reading gives the same value in all sessions that are alike, or none in all of them. -/
structure Settled {α : Type} (read : Session → Except CompileError α) : Prop where
  toOption_eq : ∀ {s s' : Session}, s.ReadsAlike s' → (read s).toOption = (read s').toOption

/-! ### What is open -/

namespace ReadsAlike

variable {s s' : Session}

theorem currentClass? (h : s.ReadsAlike s') :
    s.scopes.currentClass?.map ClassScope.outline =
      s'.scopes.currentClass?.map ClassScope.outline := by
  rw [Scopes.currentClass?_outline, Scopes.currentClass?_outline, h.outline]

/-- What does not depend on the methods of the current class can be read from it. -/
theorem map_currentClass? (h : s.ReadsAlike s') {α : Type} {f : ClassScope → α}
    (hf : ∀ c, f c.outline = f c) :
    s.scopes.currentClass?.map f = s'.scopes.currentClass?.map f := by
  have hmap := congrArg (Option.map f) h.currentClass?
  rw [Option.map_map, Option.map_map] at hmap
  have hcomp : f ∘ ClassScope.outline = f := funext hf
  rwa [hcomp] at hmap

theorem isStatic (h : s.ReadsAlike s') : s.scopes.isStatic = s'.scopes.isStatic :=
  Scopes.isStatic_of_outline h.outline

/-! ### Types -/

/-- Sessions that are read alike know the same types. -/
theorem resolve? (h : s.ReadsAlike s') (type : SourceType) :
    s.types.resolve? s.classes type = s'.types.resolve? s'.classes type :=
  TypeTable.resolve?_congr h.types (fun name _ ↦ h.classRef? name) type

end ReadsAlike

namespace Settled

variable {α β : Type}

/-- What does not depend on the session is settled. -/
theorem const (r : Except CompileError α) : Settled fun _ ↦ r := ⟨fun _ ↦ rfl⟩

/-- A reading is settled if it gives the same value in sessions that are read alike. -/
theorem of_eq {f : Session → α} (h : ∀ s s' : Session, s.ReadsAlike s' → f s = f s') :
    Settled fun s ↦ .ok (f s) :=
  ⟨fun {s s'} hs ↦ congrArg some (h s s' hs)⟩

/-- Readings follow each other. -/
theorem bind {read : Session → Except CompileError α}
    {next : Session → α → Except CompileError β} (h : Settled read)
    (hnext : ∀ a, Settled fun s ↦ next s a) : Settled fun s ↦ read s >>= next s := by
  constructor
  intro s s' hs
  have hread := h.toOption_eq hs
  cases hr : read s with
  | error e =>
    cases hr' : read s' with
    | error e' => rfl
    | ok a' => rw [hr, hr'] at hread; cases hread
  | ok a =>
    cases hr' : read s' with
    | error e' => rw [hr, hr'] at hread; cases hread
    | ok a' =>
      rw [hr, hr'] at hread
      obtain rfl := Option.some.inj hread
      exact (hnext a).toOption_eq hs

/-- One of two readings may be made. -/
theorem ite {c : Prop} [Decidable c] {read read' : Session → Except CompileError α}
    (h : Settled read) (h' : Settled read') : Settled fun s ↦ if c then read s else read' s := by
  split
  · exact h
  · exact h'

/-- What a type stands for is settled. -/
theorem typeOf (type : SourceType) (span : Span) : Settled (·.typeOf type span) := by
  constructor
  intro s s' hs
  unfold Session.typeOf TypeTable.resolve
  rw [hs.resolve? type]

/-- So is what class a definition extends or implements. -/
theorem supertypeOf (name : String) (span : Span) : Settled (·.supertypeOf name span) := by
  refine (typeOf _ span).bind fun type ↦ ?_
  cases type <;> exact const _

/-- So are the types of parameters. -/
theorem paramTypes (params : List Param) : Settled (·.paramTypes params) := by
  induction params with
  | nil => exact const _
  | cons p ps ih =>
    exact (typeOf p.type p.span).bind fun type ↦ ih.bind fun types ↦ const _

/-- So is the class that a name of a type stands for. -/
theorem metaClass (type : SourceType) (typeSpan : Span) (name : String) (span : Span) :
    Settled (·.metaClass type typeSpan name span) := by
  refine (typeOf type typeSpan).bind fun machine ↦ ?_
  cases machine <;> exact const _

/-- What does not depend on the methods of the current class can be read from it, if there is
one. -/
theorem current (f : ClassScope → α) (hf : ∀ c, f c.outline = f c) (e : CompileError) :
    Settled fun s ↦ (s.scopes.currentClass?.map f).elim (.error e) .ok := by
  constructor
  intro s s' hs
  rw [hs.map_currentClass? hf]

/-- So is the class that a definition belongs to. -/
theorem definingClass (span : Span) : Settled (·.definingClass span) := by
  have heq : (Session.definingClass · span) = fun s ↦
      (s.scopes.currentClass?.map fun c ↦ (c.cls, c.isStaticBody)).elim
        (.error (.misuse span .definitionOutsideClass)) .ok := by
    funext s
    unfold Session.definingClass
    cases s.scopes.currentClass? <;> rfl
  rw [heq]
  exact current (fun c ↦ (c.cls, c.isStaticBody)) (fun _ ↦ rfl) _

/-- So is the member that a call resolves to. -/
theorem resolve (cls : ClassRef) (name : String) (args : List MachineType) (isStatic : Bool)
    (span : Span) : Settled (·.classes.resolve cls name args isStatic span) :=
  ⟨fun hs ↦ (hs.resolve cls name args isStatic span).member⟩

/-! ### Callees -/

/-- The member that is called on an instance of the current class: an instance member, or else a
static one. -/
def callee (cls : ClassRef) (name : String) (args : List MachineType) (span : Span) (s : Session) :
    Except CompileError (ClassRef × Member) :=
  match s.classes.resolve cls name args false span with
  | .ok m => .ok (cls, m)
  | .error e =>
    match e, s.classes.resolve cls name args true span with
    | .located _ (.noApplicableMethod ..), .ok m => .ok (cls, m)
    | e, _ => .error e

/-- A call without receiver is tried as one of an instance member, and as one of a static member if
none is applicable. -/
theorem toOption_callee (cls : ClassRef) (name : String) (args : List MachineType) (span : Span)
    (s : Session) : (callee cls name args span s).toOption =
      ((s.classes.resolve cls name args false span).toOption <|>
        if isNotApplicable (s.classes.resolve cls name args false span) then
          (s.classes.resolve cls name args true span).toOption
        else none).map (cls, ·) := by
  unfold callee
  cases s.classes.resolve cls name args false span with
  | ok m => rfl
  | error e =>
    cases hkind : isNotApplicable (.error e) with
    | true =>
      obtain ⟨span, owner, name, args, rfl⟩ := eq_of_isNotApplicable hkind
      cases s.classes.resolve cls _ _ true _ <;> rfl
    | false =>
      dsimp only
      split
      · cases hkind
      · rfl

/-- So the member of a call without receiver is settled, too. -/
theorem settled_callee (cls : ClassRef) (name : String) (args : List MachineType) (span : Span) :
    Settled (callee cls name args span) := by
  constructor
  intro s s' hs
  have hinstance := hs.resolve cls name args false span
  have hstatic := hs.resolve cls name args true span
  rw [toOption_callee, toOption_callee, hinstance.member, hinstance.notApplicable, hstatic.member]

/-- The fallback to static members depends on the kind of an error, but not on its words. -/
theorem selfCallee (name : String) {args : Session → Except CompileError (List MachineType)}
    (hargs : Settled args) (span : Span) : Settled fun s ↦ s.selfCallee name (args s) span := by
  have heq : (fun s : Session ↦ s.selfCallee name (args s) span) = fun s ↦
      (s.scopes.currentClass?.map (·.cls)).elim (.error (.misuse span (.callOutsideClass name)))
        .ok >>= fun cls ↦
      args s >>= fun args ↦ .ok s.scopes.isStatic >>= fun isStatic ↦
        if isStatic then s.classes.resolve cls name args true span >>= fun m ↦ .ok (cls, m)
        else callee cls name args span s := by
    funext s
    unfold Session.selfCallee
    cases s.scopes.currentClass? with
    | none => rfl
    | some c =>
      refine congrArg (args s >>= ·) (funext fun args ↦ ?_)
      dsimp only
      cases s.scopes.isStatic with
      | true => rfl
      | false => rfl
  rw [heq]
  refine (current (·.cls) (fun _ ↦ rfl) _).bind fun cls ↦ hargs.bind fun args ↦ ?_
  refine (of_eq fun _ _ hs ↦ hs.isStatic).bind fun isStatic ↦ ite ?_ (settled_callee ..)
  exact (resolve ..).bind fun m ↦ const _

/-! ### Types of values -/

/-- The types of several values are settled if each of them is. -/
theorem valueTypes_of_forall {nodes : List Node} (h : ∀ n ∈ nodes, Settled (·.valueType n)) :
    Settled (·.valueTypes nodes) := by
  induction nodes with
  | nil =>
    simp only [Session.valueTypes]
    exact const _
  | cons n nodes ih =>
    simp only [Session.valueTypes]
    refine (h n (List.mem_cons_self ..)).bind fun type ↦ ?_
    exact (ih fun n hn ↦ h n (List.mem_cons_of_mem _ hn)).bind fun types ↦ const _

/-- The type of a value is the same in all sessions that are alike. -/
theorem valueType (n : Node) : Settled (·.valueType n) := by
  induction n using Node.inductionOn with
  | call receiver name args type span ihreceiver ihargs =>
    simp only [Session.valueType]
    refine (typeOf type span).bind fun inferred ↦ ite (const _) (ite ?_ ?_)
    · refine (metaClass ..).bind fun cls ↦ ite (const _) ?_
      refine (valueTypes_of_forall ihargs).bind fun types ↦ ?_
      exact (resolve ..).bind fun m ↦ const _
    · refine ihreceiver.bind fun receiverType ↦ ?_
      split
      · exact const _
      · refine (const _).bind fun cls ↦ (valueTypes_of_forall ihargs).bind fun types ↦ ?_
        exact (resolve ..).bind fun m ↦ const _
  | selfCall name args type span ihargs =>
    simp only [Session.valueType]
    refine (typeOf type span).bind fun inferred ↦ ite (const _) ?_
    exact (selfCallee name (valueTypes_of_forall ihargs) span).bind fun callee ↦ const _
  | _ =>
    simp only [Session.valueType]
    exact (typeOf ..).bind fun inferred ↦ const _

/-- So the types of arguments are settled. -/
theorem valueTypes (nodes : List Node) : Settled (·.valueTypes nodes) :=
  valueTypes_of_forall fun n _ ↦ valueType n

end Settled

end Session

end ScriptBytecode

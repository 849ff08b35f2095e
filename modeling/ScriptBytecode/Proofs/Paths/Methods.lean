import ScriptBytecode.Proofs.Discipline.Methods
import ScriptBytecode.Proofs.Paths.Nodes

/-!
# Methods that read their locals where they are

Before the body of a method the values are where the arguments came in. If the walk through the body
that begins with them gets to its end, it has located all values that are read
(`MethodCode.locates`).

A method whose code charts a body renders that body. If its slots can be numbered and all values
that are read are located, its code reads its locals faithfully (`MethodScope.Made.renders`).

* `charts_epilogue` and `charts_callSuper` are the code around a body;
* `MethodScope.Made.renders` is about methods of all sorts.

`locates` can be computed from the code of a method and its body. It takes the slots of the stores
from the code, and whether they fit the body is not asked: that they do is part of
`MethodCode.Renders`, which holds of every method that compiles, located or not.

**The condition on slots** is that all slots that are given out can be numbered with 16 bits. Past
that two variables may get the same number, and a store for the one would write where the other is
read from.
-/

namespace ScriptBytecode

/-! ### The code of a method -/

namespace Gen

variable {isStatic : Bool}

theorem charts_emitAll {is : List Instruction} (h : ∀ i ∈ is, i.Neutral) :
    Charts isStatic none pure 1 (emitAll is) :=
  ⟨fun {g} _ ↦ ensures_emitAll (.emits g h)⟩

/-- However a method is ended, the receiver is loaded only if there is one, and a reference is to be
returned. -/
theorem charts_epilogue (returnType : MachineType) (isStatic : Bool) (style : Epilogue) :
    Charts isStatic none pure
      (if !isStatic && returnType.kind? == some .reference then 1 + {[.receiver]} else 1)
      (emitAll (epilogue returnType isStatic style)) := by
  -- All epilogues but one consist of one instruction that has nothing to do with locals.
  have hreturn : ∀ (receiver : Bool) (i : Instruction), i.Neutral → Charts isStatic none pure
      (if receiver then 1 + {[.receiver]} else 1) (emitAll [i]) := by
    intro receiver i hi
    have hreturns : Charts isStatic none pure 1 (emitAll [i]) :=
      charts_emitAll fun j hj ↦ List.mem_singleton.1 hj ▸ hi
    refine hreturns.mono fun word hword ↦ ?_
    split
    · exact (Language.mem_add ..).2 (.inl hword)
    · exact hword
  unfold epilogue
  cases returnType.kind? with
  | none => exact hreturn _ _ ⟨rfl, rfl, rfl⟩
  | some kind =>
    cases style with
    | corrected => cases kind <;> exact hreturn _ _ ⟨rfl, rfl, rfl⟩
    | legacy =>
      cases kind with
      | int | long => exact hreturn _ _ ⟨rfl, rfl, rfl⟩
      | reference =>
        cases isStatic with
        | true => exact hreturn _ _ ⟨rfl, rfl, rfl⟩
        | false =>
          -- The legacy epilogue of an instance method returns the receiver.
          have hreceiver : Charts false none pure {[.receiver]}
              (emitAll [.pop .reference, .load .reference 0, .returnValue .reference]) :=
            .emit_bind ⟨rfl, rfl, rfl⟩ (Charts.loadInstance.before fun _ ↦ charts_emitAll
              fun j hj ↦ List.mem_singleton.1 hj ▸ ⟨rfl, rfl, rfl⟩)
          exact hreceiver.mono fun _ hword ↦ (Language.mem_add ..).2 (.inr hword)

/-- To call the constructor of the superclass reads the receiver. -/
theorem charts_callSuper (span : Span) :
    Charts false none pure {[.receiver]} (callSuper span) := by
  refine .get fun g ↦ ?_
  split
  · exact .throw _
  · exact .query fun m _ ↦ Charts.loadInstance.before fun _ ↦ .emit ⟨rfl, rfl, rfl⟩

end Gen

/-! ### Rendering a body -/

/-- Whether the walk through a body gets to its end: wherever the value of a local is read, it is
where the name means it to be, whichever way control has come. The walk begins with the arguments
and is told the slots that the stores of the code write. -/
def MethodCode.locates (m : MethodCode) (arguments : Whereabouts) (body : Node) : Bool :=
  let stores := m.instructions.filterMap (·.stored?)
  (body.track m.flags.isStatic { stores, meant := arguments, known := arguments }).isSome

/-- Where a method begins, the receiver is in the first slot. -/
theorem MethodCode.Renders.current?_this {m : MethodCode} {names : List String} {body : Node}
    {noted : List Noted} (h : m.Renders names body noted) (hinstance : m.flags.isStatic = false) :
    (m.arguments names).current? "this" = some ⟨.reference, 0⟩ :=
  Allotment.current?_of_nodup h.nodup (this_mem_arguments hinstance)

/-- With slots that can be numbered, a table of locals says that values are where they are
allotted. -/
theorem Locals.Built.whereabouts_eq {l : Locals} (h : l.Built) (hfits : l.Fits) :
    l.whereabouts = l.allotment.current? :=
  funext fun name ↦ (h.current?_eq hfits name).symm

/-- Code that is laid behind the arguments of a method renders the body whose accesses it is laid
for. -/
theorem Lays.renders {m : MethodScope} {names : List String} {body : Node} {s : Session}
    {g : GenState} {noted : List Noted} {code : Code}
    (h : Lays (methodAccesses m.flags m.returnType body) { session := s } g noted)
    (hconstructor : m.flags.isConstructor = true → m.flags.isStatic = false)
    (harguments : s.locals.Arguments (argumentAllotment m.flags names m.params))
    (hfinish : g.asm.finish = .ok code) :
    (MethodScope.done { m with locals := g.session.locals } code).Renders names body noted := by
  have hgrows := h.grows harguments.built
  have hallots := hgrows.allots
  have hbehind := hgrows.allotment
  rw [harguments.allotment] at hallots hbehind
  have hsize : ((argumentAllotment m.flags names m.params).behind noted).width < 2 ^ 16 →
      g.session.locals.size.toNat =
        ((argumentAllotment m.flags names m.params).behind noted).width := by
    rw [← hbehind]
    exact hgrows.built.toNat_size
  exact
    { code := h.code.symm.trans (Assembler.instructions_of_finish hfinish).symm
      fits := h.fits
      accesses := h.accesses
      constructor_isInstance := hconstructor
      nodup := harguments.nodup
      allots := hallots
      maxLocals := hsize }

/-- A method with code that charts a body renders that body. As far as slots can be numbered, it
reads its locals faithfully if they are all located. -/
theorem MethodScope.Made.renders {m : MethodScope} {declare : SessionM Unit} {act : Gen Unit}
    {method : MethodCode} {names : List String} {body : Node}
    (hmade : m.Made TypeTable.VoidsNamed declare act method) (hbegins : m.Begins names declare)
    (hact : act.Charts m.flags.isStatic none (body.track m.flags.isStatic)
      (methodAccesses m.flags m.returnType body)) :
    ∃ noted, method.Renders names body noted ∧
      ((method.allotment names noted).width < 2 ^ 16 →
        method.locates (method.arguments names).current? body = true →
        Faithful (method.arguments names).current? noted) := by
  cases hmade with
  | @intro s s' s'' code locals htypes hdeclare hassemble hlocals =>
    obtain ⟨l, hs', hl, harguments⟩ := (hbegins.arguments s).of_ok hdeclare
    rw [← hl] at harguments
    have hhosts : s'.Hosts m.flags.isStatic := by
      have hcontinues := (Session.Continues.refl (s.openMethod m).2).withLocals l
      exact ⟨hs' ▸ Scopes.isStatic_of_outline hcontinues.outline, hs' ▸ htypes⟩
    obtain ⟨g, hrun, hfinish, rfl⟩ := Gen.assemble_eq_ok_iff.1 hassemble
    obtain ⟨noted, hlays, hwalks⟩ := (hact.run (g := { session := s' }) hhosts).of_ok hrun
    have hrenders := hlays.renders hbegins.constructor_isInstance harguments hfinish
    have hcurrent : g.session.locals = locals := by simp [Session.locals, hlocals]
    rw [hcurrent] at hrenders
    refine ⟨noted, hrenders, fun hwidth hlocates ↦ ?_⟩
    -- to begin with, names mean the slots of the arguments
    have hmeant : s'.locals.whereabouts = (argumentAllotment m.flags names m.params).current? := by
      rw [← harguments.allotment]
      refine harguments.built.whereabouts_eq (Nat.lt_of_le_of_lt (Allotment.width_le ?_) hwidth)
      rw [harguments.allotment]
      exact Allotment.prefix_behind ..
    obtain ⟨t, ht⟩ := Option.isSome_iff_exists.1 hlocates
    have hstores : code.instructions.filterMap (·.stored?) = storesOf noted ++ [] := by
      have hcode : noted.map Prod.fst = code.instructions := hrenders.code
      rw [← hcode, List.filterMap_map, List.append_nil]
      rfl
    obtain ⟨chosen, hleads⟩ := (hwalks hstores hmeant.symm ht).leads
    have htarget : ∀ l ∈ (none : Option Label), (chosen l).HoldsIn t.known := by simp
    exact (hleads chosen (fun _ _ _ ↦ rfl) htarget).faithful hlays.fits hrenders.current?_this
      fun hn hn' hname hother hr hr' ↦ hrenders.not_meets hwidth hn hname hr hn' hother hr'

end ScriptBytecode

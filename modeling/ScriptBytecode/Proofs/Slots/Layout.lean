import ScriptBytecode.Proofs.Paths.Units

/-!
# The layout of slots

The slots of a method are laid out in one order (`MethodCode.LaidOut`): the receiver and the
parameters take the first ones, and the locals that the method stores in take further ones, each
time that they are given some, with no gap and no overlap. A load or a store for a local accesses
the slots that the local was given last. So two instructions of a method that share a slot access
one and the same local, in the same slots and for values of one kind.

`Compiler.laidOut_of_compile` says so of every method of a unit whose slots can be numbered. The one
thing that is not looked up is the slot of the receiver. It would be loaded in a method without a
receiver too, if a call in it resolved to a constructor; a call can only do so if it is written
under the name that is reserved for constructors.

**Names are part of the statement.** The ranges of an allotment belong to names, and `LaidOut.given`
says that an instruction for a local accesses a range of that very name: the one that the name was
given last before it. Together with `apart` this excludes that two locals share a slot, as well as
that a local is read from a range that it has left.

**What room there is.** `fill` and `highest` say that a method asks for as many slots as are given
out, neither more nor fewer. A value of two slots at the end counts with both.
-/

namespace ScriptBytecode

/-- Where there is no receiver, no node reads it but a call under the name of constructors. -/
theorem Node.not_does_receiver {n : Node} (h : n.callsNoConstructor = true) :
    n.does true .receiver = false := by
  cases n with
  | selfCall name args type span =>
    have hne : name ≠ constructorName := fun heq ↦ bne_iff_ne.1 h (congrArg some heq)
    simpa [does] using hne
  | _ => rfl

namespace MethodCode

/-- The slots of a method that were handed out for the locals which its instructions are for. -/
structure LaidOut (m : MethodCode) (names : List String) (noted : List Noted) : Prop where
  /-- The receiver and the parameters have the first slots. -/
  arguments : (m.arguments names).slots <+: (m.allotment names noted).slots
  /-- Slots are handed out from the first one on and without a gap, as many as there is room for. -/
  fill : SlotRange.Fill 0 ((m.allotment names noted).slots.map Prod.snd) m.maxLocals.toNat
  /-- There is room for the highest of them, and no more. -/
  highest : m.allotment names noted = [] ∧ m.maxLocals = 0 ∨
    ∃ p ∈ (m.allotment names noted).slots, p.2.limit = m.maxLocals.toNat
  /-- What is handed out for a local meets nothing that was handed out before, be it for another
  local or for values of another kind. -/
  apart : (m.allotment names noted).slots.Pairwise fun p q ↦ ¬p.2.Meets q.2
  /-- A load or a store for a local accesses what the local was given last. -/
  given : ∀ {pos : Nat} {n : Noted} {name : String}, noted[pos]? = some n → n.local? = some name →
    ∃ r, ((m.arguments names).behind (noted.take (pos + 1))).current? name = some r ∧
      (name, r) ∈ (m.allotment names noted).slots ∧ n.1.access? = some r
  /-- A load of the receiver accesses the first argument. -/
  receiver : ∀ n ∈ noted, n.2 = some .receiver →
    ("this", ⟨.reference, 0⟩) ∈ (m.arguments names).slots ∧ n.1.access? = some ⟨.reference, 0⟩
  /-- Whatever is accessed was handed out, and there is room for it. -/
  accessed : ∀ i ∈ m.instructions, ∀ r, i.access? = some r →
    (∃ name, (name, r) ∈ (m.allotment names noted).slots) ∧ r.limit ≤ m.maxLocals.toNat
  /-- Instructions that share a slot access the same slots for values of the same kind. -/
  same : ∀ i ∈ m.instructions, ∀ i' ∈ m.instructions, ∀ r r', i.access? = some r →
    i'.access? = some r' → r.Meets r' → r = r'
  /-- They were emitted for the same local, if they were emitted for locals. -/
  one : ∀ n ∈ noted, ∀ n' ∈ noted, ∀ name name' r r', n.local? = some name →
    n'.local? = some name' → n.1.access? = some r → n'.1.access? = some r' →
      r.Meets r' → name = name'

namespace Renders

variable {m : MethodCode} {names : List String} {body : Node} {noted : List Noted}

/-- The receiver is loaded only where there is one, if nothing is called under the name of
constructors. -/
theorem isInstance_of_receiver (h : m.Renders names body noted)
    (hbody : body.all Node.callsNoConstructor = true) {n : Noted} (hn : n ∈ noted)
    (hreceiver : n.2 = some .receiver) : m.flags.isStatic = false := by
  obtain ⟨node, hnode, hdoes⟩ | ⟨-, hinstance⟩ :=
    h.exists_does (List.mem_filterMap.2 ⟨n, hn, hreceiver⟩)
  · refine Bool.eq_false_iff.2 fun hstatic ↦ ?_
    rw [hstatic, Node.not_does_receiver (Node.all_iff.1 hbody node hnode)] at hdoes
    cases hdoes
  · exact hinstance

/-- Whatever an instruction accesses was handed out. -/
theorem exists_mem_slots_of_access? (h : m.Renders names body noted)
    (hbody : body.all Node.callsNoConstructor = true)
    (hwidth : (m.allotment names noted).width < 2 ^ 16) {n : Noted} (hn : n ∈ noted) {r : SlotRange}
    (hr : n.1.access? = some r) : ∃ name, (name, r) ∈ (m.allotment names noted).slots := by
  have hlocal : ∀ name, n.local? = some name →
      ∃ name, (name, r) ∈ (m.allotment names noted).slots := by
    intro name hname
    obtain ⟨r', hmem, hr'⟩ := h.exists_mem_slots hwidth hn hname
    obtain rfl := Option.some.inj (hr'.symm.trans hr)
    exact ⟨name, hmem⟩
  cases h.fits n hn with
  | read name | write name => exact hlocal name rfl
  | receiver =>
    obtain rfl := Option.some.inj hr
    exact ⟨"this", this_mem_slots (h.isInstance_of_receiver hbody hn rfl) noted⟩
  | plain hi =>
    rw [Instruction.access?_of_isAccess hi] at hr
    cases hr

/-- A method is laid out as its body asks for, if the slots can be numbered. -/
theorem laidOut (h : m.Renders names body noted) (hbody : body.all Node.callsNoConstructor = true)
    (hwidth : (m.allotment names noted).width < 2 ^ 16) : m.LaidOut names noted := by
  have hfill :
    SlotRange.Fill 0 ((m.allotment names noted).slots.map Prod.snd) m.maxLocals.toNat := by
    rw [h.maxLocals hwidth]
    exact Allotment.fill _
  -- the slots that an instruction accesses, among those that were handed out
  have haccess : ∀ i ∈ m.instructions, ∀ r, i.access? = some r →
      ∃ name, (name, r) ∈ (m.allotment names noted).slots := by
    intro i hi r hr
    rw [← h.code] at hi
    obtain ⟨n, hn, rfl⟩ := List.mem_map.1 hi
    exact h.exists_mem_slots_of_access? hbody hwidth hn hr
  exact
    { arguments := Allotment.prefix_slots (Allotment.prefix_behind ..)
      fill := hfill
      highest := by
        obtain ⟨hnone, hzero⟩ | ⟨r, hr, hlimit⟩ := hfill.exists_limit_eq
        · refine .inl ⟨Allotment.eq_nil_of_slots (List.map_eq_nil_iff.1 hnone), ?_⟩
          exact UInt16.toNat_inj.1 hzero.symm
        · obtain ⟨p, hp, rfl⟩ := List.mem_map.1 hr
          exact .inr ⟨p, hp, hlimit⟩
      apart := (Allotment.pairwise _).imp fun hbefore ↦ SlotRange.not_meets_of_limit_le hbefore
      given := h.exists_access? hwidth
      receiver := fun n hn hreceiver ↦ by
        refine ⟨this_mem_arguments (h.isInstance_of_receiver hbody hn hreceiver), ?_⟩
        obtain ⟨i, access⟩ := n
        obtain rfl : access = some .receiver := hreceiver
        cases h.fits _ hn
        rfl
      accessed := fun i hi r hr ↦ by
        obtain ⟨name, hmem⟩ := haccess i hi r hr
        exact ⟨⟨name, hmem⟩, (h.maxLocals hwidth).symm ▸ Allotment.limit_le hmem⟩
      same := fun i hi i' hi' r r' hr hr' hmeets ↦ by
        obtain ⟨name, hmem⟩ := haccess i hi r hr
        obtain ⟨name', hmem'⟩ := haccess i' hi' r' hr'
        exact hfill.eq_of_meets (List.mem_map_of_mem hmem) (List.mem_map_of_mem hmem') hmeets
      one := fun n hn n' hn' name name' r r' hname hname' hr hr' hmeets ↦ by
        by_contra hne
        exact h.not_meets hwidth hn hname hr hn' hname' hr' hne hmeets }

end Renders

end MethodCode

namespace Compiler

/-- In a unit of a script without calls under the name of constructors, every method renders a body
that is written in the script, and if its slots can be numbered with 16 bits, they are laid out
without overlaps and the method accesses each local where it was put. -/
theorem laidOut_of_compile {c : Compiler} {root : Node} {script : Script} {unit : UnitCode}
    (hroot : root.script? = some script)
    (hscript : script.body.all Node.callsNoConstructor = true) (h : c.compile root = .ok unit) :
    ∀ code ∈ unit.classes, ∀ m ∈ code.methods, ∃ names body noted,
      script.Writes m names body ∧ m.Renders names body noted ∧
      ((m.allotment names noted).width < 2 ^ 16 → m.LaidOut names noted) := by
  intro code hcode m hm
  obtain ⟨names, body, noted, hwrites, hrenders, -⟩ := renders_of_compile hroot h code hcode m hm
  exact ⟨names, body, noted, hwrites, hrenders, hrenders.laidOut (hwrites.all hscript rfl)⟩

/-- A script with a method that stores values of other kinds in a variable, back and forth. -/
def reslotting : Node :=
  let int := SourceType.named "int"
  let long := SourceType.named "long"
  let content := Node.sequence
    [.store "x" (.int 1), .store "x" (.long 2), .store "x" (.int 3), .store "i" (.long 4),
      .store "x" (.readLocal "x" int {}), .selfCall "f" [.readLocal "n" long {}, .int 5] .none {}]
  .script "Reslotting" (.sequence [.classDef "Holder" none []
    [.methodDef "f" [⟨"n", long, {}⟩, ⟨"i", int, {}⟩] .none content false {}] {}]) {}

/-- The script compiles, and the slots of its methods are laid out so, though one name gets slots
twice. -/
theorem laidOut_of_compile_reslotting : ∃ script unit, reslotting.script? = some script ∧
    script.body.all Node.callsNoConstructor = true ∧ Compiler.compile {} reslotting = .ok unit ∧
    ∀ code ∈ unit.classes, ∀ m ∈ code.methods, ∃ names body noted,
      script.Writes m names body ∧ m.Renders names body noted ∧ m.LaidOut names noted := by
  have hshort : (Compiler.compile {} reslotting).toOption.any (fun unit ↦ decide <|
      ∀ code ∈ unit.classes, ∀ m ∈ code.methods,
        m.params.length + 1 + m.instructions.length < 2 ^ 15) = true := by decide +kernel
  have hcalls : reslotting.all Node.callsNoConstructor = true := by decide
  obtain ⟨-, hcalls⟩ := Bool.and_eq_true_iff.1 hcalls
  obtain ⟨unit, hcompile, hshort⟩ := exists_eq_ok_of_any hshort
  refine ⟨_, unit, rfl, hcalls, hcompile, fun code hcode m hm ↦ ?_⟩
  obtain ⟨names, body, noted, hwrites, hrenders, hlaidOut⟩ :=
    laidOut_of_compile rfl hcalls hcompile code hcode m hm
  have hwidth := hrenders.width_lt (of_decide_eq_true hshort code hcode m hm)
  exact ⟨names, body, noted, hwrites, hrenders, hlaidOut hwidth⟩

end Compiler

end ScriptBytecode

import ScriptBytecode.Proofs.Paths.Units

/-!
# The slot of the receiver

An instance method finds its receiver in slot 0, and loads it from there whenever it needs it. The
receiver is entered in the table of locals under the name `this`, and its slot is allotted to that
name only. So it stays there as long as nothing is stored in a variable that is called `this`
itself: a store of a reference under that name would overwrite it.

`Compiler.store_ne_zero_of_compile` says for scripts without such stores that no store of an
instance method or a constructor writes slot 0, as long as the slots can be numbered with 16 bits,
and that what is loaded from there is a reference. `Compiler.store_zero_overwriting` is a store that
does.

* `Node.storesNoReceiver` is the test on scripts;
* `MethodCode.Renders.store_ne_zero` and `MethodCode.Renders.kind_of_load_zero` are about methods.

**The exception is real.** To the table of locals `this` is a name like others. A store of a
reference under it finds a variable of the same kind and reuses its slots, so the receiver is lost.
A store of a value of another kind gets further slots, and from then on the name means those; the
receiver is still in slot 0.

**Beyond 16 bits** numbers begin anew, and slot 0 is given out a second time. So the condition on
the number of slots cannot be left out.
-/

namespace ScriptBytecode

/-- A node is no store to a variable of the name that the receiver has. -/
def Node.storesNoReceiver (n : Node) : Bool := n.storedName? != some "this"

/-- A node that stores no receiver makes no such access. -/
theorem Node.not_does_write_this {n : Node} {isStatic : Bool} (h : n.storesNoReceiver = true) :
    n.does isStatic (.write "this") = false := by
  cases n with
  | assign name value type span =>
    have hne : name ≠ "this" := fun heq ↦ bne_iff_ne.1 h (congrArg some heq)
    simpa [does] using hne
  | _ => rfl

namespace MethodCode.Renders

variable {m : MethodCode} {names : List String} {body : Node} {noted : List Noted} {n : Noted}
  {kind : StackKind} {slot : UInt16}

/-- What is accessed for a local, and has a slot in common with the receiver, is the receiver. -/
theorem eq_this_of_slot_zero (h : m.Renders names body noted) (hinstance : m.flags.isStatic = false)
    (hwidth : (m.allotment names noted).width < 2 ^ 16) {name : String} (hn : n ∈ noted)
    (hname : n.local? = some name) {r : SlotRange} (hr : n.1.access? = some r)
    (hzero : r.slot = 0) :
    name = "this" ∧ r = ⟨.reference, 0⟩ := by
  obtain ⟨r', hmem, hr'⟩ := h.exists_mem_slots hwidth hn hname
  obtain rfl := Option.some.inj (hr.symm.trans hr')
  have hthis : ("this", ⟨.reference, 0⟩) ∈ (m.allotment names noted).slots :=
    this_mem_slots hinstance noted
  have hlimit : 0 < r.kind.width := r.kind.width_pos
  obtain heq | hbefore | hbehind := Allotment.eq_or_apart hmem hthis
  · exact Prod.mk.inj heq
  · have : r.slot + r.kind.width ≤ 0 := hbefore
    omega
  · have : 1 ≤ r.slot := hbehind
    omega

/-- If nothing is stored under the name of the receiver, no store writes its slot. -/
theorem store_ne_zero (h : m.Renders names body noted) (hinstance : m.flags.isStatic = false)
    (hwidth : (m.allotment names noted).width < 2 ^ 16)
    (hbody : body.all Node.storesNoReceiver = true) (hstore : .store kind slot ∈ m.instructions) :
    slot ≠ 0 := by
  rintro rfl
  rw [← h.code] at hstore
  obtain ⟨⟨i, access⟩, hn, hi⟩ := List.mem_map.1 hstore
  obtain rfl : i = .store kind 0 := hi
  cases h.fits _ hn with
  | write name =>
    obtain ⟨rfl, -⟩ := h.eq_this_of_slot_zero hinstance hwidth hn rfl rfl rfl
    obtain ⟨node, hnode, hdoes⟩ | ⟨hreceiver, -⟩ :=
      h.exists_does (List.mem_filterMap.2 ⟨_, hn, rfl⟩)
    · rw [Node.not_does_write_this (Node.all_iff.1 hbody node hnode)] at hdoes
      cases hdoes
    · cases hreceiver
  | plain hi => cases hi

/-- What is loaded from the slot of the receiver is a reference. -/
theorem kind_of_load_zero (h : m.Renders names body noted) (hinstance : m.flags.isStatic = false)
    (hwidth : (m.allotment names noted).width < 2 ^ 16) (hload : .load kind 0 ∈ m.instructions) :
    kind = .reference := by
  rw [← h.code] at hload
  obtain ⟨⟨i, access⟩, hn, hi⟩ := List.mem_map.1 hload
  obtain rfl : i = .load kind 0 := hi
  cases h.fits _ hn with
  | read name =>
    obtain ⟨-, hrange⟩ := h.eq_this_of_slot_zero hinstance hwidth hn rfl rfl rfl
    exact congrArg SlotRange.kind hrange
  | receiver => rfl
  | plain hi => cases hi

end MethodCode.Renders

/-! ### Units -/

namespace Compiler

/-- If a script stores nothing in variables that are called `this`, then in every instance method
and every constructor of its unit no store writes slot 0, and what is loaded from there is a
reference: the receiver. This is so as long as the slots of the method can be numbered with 16
bits. -/
theorem store_ne_zero_of_compile {c : Compiler} {root : Node} {script : Script} {unit : UnitCode}
    (hroot : root.script? = some script) (hscript : script.body.all Node.storesNoReceiver = true)
    (h : c.compile root = .ok unit) : ∀ code ∈ unit.classes, ∀ m ∈ code.methods,
      m.flags.isStatic = false ∨ m.flags.isConstructor = true → ∃ names body noted,
        script.Writes m names body ∧ m.Renders names body noted ∧
        ((m.allotment names noted).width < 2 ^ 16 → ∀ kind slot,
          (.store kind slot ∈ m.instructions → slot ≠ 0) ∧
          (.load kind slot ∈ m.instructions → slot = 0 → kind = .reference)) := by
  intro code hcode m hm hflags
  obtain ⟨names, body, noted, hwrites, hrenders, -⟩ := renders_of_compile hroot h code hcode m hm
  have hinstance : m.flags.isStatic = false := hflags.elim id hrenders.constructor_isInstance
  have hbody := hwrites.all hscript rfl
  refine ⟨names, body, noted, hwrites, hrenders, fun hwidth kind slot ↦ ⟨fun hstore ↦ ?_, ?_⟩⟩
  · exact hrenders.store_ne_zero hinstance hwidth hbody hstore
  · rintro hload rfl
    exact hrenders.kind_of_load_zero hinstance hwidth hload

/-- A script with a constructor and a method that store in variables of many names and kinds, and
call on their receiver afterwards. -/
def storing : Node :=
  let string := SourceType.named "string"
  let content := [Node.store "self" (.string "s"), .store "x" (.int 1), .store "x" (.string "t"),
    .store "n" (.long 2), .selfCall "f" [] string {}]
  .script "Storing" (.sequence [.classDef "Holder" none []
    [.constructorDef [⟨"n", .named "int", {}⟩] (.sequence content) {},
      .methodDef "f" [] string (.sequence content) false {}] {}]) {}

/-- The script compiles and stores in an instance method, and so not into slot 0. -/
theorem store_ne_zero_of_compile_storing : ∃ script unit, storing.script? = some script ∧
    script.body.all Node.storesNoReceiver = true ∧ Compiler.compile {} storing = .ok unit ∧
    ∀ code ∈ unit.classes, ∀ m ∈ code.methods,
      m.flags.isStatic = false ∨ m.flags.isConstructor = true → ∃ names body noted,
        script.Writes m names body ∧ m.Renders names body noted ∧ ∀ kind slot,
          (.store kind slot ∈ m.instructions → slot ≠ 0) ∧
          (.load kind slot ∈ m.instructions → slot = 0 → kind = .reference) := by
  have hshort : (Compiler.compile {} storing).toOption.any (fun unit ↦ decide <|
      ∀ code ∈ unit.classes, ∀ m ∈ code.methods,
        m.params.length + 1 + m.instructions.length < 2 ^ 15) = true := by decide +kernel
  have hstores : storing.all Node.storesNoReceiver = true := by decide
  obtain ⟨-, hstores⟩ := Bool.and_eq_true_iff.1 hstores
  obtain ⟨unit, hcompile, hshort⟩ := exists_eq_ok_of_any hshort
  refine ⟨_, unit, rfl, hstores, hcompile, fun code hcode m hm hflags ↦ ?_⟩
  obtain ⟨names, body, noted, hwrites, hrenders, hkeeps⟩ :=
    store_ne_zero_of_compile rfl hstores hcompile code hcode m hm hflags
  have hwidth := hrenders.width_lt (of_decide_eq_true hshort code hcode m hm)
  exact ⟨names, body, noted, hwrites, hrenders, hkeeps hwidth⟩

/-- A script with a method that stores a string under the name of its receiver, and calls on the
receiver afterwards. -/
def overwriting : Node :=
  let string := SourceType.named "string"
  .script "Overwriting" (.sequence [.classDef "Holder" none []
    [.methodDef "f" [] string
      (.sequence [.store "this" (.string "s"), .selfCall "f" [] string {}]) false {}] {}]) {}

/-- That store writes slot 0, and the call is made on what was stored there. -/
theorem store_zero_overwriting : ∃ unit, Compiler.compile {} overwriting = .ok unit ∧
    ∃ code ∈ unit.classes, ∃ m ∈ code.methods, m.flags.isStatic = false ∧
      .store .reference 0 ∈ m.instructions := by
  have hstores : (Compiler.compile {} overwriting).toOption.any (fun unit ↦ decide <|
      ∃ code ∈ unit.classes, ∃ m ∈ code.methods, m.flags.isStatic = false ∧
        Instruction.store .reference 0 ∈ m.instructions) = true := by decide +kernel
  obtain ⟨unit, hcompile, hstores⟩ := exists_eq_ok_of_any hstores
  exact ⟨unit, hcompile, of_decide_eq_true hstores⟩

end Compiler

end ScriptBytecode

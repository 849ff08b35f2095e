import ScriptBytecode.Bytecode.Unit
import ScriptBytecode.Proofs.Arguments
import ScriptBytecode.Proofs.Slots.Accesses

/-!
# Methods that render a body

The code of a method renders its body (`MethodCode.Renders`): its loads and stores were emitted for
what the body does to locals, in that order, and each of them names the slots that its local is
allotted at that moment. The allotment begins with the arguments and grows with the stores of the
code (`Allotment.behind`), so it depends on no table of locals.

If the slots can be numbered with 16 bits, each load and each store for a local accesses slots that
are allotted to that local (`MethodCode.Renders.exists_mem_slots`). So what is stored for one local
never meets what is loaded for another (`MethodCode.Renders.not_meets`).

**What rendering says of code.** The instructions of a method are paired with accesses, one by one:
a load or a store with the access it is for, and everything else with none. The accesses in their
order are a word of the language of the body. So no access of the body is missing, none is added,
and none has changed its place.

`MethodCode.Renders.width_lt` gives a bound that is easy to check: a method with few parameters and
few instructions gets by with 16 bits.
-/

namespace ScriptBytecode

/-! ### Allotments along code -/

/-- The name of the local that is read or stored in. -/
def Access.local? : Access → Option String
  | read name | write name => some name
  | receiver => none

/-- The name of the local that an instruction was emitted for. -/
def Noted.local? (n : Noted) : Option String := n.2.bind Access.local?

namespace Allotment

/-- What slots are handed out for behind an instruction: a store takes slots for its local. -/
def after (a : Allotment) : Noted → Allotment
  | (.store kind _, some (.write name)) => a.store name kind
  | _ => a

/-- What slots are handed out for behind a piece of code. -/
def behind (a : Allotment) (piece : List Noted) : Allotment := piece.foldl after a

variable {a : Allotment} {n : Noted} {piece piece' : List Noted}

theorem after_of_isAccess (h : n.1.isAccess = false) (a : Allotment) : a.after n = a := by
  obtain ⟨i, access⟩ := n
  cases i <;> first | rfl | cases h

/-- An instruction only adds to what is allotted. -/
theorem prefix_after (a : Allotment) (n : Noted) : a <+: a.after n := by
  unfold after
  split
  · exact prefix_store ..
  · exact List.prefix_refl a

/-- What is allotted behind two pieces is allotted behind one and then the other. -/
theorem behind_append (a : Allotment) (piece piece' : List Noted) :
    a.behind (piece ++ piece') = (a.behind piece).behind piece' :=
  List.foldl_append

/-- What was handed out is not handed out again. -/
theorem prefix_behind (a : Allotment) (piece : List Noted) : a <+: a.behind piece := by
  induction piece generalizing a with
  | nil => exact List.prefix_refl a
  | cons n rest ih => exact (a.prefix_after n).trans (ih (a.after n))

theorem prefix_behind_take (a : Allotment) (piece : List Noted) (pos : Nat) :
    a.behind (piece.take pos) <+: a.behind piece := by
  conv => rhs; rw [← List.take_append_drop pos piece, behind_append]
  exact prefix_behind ..

/-- An instruction takes slots for one value at most. -/
theorem length_behind_le (a : Allotment) (piece : List Noted) :
    (a.behind piece).length ≤ a.length + piece.length := by
  induction piece generalizing a with
  | nil => exact Nat.le_refl _
  | cons n rest ih =>
    have hafter : (a.after n).length ≤ a.length + 1 := by
      unfold after store
      split
      · split
        · exact Nat.le_succ _
        · rw [List.length_append, List.length_singleton]
      · exact Nat.le_succ _
    have hrest := ih (a.after n)
    rw [List.length_cons]
    exact hrest.trans (by omega)

end Allotment

/-- From an allotment on, each load and each store for a local names the slots that the local is
allotted behind it. -/
inductive Allots : Allotment → List Noted → Prop
  | nil (a : Allotment) : Allots a []
  | cons {a : Allotment} {n : Noted} {rest : List Noted}
    (h : ∀ name, n.local? = some name → ∃ r, (a.after n).current? name = some r ∧ n.1.Names r)
    (hrest : Allots (a.after n) rest) : Allots a (n :: rest)

namespace Allots

variable {a : Allotment} {n : Noted} {piece piece' : List Noted} {name : String} {pos : Nat}

/-- Pieces that go along with their allotments do so one after another. -/
theorem append (h : Allots a piece) (h' : Allots (a.behind piece) piece') :
    Allots a (piece ++ piece') := by
  induction h with
  | nil => exact h'
  | cons hn _ ih => exact .cons hn (ih h')

/-- An instruction that was emitted for no local names whatever it does. -/
theorem single (h : n.local? = none) (a : Allotment) : Allots a [n] := by
  refine .cons (fun name hname ↦ ?_) (.nil _)
  rw [h] at hname
  cases hname

/-- At every position a local is accessed where it is allotted by then. -/
theorem exists_current? (h : Allots a piece) (hn : piece[pos]? = some n)
    (hname : n.local? = some name) :
    ∃ r, (a.behind (piece.take (pos + 1))).current? name = some r ∧ n.1.Names r := by
  induction h generalizing pos with
  | nil => cases hn
  | cons hfirst _ ih =>
    cases pos with
    | zero =>
      obtain rfl := Option.some.inj hn
      exact hfirst name hname
    | succ pos => exact ih hn

end Allots

/-! ### Tables of locals along code -/

/-- The locals have become what the stores of the piece make of them, and the piece accesses them
where they are allotted. -/
structure Locals.Grows (l : Locals) (piece : List Noted) (l' : Locals) : Prop where
  built : l'.Built
  allots : Allots l.allotment piece
  allotment : l'.allotment = l.allotment.behind piece

namespace Locals.Grows

variable {l l' l'' : Locals} {piece piece' : List Noted}

theorem refl (h : l.Built) : l.Grows [] l := ⟨h, .nil _, rfl⟩

/-- What has grown twice has grown. -/
theorem trans (h : l.Grows piece l') (h' : l'.Grows piece' l'') :
    l.Grows (piece ++ piece') l'' where
  built := h'.built
  allots := h.allots.append (h.allotment ▸ h'.allots)
  allotment := by rw [h'.allotment, h.allotment, Allotment.behind_append]

/-- An instruction that does nothing to locals. -/
theorem plain {i : Instruction} (h : l.Built) (hi : i.isAccess = false) : l.Grows [(i, none)] l :=
  ⟨h, .single rfl _, (Allotment.after_of_isAccess hi l.allotment).symm⟩

/-- The receiver is loaded from where it always is. -/
theorem receiver (h : l.Built) : l.Grows [(.load .reference 0, some .receiver)] l :=
  ⟨h, .single rfl _, rfl⟩

/-- A load for a local names the slots of the variable that its name means. -/
theorem read {name : String} {v : LocalVar} (h : l.Built) (hv : l.get? name = some v) :
    l.Grows [(.load v.kind v.slot, some (.read name))] l := by
  obtain ⟨r, hr, hlies⟩ := h.liesIn hv
  refine ⟨h, .cons (fun name' hname ↦ ⟨r, ?_, ?_⟩) (.nil _), rfl⟩
  · obtain rfl := Option.some.inj hname
    exact hr
  · rw [hlies.kind, hlies.slot]
    exact .load

/-- A store for a local names the slots that its name means from then on. -/
theorem write {name : String} {type : MachineType} {span : Span} {v : LocalVar} (h : l.Built)
    (hstore : l.declareStore name type span = .ok (v, l')) :
    l.Grows [(.store v.kind v.slot, some (.write name))] l' := by
  have hallotment := h.allotment_declareStore hstore
  obtain ⟨-, -, hv, -⟩ := declareStore_cases hstore
  obtain ⟨r, hr, hlies⟩ := (h.store hstore).liesIn hv
  rw [hallotment] at hr
  refine ⟨h.store hstore, .cons (fun name' hname ↦ ⟨r, ?_, ?_⟩) (.nil _), hallotment⟩
  · obtain rfl := Option.some.inj hname
    exact hr
  · rw [hlies.kind, hlies.slot]
    exact .store

end Locals.Grows

/-! ### Methods -/

/-- What a method of the given traits and result does to locals, if it has the given body. A
constructor calls one of its superclass on its receiver, before anything else. The value of the body
is wanted if the method has a result; an instance method with a reference for its result may return
its receiver instead. -/
def methodAccesses (flags : MemberFlags) (returnType : MachineType) (body : Node) :
    Language Access :=
  (if flags.isConstructor then {[.receiver]} else 1) *
    (body.accesses flags.isStatic (!returnType.isVoid) *
      if !flags.isStatic && returnType.kind? == some .reference then 1 + {[.receiver]} else 1)

namespace MethodCode

/-- What slots are handed out for before the code of a method, if its parameters have the given
names. -/
def arguments (m : MethodCode) (names : List String) : Allotment :=
  argumentAllotment m.flags names m.params

/-- What slots are handed out for behind the code of a method. -/
def allotment (m : MethodCode) (names : List String) (noted : List Noted) : Allotment :=
  (m.arguments names).behind noted

/-- The instructions of a method, each with the access that it was emitted for, render a body. -/
structure Renders (m : MethodCode) (names : List String) (body : Node) (noted : List Noted) :
    Prop where
  code : noted.map Prod.fst = m.instructions
  fits : ∀ n ∈ noted, n.Fits
  /-- They were emitted for what the method does to locals. -/
  accesses : noted.filterMap Prod.snd ∈ methodAccesses m.flags m.returnType body
  constructor_isInstance : m.flags.isConstructor = true → m.flags.isStatic = false
  /-- No two arguments share a name. -/
  nodup : ((m.arguments names).map Prod.fst).Nodup
  /-- Each load and each store for a local names the slots that it is allotted by then. -/
  allots : Allots (m.arguments names) noted
  /-- As far as slots can be numbered, there is room for those that are handed out, and no more. -/
  maxLocals : (m.allotment names noted).width < 2 ^ 16 →
    m.maxLocals.toNat = (m.allotment names noted).width

namespace Renders

variable {m : MethodCode} {names : List String} {body : Node} {noted : List Noted} {n : Noted}
  {name : String} {pos : Nat}

/-- A local is accessed where it is allotted by then, if slots can be numbered. -/
theorem exists_access? (h : m.Renders names body noted)
    (hwidth : (m.allotment names noted).width < 2 ^ 16) (hn : noted[pos]? = some n)
    (hname : n.local? = some name) :
    ∃ r, ((m.arguments names).behind (noted.take (pos + 1))).current? name = some r ∧
      (name, r) ∈ (m.allotment names noted).slots ∧ n.1.access? = some r := by
  obtain ⟨r, hr, hnames⟩ := h.allots.exists_current? hn hname
  have hmem : (name, r) ∈ (m.allotment names noted).slots :=
    Allotment.slots_subset (Allotment.prefix_behind_take ..) (Allotment.mem_of_current? hr)
  exact ⟨r, hr, hmem, hnames.access?_eq (Nat.lt_of_le_of_lt (Allotment.limit_le hmem) hwidth)⟩

/-- Whatever is loaded or stored for a local lies in slots that are allotted to it. -/
theorem exists_mem_slots (h : m.Renders names body noted)
    (hwidth : (m.allotment names noted).width < 2 ^ 16) (hn : n ∈ noted)
    (hname : n.local? = some name) :
    ∃ r, (name, r) ∈ (m.allotment names noted).slots ∧ n.1.access? = some r := by
  obtain ⟨pos, hpos⟩ := List.mem_iff_getElem?.1 hn
  obtain ⟨r, -, hr⟩ := h.exists_access? hwidth hpos hname
  exact ⟨r, hr⟩

/-- What is accessed for one local does not meet what is accessed for another. -/
theorem not_meets (h : m.Renders names body noted)
    (hwidth : (m.allotment names noted).width < 2 ^ 16) {n' : Noted} {other : String}
    {r r' : SlotRange} (hn : n ∈ noted) (hname : n.local? = some name) (hr : n.1.access? = some r)
    (hn' : n' ∈ noted) (hother : n'.local? = some other) (hr' : n'.1.access? = some r')
    (hne : name ≠ other) : ¬r.Meets r' := by
  obtain ⟨_, hmem, heq⟩ := h.exists_mem_slots hwidth hn hname
  obtain ⟨_, hmem', heq'⟩ := h.exists_mem_slots hwidth hn' hother
  obtain rfl := Option.some.inj (heq.symm.trans hr)
  obtain rfl := Option.some.inj (heq'.symm.trans hr')
  exact Allotment.not_meets hmem hmem' hne

/-- The slots of a method can be numbered if it has few enough parameters and instructions. -/
theorem width_lt (h : m.Renders names body noted)
    (hshort : m.params.length + 1 + m.instructions.length < 2 ^ 15) :
    (m.allotment names noted).width < 2 ^ 16 := by
  have hlength : (m.allotment names noted).length ≤ (m.arguments names).length + noted.length :=
    Allotment.length_behind_le ..
  have harguments : (m.arguments names).length ≤ m.params.length + 1 :=
    length_argumentAllotment_le ..
  have hcode : noted.length = m.instructions.length := by rw [← h.code, List.length_map]
  have hwidth := (m.allotment names noted).width_le_length
  omega

/-! ### The receiver -/

/-- The receiver is the first argument. -/
theorem this_mem_arguments (hinstance : m.flags.isStatic = false) :
    ("this", ⟨.reference, 0⟩) ∈ (m.arguments names).slots := by
  unfold MethodCode.arguments argumentAllotment
  rw [hinstance]
  exact List.mem_cons_self ..

/-- The receiver of an instance method is allotted slot 0. -/
theorem this_mem_slots (hinstance : m.flags.isStatic = false) (noted : List Noted) :
    ("this", ⟨.reference, 0⟩) ∈ (m.allotment names noted).slots :=
  Allotment.slots_subset (Allotment.prefix_behind ..) (this_mem_arguments hinstance)

/-- What a method is emitted for is done by some node of its body, by the call of a constructor of
the superclass, or for the receiver to be returned. -/
theorem exists_does (h : m.Renders names body noted) {a : Access}
    (ha : a ∈ noted.filterMap Prod.snd) :
    (∃ n ∈ body.parts, n.does m.flags.isStatic a = true) ∨
      a = .receiver ∧ m.flags.isStatic = false := by
  obtain ⟨front, hfront, rest, hrest, hword⟩ := Language.mem_mul.1 h.accesses
  obtain ⟨middle, hmiddle, back, hback, rfl⟩ := Language.mem_mul.1 hrest
  rw [← hword] at ha
  obtain ha | ha := List.mem_append.1 ha
  · right
    split at hfront
    · next hconstructor =>
      obtain rfl := hfront
      exact ⟨List.mem_singleton.1 ha, h.constructor_isInstance hconstructor⟩
    · obtain rfl := hfront
      cases ha
  · obtain ha | ha := List.mem_append.1 ha
    · exact .inl (Node.exists_part_of_mem hmiddle ha)
    · right
      split at hback
      · next hreceiver =>
        obtain rfl | rfl := hback
        · cases ha
        · exact ⟨List.mem_singleton.1 ha,
            Bool.eq_false_iff.2 (by simpa using (Bool.and_eq_true_iff.1 hreceiver).1)⟩
      · obtain rfl := hback
        cases ha

end Renders

end MethodCode

end ScriptBytecode

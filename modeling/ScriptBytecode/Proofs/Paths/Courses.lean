import ScriptBytecode.Proofs.Emission
import ScriptBytecode.Proofs.OpenScopes
import ScriptBytecode.Proofs.Paths.Leads
import ScriptBytecode.Proofs.Paths.Tracking

/-!
# Courses of code

While the compiler goes through a node, it emits a piece of code and gives slots to locals. A walk
through the same node that is told the slots of the stores goes along with it: it always means by a
name what the compiler does, and where it succeeds, the piece leads from what it knows before the
node to what it knows behind it. This is the `Course` between two states of the compiler.

What is expected at the labels of the piece is for the walk to say. All but one of them were created
on the way; the one is the target of a jump that the piece may end in.

* `Lays` says what was emitted and which accesses it makes (`Lays.append` for sequences);
* `Course` adds what is known of locals before and behind;
* `Course.trans` puts courses together; `Course.read`, `Course.write`, `Course.receiver` and
  `Course.jump` are those of single instructions.

**Two parts, kept apart.** `Lays` needs no walk and holds of all code: which instructions, for which
accesses, and which slots the table of locals has given out. It is what the layout of slots rests
on. `Course` needs a walk that gets to its end, and is what faithful reading rests on.

**With as many slots as it takes.** A table of locals numbers slots with 16 bits, so what is known
of them is worth something only while the numbers have not begun anew. This is not assumed on the
way. It comes in where code is finished, as a condition on what has been given out in all.
-/

namespace ScriptBytecode

/-- The slots that an instruction writes, if it is a store. -/
def Instruction.stored? : Instruction → Option SlotRange
  | store kind slot => some ⟨kind, slot.toNat⟩
  | _ => none

/-- The slots that the stores of a piece of code write, in their order. -/
def storesOf (piece : List Noted) : List SlotRange := piece.filterMap (·.1.stored?)

/-- The stores of code are in the order of the code. -/
@[simp] theorem storesOf_append (piece piece' : List Noted) :
    storesOf (piece ++ piece') = storesOf piece ++ storesOf piece' :=
  List.filterMap_append

theorem Instruction.stored?_of_isAccess {i : Instruction} (h : i.isAccess = false) :
    i.stored? = none := by
  cases i <;> first | rfl | cases h

/-! ### What was emitted -/

/-- In the session, code of a method with a receiver or without one can be made. -/
structure Session.Hosts (s : Session) (isStatic : Bool) : Prop where
  isStatic : s.scopes.isStatic = isStatic
  types : s.types.VoidsNamed

/-- Between the states the instructions of the piece were emitted, for accesses that are a word of
the language. -/
structure Lays (as : Language Access) (g g' : GenState) (piece : List Noted) : Prop where
  code : g'.asm.code = g.asm.code ++ piece.map Prod.fst
  size_le : g.asm.labels.size ≤ g'.asm.labels.size
  continues : g.session.Continues g'.session
  types : g.session.types.VoidsNamed → g'.session.types.VoidsNamed
  fits : ∀ n ∈ piece, n.Fits
  accesses : piece.filterMap Prod.snd ∈ as
  grows : g.session.locals.Built → g.session.locals.Grows piece g'.session.locals

namespace Lays

variable {as as' : Language Access} {g g' g'' : GenState} {piece piece' : List Noted}

theorem refl (g : GenState) : Lays 1 g g [] :=
  ⟨by simp, Nat.le_refl _, .refl _, fun h ↦ h, nofun, rfl, .refl⟩

/-- What was laid in two steps was laid in one. -/
theorem append (h : Lays as g g' piece) (h' : Lays as' g' g'' piece') :
    Lays (as * as') g g'' (piece ++ piece') where
  code := by rw [h'.code, h.code, List.map_append, List.append_assoc]
  size_le := Nat.le_trans h.size_le h'.size_le
  continues := h.continues.trans h'.continues
  types hvoids := h'.types (h.types hvoids)
  fits n hn := (List.mem_append.1 hn).elim (h.fits n) (h'.fits n)
  accesses := by
    rw [List.filterMap_append]
    exact Language.append_mem_mul h.accesses h'.accesses
  grows hbuilt := (h.grows hbuilt).trans (h'.grows (h.grows hbuilt).built)

/-- The words may be some of more words. -/
theorem mono (h : Lays as g g' piece) (hsub : ∀ word ∈ as, word ∈ as') : Lays as' g g' piece :=
  { h with accesses := hsub _ h.accesses }

/-- An instruction is emitted for an access, or for none. -/
theorem emit (g : GenState) {n : Noted} (hn : n.Fits)
    (hgrows : g.session.locals.Built → g.session.locals.Grows [n] g.session.locals) :
    Lays {n.2.toList} g { g with asm := g.asm.emit n.1 } [n] where
  code := Assembler.code_emit ..
  size_le := Nat.le_of_eq (Assembler.size_emit ..).symm
  continues := .refl _
  types h := h
  fits n' hn' := List.mem_singleton.1 hn' ▸ hn
  accesses := by
    obtain ⟨i, access⟩ := n
    cases access <;> rfl
  grows := hgrows

/-- An instruction that accesses no local was laid. -/
theorem emitPlain (g : GenState) {i : Instruction} (hi : i.isAccess = false) :
    Lays 1 g { g with asm := g.asm.emit i } [(i, none)] :=
  emit g (.plain hi) fun h ↦ .plain h hi

/-- To bind a label lays no access. -/
theorem bind (g : GenState) (l : Label) :
    Lays 1 g { g with asm := g.asm.bind l } [(.bind l, none)] where
  code := Assembler.code_bind ..
  size_le := Nat.le_of_eq (Assembler.size_bind ..).symm
  continues := .refl _
  types h := h
  fits _ hn := List.mem_singleton.1 hn ▸ .plain rfl
  accesses := rfl
  grows h := .plain h rfl

theorem createLabel (g : GenState) : Lays 1 g { g with asm := g.asm.createLabel } [] where
  code := (List.append_nil _).symm
  size_le := by
    rw [Assembler.size_createLabel]
    exact Nat.le_succ _
  continues := .refl _
  types h := h
  fits := nofun
  accesses := rfl
  grows := .refl

/-- A definition does not concern the locals around it. -/
theorem onSession {g : GenState} {s : Session} (h : g.session.Continues s)
    (htypes : g.session.types.VoidsNamed → s.types.VoidsNamed)
    (hlocals : s.locals = g.session.locals) : Lays 1 g { g with session := s } [] where
  code := (List.append_nil _).symm
  size_le := Nat.le_refl _
  continues := h
  types := htypes
  fits := nofun
  accesses := rfl
  grows hbuilt := by
    rw [hlocals]
    exact .refl hbuilt

/-- A store for a local also enters it in the table of locals. -/
theorem write {g : GenState} {name : String} {type : MachineType} {span : Span} {v : LocalVar}
    {locals : Locals} (hstore : g.session.locals.declareStore name type span = .ok (v, locals))
    (hlocals : (g.session.withLocals locals).locals = locals) : Lays {[.write name]} g
      { session := g.session.withLocals locals, asm := g.asm.emit (.store v.kind v.slot) }
      [(.store v.kind v.slot, some (.write name))] where
  code := Assembler.code_emit ..
  size_le := Nat.le_of_eq (Assembler.size_emit ..).symm
  continues := (Session.Continues.refl _).withLocals locals
  types h := h
  fits _ hn := List.mem_singleton.1 hn ▸ .write ..
  accesses := rfl
  grows h := hlocals.symm ▸ Locals.Grows.write h hstore

end Lays

/-! ### Walks along the code -/

/-- What is expected at the labels with numbers in a range is what was chosen. -/
def Chosen (lo hi : Nat) (chosen expected : Label → Whereabouts) : Prop :=
  ∀ l, lo ≤ l.index → l.index < hi → expected l = chosen l

/-- What is chosen below a number by the one and from it on by the other. -/
def choose (mid : Nat) (chosen chosen' : Label → Whereabouts) : Label → Whereabouts := fun l ↦
  if l.index < mid then chosen l else chosen' l

namespace Chosen

variable {lo mid hi : Nat} {chosen chosen' expected : Label → Whereabouts}

/-- What was chosen for the labels of the first part is chosen for the first part. -/
theorem left (h : Chosen lo hi (choose mid chosen chosen') expected) (hle : mid ≤ hi) :
    Chosen lo mid chosen expected :=
  fun l hlo hhi ↦ (h l hlo (Nat.lt_of_lt_of_le hhi hle)).trans (if_pos hhi)

/-- So it is for the second part. -/
theorem right (h : Chosen lo hi (choose mid chosen chosen') expected) (hle : lo ≤ mid) :
    Chosen mid hi chosen' expected :=
  fun l hlo hhi ↦ (h l (Nat.le_trans hle hlo) hhi).trans (if_neg (Nat.not_lt.2 hlo))

/-- The first label of a range. -/
theorem single {w : Whereabouts} (h : Chosen lo hi (choose (lo + 1) (fun _ ↦ w) chosen) expected)
    (hlt : lo < hi) : expected ⟨lo⟩ = w ∧ Chosen (lo + 1) hi chosen expected :=
  ⟨h.left hlt ⟨lo⟩ (Nat.le_refl lo) (Nat.lt_succ_self lo), h.right (Nat.le_succ lo)⟩

end Chosen

/-- What is expected at the target of a jump is known where the jump stands. -/
theorem expected_holdsIn {expected : Label → Whereabouts} {target : Label} {w w' : Whereabouts}
    (htarget : expected target = w) (hw : w.HoldsIn w') :
    ∀ l ∈ some target, (expected l).HoldsIn w' := by
  intro l hl
  obtain rfl := Option.some.inj hl
  rwa [htarget]

/-- A walk from `t` to `t'` has gone along with a piece of code: it means by names what the compiler
does, and the piece leads from what the walk knew to what it knows. `rest` are the slots of the
stores behind the piece. -/
structure Walks (isStatic : Bool) (target : Option Label) (g g' : GenState) (piece : List Noted)
    (rest : List SlotRange) (t t' : Tracker) : Prop where
  stores : t'.stores = rest
  meant : t'.meant = g'.session.locals.whereabouts
  leads : ∃ chosen, ∀ expected,
    Chosen g.asm.labels.size g'.asm.labels.size chosen expected →
    (∀ l ∈ target, (expected l).HoldsIn t'.known) → Leads isStatic expected t.known piece t'.known

/-- A walk along a piece without labels of its own. -/
theorem Walks.of_leads {isStatic : Bool} {target : Option Label} {g g' : GenState}
    {piece : List Noted} {rest : List SlotRange} {t t' : Tracker} (hstores : t'.stores = rest)
    (hmeant : t'.meant = g'.session.locals.whereabouts)
    (hleads : ∀ expected, (∀ l ∈ target, (expected l).HoldsIn t'.known) →
      Leads isStatic expected t.known piece t'.known) :
    Walks isStatic target g g' piece rest t t' :=
  ⟨hstores, hmeant, fun _ ↦ t.known, fun expected _ htarget ↦ hleads expected htarget⟩

/-- Between the states a piece of code was emitted, and a step of a walk that stands where the
compiler does goes along with it. -/
def Course (isStatic : Bool) (target : Option Label) (f : Tracker.Step) (as : Language Access)
    (g g' : GenState) : Prop :=
  ∃ piece, Lays as g g' piece ∧ ∀ {t t' : Tracker} {rest : List SlotRange},
    t.stores = storesOf piece ++ rest → t.meant = g.session.locals.whereabouts → f t = some t' →
    Walks isStatic target g g' piece rest t t'

namespace Course

variable {isStatic : Bool} {target : Option Label} {f f' : Tracker.Step} {as as' : Language Access}
  {g g' g'' : GenState} {i : Instruction} {l : Label}

theorem refl (g : GenState) : Course isStatic target pure 1 g g := by
  refine ⟨[], .refl g, fun hstores hmeant ht ↦ ?_⟩
  obtain rfl := Option.some.inj ht
  exact .of_leads hstores hmeant fun _ _ ↦ .nil (.refl _)

/-- One piece after another. Only the last may end in a jump. -/
theorem trans (h : Course isStatic none f as g g') (h' : Course isStatic target f' as' g' g'') :
    Course isStatic target (f >=> f') (as * as') g g'' := by
  obtain ⟨piece, hlays, hwalks⟩ := h
  obtain ⟨piece', hlays', hwalks'⟩ := h'
  refine ⟨piece ++ piece', hlays.append hlays', fun {t t' rest} hstores hmeant ht ↦ ?_⟩
  obtain ⟨mid, hmid, ht⟩ := Option.bind_eq_some_iff.1 ht
  rw [storesOf_append, List.append_assoc] at hstores
  have hfirst := hwalks hstores hmeant hmid
  have hsecond := hwalks' hfirst.stores hfirst.meant ht
  obtain ⟨chosen, hleads⟩ := hfirst.leads
  obtain ⟨chosen', hleads'⟩ := hsecond.leads
  refine ⟨hsecond.stores, hsecond.meant, choose g'.asm.labels.size chosen chosen', ?_⟩
  intro expected hexpected htarget
  exact (hleads expected (hexpected.left hlays'.size_le) nofun).append
    (hleads' expected (hexpected.right hlays.size_le) htarget)

/-- A walk that stops earlier goes along as far as it goes. -/
theorem of_le (h : Course isStatic target f as g g')
    (hle : ∀ t t', f' t = some t' → f t = some t') :
    Course isStatic target f' as g g' := by
  obtain ⟨piece, hlays, hwalks⟩ := h
  exact ⟨piece, hlays, fun hstores hmeant ht ↦ hwalks hstores hmeant (hle _ _ ht)⟩

/-- The accesses may be some of more. -/
theorem mono (h : Course isStatic target f as g g') (hsub : ∀ word ∈ as, word ∈ as') :
    Course isStatic target f as' g g' := by
  obtain ⟨piece, hlays, hwalks⟩ := h
  exact ⟨piece, hlays.mono hsub, hwalks⟩

/-- Behind the piece code of the same method can go on. -/
theorem hosts (h : Course isStatic target f as g g') (hg : g.session.Hosts isStatic) :
    g'.session.Hosts isStatic := by
  obtain ⟨piece, hlays, -⟩ := h
  exact ⟨(Scopes.isStatic_of_outline hlays.continues.outline).trans hg.isStatic,
    hlays.types hg.types⟩

/-- What comes before the walk begins. -/
theorem before (h : Course isStatic none pure 1 g g') (h' : Course isStatic target f as g' g'') :
    Course isStatic target f as g g'' := by
  have hcourse := h.trans h'
  rwa [fish_pipe, one_mul] at hcourse

/-- What comes when the walk has ended. -/
theorem behind (h : Course isStatic none f as g g') (h' : Course isStatic target pure 1 g' g'') :
    Course isStatic target f as g g'' := by
  have hcourse := h.trans h'
  rwa [fish_pure, mul_one] at hcourse

/-- An instruction for no access, and no walk. -/
theorem bare (hlays : Lays 1 g g' [(i, none)]) (hsession : g'.session = g.session)
    (hi : i.isAccess = false)
    (hcrosses : ∀ w expected, (∀ l ∈ target, (expected l).HoldsIn w) →
      Crosses isStatic expected w (i, none) w) : Course isStatic target pure 1 g g' := by
  refine ⟨_, hlays, fun hstores hmeant ht ↦ ?_⟩
  obtain rfl := Option.some.inj ht
  have hnone : storesOf [(i, none)] = [] := by
    have hstored : (fun n : Noted ↦ n.1.stored?) (i, none) = none :=
      Instruction.stored?_of_isAccess hi
    exact List.filterMap_cons_none hstored
  rw [hnone, List.nil_append] at hstores
  rw [← hsession] at hmeant
  exact .of_leads hstores hmeant fun expected htarget ↦ .single (hcrosses _ expected htarget)

/-- An instruction that has nothing to do with locals leads from what is known to the same. -/
theorem neutral (g : GenState) (hi : i.Neutral) :
    Course isStatic target pure 1 g { g with asm := g.asm.emit i } :=
  bare (.emitPlain g hi.access) rfl hi.access fun w _ _ ↦ .neutral hi w

/-- So do several of them. -/
theorem emits (g : GenState) {is : List Instruction} (h : ∀ i ∈ is, i.Neutral) :
    Course isStatic none pure 1 g (g.emits is) := by
  induction is generalizing g with
  | nil => exact .refl g
  | cons i is ih =>
    exact (neutral g (h i (List.mem_cons_self ..))).before
      (ih (g.emits [i]) fun j hj ↦ h j (List.mem_cons_of_mem _ hj))

/-- The jump that a piece may end in. -/
theorem jump (g : GenState) (hi : i.target? = some l) (haccess : i.isAccess = false) :
    Course isStatic (some l) pure 1 g { g with asm := g.asm.emit i } :=
  bare (.emitPlain g haccess) rfl haccess fun w _ htarget ↦
    .jumps hi rfl (htarget l rfl) fun _ ↦ .refl w

/-- The receiver is loaded. -/
theorem receiver (g : GenState) :
    Course isStatic target (.receiver isStatic) {[.receiver]} g
      { g with asm := g.asm.emit (.load .reference 0) } := by
  refine ⟨[(.load .reference 0, some .receiver)], .emit g .receiver .receiver,
    fun hstores hmeant ht ↦ ?_⟩
  obtain ⟨hinstance, rfl⟩ := Tracker.Step.receiver_eq_some ht
  exact .of_leads hstores hmeant fun _ _ ↦ .single (.loadsReceiver hinstance)

/-- A load comes from where the name means its value to be. -/
theorem read {name : String} {v : LocalVar} (hv : g.session.locals.get? name = some v) :
    Course isStatic none (.read name) {[.read name]} g
      { g with asm := g.asm.emit (.load v.kind v.slot) } := by
  refine ⟨[(.load v.kind v.slot, some (.read name))], .emit g (.read ..) (.read · hv), ?_⟩
  intro t t' rest hstores hmeant ht
  obtain ⟨hknown, rfl⟩ := Tracker.Step.read_eq_some ht
  refine .of_leads hstores hmeant fun _ _ ↦ .single (.reads ?_)
  rw [hknown, hmeant]
  exact Locals.whereabouts_of_get? hv

/-- Nothing is emitted for a value that is not wanted. -/
theorem skip (g : GenState) (name : String) :
    Course isStatic none (.read name) 1 g g := by
  refine ⟨[], .refl g, fun hstores hmeant ht ↦ ?_⟩
  obtain ⟨-, rfl⟩ := Tracker.Step.read_eq_some ht
  exact .of_leads hstores hmeant fun _ _ ↦ .nil (.refl _)

/-- What a definition does to the session does not concern the method around it. -/
theorem onSession {s : Session} (h : g.session.Continues s)
    (htypes : g.session.types.VoidsNamed → s.types.VoidsNamed)
    (hmethod : s.scopes.currentMethod? = g.session.scopes.currentMethod?) :
    Course isStatic target pure 1 g { g with session := s } := by
  have hlocals : s.locals = g.session.locals := by
    unfold Session.locals
    rw [hmethod]
  refine ⟨[], .onSession h htypes hlocals, fun hstores hmeant ht ↦ ?_⟩
  obtain rfl := Option.some.inj ht
  rw [← hlocals] at hmeant
  exact .of_leads hstores hmeant fun _ _ ↦ .nil (.refl _)

/-- A store writes the slots that the name means from then on. -/
theorem write {name : String} {type : MachineType} {span : Span} {v : LocalVar} {locals : Locals}
    (hstore : g.session.locals.declareStore name type span = .ok (v, locals))
    (hlocals : (g.session.withLocals locals).locals = locals) :
    Course isStatic none (.write name) {[.write name]} g
      { session := g.session.withLocals locals, asm := g.asm.emit (.store v.kind v.slot) } := by
  refine ⟨_, .write hstore hlocals, fun {t t' rest} hstores hmeant ht ↦ ?_⟩
  obtain ⟨r, rest', hr, rfl⟩ := Tracker.Step.write_eq_some ht
  obtain ⟨rfl, rfl⟩ := List.cons.inj (hr.symm.trans hstores)
  refine .of_leads rfl ?_ fun _ _ ↦ .single (.writes ..)
  show t.meant.store name v.range = (g.session.withLocals locals).locals.whereabouts
  rw [hlocals, hmeant, Locals.whereabouts_declareStore hstore]

end Course

end ScriptBytecode

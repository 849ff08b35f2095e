import ScriptBytecode.Proofs.Paths.Whereabouts

/-!
# What is known along code

What is known of locals is followed through code from instruction to instruction. At a label it is
what is expected there, and every way to the label has to bring at least that (`Crosses`). A piece
of code that can be followed like this `Leads` from what is known before it to what is known behind
it.

If the code of a method leads from its arguments to anything, then on every path what is known at
the position that control has reached is where the values really are (`Leads.along`).

* `Crosses` is one instruction, with a constructor-like lemma for each sort;
* `Leads` is a piece of code, and `Leads.append` puts pieces together;
* `Leads.along` is what this means for paths.

**Why labels carry what is expected.** A piece of code may be entered from anywhere by a jump, so
what is known behind a label cannot come from the instruction before it. With something fixed for
each label beforehand, every instruction can be looked at for itself, in whatever order they are
executed, and a jump backwards is as good as one forwards.

**What follows an unconditional jump or a return** cannot be reached from there, so anything may be
taken as known behind it. That is what makes it possible for a branch to end in different ways.
-/

namespace ScriptBytecode

/-! ### One instruction -/

/-- Whether an instruction binds a label. -/
def Instruction.isBind : Instruction → Bool
  | bind _ => true
  | _ => false

/-- An instruction that has nothing to do with locals and labels. -/
structure Instruction.Neutral (i : Instruction) : Prop where
  access : i.isAccess = false
  target : i.target? = none
  bind : i.isBind = false

/-- Control crosses an instruction, with what is known before and behind it. `expected` is what is
to be known at each label. -/
structure Crosses (isStatic : Bool) (expected : Label → Whereabouts) (w : Whereabouts) (n : Noted)
    (w' : Whereabouts) : Prop where
  /-- What is loaded for a local is known to be there. -/
  read : ∀ {kind slot name}, n = (.load kind slot, some (.read name)) →
    w name = some ⟨kind, slot.toNat⟩
  /-- The receiver is loaded only if there is one. -/
  receiver : ∀ {kind slot}, n = (.load kind slot, some .receiver) →
    isStatic = false ∧ kind = .reference ∧ slot = 0
  /-- A jump brings what is expected at its label. -/
  jump : ∀ {l}, n.1.target? = some l → (expected l).HoldsIn w
  /-- What is known at a label is what is expected there. -/
  bind : ∀ {l}, n.1 = .bind l → (expected l).HoldsIn w ∧ w'.HoldsIn (expected l)
  /-- Control goes on with what is known now. -/
  next : n.1.isTerminal = false → w'.HoldsIn (w.after n)

namespace Crosses

variable {isStatic : Bool} {expected : Label → Whereabouts} {w v w' : Whereabouts} {n : Noted}

/-- To know more before an instruction does no harm. -/
theorem mono (h : Crosses isStatic expected w n w') (hv : w.HoldsIn v) :
    Crosses isStatic expected v n w' where
  read hn := hv _ _ (h.read hn)
  receiver := h.receiver
  jump hl := (h.jump hl).trans hv
  bind hl := ⟨(h.bind hl).1.trans hv, (h.bind hl).2⟩
  next hgoes := (h.next hgoes).trans (hv.after n)

/-- An instruction that has nothing to do with locals or labels leaves known what was known. -/
theorem neutral {i : Instruction} (hi : i.Neutral) (w : Whereabouts) :
    Crosses isStatic expected w (i, none) w where
  read := nofun
  receiver := nofun
  jump h := by
    rw [hi.target] at h
    cases h
  bind h := by
    change i = _ at h
    subst h
    cases hi.bind
  next _ := by
    rw [Whereabouts.after_none]
    exact .refl w

/-- A jump, on a condition or without one. Where control does not go on, anything may be said of
what is known there. -/
theorem jumps {i : Instruction} {l : Label} {v : Whereabouts} (hi : i.target? = some l)
    (hl : expected l = v) (hv : v.HoldsIn w) (hgoes : i.isTerminal = false → w'.HoldsIn w) :
    Crosses isStatic expected w (i, none) w' where
  read := nofun
  receiver := nofun
  jump h := by
    obtain rfl := Option.some.inj (hi.symm.trans h)
    rwa [hl]
  bind h := by
    change i = _ at h
    subst h
    cases hi
  next h := by
    rw [Whereabouts.after_none]
    exact hgoes h

/-- At a label what is expected there is known. -/
theorem binds {l : Label} {v : Whereabouts} (hl : expected l = v) (hv : v.HoldsIn w) :
    Crosses isStatic expected w (.bind l, none) v where
  read := nofun
  receiver := nofun
  jump := nofun
  bind h := by
    obtain rfl := Instruction.bind.inj h
    rw [hl]
    exact ⟨hv, .refl v⟩
  next _ := hv

/-- A local may be read from where its value is known to be. -/
theorem reads {kind : StackKind} {slot : UInt16} {name : String}
    (h : w name = some ⟨kind, slot.toNat⟩) :
    Crosses isStatic expected w (.load kind slot, some (.read name)) w where
  read hn := by
    obtain ⟨hload, hname⟩ := Prod.mk.inj hn
    obtain ⟨rfl, rfl⟩ := Instruction.load.inj hload
    obtain rfl := Access.read.inj (Option.some.inj hname)
    exact h
  receiver := nofun
  jump := nofun
  bind := nofun
  next _ := .refl w

/-- The receiver may be read in an instance method. -/
theorem loadsReceiver (h : isStatic = false) :
    Crosses isStatic expected w (.load .reference 0, some .receiver) w where
  read := nofun
  receiver hn := by
    obtain ⟨hload, -⟩ := Prod.mk.inj hn
    obtain ⟨rfl, rfl⟩ := Instruction.load.inj hload
    exact ⟨h, rfl, rfl⟩
  jump := nofun
  bind := nofun
  next _ := .refl w

/-- After a store the value is known to be in its slots. -/
theorem writes (w : Whereabouts) (kind : StackKind) (slot : UInt16) (name : String) :
    Crosses isStatic expected w (.store kind slot, some (.write name))
      (w.store name ⟨kind, slot.toNat⟩) where
  read := nofun
  receiver := nofun
  jump := nofun
  bind := nofun
  next _ := .refl _

end Crosses

/-! ### Pieces of code -/

/-- Control crosses all instructions of a piece, one after another. -/
inductive Leads (isStatic : Bool) (expected : Label → Whereabouts) :
    Whereabouts → List Noted → Whereabouts → Prop
  | nil {w w' : Whereabouts} (h : w'.HoldsIn w) : Leads isStatic expected w [] w'
  | cons {w mid w' : Whereabouts} {n : Noted} {rest : List Noted}
    (h : Crosses isStatic expected w n mid) (hrest : Leads isStatic expected mid rest w') :
    Leads isStatic expected w (n :: rest) w'

namespace Leads

variable {isStatic : Bool} {expected : Label → Whereabouts} {w v mid w' : Whereabouts} {n : Noted}
  {piece piece' : List Noted}

/-- More may be known than is needed. -/
theorem mono (h : Leads isStatic expected w piece w') (hv : w.HoldsIn v) :
    Leads isStatic expected v piece w' := by
  cases h with
  | nil hw => exact .nil (hw.trans hv)
  | cons hn hrest => exact .cons (hn.mono hv) hrest

theorem single (h : Crosses isStatic expected w n w') : Leads isStatic expected w [n] w' :=
  .cons h (.nil (.refl _))

/-- Pieces lead one after another. -/
theorem append (h : Leads isStatic expected w piece mid)
    (h' : Leads isStatic expected mid piece' w') :
    Leads isStatic expected w (piece ++ piece') w' := by
  induction h with
  | nil hw => exact h'.mono hw
  | cons hn _ ih => exact .cons hn (ih h')

/-- What leads through two pieces leads through one and then the other. -/
theorem exists_of_append (h : Leads isStatic expected w (piece ++ piece') w') :
    ∃ mid, Leads isStatic expected w piece mid ∧ Leads isStatic expected mid piece' w' := by
  induction piece generalizing w with
  | nil => exact ⟨w, .nil (.refl w), h⟩
  | cons n rest ih =>
    cases h with
    | cons hn hrest =>
      obtain ⟨mid, hleft, hright⟩ := ih hrest
      exact ⟨mid, .cons hn hleft, hright⟩

/-! ### Branches and loops -/

variable {tested one two head last : Whereabouts} {otherwise again done : Label}
  {start pc pa pb : List Noted}

/-- Behind a branch what both arms agree on is known. Behind the first arm control goes on at the
end of the branch, and never at the other arm. -/
theorem branch (hcondition : Leads isStatic expected w pc tested)
    (hfirst : Leads isStatic expected tested pa one)
    (hsecond : Leads isStatic expected tested pb two) (hotherwise : expected otherwise = tested)
    (hdone : expected done = one.meet two) :
    Leads isStatic expected w (pc ++ (pa ++ ((.goto done, none) :: (.bind otherwise, none) ::
      (pb ++ [(.bind done, none)])))) (one.meet two) := by
  have hgoto : Crosses isStatic expected one (.goto done, none) tested :=
    .jumps rfl hdone (Whereabouts.meet_holdsIn_left one two) nofun
  have helse : Leads isStatic expected tested (pb ++ [(.bind done, none)]) (one.meet two) :=
    hsecond.append (.single (.binds hdone (Whereabouts.meet_holdsIn_right one two)))
  exact hcondition.append
    (hfirst.append (.cons hgoto (.cons (.binds hotherwise (.refl tested)) helse)))

/-- Control comes to the beginning of a round from before the loop, and leaves the loop behind the
round. -/
theorem loop_last (hstart : Leads isStatic expected w start v) (hbefore : head.HoldsIn v)
    (hround : Leads isStatic expected head pa last) (hagain : expected again = head)
    (hdone : expected done = last) :
    Leads isStatic expected w
      (start ++ ((.bind again, none) :: (pa ++ [(.bind done, none)]))) last :=
  hstart.append
    (.cons (.binds hagain hbefore) (hround.append (.single (.binds hdone (.refl last)))))

/-- Behind a round control goes back to its beginning. It leaves the loop from the condition, and
never goes on behind the round. -/
theorem loop_first (hstart : Leads isStatic expected w start v) (hbefore : head.HoldsIn v)
    (hcondition : Leads isStatic expected head pc tested)
    (hcontent : Leads isStatic expected tested pa last) (hbehind : head.HoldsIn last)
    (hagain : expected again = head) (hdone : expected done = tested) :
    Leads isStatic expected w (start ++ ((.bind again, none) :: (pc ++ (pa ++
      [(.goto again, none), (.bind done, none)])))) tested := by
  have hgoto : Crosses isStatic expected last (.goto again, none) tested :=
    .jumps rfl hagain hbehind nofun
  exact hstart.append (.cons (.binds hagain hbefore) (hcondition.append
    (hcontent.append (.cons hgoto (.single (.binds hdone (.refl tested)))))))

/-! ### Paths -/

/-- From a label on, the code leads on from what is expected there. -/
theorem drop_bind (h : Leads isStatic expected w piece w') {pos : Nat} {l : Label}
    (hpos : (piece.map Prod.fst)[pos]? = some (.bind l)) :
    Leads isStatic expected (expected l) (piece.drop pos) w' := by
  rw [← List.take_append_drop pos piece] at h
  obtain ⟨mid, -, h⟩ := exists_of_append h
  obtain ⟨n, hn, hl⟩ := List.getElem?_map ▸ hpos |> Option.map_eq_some_iff.1
  obtain ⟨hlt, rfl⟩ := List.getElem?_eq_some_iff.1 hn
  rw [List.drop_eq_getElem_cons hlt] at h ⊢
  cases h with
  | cons hcrosses hrest =>
    obtain ⟨hbefore, hbehind⟩ := hcrosses.bind hl
    refine .cons ⟨?_, ?_, ?_, fun h ↦ ?_, fun _ ↦ ?_⟩ hrest
    · intro kind slot name heq
      rw [heq] at hl
      cases hl
    · intro kind slot heq
      rw [heq] at hl
      cases hl
    · intro l' hl'
      rw [hl] at hl'
      cases hl'
    · obtain rfl := Instruction.bind.inj (hl.symm.trans h)
      exact ⟨.refl _, hbehind⟩
    · rw [Whereabouts.after_eq_self fun kind slot ↦ by rw [hl]; exact nofun]
      exact hbehind

/-- On every path, from the position that is reached the code leads on from what the path has made
of the arguments. -/
theorem along {arguments : Whereabouts} (h : Leads isStatic expected arguments piece w')
    {passed : List Nat} {pos : Nat} (hpath : Path (piece.map Prod.fst) passed pos) :
    ∃ w, Leads isStatic expected w (piece.drop pos) w' ∧
      w.HoldsIn (latest arguments piece passed) := by
  induction hpath with
  | start => exact ⟨arguments, h, .refl _⟩
  | @step passed pos pos' _ hflows ih =>
    obtain ⟨w, hleads, hholds⟩ := ih
    -- the instruction at the position, and what is known on the path behind it
    have hpass : ∀ {i : Instruction}, (piece.map Prod.fst)[pos]? = some i → ∃ n mid, n.1 = i ∧
        Crosses isStatic expected w n mid ∧ Leads isStatic expected mid (piece.drop (pos + 1)) w' ∧
        latest arguments piece (pos :: passed) = (latest arguments piece passed).after n := by
      intro i hi
      rw [List.getElem?_map] at hi
      obtain ⟨n, hn, rfl⟩ := Option.map_eq_some_iff.1 hi
      obtain ⟨hlt, heq⟩ := List.getElem?_eq_some_iff.1 hn
      rw [List.drop_eq_getElem_cons hlt, heq] at hleads
      cases hleads with
      | cons hcrosses hrest =>
        refine ⟨n, _, rfl, hcrosses, hrest, ?_⟩
        rw [latest, hn]
    cases hflows with
    | next hi hgoes =>
      obtain ⟨n, mid, rfl, hcrosses, hrest, hlatest⟩ := hpass hi
      refine ⟨mid, hrest, ?_⟩
      rw [hlatest]
      exact (hcrosses.next hgoes).trans (hholds.after n)
    | jump hi hl hbind =>
      obtain ⟨n, mid, rfl, hcrosses, -, hlatest⟩ := hpass hi
      refine ⟨_, h.drop_bind hbind, ?_⟩
      have hmoves : ∀ kind slot, n.1 ≠ .store kind slot := by
        intro kind slot heq
        rw [heq] at hl
        cases hl
      rw [hlatest, Whereabouts.after_eq_self hmoves]
      exact (hcrosses.jump hl).trans hholds

/-- Code that leads on from its arguments reads its locals faithfully, if the receiver is among the
arguments. -/
theorem faithful {arguments : Whereabouts} (h : Leads isStatic expected arguments piece w')
    (hfits : ∀ n ∈ piece, n.Fits)
    (hthis : isStatic = false → arguments "this" = some ⟨.reference, 0⟩)
    (hintact : ∀ {n n' : Noted} {name other : String} {r r' : SlotRange}, n ∈ piece → n' ∈ piece →
      n.local? = some name → n'.local? = some other → n.1.access? = some r →
      n'.1.access? = some r' → name ≠ other → ¬r.Meets r') :
    Faithful arguments piece := by
  -- control crosses the instruction at any position that it reaches
  have hcrosses : ∀ {passed pos n}, Path (piece.map Prod.fst) passed pos → piece[pos]? = some n →
      ∃ w mid, Crosses isStatic expected w n mid ∧ w.HoldsIn (latest arguments piece passed) := by
    intro passed pos n hpath hn
    obtain ⟨w, hleads, hholds⟩ := h.along hpath
    obtain ⟨hlt, rfl⟩ := List.getElem?_eq_some_iff.1 hn
    rw [List.drop_eq_getElem_cons hlt] at hleads
    cases hleads with
    | cons hcrosses _ => exact ⟨w, _, hcrosses, hholds⟩
  refine ⟨?reads, fun hn hn' hne ↦ hintact hn hn' rfl rfl rfl rfl hne, ?written⟩
  case reads =>
    intro passed pos kind slot name hpath hn
    obtain ⟨w, mid, hcrosses, hholds⟩ := hcrosses hpath hn
    exact hholds _ _ (hcrosses.read rfl)
  case written =>
    intro passed pos kind slot hpath hi
    rw [List.getElem?_map] at hi
    obtain ⟨⟨i, access⟩, hn, hload⟩ := Option.map_eq_some_iff.1 hi
    change i = .load kind slot at hload
    subst hload
    obtain ⟨w, mid, hcrosses, hholds⟩ := hcrosses hpath hn
    cases hfits _ (List.mem_of_getElem? hn) with
    | read name =>
      obtain hargument | ⟨before, hbefore, hstore⟩ :=
        written_of_latest (hholds _ _ (hcrosses.read rfl))
      · exact .inl ⟨name, hargument⟩
      · refine .inr ⟨before, hbefore, ?_⟩
        rw [List.getElem?_map, hstore]
        rfl
    | receiver =>
      obtain ⟨hinstance, -, -⟩ := hcrosses.receiver rfl
      exact .inl ⟨"this", hthis hinstance⟩
    | plain hi => cases hi

end Leads

end ScriptBytecode

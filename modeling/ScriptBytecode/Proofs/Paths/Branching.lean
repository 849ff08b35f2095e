import ScriptBytecode.Proofs.Paths.Courses

/-!
# The courses of branches and loops

A branch or loop has two labels of its own. Behind a branch control has come through one arm or the
other, so what is expected at its end is what both agree on. At the beginning of a round of a loop
it has come from before the loop or from behind a round.

* `chooseTwo` chooses what is expected at the two labels (`of_chooseTwo`);
* `Course.branch`, `Course.loop_first` and `Course.loop_last` are the three constructs.

**Nothing is computed up to a fixed point.** What is expected where a round of a loop begins is what
is known both before the loop and behind one round that began with what was known before it. That
this is enough, whatever the round does, is because a walk treats one name at a time
(`pointwise_track`); it is the only place where that is needed.

**Labels are numbered in the order in which they are created.** So the choices for the parts of a
branch concern labels behind its own two, and never get in each other's way.
-/

namespace ScriptBytecode.Course

variable {isStatic : Bool} {condition first second content : Tracker.Step}
  {onCondition onFirst onSecond onContent : Language Access} {g g₀ g₁ g₂ g₃ : GenState}

/-- The state with two labels more. -/
def twoLabels (g : GenState) : GenState := { g with asm := g.asm.createLabel.createLabel }

/-- To create two labels emits no instruction. -/
theorem lays_twoLabels (g : GenState) : Lays 1 g (twoLabels g) [] :=
  one_mul (1 : Language Access) ▸ (Lays.createLabel g).append (Lays.createLabel _)

theorem size_twoLabels (g : GenState) :
    (twoLabels g).asm.labels.size = g.asm.labels.size + 1 + 1 := by
  show g.asm.createLabel.createLabel.labels.size = _
  rw [Assembler.size_createLabel, Assembler.size_createLabel]

/-- What is chosen for two new labels and for those that come after them. -/
def chooseTwo (g : GenState) (w w' : Whereabouts) (chosen : Label → Whereabouts) :
    Label → Whereabouts :=
  choose (g.asm.labels.size + 1) (fun _ ↦ w)
    (choose (g.asm.labels.size + 1 + 1) (fun _ ↦ w') chosen)

/-- What is expected at the two labels is what was chosen for them, and the rest is left to the
parts. -/
theorem of_chooseTwo {w w' : Whereabouts} {hi : Nat} {chosen expected : Label → Whereabouts}
    (h : Chosen g.asm.labels.size hi (chooseTwo g w w' chosen) expected)
    (hle : (twoLabels g).asm.labels.size ≤ hi) :
    expected g.asm.nextLabel = w ∧ expected g.asm.createLabel.nextLabel = w' ∧
      Chosen (twoLabels g).asm.labels.size hi chosen expected := by
  rw [size_twoLabels] at hle ⊢
  obtain ⟨hfirst, h⟩ := h.single (Nat.lt_of_succ_lt hle)
  obtain ⟨hsecond, h⟩ := h.single hle
  refine ⟨hfirst, ?_, h⟩
  have hnext : g.asm.createLabel.nextLabel = ⟨g.asm.labels.size + 1⟩ :=
    congrArg Label.mk (Assembler.size_createLabel g.asm)
  rw [hnext, hsecond]

/-- The code of a condition that jumps to the other arm, and of the two arms. -/
theorem branch
    (hcondition : Course isStatic (some g.asm.nextLabel) condition onCondition (twoLabels g) g₁)
    (hfirst : Course isStatic none first onFirst g₁ g₂)
    (hsecond : Course isStatic none second onSecond { g₂ with
      asm := (g₂.asm.emit (.goto g.asm.createLabel.nextLabel)).bind g.asm.nextLabel } g₃) :
    Course isStatic none (.branch condition first second) (onCondition * (onFirst * onSecond)) g
      { g₃ with asm := g₃.asm.bind g.asm.createLabel.nextLabel } := by
  obtain ⟨pc, hlaysc, hwalksc⟩ := hcondition
  obtain ⟨pa, hlaysa, hwalksa⟩ := hfirst
  obtain ⟨pb, hlaysb, hwalksb⟩ := hsecond
  have hlays := (((((lays_twoLabels g).append hlaysc).append hlaysa).append
    ((Lays.emitPlain g₂ (i := .goto g.asm.createLabel.nextLabel) rfl).append
      (Lays.bind _ g.asm.nextLabel))).append hlaysb).append
        (Lays.bind g₃ g.asm.createLabel.nextLabel)
  have hsizeb := hlaysb.size_le
  have hsize :
    ((g₂.asm.emit (.goto g.asm.createLabel.nextLabel)).bind g.asm.nextLabel).labels.size =
      g₂.asm.labels.size := by
    rw [Assembler.size_bind, Assembler.size_emit]
  dsimp only at hsizeb
  rw [hsize] at hsizeb
  refine
    ⟨pc ++ (pa ++ ((.goto g.asm.createLabel.nextLabel, none) :: (.bind g.asm.nextLabel, none) ::
    (pb ++ [(.bind g.asm.createLabel.nextLabel, none)]))), by simpa [mul_assoc] using hlays, ?_⟩
  intro t t' rest hstores hmeant ht
  obtain ⟨tested, one, two, htested, hone, htwo, rfl⟩ := Tracker.Step.branch_eq_some ht
  have hstores' : t.stores = storesOf pc ++ (storesOf pa ++ (storesOf pb ++ rest)) := by
    simpa [storesOf, Instruction.stored?] using hstores
  -- The walk takes the slots of the stores in the order of the code, one part after another.
  have hc := hwalksc hstores' hmeant htested
  have ha := hwalksa hc.stores hc.meant hone
  have hb := hwalksb (t := one.knowing tested.known) ha.stores ha.meant htwo
  obtain ⟨cc, hleadsc⟩ := hc.leads
  obtain ⟨ca, hleadsa⟩ := ha.leads
  obtain ⟨cb, hleadsb⟩ := hb.leads
  refine ⟨hb.stores, hb.meant, chooseTwo g tested.known (one.known.meet two.known)
    (choose g₁.asm.labels.size cc (choose g₂.asm.labels.size ca cb)), fun expected hexpected _ ↦ ?_⟩
  dsimp only at hexpected hleadsb
  rw [Assembler.size_bind] at hexpected
  rw [hsize] at hleadsb
  -- Behind the condition the second arm is expected; behind it all, what both arms agree on.
  obtain ⟨hotherwise, hdone, hexpected⟩ := of_chooseTwo hexpected
    (Nat.le_trans hlaysc.size_le (Nat.le_trans hlaysa.size_le hsizeb))
  have hexpecteda := hexpected.right hlaysc.size_le
  have hcond := hleadsc expected (hexpected.left (Nat.le_trans hlaysa.size_le hsizeb))
    (expected_holdsIn hotherwise (.refl tested.known))
  have hthen := hleadsa expected (hexpecteda.left hsizeb) nofun
  have helse := hleadsb expected (hexpecteda.right hlaysa.size_le) nofun
  exact hcond.branch hthen helse hotherwise hdone

/-! ### Loops -/

/-- The code of a round that jumps back to where it began, if it does not leave the loop. -/
theorem loop_last {round : Tracker.Step} {as : Language Access}
    (hstart : Course isStatic none pure 1 (twoLabels g) g₀)
    (hround : Course isStatic (some g.asm.nextLabel) round as
      { g₀ with asm := g₀.asm.bind g.asm.nextLabel } g₁) (hpointwise : round.Pointwise) :
    Course isStatic none (Tracker.Step.rounds round >=> round) as g
      { g₁ with asm := g₁.asm.bind g.asm.createLabel.nextLabel } := by
  obtain ⟨p₀, hlays₀, hwalks₀⟩ := hstart
  obtain ⟨piece, hlaysr, hwalksr⟩ := hround
  have hlays := ((((lays_twoLabels g).append hlays₀).append (Lays.bind g₀ g.asm.nextLabel)).append
    hlaysr).append (Lays.bind g₁ g.asm.createLabel.nextLabel)
  have hsizer := hlaysr.size_le
  dsimp only at hsizer
  rw [Assembler.size_bind] at hsizer
  refine ⟨p₀ ++ ((.bind g.asm.nextLabel, none) ::
    (piece ++ [(.bind g.asm.createLabel.nextLabel, none)])), by simpa [mul_assoc] using hlays, ?_⟩
  intro t t' rest hstores hmeant ht
  obtain ⟨head, hhead, hlast⟩ := Option.bind_eq_some_iff.1 ht
  -- What is known where a round begins is still known after one, so all rounds can begin with it.
  have hfixed := Tracker.Step.rounds_holdsIn hpointwise hhead hlast
  obtain ⟨once, -, rfl⟩ := Tracker.Step.rounds_eq_some hhead
  have hstores' : t.stores = storesOf p₀ ++ (storesOf piece ++ rest) := by
    simpa [storesOf, Instruction.stored?] using hstores
  have h₀ := hwalks₀ hstores' hmeant rfl
  have hr := hwalksr (t := t.knowing (t.known.meet once.known)) h₀.stores h₀.meant hlast
  obtain ⟨c₀, hleads₀⟩ := h₀.leads
  obtain ⟨cr, hleadsr⟩ := hr.leads
  refine ⟨hr.stores, hr.meant, chooseTwo g (t.known.meet once.known) t'.known
    (choose g₀.asm.labels.size c₀ cr), fun expected hexpected _ ↦ ?_⟩
  dsimp only at hexpected hleadsr
  rw [Assembler.size_bind] at hexpected hleadsr
  obtain ⟨hagain, hdone, hexpected⟩ := of_chooseTwo hexpected
    (Nat.le_trans hlays₀.size_le hsizer)
  have hfirst := hleads₀ expected (hexpected.left hsizer) nofun
  have hbody := hleadsr expected (hexpected.right hlays₀.size_le) (expected_holdsIn hagain hfixed)
  exact hfirst.loop_last (Whereabouts.meet_holdsIn_left _ _) hbody hagain hdone

/-- The code of a condition that leaves the loop, and of a round that goes back to the condition. -/
theorem loop_first (hstart : Course isStatic none pure 1 (twoLabels g) g₀)
    (hcondition : Course isStatic (some g.asm.createLabel.nextLabel) condition onCondition
      { g₀ with asm := g₀.asm.bind g.asm.nextLabel } g₁)
    (hcontent : Course isStatic none content onContent g₁ g₂)
    (hpointwise : condition.Pointwise) (hpointwise' : content.Pointwise) :
    Course isStatic none (.loop true condition content) (onCondition * onContent) g
      { g₂ with asm :=
          (g₂.asm.emit (.goto g.asm.nextLabel)).bind g.asm.createLabel.nextLabel } := by
  obtain ⟨p₀, hlays₀, hwalks₀⟩ := hstart
  obtain ⟨pc, hlaysc, hwalksc⟩ := hcondition
  obtain ⟨pa, hlaysa, hwalksa⟩ := hcontent
  have hlays := (((((lays_twoLabels g).append hlays₀).append (Lays.bind g₀ g.asm.nextLabel)).append
    hlaysc).append hlaysa).append ((Lays.emitPlain g₂ (i := .goto g.asm.nextLabel) rfl).append
      (Lays.bind _ g.asm.createLabel.nextLabel))
  have hsizec := hlaysc.size_le
  dsimp only at hsizec
  rw [Assembler.size_bind] at hsizec
  refine ⟨p₀ ++ ((.bind g.asm.nextLabel, none) :: (pc ++ (pa ++
    [(.goto g.asm.nextLabel, none), (.bind g.asm.createLabel.nextLabel, none)]))),
    by simpa [mul_assoc] using hlays, ?_⟩
  intro t t' rest hstores hmeant ht
  obtain ⟨head, tested, last, hhead, htested, hlast, rfl⟩ := Tracker.Step.loop_first_eq_some ht
  -- What is known where a round begins is still known after one, so all rounds can begin with it.
  have hfixed : head.known.HoldsIn last.known :=
    Tracker.Step.rounds_holdsIn (hpointwise.fish hpointwise') hhead
      (Option.bind_eq_some_iff.2 ⟨tested, htested, hlast⟩)
  obtain ⟨once, -, rfl⟩ := Tracker.Step.rounds_eq_some hhead
  have hstores' : t.stores = storesOf p₀ ++ (storesOf pc ++ (storesOf pa ++ rest)) := by
    simpa [storesOf, Instruction.stored?] using hstores
  have h₀ := hwalks₀ hstores' hmeant rfl
  have hc := hwalksc (t := t.knowing (t.known.meet once.known)) h₀.stores h₀.meant htested
  have ha := hwalksa hc.stores hc.meant hlast
  obtain ⟨c₀, hleads₀⟩ := h₀.leads
  obtain ⟨cc, hleadsc⟩ := hc.leads
  obtain ⟨ca, hleadsa⟩ := ha.leads
  refine ⟨ha.stores, ha.meant, chooseTwo g (t.known.meet once.known) tested.known
    (choose g₀.asm.labels.size c₀ (choose g₁.asm.labels.size cc ca)), fun expected hexpected _ ↦ ?_⟩
  dsimp only at hexpected hleadsc
  rw [Assembler.size_bind, Assembler.size_emit] at hexpected
  rw [Assembler.size_bind] at hleadsc
  have hsize := Nat.le_trans hsizec hlaysa.size_le
  obtain ⟨hagain, hdone, hexpected⟩ := of_chooseTwo hexpected (Nat.le_trans hlays₀.size_le hsize)
  have hexpectedc := hexpected.right hlays₀.size_le
  have hfirst := hleads₀ expected (hexpected.left hsize) nofun
  have hcond := hleadsc expected (hexpectedc.left hlaysa.size_le)
    (expected_holdsIn hdone (.refl tested.known))
  have hbody := hleadsa expected (hexpectedc.right hsizec) nofun
  exact hfirst.loop_first (Whereabouts.meet_holdsIn_left _ _) hcond hbody hfixed hagain hdone

end ScriptBytecode.Course

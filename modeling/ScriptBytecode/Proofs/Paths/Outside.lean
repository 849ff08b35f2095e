import ScriptBytecode.Proofs.Dispatch
import ScriptBytecode.Proofs.Paths.Methods

/-!
# Stores outside of branches and loops

Where no store stands in an arm of a branch or in a loop, it makes no difference to locals which way
control has come. So what is known is always what names mean to the compiler, and the walk through a
body gets to its end (`MethodCode.Renders.locates`). It does not matter then how often a name gets
other slots, nor what branches and loops read.

* `Tracker.Step.Succeeds` says that a step gets to its end where all is known that names mean;
* `succeeds_track` is the induction on nodes.

The test is on the source alone. It is stricter than necessary: a store on an arm of a branch does
no harm as long as its name is not read any more, or is stored again before it is read. Such bodies
are found by `MethodCode.locates`. The condition of a branch may store what it likes, since control
comes through it whichever arm is taken.

**Why stores are counted.** The walk is told the slots of the stores in a list, and a store fails if
the list is at its end. So it has to be shown that the code of a body has as many stores as the walk
meets (`length_storesOf`).
-/

namespace ScriptBytecode

/-! ### Walks that do not fail -/

namespace Tracker

/-- Behind some stores what is known is what names mean. Without a store nothing is different. -/
structure Behind (count : Nat) (t u : Tracker) : Prop where
  known : u.known = u.meant
  stores : u.stores = t.stores.drop count
  unmoved : count = 0 → u = t

/-- Where what is known is what names mean, the step succeeds, and goes past some stores. -/
structure Step.Succeeds (count : Nat) (f : Step) : Prop where
  run : ∀ {t : Tracker}, t.known = t.meant → count ≤ t.stores.length →
    ∃ u, f t = some u ∧ Behind count t u

namespace Step.Succeeds

variable {f g condition first second content : Step} {count count' : Nat} {t : Tracker}

/-- A step without stores changes nothing. -/
theorem eq_some (h : Succeeds 0 f) (ht : t.known = t.meant) : f t = some t := by
  obtain ⟨u, hu, hbehind⟩ := h.run ht (Nat.zero_le _)
  rwa [hbehind.unmoved rfl] at hu

/-- A step that does nothing succeeds. -/
theorem of_eq_some (h : ∀ t : Tracker, t.known = t.meant → f t = some t) : Succeeds 0 f :=
  ⟨fun {t} ht _ ↦ ⟨t, h t ht, ht, rfl, fun _ ↦ rfl⟩⟩

theorem pure : Succeeds 0 pure := of_eq_some fun _ _ ↦ rfl

/-- A read succeeds where what is known is what the name means. -/
theorem read (name : String) : Succeeds 0 (read name) :=
  of_eq_some fun _ ht ↦ if_pos (congrFun ht name)

/-- A store succeeds if there are slots for it. -/
theorem write (name : String) : Succeeds 1 (write name) := by
  constructor
  intro t ht hlength
  obtain ⟨r, rest, hstores⟩ := List.exists_cons_of_length_pos hlength
  refine ⟨_, by rw [Step.write, hstores], congrArg (·.store name r) ht, ?_, nofun⟩
  rw [hstores]
  rfl

/-- Two steps one after the other need slots for the stores of both. -/
theorem fish (hf : Succeeds count f) (hg : Succeeds count' g) :
    Succeeds (count + count') (f >=> g) := by
  constructor
  intro t ht hlength
  obtain ⟨mid, hmid, hfirst⟩ := hf.run ht (Nat.le_trans (Nat.le_add_right ..) hlength)
  have hrest : count' ≤ mid.stores.length := by
    rw [hfirst.stores, List.length_drop]
    omega
  obtain ⟨u, hu, hsecond⟩ := hg.run hfirst.known hrest
  refine ⟨u, Option.bind_eq_some_iff.2 ⟨mid, hmid, hu⟩, hsecond.known, ?_, fun hzero ↦ ?_⟩
  · rw [hsecond.stores, hfirst.stores, List.drop_drop]
  · obtain ⟨hcount, hcount'⟩ := Nat.add_eq_zero_iff.1 hzero
    rw [hsecond.unmoved hcount', hfirst.unmoved hcount]

/-- If the arms of a branch store nothing, both know behind them what was known before. -/
theorem branch (hcondition : Succeeds count condition) (hfirst : Succeeds 0 first)
    (hsecond : Succeeds 0 second) : Succeeds count (branch condition first second) := by
  constructor
  intro t ht hlength
  obtain ⟨tested, htested, hbehind⟩ := hcondition.run ht hlength
  refine ⟨tested, ?_, hbehind⟩
  have hone := hfirst.eq_some hbehind.known
  have htwo := hsecond.eq_some hbehind.known
  simp [Step.branch, htested, hone, htwo, Tracker.knowing_known]

/-- A round without stores may be repeated. -/
theorem rounds (h : Succeeds 0 content) : Succeeds 0 (rounds content) := by
  refine of_eq_some fun t ht ↦ ?_
  simp [Step.rounds, h.eq_some ht, Tracker.knowing_known]

/-- If a loop stores nothing, each round begins with what was known before the loop. -/
theorem loop (hcondition : Succeeds 0 condition) (hcontent : Succeeds 0 content)
    (checkFirst : Bool) : Succeeds 0 (loop checkFirst condition content) := by
  refine of_eq_some fun t ht ↦ ?_
  cases checkFirst with
  | true =>
    have hhead := (hcondition.fish hcontent).rounds.eq_some ht
    simp [Step.loop, hhead, hcondition.eq_some ht, hcontent.eq_some ht, Tracker.knowing_known]
  | false =>
    have hround := hcontent.fish hcondition
    simp [Step.loop, hround.rounds.eq_some ht, hround.eq_some ht]

end Step.Succeeds

end Tracker

/-! ### Bodies -/

/-- Whether a node is not a branch or a loop that stores in a local, apart from the condition of a
branch, nor a call under the name of constructors. -/
def Node.storesOutside (n : Node) : Bool :=
  n.callsNoConstructor && match n with
  | .branch _ thenArm elseArm _ _ => writes thenArm + alternativeWrites elseArm == 0
  | .loop condition content _ _ _ _ => writes condition + writes content == 0
  | _ => true

namespace Node

open Tracker.Step (Succeeds)

/-- So a sequence succeeds if each of its nodes does. -/
theorem succeeds_trackAll {isStatic : Bool} {nodes : List Node}
    (h : ∀ n ∈ nodes, Succeeds n.writes (n.track isStatic)) :
    Succeeds (writesOf nodes) (trackAll isStatic nodes) := by
  induction nodes with
  | nil =>
    rw [trackAll]
    exact .pure
  | cons n rest ih =>
    rw [trackAll, writesOf]
    exact (h n (List.mem_cons_self ..)).fish (ih fun n hn ↦ h n (List.mem_cons_of_mem _ hn))

/-- The walk through a node with no stores in branches and loops never fails. -/
theorem succeeds_track (isStatic : Bool) {n : Node} (hn : n.all storesOutside = true) :
    Succeeds n.writes (n.track isStatic) := by
  induction n using Node.inductionOn with
  | body nodes type span ih =>
    obtain ⟨-, hnodes⟩ := Bool.and_eq_true_iff.1 hn
    exact succeeds_trackAll fun n hn ↦ ih n hn (allOf_iff.1 hnodes n hn)
  | readLocal name type span => exact .read name
  | assign name value type span ih =>
    obtain ⟨-, hvalue⟩ := Bool.and_eq_true_iff.1 hn
    exact (ih hvalue).fish (.write name)
  | call receiver name args type span ihreceiver ihargs =>
    obtain ⟨-, hparts⟩ := Bool.and_eq_true_iff.1 hn
    obtain ⟨hreceiver, hargs⟩ := Bool.and_eq_true_iff.1 hparts
    have hpasses := succeeds_trackAll fun n hn ↦ ihargs n hn (allOf_iff.1 hargs n hn)
    rw [track, writes]
    split
    · exact hpasses
    · exact (ihreceiver hreceiver).fish hpasses
  | selfCall name args type span ih =>
    obtain ⟨hself, hargs⟩ := Bool.and_eq_true_iff.1 hn
    obtain ⟨hname, -⟩ := Bool.and_eq_true_iff.1 hself
    have hpasses := succeeds_trackAll fun n hn ↦ ih n hn (allOf_iff.1 hargs n hn)
    -- Without calls of constructors the receiver is only read where there is one.
    have hne : name ≠ constructorName := fun heq ↦ bne_iff_ne.1 hname (congrArg some heq)
    rw [track, if_neg (by simp [hne])]
    exact hpasses
  | branch condition thenArm elseArm type span ihcondition ihthen ihelse =>
    obtain ⟨hself, hparts⟩ := Bool.and_eq_true_iff.1 hn
    obtain ⟨hcondition, harms⟩ := Bool.and_eq_true_iff.1 hparts
    obtain ⟨hthen, helse⟩ := Bool.and_eq_true_iff.1 harms
    -- No arm stores anything, so both leave known what was known before them.
    have hnone := beq_iff_eq.1 (Bool.and_eq_true_iff.1 hself).2
    rw [track, writes, hnone]
    obtain ⟨hfirst, hsecond⟩ := Nat.add_eq_zero_iff.1 hnone
    refine (ihcondition hcondition).branch (hfirst ▸ ihthen hthen) ?_
    cases elseArm with
    | none => exact .pure
    | some n => exact hsecond ▸ ihelse n rfl (allAlternative_iff.1 helse n rfl)
  | loop condition content checkFirst negative type span ihcondition ihcontent =>
    obtain ⟨hself, hparts⟩ := Bool.and_eq_true_iff.1 hn
    obtain ⟨hcondition, hcontent⟩ := Bool.and_eq_true_iff.1 hparts
    have hnone := beq_iff_eq.1 (Bool.and_eq_true_iff.1 hself).2
    rw [track, writes, hnone]
    obtain ⟨htest, hround⟩ := Nat.add_eq_zero_iff.1 hnone
    exact .loop (htest ▸ ihcondition hcondition) (hround ▸ ihcontent hcontent) checkFirst
  | _ => exact .pure

end Node

/-! ### Methods -/

/-- A method stores in locals as often as its body does. -/
theorem counts_methodAccesses (flags : MemberFlags) (returnType : MachineType) (body : Node) :
    Node.Counts body.writes (methodAccesses flags returnType body) := by
  have hfront : Node.Counts 0 (if flags.isConstructor then {[Access.receiver]} else 1) := by
    split
    · exact .single .receiver
    · exact .one
  have hback : Node.Counts 0 (if !flags.isStatic && returnType.kind? == some .reference
      then 1 + {[Access.receiver]} else 1) := by
    split
    · rintro word (rfl | rfl) <;> rfl
    · exact .one
  have hbody := Node.counts_accesses flags.isStatic body (!returnType.isVoid)
  have hmethod := hfront.mul (hbody.mul hback)
  rwa [Nat.zero_add, Nat.add_zero] at hmethod

/-- A piece of code has as many stores as writes were carried out by it. -/
theorem length_storesOf {piece : List Noted} (h : ∀ n ∈ piece, n.Fits) :
    (storesOf piece).length = (piece.filterMap Prod.snd).countP Access.isWrite := by
  induction piece with
  | nil => rfl
  | cons n rest ih =>
    have hrest := ih fun n hn ↦ h n (List.mem_cons_of_mem _ hn)
    cases h n (List.mem_cons_self ..) with
    | read name kind slot => simpa [storesOf, Instruction.stored?, Access.isWrite] using hrest
    | write name kind slot =>
      show (storesOf rest).length + 1 =
        (Access.write name :: rest.filterMap Prod.snd).countP Access.isWrite
      rw [List.countP_cons_of_pos rfl, hrest]
    | receiver => simpa [storesOf, Instruction.stored?, Access.isWrite] using hrest
    | plain hi => simpa [storesOf, Instruction.stored?_of_isAccess hi] using hrest

/-- If no store stands in a branch or a loop, the walk gets to the end of the body. -/
theorem MethodCode.Renders.locates {m : MethodCode} {names : List String} {body : Node}
    {noted : List Noted} (h : m.Renders names body noted)
    (hbody : body.all Node.storesOutside = true) (arguments : Whereabouts) :
    m.locates arguments body = true := by
  have hstores : m.instructions.filterMap (·.stored?) = storesOf noted := by
    rw [← h.code, List.filterMap_map]
    rfl
  have hlength : (storesOf noted).length = body.writes :=
    (length_storesOf h.fits).trans (counts_methodAccesses _ _ body _ h.accesses)
  obtain ⟨u, hu, -⟩ := (Node.succeeds_track m.flags.isStatic hbody).run
    (t := { stores := storesOf noted, meant := arguments, known := arguments }) rfl
    (Nat.le_of_eq hlength.symm)
  unfold MethodCode.locates
  rw [hstores]
  exact Option.isSome_iff_exists.2 ⟨u, hu⟩

end ScriptBytecode

import Mathlib.Control.Basic
import ScriptBytecode.Classes.Member
import ScriptBytecode.Proofs.Paths.Whereabouts
import ScriptBytecode.Source.Induction

/-!
# Following locals through the source

To the compiler a name means the slots of the last store in the text before it, on whatever path
that store lies. This is right where the value of the name is known to be in these slots whichever
way control has come. `Node.track` goes through a node and finds out whether this is so at each
read: of two arms of a branch only what both agree on is known behind it, and where a round of a
loop begins, only what is known before the loop and after a round.

Which slots a store writes depends on types and on the stores before. The walk does not compute them
but takes them, one store after another, from a list.

What is known of one name never depends on what is known of others (`Tracker.Step.Pointwise`). So
for a loop one round is enough: what holds before the loop and after a round, holds after every
round (`Tracker.Step.rounds_holdsIn`).

* `Tracker` is what is known on the walk, and `Tracker.Step` one step of it;
* the lemmas that end in `eq_some` say what is known of a step that succeeds;
* `pointwise_track` is the induction on nodes.

**What a walk does not see.** It does not look at values. An arm that is never taken counts like any
other, and so does a loop that is never entered. So a walk may fail for a body that does nothing
wrong when it is executed; it never gets to its end for a body that reads a local from the wrong
slots.

**What names mean and what is known** are two tables. The first is what the compiler has in its
table of locals, and follows the text. The second follows control. Stores change both alike; they
come apart only where ways of control meet.
-/

namespace ScriptBytecode

/-- Where a walk through the source stands. -/
structure Tracker where
  /-- The slots that the stores write which are still to come. -/
  stores : List SlotRange
  /-- What names mean to the compiler. -/
  meant : Whereabouts
  /-- Where values are, whichever way control has come. -/
  known : Whereabouts

namespace Tracker

/-- As far as the compiler goes, the walk goes on behind `t`, but control has come another way. -/
def knowing (t : Tracker) (w : Whereabouts) : Tracker := { t with known := w }

/-- To know what is known already changes nothing. -/
theorem knowing_known (t : Tracker) : t.knowing t.known = t := by
  cases t
  rfl

/-- A part of a walk, which may find a local whose value is not where the compiler takes it from. -/
abbrev Step := Tracker → Option Tracker

namespace Step

/-- A read finds the value where the name means it to be. -/
def read (name : String) : Step := fun t ↦
  if t.known name = t.meant name then some t else none

/-- A store puts the value where the next of the stores does. -/
def write (name : String) : Step := fun t ↦
  match t.stores with
  | [] => none
  | r :: rest =>
    some { stores := rest, meant := t.meant.store name r, known := t.known.store name r }

/-- The receiver is read, if there is one. -/
def receiver (isStatic : Bool) : Step := fun t ↦ if isStatic then none else some t

/-- Control takes one of two arms. The compiler takes both. -/
def branch (condition thenArm elseArm : Step) : Step := fun t ↦ do
  let tested ← condition t
  let first ← thenArm tested
  let second ← elseArm (first.knowing tested.known)
  some (second.knowing (first.known.meet second.known))

/-- The beginning of any round of a loop. -/
def rounds (round : Step) : Step := fun t ↦ do
  let once ← round t
  some (t.knowing (t.known.meet once.known))

/-- A loop that tests its condition before each round or behind it. Control leaves it behind the
condition. -/
def loop (checkFirst : Bool) (condition content : Step) : Step := fun t ↦
  if checkFirst then do
    let head ← rounds (condition >=> content) t
    let tested ← condition head
    let last ← content tested
    some (last.knowing tested.known)
  else do
    let head ← rounds (content >=> condition) t
    (content >=> condition) head

end Step

end Tracker

/-! ### Nodes -/

namespace Node

mutual

/-- The walk through a node, in a method with a receiver or without one. Definitions within the node
have locals of their own. Where there is no receiver, a call under the name of constructors would
read it all the same. -/
def track (isStatic : Bool) (n : Node) : Tracker.Step :=
  match n with
  | .body nodes _ _ => trackAll isStatic nodes
  | .readLocal name _ _ => .read name
  | .assign name value _ _ => track isStatic value >=> Tracker.Step.write name
  | .call receiver _ args _ _ =>
    if receiver.type.isMeta then trackAll isStatic args
    else track isStatic receiver >=> trackAll isStatic args
  | .selfCall name args _ _ =>
    if isStatic && name == constructorName then fun _ ↦ none else trackAll isStatic args
  | .branch condition thenArm elseArm _ _ =>
    .branch (track isStatic condition) (track isStatic thenArm) (trackAlternative isStatic elseArm)
  | .loop condition content checkFirst _ _ _ =>
    .loop checkFirst (track isStatic condition) (track isStatic content)
  | .script .. | .classDef .. | .methodDef .. | .constructorDef .. | .importDef .. => pure
  | .literal .. | .typeName .. | .selfRef .. | .noop _ => pure
termination_by structural n

/-- The walk through nodes, one after another. -/
def trackAll (isStatic : Bool) (nodes : List Node) : Tracker.Step :=
  match nodes with
  | [] => pure
  | n :: rest => track isStatic n >=> trackAll isStatic rest
termination_by structural nodes

/-- The walk through the other arm of a branch, if there is one. -/
def trackAlternative (isStatic : Bool) (arm : Option Node) : Tracker.Step :=
  match arm with
  | some n => track isStatic n
  | none => pure
termination_by structural arm

end

end Node

/-! ### One name at a time -/

namespace Tracker

variable {name : String}

/-- Two walks are at the same place and know the same of a name. -/
structure Alike (name : String) (t t' : Tracker) : Prop where
  stores : t.stores = t'.stores
  meant : t.meant = t'.meant
  known : t.known name = t'.known name

/-- What is known of a name behind a part of a walk depends on nothing else that is known. -/
structure Step.Pointwise (f : Step) : Prop where
  alike : ∀ {name t t' u u'}, Alike name t t' → f t = some u → f t' = some u' → Alike name u u'

/-- Trackers that are alike in a name still are when they learn the same of it. -/
theorem Alike.knowing {t t' : Tracker} {w w' : Whereabouts} (h : Alike name t t')
    (hw : w name = w' name) : Alike name (t.knowing w) (t'.knowing w') :=
  ⟨h.stores, h.meant, hw⟩

namespace Step

variable {f g : Step}

theorem Pointwise.pure : Pointwise pure := by
  constructor
  intro name t t' u u' h hu hu'
  obtain rfl := Option.some.inj hu
  obtain rfl := Option.some.inj hu'
  exact h

/-- Two steps one after the other are pointwise if both are. -/
theorem Pointwise.fish (hf : Pointwise f) (hg : Pointwise g) : Pointwise (f >=> g) := by
  constructor
  intro name t t' u u' h hu hu'
  obtain ⟨mid, hmid, hu⟩ := Option.bind_eq_some_iff.1 hu
  obtain ⟨mid', hmid', hu'⟩ := Option.bind_eq_some_iff.1 hu'
  exact hg.alike (hf.alike h hmid hmid') hu hu'

/-- A read succeeds just if the value is where the name means. -/
theorem read_eq_some {t u : Tracker} (h : read name t = some u) :
    t.known name = t.meant name ∧ u = t := by
  unfold read at h
  split at h
  · next heq => exact ⟨heq, (Option.some.inj h).symm⟩
  · cases h

/-- A store takes the next slots from the list. -/
theorem write_eq_some {t u : Tracker} (h : write name t = some u) :
    ∃ r rest, t.stores = r :: rest ∧ u =
      { stores := rest, meant := t.meant.store name r, known := t.known.store name r } := by
  unfold write at h
  split at h
  · cases h
  · next r rest hstores => exact ⟨r, rest, hstores, (Option.some.inj h).symm⟩

/-- The receiver can be read in an instance method only. -/
theorem receiver_eq_some {isStatic : Bool} {t u : Tracker} (h : receiver isStatic t = some u) :
    isStatic = false ∧ u = t := by
  cases isStatic with
  | true => cases h
  | false => exact ⟨rfl, (Option.some.inj h).symm⟩

/-- Rounds begin with what is known both before and after one of them. -/
theorem rounds_eq_some {round : Step} {t head : Tracker} (h : rounds round t = some head) :
    ∃ once, round t = some once ∧ head = t.knowing (t.known.meet once.known) := by
  obtain ⟨once, honce, h⟩ := Option.bind_eq_some_iff.1 h
  exact ⟨once, honce, (Option.some.inj h).symm⟩

/-- A branch goes through the condition and both arms, each from behind the condition. -/
theorem branch_eq_some {condition thenArm elseArm : Step} {t u : Tracker}
    (h : branch condition thenArm elseArm t = some u) : ∃ tested first second,
      condition t = some tested ∧ thenArm tested = some first ∧
      elseArm (first.knowing tested.known) = some second ∧
      u = second.knowing (first.known.meet second.known) := by
  obtain ⟨tested, htested, h⟩ := Option.bind_eq_some_iff.1 h
  obtain ⟨first, hfirst, h⟩ := Option.bind_eq_some_iff.1 h
  obtain ⟨second, hsecond, h⟩ := Option.bind_eq_some_iff.1 h
  exact ⟨tested, first, second, htested, hfirst, hsecond, (Option.some.inj h).symm⟩

/-- A loop that tests first is left from behind its test. -/
theorem loop_first_eq_some {condition content : Step} {t u : Tracker}
    (h : loop true condition content t = some u) : ∃ head tested last,
      rounds (condition >=> content) t = some head ∧ condition head = some tested ∧
      content tested = some last ∧ u = last.knowing tested.known := by
  obtain ⟨head, hhead, h⟩ := Option.bind_eq_some_iff.1 h
  obtain ⟨tested, htested, h⟩ := Option.bind_eq_some_iff.1 h
  obtain ⟨last, hlast, h⟩ := Option.bind_eq_some_iff.1 h
  exact ⟨head, tested, last, hhead, htested, hlast, (Option.some.inj h).symm⟩

/-- So is a loop that tests last, with what its content has done. -/
theorem loop_last_eq_some {condition content : Step} {t u : Tracker}
    (h : loop false condition content t = some u) : ∃ head tested,
      rounds (content >=> condition) t = some head ∧ content head = some tested ∧
      condition tested = some u := by
  obtain ⟨head, hhead, h⟩ := Option.bind_eq_some_iff.1 h
  obtain ⟨tested, htested, h⟩ := Option.bind_eq_some_iff.1 h
  exact ⟨head, tested, hhead, htested, h⟩

namespace Pointwise

/-- A read is pointwise, -/
theorem read (name : String) : Pointwise (read name) := by
  constructor
  intro other t t' u u' h hu hu'
  obtain ⟨-, rfl⟩ := read_eq_some hu
  obtain ⟨-, rfl⟩ := read_eq_some hu'
  exact h

/-- and so is a store: -/
theorem write (name : String) : Pointwise (write name) := by
  constructor
  intro other t t' u u' h hu hu'
  obtain ⟨r, rest, hstores, rfl⟩ := write_eq_some hu
  obtain ⟨r', rest', hstores', rfl⟩ := write_eq_some hu'
  obtain ⟨rfl, rfl⟩ := List.cons.inj (hstores.symm.trans (h.stores.trans hstores'))
  refine ⟨rfl, congrArg (·.store name r) h.meant, ?_⟩
  show t.known.store name r other = t'.known.store name r other
  by_cases hne : other = name
  · subst hne
    rw [Whereabouts.store_self, Whereabouts.store_self]
  · rw [Whereabouts.store_of_ne hne, Whereabouts.store_of_ne hne, h.known]

/-- A branch is pointwise if its parts are. -/
theorem branch {condition thenArm elseArm : Step} (hcondition : Pointwise condition)
    (hthen : Pointwise thenArm) (helse : Pointwise elseArm) :
    Pointwise (branch condition thenArm elseArm) := by
  constructor
  intro name t t' u u' h hu hu'
  obtain ⟨tested, first, second, htested, hfirst, hsecond, rfl⟩ := branch_eq_some hu
  obtain ⟨tested', first', second', htested', hfirst', hsecond', rfl⟩ := branch_eq_some hu'
  have hcond := hcondition.alike h htested htested'
  have hone := hthen.alike hcond hfirst hfirst'
  have htwo := helse.alike (hone.knowing hcond.known) hsecond hsecond'
  exact htwo.knowing (Whereabouts.meet_congr hone.known htwo.known)

/-- So are rounds. -/
theorem rounds {round : Step} (h : Pointwise round) : Pointwise (rounds round) := by
  constructor
  intro name t t' u u' ht hu hu'
  obtain ⟨once, honce, rfl⟩ := rounds_eq_some hu
  obtain ⟨once', honce', rfl⟩ := rounds_eq_some hu'
  exact ht.knowing (Whereabouts.meet_congr ht.known (h.alike ht honce honce').known)

/-- So is a loop. -/
theorem loop {condition content : Step} (hcondition : Pointwise condition)
    (hcontent : Pointwise content) (checkFirst : Bool) :
    Pointwise (loop checkFirst condition content) := by
  constructor
  intro name t t' u u' h hu hu'
  cases checkFirst with
  | true =>
    obtain ⟨head, tested, last, hhead, htested, hlast, rfl⟩ := loop_first_eq_some hu
    obtain ⟨head', tested', last', hhead', htested', hlast', rfl⟩ := loop_first_eq_some hu'
    have hcond := hcondition.alike ((hcondition.fish hcontent).rounds.alike h hhead hhead') htested
      htested'
    have hbody := hcontent.alike hcond hlast hlast'
    exact hbody.knowing hcond.known
  | false =>
    obtain ⟨head, tested, hhead, htested, hu⟩ := loop_last_eq_some hu
    obtain ⟨head', tested', hhead', htested', hu'⟩ := loop_last_eq_some hu'
    have hbody := hcontent.alike ((hcontent.fish hcondition).rounds.alike h hhead hhead') htested
      htested'
    exact hcondition.alike hbody hu hu'

end Pointwise

/-- What is known where any round begins is known behind every round. -/
theorem rounds_holdsIn {round : Step} (hround : Pointwise round) {t head last : Tracker}
    (hhead : rounds round t = some head) (hlast : round head = some last) :
    head.known.HoldsIn last.known := by
  obtain ⟨once, honce, rfl⟩ := rounds_eq_some hhead
  intro name r hr
  obtain ⟨hbefore, hbehind⟩ := Whereabouts.meet_eq_some_iff.1 hr
  -- of this name the rounds that follow know what the first one does
  have halike : Alike name (t.knowing (t.known.meet once.known)) t :=
    ⟨rfl, rfl, hr.trans hbefore.symm⟩
  exact (hround.alike halike hlast honce).known.trans hbehind

end Step

end Tracker

namespace Node

open Tracker.Step

/-- So is a sequence. -/
theorem pointwise_trackAll {isStatic : Bool} {nodes : List Node}
    (h : ∀ n ∈ nodes, Pointwise (n.track isStatic)) : Pointwise (trackAll isStatic nodes) := by
  induction nodes with
  | nil =>
    rw [trackAll]
    exact .pure
  | cons n rest ih =>
    rw [trackAll]
    exact (h n (List.mem_cons_self ..)).fish (ih fun n hn ↦ h n (List.mem_cons_of_mem _ hn))

/-- Whatever a node is, the walk through it treats one name at a time. -/
theorem pointwise_track (isStatic : Bool) (n : Node) : Pointwise (n.track isStatic) := by
  induction n using Node.inductionOn with
  | body nodes type span ih => exact pointwise_trackAll ih
  | readLocal name type span => exact .read name
  | assign name value type span ih => exact ih.fish (.write name)
  | call receiver name args type span ihreceiver ihargs =>
    rw [track]
    split
    · exact pointwise_trackAll ihargs
    · exact ihreceiver.fish (pointwise_trackAll ihargs)
  | selfCall name args type span ih =>
    rw [track]
    split
    · exact ⟨fun _ ↦ nofun⟩
    · exact pointwise_trackAll ih
  | branch condition thenArm elseArm type span ihcondition ihthen ihelse =>
    refine .branch ihcondition ihthen ?_
    cases elseArm with
    | none => exact .pure
    | some n => exact ihelse n rfl
  | loop condition content checkFirst negative type span ihcondition ihcontent =>
    exact .loop ihcondition ihcontent checkFirst
  | _ => exact .pure

end Node

end ScriptBytecode

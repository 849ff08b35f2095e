import Mathlib.Data.List.Induction
import ScriptBytecode.Proofs.Ensures

/-!
# Handles of open methods

A handle remembers how many frames were open once its method was entered, and nothing else. It is
used at most once, and used up also if the method could not be left with it. Whether such a number
is enough to tell one method from another depends on what can have happened in between.

* `InPlace` has the two ways of leaving as a host goes about them: the innermost frame is taken off
  and, if it is of the wrong sort, put on again.
* A `Call` is one of the four operations on open frames. `journal` makes some calls in turn and
  keeps book of them: of every open frame it knows the number of the call that opened it, and of
  every handle that has not been used the number of the call that yielded it.

As long as a handle has not been used, the frame it was given for stays where it is
(`Journal.Orderly`). So there is never a second handle for this depth, and a method can be left with
its own handle only, if its own frame is the innermost one (`journal_leave`).

**What makes a depth enough.** Two methods that are open at one time have different depths, but a
depth may come back: once a method was left, another one may be entered at the same depth. Its
handle is then equal to the first one as a number. The two can be told apart only because the first
has been used up, and this is the part of `Journal.Orderly` that the proof turns on: the handles
that have not been used belong to frames that are still open (`Awaits`), and those have different
depths.

**Classes have no handles.** Whoever leaves a class closes the innermost frame, provided that it is
one. So a method is closed in no other way than with its handle, and no handle outlives its frame.

* `InPlace.leaveClass_eq` and `InPlace.leaveMethod_eq` say that leaving in place is leaving as a
  whole, so a refused call leaves the frames as they were;
* `Journal.Orderly.step` is the step, `orderly_journal` the induction on calls, and `journal_leave`
  reads the result off;
* `journal_leave_nested` is a method that cannot be left because of a class within it.
-/

namespace ScriptBytecode.Scopes

section Leaving

variable {s : Scopes} {handle : MethodHandle}

/-- A class can be left if and only if it is the innermost frame. -/
theorem leaveClass_eq_ok_iff {s' : Scopes} {c : ClassScope} :
    s.leaveClass = .ok (c, s') ↔ s.frames = .ofClass c :: s'.frames := by
  obtain ⟨frames⟩ := s
  obtain ⟨frames'⟩ := s'
  cases frames with
  | nil => simp [leaveClass]
  | cons frame frames => cases frame <;> simp [leaveClass]

/-- A handle of another depth is refused. -/
theorem leaveMethod_of_depth_ne (h : s.depth ≠ handle.depth) :
    s.leaveMethod handle = .error (.leftOutOfOrder s.depth handle.depth) := if_pos h

/-- A handle of the right depth leaves the innermost method. -/
theorem leaveMethod_of_frames {m : MethodScope} {frames : List Frame}
    (h : s.depth = handle.depth) (hframes : s.frames = .ofMethod m :: frames) :
    s.leaveMethod handle = .ok (m, { frames }) := by
  unfold leaveMethod
  rw [if_neg fun hne ↦ hne h, hframes]

end Leaving

/-! ### Leaving in place -/

/-- An action on open frames that changes them in place. -/
abbrev InPlace := EStateM Fault Scopes

namespace InPlace

/-- Takes the innermost frame off. -/
def pop : InPlace (Option Frame) :=
  modifyGet fun s ↦ (s.frames.head?, { frames := s.frames.tail })

/-- Puts a frame on. -/
def push (frame : Frame) : InPlace Unit := modify fun s ↦ { frames := frame :: s.frames }

/-- Closes the innermost frame, which must be a class. -/
def leaveClass : InPlace ClassScope := do
  match ← pop with
  | some (.ofClass scope) => pure scope
  | some frame =>
    push frame
    throw .methodStillOpen
  | none => throw .noClassToLeave

/-- Closes the innermost frame, which must be a method. -/
def leaveFrame : InPlace MethodScope := do
  match ← pop with
  | some (.ofMethod scope) => pure scope
  | some frame =>
    push frame
    throw .classStillOpen
  | none => throw .noMethodToLeave

/-- Closes the innermost frame, which must be the method entered with the handle. -/
def leaveMethod (handle : MethodHandle) : InPlace MethodScope := do
  let depth := (← get).depth
  if depth ≠ handle.depth then throw (.leftOutOfOrder depth handle.depth)
  leaveFrame

/-- A frame that is put on again is where it was before, so a class is left as a whole. -/
theorem leaveClass_eq : leaveClass = wholly Scopes.leaveClass := by
  funext s
  obtain ⟨frames⟩ := s
  cases frames with
  | nil => rfl
  | cons frame frames => cases frame <;> rfl

/-- So is a method. -/
theorem leaveMethod_eq (handle : MethodHandle) :
    leaveMethod handle = wholly (·.leaveMethod handle) := by
  funext s
  have hbind : leaveMethod handle s = (if s.depth ≠ handle.depth
      then throw (.leftOutOfOrder s.depth handle.depth) else leaveFrame : InPlace MethodScope) s :=
    rfl
  rw [hbind]
  unfold wholly Scopes.leaveMethod
  dsimp only
  by_cases hdepth : s.depth ≠ handle.depth
  · rw [if_pos hdepth, if_pos hdepth]
    rfl
  · rw [if_neg hdepth, if_neg hdepth]
    obtain ⟨frames⟩ := s
    cases frames with
    | nil => rfl
    | cons frame frames => cases frame <;> rfl

end InPlace

/-! ### Calls -/

/-- An operation on open frames. -/
inductive Call where
  /-- Open a class. -/
  | enterClass (scope : ClassScope)
  /-- Close a class. -/
  | leaveClass
  /-- Open a method. -/
  | enterMethod (scope : MethodScope)
  /-- Close a method with the handle that the call of this number has yielded. -/
  | leaveMethod (number : Nat)

/-- What some calls come to. -/
structure Journal where
  /-- How many calls there were. -/
  calls : Nat := 0
  /-- What is open. -/
  scopes : Scopes := {}
  /-- The open frames, innermost first, each with the number of the call that opened it. -/
  opened : List (Nat × Frame) := []
  /-- The handles that have not been used, each with the number of the call that yielded it. -/
  handles : List (Nat × MethodHandle) := []

namespace Journal

variable {α : Type}

/-- The number of the call that opened the innermost frame. -/
def innermost? (j : Journal) : Option Nat := j.opened.head?.map Prod.fst

/-- The journal once a frame was opened. -/
def enter (j : Journal) (s : Scopes) (frame : Frame) : Journal :=
  { j with scopes := s, opened := (j.calls, frame) :: j.opened }

/-- The journal once something was left, if that succeeded, or could not be left. -/
def leave (j : Journal) : EStateM.Result Fault Scopes α → Journal
  | .ok _ s => { j with scopes := s, opened := j.opened.tail }
  | .error _ s => { j with scopes := s }

/-- The journal without the handle of a call. -/
def spend (j : Journal) (number : Nat) : Journal :=
  { j with handles := j.handles.filter (·.1 != number) }

/-- The journal after another call. A method whose handle has been used cannot be left any more. -/
def step (j : Journal) (c : Call) : Journal :=
  let j' := match c with
    | .enterClass scope => j.enter (j.scopes.enterClass scope) (.ofClass scope)
    | .leaveClass => j.leave (InPlace.leaveClass j.scopes)
    | .enterMethod scope =>
      let (handle, s) := j.scopes.enterMethod scope
      { j.enter s (.ofMethod scope) with handles := (j.calls, handle) :: j.handles }
    | .leaveMethod number =>
      match j.handles.lookup number with
      | some handle => (j.spend number).leave (InPlace.leaveMethod handle j.scopes)
      | none => j
  { j' with calls := j.calls + 1 }

end Journal

/-- The journal of some calls. -/
def journal (calls : List Call) : Journal := calls.foldl Journal.step {}

/-- The journal of one call more is one step further. -/
theorem journal_append_singleton (calls : List Call) (c : Call) :
    journal (calls ++ [c]) = (journal calls).step c := by
  simp [journal]

/-! ### Frames of handles -/

/-- The frame of the method that was entered with a handle is still open, and as far out as the
handle says. -/
def Awaits (opened : List (Nat × Frame)) (number : Nat) (handle : MethodHandle)
    (m : MethodScope) : Prop :=
  ∃ below, (number, .ofMethod m) :: below <:+ opened ∧ handle.depth = below.length + 1

namespace Awaits

variable {opened : List (Nat × Frame)} {number : Nat} {handle : MethodHandle} {m : MethodScope}

/-- It stays there when another frame is opened. -/
theorem cons (h : Awaits opened number handle m) (entry : Nat × Frame) :
    Awaits (entry :: opened) number handle m := by
  obtain ⟨below, hsuffix, hdepth⟩ := h
  exact ⟨below, hsuffix.trans (List.suffix_cons ..), hdepth⟩

/-- It stays there when another frame is closed. -/
theorem tail (h : Awaits opened number handle m)
    (hhead : opened.head? ≠ some (number, .ofMethod m)) :
    Awaits opened.tail number handle m := by
  obtain ⟨below, hsuffix, hdepth⟩ := h
  cases opened with
  | nil => cases List.suffix_nil.1 hsuffix
  | cons entry opened =>
    rcases List.suffix_cons_iff.1 hsuffix with heq | hsuffix
    · cases heq
      exact absurd rfl hhead
    · exact ⟨below, hsuffix, hdepth⟩

end Awaits

/-! ### Journals -/

namespace Journal

/-- What the book-keeping relies on: of the open frames it has every one, each under a number of its
own, and of every handle it has the frame that the handle was given for. -/
structure Orderly (calls : List Call) (j : Journal) : Prop where
  count : j.calls = calls.length
  frames : j.scopes.frames = j.opened.map Prod.snd
  numbers : (j.opened.map Prod.fst).Nodup
  older : ∀ number ∈ j.opened.map Prod.fst, number < calls.length
  awaits : ∀ number handle, (number, handle) ∈ j.handles →
    ∃ m, calls[number]? = some (.enterMethod m) ∧ Awaits j.opened number handle m

namespace Orderly

variable {calls : List Call} {j : Journal} {number : Nat} {handle : MethodHandle}

/-- An orderly journal knows of every open frame. -/
theorem depth_eq (h : j.Orderly calls) : j.scopes.depth = j.opened.length := by
  unfold Scopes.depth
  rw [h.frames, List.length_map]

/-- The innermost frame, when its handle has not been used. -/
theorem opened_of_innermost? (h : j.Orderly calls) {m : MethodScope}
    (hawaits : Awaits j.opened number handle m) (hinner : j.innermost? = some number) :
    ∃ below, j.opened = (number, .ofMethod m) :: below ∧ handle.depth = below.length + 1 := by
  obtain ⟨below, hsuffix, hdepth⟩ := hawaits
  obtain ⟨above, habove⟩ := hsuffix
  refine ⟨below, ?_, hdepth⟩
  cases above with
  | nil => exact habove.symm
  | cons entry above =>
    -- there would be two frames of this number
    have hnumbers := h.numbers
    rw [innermost?, ← habove] at hinner
    rw [← habove] at hnumbers
    obtain rfl := Option.some.inj hinner
    simp at hnumbers

/-- A method is left with a handle that has not been used if its frame is the innermost one, and
only then. -/
theorem leaveMethod (h : j.Orderly calls) (hhandle : (number, handle) ∈ j.handles) :
    ∃ m, calls[number]? = some (.enterMethod m) ∧
      (j.innermost? = some number → ∃ below, j.opened = (number, .ofMethod m) :: below ∧
        InPlace.leaveMethod handle j.scopes = .ok m { frames := below.map Prod.snd }) ∧
      (j.innermost? ≠ some number → j.scopes.depth ≠ handle.depth ∧
        InPlace.leaveMethod handle j.scopes =
          .error (.leftOutOfOrder j.scopes.depth handle.depth) j.scopes) := by
  obtain ⟨m, hcall, hawaits⟩ := h.awaits number handle hhandle
  rw [InPlace.leaveMethod_eq]
  refine ⟨m, hcall, ?_, ?_⟩
  · intro hinner
    obtain ⟨below, hopened, hbelow⟩ := h.opened_of_innermost? hawaits hinner
    have hdepth : j.scopes.depth = handle.depth := by
      rw [h.depth_eq, hopened, hbelow, List.length_cons]
    have hframes : j.scopes.frames = .ofMethod m :: below.map Prod.snd := by
      rw [h.frames, hopened, List.map_cons]
    exact ⟨below, hopened, wholly_of_ok (leaveMethod_of_frames hdepth hframes)⟩
  · intro hinner
    -- at the depth of the handle, its frame with those below it would be all that is open
    have hdepth : j.scopes.depth ≠ handle.depth := by
      intro hdepth
      obtain ⟨below, hsuffix, hbelow⟩ := hawaits
      have hlength : below.length + 1 = j.opened.length := by
        rw [← h.depth_eq, hdepth, hbelow]
      refine hinner ?_
      rw [innermost?, ← hsuffix.eq_of_length hlength]
      rfl
    exact ⟨hdepth, wholly_of_error (leaveMethod_of_depth_ne hdepth)⟩

/-! ### What a call preserves -/

/-- A journal stays orderly when a handle is used up. -/
theorem spend (h : j.Orderly calls) (number : Nat) : (j.spend number).Orderly calls :=
  { h with awaits := fun number handle hmem ↦ h.awaits number handle (List.mem_filter.1 hmem).1 }

/-- A call that is refused. -/
theorem refused (h : j.Orderly calls) (c : Call) :
    Orderly (calls ++ [c]) { j with calls := j.calls + 1 } where
  count := by
    rw [List.length_append, h.count]
    rfl
  frames := h.frames
  numbers := h.numbers
  older := fun number hnumber ↦ by
    rw [List.length_append]
    exact Nat.lt_add_right _ (h.older number hnumber)
  awaits := fun number handle hmem ↦ by
    obtain ⟨m, hcall, hawaits⟩ := h.awaits number handle hmem
    have hlt : number < calls.length := (List.getElem?_eq_some_iff.1 hcall).1
    exact ⟨m, (List.getElem?_append_left hlt).trans hcall, hawaits⟩

/-- A call that opens a frame. -/
theorem enter (h : j.Orderly calls) (c : Call) {s : Scopes} {frame : Frame}
    (hs : s.frames = frame :: j.scopes.frames) :
    Orderly (calls ++ [c]) { j.enter s frame with calls := j.calls + 1 } where
  count := (h.refused c).count
  frames := by
    show s.frames = _
    rw [hs, h.frames]
    rfl
  numbers := List.nodup_cons.2 ⟨fun hmem ↦ by
    have := h.older _ hmem
    rw [h.count] at this
    exact Nat.lt_irrefl _ this, h.numbers⟩
  older := fun number hnumber ↦ by
    rcases List.mem_cons.1 hnumber with rfl | hmem
    · rw [h.count, List.length_append]
      exact Nat.lt_succ_self _
    · exact (h.refused c).older number hmem
  awaits := fun number handle hmem ↦ by
    obtain ⟨m, hcall, hawaits⟩ := (h.refused c).awaits number handle hmem
    exact ⟨m, hcall, hawaits.cons _⟩

/-- A call that closes the innermost frame, if its handle has been used. -/
theorem left (h : j.Orderly calls) (c : Call) {s : Scopes} {frame : Frame}
    (hs : j.scopes.frames = frame :: s.frames)
    (hinner : ∀ number handle, (number, handle) ∈ j.handles → j.innermost? ≠ some number) :
    Orderly (calls ++ [c])
      { j with scopes := s, opened := j.opened.tail, calls := j.calls + 1 } where
  count := (h.refused c).count
  frames := by
    have hframes := congrArg List.tail (hs.symm.trans h.frames)
    rwa [List.tail_cons, ← List.map_tail] at hframes
  numbers := by
    rw [List.map_tail]
    exact h.numbers.sublist (List.tail_sublist _)
  older := fun number hnumber ↦ by
    rw [List.map_tail] at hnumber
    exact (h.refused c).older number (List.mem_of_mem_tail hnumber)
  awaits := fun number handle hmem ↦ by
    obtain ⟨m, hcall, hawaits⟩ := (h.refused c).awaits number handle hmem
    refine ⟨m, hcall, hawaits.tail fun hhead ↦ hinner number handle hmem ?_⟩
    rw [innermost?, hhead]
    rfl

/-- Every call keeps the journal orderly: this is the induction step of `orderly_journal`. -/
theorem step (h : j.Orderly calls) (c : Call) : (j.step c).Orderly (calls ++ [c]) := by
  cases c with
  | enterClass scope => exact h.enter _ rfl
  | leaveClass =>
    rw [Journal.step, InPlace.leaveClass_eq]
    cases hleave : wholly Scopes.leaveClass j.scopes with
    | error fault s =>
      obtain ⟨-, rfl⟩ := wholly_eq_error_iff.1 hleave
      exact h.refused _
    | ok scope s =>
      have hframes := leaveClass_eq_ok_iff.1 (wholly_eq_ok_iff.1 hleave)
      refine h.left _ hframes fun number handle hmem hinner ↦ ?_
      -- the frame of a handle is a method
      obtain ⟨m, -, hleft, -⟩ := h.leaveMethod hmem
      obtain ⟨below, hopened, -⟩ := hleft hinner
      rw [h.frames, hopened] at hframes
      cases hframes
  | enterMethod scope =>
    have henter := h.enter (.enterMethod scope) (rfl : (j.scopes.enterMethod scope).2.frames = _)
    refine { henter with awaits := fun number handle hmem ↦ ?_ }
    rcases List.mem_cons.1 hmem with heq | hmem
    · cases heq
      refine ⟨scope, ?_, j.opened, List.suffix_rfl, ?_⟩
      · rw [h.count]
        simp
      · rw [← h.depth_eq]
        rfl
    · exact henter.awaits number handle hmem
  | leaveMethod number =>
    cases hlookup : j.handles.lookup number with
    | none =>
      rw [Journal.step, hlookup]
      exact h.refused _
    | some handle =>
      have hmem : (number, handle) ∈ j.handles := by
        obtain ⟨before, after, hsplit, -⟩ := List.lookup_eq_some_iff.1 hlookup
        rw [hsplit]
        simp
      obtain ⟨m, -, hleft, hkept⟩ := h.leaveMethod hmem
      rw [Journal.step, hlookup]
      dsimp only
      by_cases hinner : j.innermost? = some number
      · obtain ⟨below, hopened, hleave⟩ := hleft hinner
        have hframes : j.scopes.frames = .ofMethod m :: below.map Prod.snd := by
          rw [h.frames, hopened, List.map_cons]
        rw [hleave]
        refine (h.spend number).left _ hframes fun other handle' hmem' hinner' ↦ ?_
        -- the handle for the innermost frame is the one that has just been used
        cases hinner.symm.trans hinner'
        simpa using (List.mem_filter.1 hmem').2
      · rw [(hkept hinner).2]
        exact (h.spend number).refused _

end Orderly

end Journal

/-- Whatever was called, the book-keeping is in order. -/
theorem orderly_journal (calls : List Call) : (journal calls).Orderly calls := by
  induction calls using List.reverseRecOn with
  | nil => exact ⟨rfl, rfl, List.nodup_nil, by simp [journal], by simp [journal]⟩
  | append_singleton calls c ih =>
    rw [journal_append_singleton]
    exact ih.step c

/-- After any calls, a method is left with a handle that has not been used if the innermost frame is
the one opened by the call that yielded the handle, and only then; what is left is the method of
that call, and all other frames stay. Otherwise the depth is not that of the handle, and nothing
changes. A class is left if the innermost frame is one, and only then, and otherwise nothing changes
either. -/
theorem journal_leave (calls : List Call) :
    let j := journal calls
    j.scopes.frames = j.opened.map Prod.snd ∧
      (∀ number handle, (number, handle) ∈ j.handles →
        ∃ m, calls[number]? = some (.enterMethod m) ∧
          (j.innermost? = some number → ∃ below, j.opened = (number, .ofMethod m) :: below ∧
            InPlace.leaveMethod handle j.scopes = .ok m { frames := below.map Prod.snd }) ∧
          (j.innermost? ≠ some number → j.scopes.depth ≠ handle.depth ∧
            InPlace.leaveMethod handle j.scopes =
              .error (.leftOutOfOrder j.scopes.depth handle.depth) j.scopes)) ∧
      (∀ c s, InPlace.leaveClass j.scopes = .ok c s ↔ j.scopes.frames = .ofClass c :: s.frames) ∧
      ∀ fault s, InPlace.leaveClass j.scopes = .error fault s → s = j.scopes := by
  intro j
  have hj : j.Orderly calls := orderly_journal calls
  refine ⟨hj.frames, fun number handle hmem ↦ hj.leaveMethod hmem, fun c s ↦ ?_, fun fault s h ↦ ?_⟩
  · rw [InPlace.leaveClass_eq, wholly_eq_ok_iff]
    exact leaveClass_eq_ok_iff
  · rw [InPlace.leaveClass_eq] at h
    exact (wholly_eq_error_iff.1 h).2

/-- A method cannot be left while a class is open within it. -/
theorem journal_leave_nested :
    InPlace.leaveMethod ⟨1⟩
        (journal [.enterMethod { name := "run" }, .enterClass { cls := .root }]).scopes =
      .error (.leftOutOfOrder 2 1)
        { frames := [.ofClass { cls := .root }, .ofMethod { name := "run" }] } ∧
    InPlace.leaveMethod ⟨1⟩
        (journal
          [.enterMethod { name := "run" }, .enterClass { cls := .root }, .leaveClass]).scopes =
      .ok { name := "run" } {} := by
  constructor
  · obtain ⟨m, -, -, hkept⟩ := (journal_leave [.enterMethod { name := "run" },
      .enterClass { cls := .root }]).2.1 0 ⟨1⟩ (by decide)
    exact (hkept (by decide)).2
  · obtain ⟨m, -, hleft, -⟩ := (journal_leave [.enterMethod { name := "run" },
      .enterClass { cls := .root }, .leaveClass]).2.1 0 ⟨1⟩ (by decide)
    obtain ⟨below, hopened, hleave⟩ := hleft (by decide)
    cases hopened
    exact hleave

end ScriptBytecode.Scopes

import Mathlib.Data.List.Nodup
import ScriptBytecode.Proofs.Defined.Units
import ScriptBytecode.Proofs.Moving.Additions

/-!
# All or nothing

Whoever uses a session may open classes and methods within one another as they like, and each may
fail. A failure may be passed on, or caught and answered with another attempt, also under the same
name. A `Program` is any such use of a session, and its `Log` tells how it went: which classes and
methods were opened within which, and which of them succeeded.

The tables of a session are changed at different moments: the name of a class when it is entered,
its code when it is finished. Together they still say what the log says. So putting the unit
together succeeds exactly if nothing is open, every class has succeeded and none was entered twice,
and then the unit has all of the classes as they were entered (`Program.reports_run`).

* `Program` and `Program.run` are the uses of a session, and `Log` what is known of a run;
* `Session.Gained` says what a session has gained, and `Program.gained_run` that a run gains what
  its log says (by induction on the program);
* `Session.Records` is the invariant of the tables, kept by every step (`Records.gained`).

**Why programs and not lists of calls.** What is done within a class or a method depends on what
came before, and what comes next may depend on whether it failed. So a program is a tree whose
branches are functions of outcomes, and a list of calls would not be enough. The actions in between
may be any that are `SessionM.Quiet`: they change locals, emit code or fail, but open and finish
nothing.

**What the log leaves out.** It has the outcomes that were returned and not the reasons for them. A
class counts as succeeded if its program did, also if something in it failed and was caught; a
method that failed is no part of its class, whatever becomes of the rest.

* `SessionM.gained_inClass` and `SessionM.gained_inMethod` are the steps;
* `Program.gained_run` is the induction on programs;
* `Records.reports` is about putting a unit together, and needs no program any more.
-/

namespace ScriptBytecode

/-! ### What a session gains -/

namespace Scopes

/-- Scopes are what they are with the locals they have. -/
theorem exists_setLocals_eq (s : Scopes) : ∃ l, s = s.setLocals l := by
  obtain ⟨frames⟩ := s
  cases frames with
  | nil => exact ⟨{}, rfl⟩
  | cons frame frames =>
    cases frame with
    | ofClass c => exact ⟨{}, rfl⟩
    | ofMethod m => exact ⟨m.locals, rfl⟩

end Scopes

namespace Session

/-- Between the sessions just these were added. Of what is open, entered and finished nothing else
has changed, except for the locals of the current method. -/
structure Gained (s : Session) (d : Additions) (s' : Session) : Prop where
  entered : s'.entered = s.entered ++ d.entered
  finished : s'.finished = d.finished ++ s.finished
  scopes : ∃ l, s'.scopes = (s.scopes.addMethods d.methods).setLocals l

namespace Gained

variable {s s' s'' : Session} {d d' : Additions}

theorem refl (s : Session) : s.Gained {} s :=
  ⟨(List.append_nil _).symm, rfl, s.scopes.exists_setLocals_eq⟩

/-- What was gained in two steps was gained in one. -/
theorem trans (h : s.Gained d s') (h' : s'.Gained d' s'') : s.Gained (d ++ d') s'' where
  entered := by rw [h'.entered, h.entered, Additions.entered_append, List.append_assoc]
  finished := by rw [h'.finished, h.finished, Additions.finished_append, List.append_assoc]
  scopes := by
    obtain ⟨l, hl⟩ := h.scopes
    obtain ⟨l', hl'⟩ := h'.scopes
    refine ⟨l', ?_⟩
    rw [hl', hl, Scopes.addMethods_setLocals, Scopes.setLocals_setLocals,
      Additions.methods_append, Scopes.addMethods_append]

end Gained

end Session

namespace SessionM

variable {α : Type}

/-- The action enters, leaves and finishes nothing, whether it succeeds or fails. -/
structure Quiet (act : SessionM α) : Prop where
  run : ∀ s : Session, Ensures act s (fun _ s' ↦ s.Gained {} s') fun _ s' ↦ s.Gained {} s'

theorem quiet_throw (e : CompileError) : Quiet (throw e : SessionM α) :=
  ⟨fun s ↦ ensures_throw (.refl s)⟩

end SessionM

theorem Additions.nothing_append (d : Additions) : {} ++ d = d :=
  congrArg (Additions.mk d.methods d.entered) (List.append_nil d.finished)

/-- What a class adds that in turn has additions within it: its code only if it succeeds. -/
def Additions.ofClass (scope : ClassScope) (succeeded : Bool) (d : Additions) : Additions where
  entered := scope.cls.name :: d.entered
  finished :=
    (if succeeded then [ClassScope.done { scope with methods := scope.methods ++ d.methods }]
      else []) ++ d.finished

/-- The method that an action has made the code of, if it has. -/
def MethodScope.made (scope : MethodScope) :
    EStateM.Result CompileError Session Code → Option MethodCode
  | .ok code s => some (MethodScope.done { scope with locals := s.locals } code)
  | .error _ _ => none

namespace SessionM

variable {α : Type} {s : Session} {d : Additions}

/-- What is done in a class is gained as part of it: the class is entered in any case, and finished
if all went well. -/
theorem gained_inClass {scope : ClassScope} {act : SessionM α}
    (h : Ensures act (s.openClass scope) (fun _ s' ↦ (s.openClass scope).Gained d s')
      fun _ s' ↦ (s.openClass scope).Gained d s') :
    Ensures (inClass scope act) s (fun _ s' ↦ s.Gained (d.ofClass scope true) s')
      fun _ s' ↦ s.Gained (d.ofClass scope false) s' := by
  have hopen : ∀ {s'}, (s.openClass scope).Gained d s' →
      s'.entered = s.entered ++ scope.cls.name :: d.entered ∧
        s'.scopes = s.scopes.enterClass { scope with methods := scope.methods ++ d.methods } := by
    intro s' hs'
    obtain ⟨l, hl⟩ := hs'.scopes
    refine ⟨hs'.entered.trans (List.append_assoc ..), hl.trans ?_⟩
    rw [show (s.openClass scope).scopes = s.scopes.enterClass scope from rfl,
      Scopes.addMethods_enterClass]
    rfl
  refine ensures_modify_bind (ensures_attempt_bind (h.mono ?_ ?_))
  · intro a s' hs'
    obtain ⟨hentered, hscopes⟩ := hopen hs'
    refine ensures_get_bind ?_
    rw [hscopes]
    exact ⟨hentered, congrArg (List.cons _) hs'.finished, s.scopes.exists_setLocals_eq⟩
  · intro e s' hs'
    obtain ⟨hentered, hscopes⟩ := hopen hs'
    refine ensures_get_bind ?_
    rw [hscopes]
    exact ⟨hentered, hs'.finished, s.scopes.exists_setLocals_eq⟩

/-- A method is added to the class around it, behind those that were added within the method. Where
there is no class, the method fails and is not added. -/
theorem gained_inMethod {scope : MethodScope} {act : SessionM Code}
    (h : Ensures act (s.openMethod scope).2 (fun _ s' ↦ (s.openMethod scope).2.Gained d s')
      fun _ s' ↦ (s.openMethod scope).2.Gained d s') :
    Ensures (inMethod scope act) s
      (fun _ s' ↦
        s.Gained (d ++ { methods := (scope.made (act (s.openMethod scope).2)).toList }) s')
      fun _ s' ↦ s.Gained d s' := by
  have hopen : ∀ {s'}, (s.openMethod scope).2.Gained d s' → ∃ locals,
      s'.scopes = ((s.scopes.addMethods d.methods).enterMethod { scope with locals }).2 := by
    intro s' hs'
    obtain ⟨l, hl⟩ := hs'.scopes
    refine ⟨l, hl.trans ?_⟩
    rw [show (s.openMethod scope).2.scopes = (s.scopes.enterMethod scope).2 from rfl,
      Scopes.addMethods_enterMethod]
    rfl
  have hleave := Scopes.leaveMethod_of_outline (Scopes.outline_addMethods s.scopes d.methods)
  have hleft : ∀ {s'}, (s.openMethod scope).2.Gained d s' →
      s.Gained d (s'.withScopes (s.scopes.addMethods d.methods)) := fun hs' ↦
    ⟨hs'.entered, hs'.finished, Scopes.exists_setLocals_eq _⟩
  -- The code of the method is known from its run only, so the two ends of the run are told apart.
  cases hact : act (s.openMethod scope).2 with
  | ok code s' =>
    have hs' := h.of_ok hact
    obtain ⟨locals, hscopes⟩ := hopen hs'
    have hlocals : s'.locals = locals := by
      unfold Session.locals
      rw [hscopes]
      rfl
    refine ensures_get_bind (ensures_attempt_bind (ensures_of_ok hact (ensures_get_bind ?_)))
    rw [hscopes, hleave]
    refine ensures_pure_bind (ensures_modify_bind (ensures_pure_bind ?_))
    dsimp only
    split
    · exact hleft hs'
    · refine (hleft hs').trans ⟨(List.append_nil _).symm, rfl, ?_⟩
      rw [MethodScope.made, hlocals]
      exact Scopes.exists_setLocals_eq _
  | error e s' =>
    have hs' := h.of_error hact
    obtain ⟨locals, hscopes⟩ := hopen hs'
    refine ensures_get_bind (ensures_attempt_bind (ensures_of_error hact (ensures_get_bind ?_)))
    rw [hscopes, hleave]
    exact hleft hs'

end SessionM

/-! ### Programs and their logs -/

/-- A use of a session: actions that are quiet, and classes and methods with programs within them,
each followed by what depends on how it ended. -/
inductive Program : Type → Type 1 where
  | done {α : Type} (a : α) : Program α
  | step {α β : Type} (act : SessionM β) (quiet : act.Quiet) (next : β → Program α) : Program α
  | inClass {α β : Type} (scope : ClassScope) (body : Program β)
    (next : Except CompileError β → Program α) : Program α
  | inMethod {α : Type} (scope : MethodScope) (body : Program Code)
    (next : Except CompileError Unit → Program α) : Program α

/-- What a program has opened, in order. -/
inductive Log where
  | nil
  /-- A class, what was opened within it, and what was opened after it. -/
  | ofClass (scope : ClassScope) (succeeded : Bool) (inner rest : Log)
  /-- A method, if it has succeeded, what was opened within it, and what was opened after it. -/
  | ofMethod (made : Option MethodCode) (inner rest : Log)

namespace Program

/-- Runs a program on a session. -/
def run {α : Type} : Program α → SessionM α
  | done a => pure a
  | step act _ next => do
    let b ← act
    (next b).run
  | inClass scope body next => do
    let outcome ← SessionM.attempt (SessionM.inClass scope body.run)
    (next outcome).run
  | inMethod scope body next => do
    let outcome ← SessionM.attempt (SessionM.inMethod scope body.run)
    (next outcome).run

/-- The log of a program that is run on a session. -/
def log {α : Type} : Program α → Session → Log
  | done _, _ => .nil
  | step act _ next, s =>
    match act s with
    | .ok b s' => (next b).log s'
    | .error _ _ => .nil
  | inClass scope body next, s =>
    let inner := body.log (s.openClass scope)
    match SessionM.inClass scope body.run s with
    | .ok b s' => .ofClass scope true inner ((next (.ok b)).log s')
    | .error e s' => .ofClass scope false inner ((next (.error e)).log s')
  | inMethod scope body next, s =>
    let inner := body.log (s.openMethod scope).2
    match SessionM.inMethod scope body.run s with
    | .ok _ s' =>
      .ofMethod (scope.made (body.run (s.openMethod scope).2)) inner ((next (.ok ())).log s')
    | .error e s' => .ofMethod none inner ((next (.error e)).log s')

end Program

/-- A class that was entered: what has been made of it, and whether it succeeded. -/
structure ClassCall where
  /-- The class with the methods that succeeded in it. -/
  code : ClassCode
  /-- Whether all of what was done in it succeeded, or all that failed was caught. -/
  succeeded : Bool
deriving DecidableEq

namespace Log

/-- The methods that succeeded outside of the classes of the log, in the order in which they were
finished. -/
def methods : Log → List MethodCode
  | nil => []
  | ofClass _ _ _ rest => rest.methods
  | ofMethod made inner rest => inner.methods ++ (made.toList ++ rest.methods)

/-- The classes in the order in which they were entered, each with the methods that succeeded while
it was the innermost class. -/
def classes : Log → List ClassCall
  | nil => []
  | ofClass scope succeeded inner rest =>
    { code := ClassScope.done { scope with methods := scope.methods ++ inner.methods }
      succeeded } :: (inner.classes ++ rest.classes)
  | ofMethod _ inner rest => inner.classes ++ rest.classes

/-- What was added to the session. -/
def additions : Log → Additions
  | nil => {}
  | ofClass scope succeeded inner rest => inner.additions.ofClass scope succeeded ++ rest.additions
  | ofMethod made inner rest =>
    inner.additions ++ { methods := made.toList } ++ rest.additions

@[simp] theorem methods_additions (log : Log) : log.additions.methods = log.methods := by
  induction log with
  | nil => rfl
  | ofClass scope succeeded inner rest ihinner ihrest =>
    rw [additions, methods, Additions.methods_append, ihrest]
    rfl
  | ofMethod made inner rest ihinner ihrest =>
    rw [additions, methods, Additions.methods_append, Additions.methods_append, ihinner, ihrest,
      List.append_assoc]

theorem entered_additions (log : Log) :
    log.additions.entered = log.classes.map (·.code.name) := by
  induction log with
  | nil => rfl
  | ofClass scope succeeded inner rest ihinner ihrest =>
    rw [additions, classes, Additions.entered_append, ihrest, List.map_cons, List.map_append,
      Additions.ofClass, ihinner]
    rfl
  | ofMethod made inner rest ihinner ihrest =>
    rw [additions, classes, Additions.entered_append, Additions.entered_append, ihinner, ihrest,
      List.append_nil, List.map_append]

/-- A class is finished after those within it, and is found before them. -/
theorem finished_additions (log : Log) :
    log.additions.finished.Perm ((log.classes.filter (·.succeeded)).map (·.code)) := by
  induction log with
  | nil => rfl
  | ofClass scope succeeded inner rest ihinner ihrest =>
    have hboth := (ihrest.append ihinner).trans List.perm_append_comm
    rw [← List.map_append, ← List.filter_append] at hboth
    rw [additions, classes, Additions.finished_append, Additions.ofClass, methods_additions]
    cases succeeded with
    | true => exact List.perm_middle.trans (hboth.cons _)
    | false => exact hboth
  | ofMethod made inner rest ihinner ihrest =>
    rw [additions, classes, Additions.finished_append, Additions.finished_append, List.nil_append,
      List.filter_append, List.map_append]
    exact (ihrest.append ihinner).trans List.perm_append_comm

end Log

namespace Program

/-- However a program ends, what its log says was added to the session. -/
theorem gained_run {α : Type} (p : Program α) (s : Session) :
    Ensures p.run s (fun _ s' ↦ s.Gained (p.log s).additions s')
      fun _ s' ↦ s.Gained (p.log s).additions s' := by
  induction p generalizing s with
  | done a => exact ensures_pure (.refl s)
  -- A step gains nothing, so only what comes after it counts.
  | step act quiet next ih =>
    rw [run, log]
    cases hact : act s with
    | ok b s' =>
      have hs' := (quiet.run s).of_ok hact
      have hrest : ∀ {s''}, s'.Gained ((next b).log s').additions s'' →
          s.Gained ((next b).log s').additions s'' := by
        intro s'' h
        have h := hs'.trans h
        rwa [Additions.nothing_append] at h
      exact ensures_bind_of_ok hact ((ih b s').mono (fun _ _ ↦ hrest) fun _ _ ↦ hrest)
    | error e s' => exact ensures_of_error (bind_eq_of_error hact) ((quiet.run s).of_error hact)
  -- Whether the class has failed or not, it has been entered; the program goes on either way.
  | inClass scope body next ihbody ihnext =>
    have hclass := SessionM.gained_inClass (ihbody (s.openClass scope))
    rw [run, log]
    cases hrun : SessionM.inClass scope body.run s with
    | ok b s' =>
      have hs' := hclass.of_ok hrun
      refine SessionM.ensures_attempt_bind (ensures_of_ok hrun ?_)
      exact (ihnext (.ok b) s').mono (fun _ _ h ↦ hs'.trans h) fun _ _ h ↦ hs'.trans h
    | error e s' =>
      have hs' := hclass.of_error hrun
      refine SessionM.ensures_attempt_bind (ensures_of_error hrun ?_)
      exact (ihnext (.error e) s').mono (fun _ _ h ↦ hs'.trans h) fun _ _ h ↦ hs'.trans h
  | inMethod scope body next ihbody ihnext =>
    have hmethod := SessionM.gained_inMethod (ihbody (s.openMethod scope).2)
    rw [run, log]
    cases hrun : SessionM.inMethod scope body.run s with
    | ok _ s' =>
      have hs' := hmethod.of_ok hrun
      refine SessionM.ensures_attempt_bind (ensures_of_ok hrun ?_)
      exact (ihnext (.ok ()) s').mono (fun _ _ h ↦ hs'.trans h) fun _ _ h ↦ hs'.trans h
    | error e s' =>
      have hs' := (hmethod.of_error hrun).trans (.refl s')
      refine SessionM.ensures_attempt_bind (ensures_of_error hrun ?_)
      exact (ihnext (.error e) s').mono (fun _ _ h ↦ hs'.trans h) fun _ _ h ↦ hs'.trans h

end Program

/-! ### Units -/

namespace Session

variable {s s' : Session} {calls : List ClassCall}

/-- The tables of the session say of its classes what their calls do: the names are in the order in
which the classes were entered, and the code is that of those that succeeded. -/
structure Records (s : Session) (calls : List ClassCall) : Prop where
  entered : s.entered = calls.map (·.code.name)
  finished : s.finished.Perm ((calls.filter (·.succeeded)).map (·.code))

/-- A session that gains what a log says has a record of that, too. -/
theorem Records.gained (h : s.Records calls) {log : Log} (h' : s.Gained log.additions s') :
    s'.Records (calls ++ log.classes) where
  entered := by rw [h'.entered, h.entered, log.entered_additions, List.map_append]
  finished := by
    rw [h'.finished, List.filter_append, List.map_append]
    exact (log.finished_additions.append h.finished).trans List.perm_append_comm

/-- Classes of different names are found, each as it was finished. -/
theorem collect_eq_ok {cs finished : List ClassCode} (hnodup : (cs.map (·.name)).Nodup)
    (h : finished.Perm cs) : collect finished (cs.map (·.name)) = .ok cs := by
  obtain ⟨cs', hcs', hnames, hperm⟩ := collect_of_perm hnodup (h.map _)
  have hinj := List.inj_on_of_nodup_map hnodup
  have hlength : cs'.length = cs.length := (hperm.trans h).length_eq
  have heq : cs' = cs := by
    refine List.ext_getElem hlength fun i hi' hi ↦ ?_
    refine hinj ((hperm.trans h).mem_iff.1 (List.getElem_mem hi')) (List.getElem_mem hi) ?_
    have hat : (cs'.map (·.name))[i]? = (cs.map (·.name))[i]? := congrArg (·[i]?) hnames
    simpa [hi', hi] using hat
  rwa [heq] at hcs'

/-- Where every name leads to a class no two of them are equal, and each is the name of a class that
was finished. -/
theorem nodup_of_collect {names : List String} {finished cs : List ClassCode}
    (h : collect finished names = .ok cs) :
    names.Nodup ∧ ∀ name ∈ names, ∃ c ∈ finished, c.name = name := by
  induction names generalizing finished cs with
  | nil => exact ⟨List.nodup_nil, fun _ h ↦ absurd h List.not_mem_nil⟩
  | cons name names ih =>
    unfold collect at h
    split at h
    · cases h
    · next c hfind =>
      split at h
      · next cs' hcollect =>
        obtain ⟨hnodup, hmem⟩ := ih hcollect
        refine ⟨List.nodup_cons.2 ⟨fun hname ↦ ?_, hnodup⟩, List.forall_mem_cons.2 ⟨?_, ?_⟩⟩
        · obtain ⟨c', hc', rfl⟩ := hmem name hname
          simpa using (List.mem_filter.1 hc').2
        · exact ⟨c, List.mem_of_find?_eq_some hfind, by simpa using List.find?_some hfind⟩
        · intro name' hname'
          obtain ⟨c', hc', hcname⟩ := hmem name' hname'
          exact ⟨c', (List.mem_filter.1 hc').1, hcname⟩
      · cases h

/-- Putting the unit together succeeds exactly if nothing is open, each of the calls has succeeded
and no two were of the same name. The unit then has all of their classes, in order. -/
structure Reports (s : Session) (calls : List ClassCall) : Prop where
  succeeds_iff : (∃ unit, s.finish = .ok unit) ↔ s.scopes.depth = 0 ∧
    (∀ call ∈ calls, call.succeeded = true) ∧ (calls.map (·.code.name)).Nodup
  classes_eq : ∀ unit, s.finish = .ok unit → unit.classes = calls.map (·.code)

/-- What is on record is reported by putting the unit together. -/
theorem Records.reports (h : s.Records calls) : s.Reports calls := by
  have hnames : s.entered = (calls.map (·.code)).map (·.name) := by
    rw [h.entered, List.map_map]
    rfl
  -- A class that has failed or is entered again leaves an entry of its name without a class.
  have honly : ∀ unit, s.finish = .ok unit → (calls.map (·.code.name)).Nodup ∧
      ∀ call ∈ calls, call.succeeded = true := by
    intro unit hunit
    obtain ⟨hnodup, hmem⟩ := nodup_of_collect (collect_of_finish hunit).2
    rw [h.entered] at hnodup hmem
    refine ⟨hnodup, fun call hcall ↦ ?_⟩
    obtain ⟨c, hc, hname⟩ := hmem _ (List.mem_map_of_mem hcall)
    obtain ⟨call', hcall', rfl⟩ := List.mem_map.1 (h.finished.mem_iff.1 hc)
    obtain ⟨hcall', hsucceeded⟩ := List.mem_filter.1 hcall'
    obtain rfl := List.inj_on_of_nodup_map hnodup hcall' hcall hname
    exact hsucceeded
  have hcollect : (∀ call ∈ calls, call.succeeded = true) → (calls.map (·.code.name)).Nodup →
      collect s.finished s.entered = .ok (calls.map (·.code)) := by
    intro hall hnodup
    have hfinished := h.finished
    rw [List.filter_eq_self.2 hall] at hfinished
    rw [hnames]
    exact collect_eq_ok (by rwa [← hnames, h.entered]) hfinished
  refine ⟨⟨fun ⟨unit, hunit⟩ ↦ ?_, fun ⟨hdepth, hall, hnodup⟩ ↦ ?_⟩, fun unit hunit ↦ ?_⟩
  · exact ⟨(collect_of_finish hunit).1, (honly unit hunit).2, (honly unit hunit).1⟩
  · refine ⟨⟨calls.map (·.code)⟩, ?_⟩
    rw [finish, if_pos hdepth, hcollect hall hnodup]
    rfl
  · obtain ⟨hnodup, hall⟩ := honly unit hunit
    have hclasses := (collect_of_finish hunit).2
    rw [hcollect hall hnodup] at hclasses
    exact (Except.ok.inj hclasses).symm

end Session

/-- However a program ends, the session reports the classes of its log, behind those that it had
entered before. -/
theorem Program.reports_run {α : Type} (p : Program α) {s : Session} {earlier : List ClassCall}
    (h : s.Records earlier) :
    Ensures p.run s (fun _ s' ↦ s'.Reports (earlier ++ (p.log s).classes))
      fun _ s' ↦ s'.Reports (earlier ++ (p.log s).classes) :=
  (p.gained_run s).mono (fun _ _ h' ↦ (h.gained h').reports) fun _ _ h' ↦ (h.gained h').reports

/-- A class with a method that fails and is passed over, and with one that has a class within it. -/
def Program.forgiving : Program Unit :=
  .inClass { cls := { name := "Outer" } }
    (.inMethod { name := "broken" }
      (.step (throw (.misuse {} .localOutsideMethod)) (SessionM.quiet_throw _) .done)
      fun _ ↦ .inMethod { name := "main" }
        (.inClass { cls := { name := "Inner" } }
          (.inMethod { name := "f" } (.done { instructions := [.returnVoid], maxStack := 0 }) .done)
          fun _ ↦ .done { instructions := [.returnVoid], maxStack := 0 })
        .done)
    fun _ ↦ .done ()

/-- The program starts with nothing on record, and its unit can be put together although a method
has failed on the way. -/
theorem Program.reports_run_forgiving :
    ({ classes := .empty } : Session).Records [] ∧
      ∃ s' unit, forgiving.run { classes := .empty } = .ok () s' ∧ s'.finish = .ok unit ∧
        unit.classes.map (fun c ↦ (c.name, c.methods.map (·.name))) =
          [("Outer", ["main"]), ("Inner", ["f"])] := by
  have hrecords : ({ classes := .empty } : Session).Records [] := ⟨rfl, .refl _⟩
  have hreports := reports_run forgiving hrecords
  cases hrun : forgiving.run { classes := .empty } with
  | error e s' => cases hrun
  | ok _ s' =>
    have hs' := hreports.of_ok hrun
    obtain rfl := (EStateM.Result.ok.inj hrun).2
    obtain ⟨unit, hunit⟩ := hs'.succeeds_iff.2 ⟨rfl, by decide, by decide⟩
    refine ⟨hrecords, _, unit, rfl, hunit, ?_⟩
    rw [hs'.classes_eq unit hunit]
    decide

end ScriptBytecode

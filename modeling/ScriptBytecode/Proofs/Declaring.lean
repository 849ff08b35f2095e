import Mathlib.Data.List.Basic
import ScriptBytecode.Compile.Declare
import ScriptBytecode.Proofs.Ensures
import ScriptBytecode.Proofs.Resolution
import ScriptBytecode.Proofs.Voids

/-!
# What declaring changes

Declaring a script enters its classes, type names and members into the tables of the session, and
leaves everything else in it alone. A class table grows by entries of names that it did not have, so
the classes of a script have names of their own: `Session.Declared` says so of a session and one in
which more was declared. If declaring fails, the program is at fault.

* `SessionM.Declares` says of an action which classes it declares;
* `declares_addClass`, `declares_addMember` and `declares_importClass` are its steps, and
  `declares_script` is the whole.

**What is tracked, and what is not.** Of the tables that declaring fills, only the names of classes
are followed here, together with the facts that nothing is opened, finished or emitted and that
constructors still have no result. Which members and type names there are afterwards is a subject of
its own, and needs the order of declarations; this does not.

**Distinct by refusal.** A class is refused under a name that is taken, be it by a class of the host
or by another one of the script. So the names of a script's classes are distinct for no other reason
than that declaring them has succeeded, and the list of them can be part of the statement
(`Session.Declared`).
-/

namespace ScriptBytecode

/-! ### Growing class tables -/

namespace ClassTable

variable {t t' : ClassTable}

/-- The names of the classes of a table. -/
def names (t : ClassTable) : List String := t.classes.map (·.name)

theorem contains_eq_false_iff {name : String} : t.contains name = false ↔ name ∉ t.names := by
  simp [contains, get?, names]

/-- A class is added behind all others, under a name of its own. -/
theorem register_eq_ok {e : ClassEntry} (h : t.register e = .ok t') :
    e.name ∉ t.names ∧ t'.classes = t.classes ++ [e] := by
  unfold register at h
  split at h
  · cases h
  · next hcontains =>
    split at h
    · cases h
    · split at h
      · cases h
      · obtain rfl := Except.ok.inj h
        exact ⟨contains_eq_false_iff.1 (Bool.eq_false_iff.2 hcontains), rfl⟩

/-- A member is added to the entry of its owner. -/
theorem addMember_eq_ok {m : Member} (h : t.addMember m = .ok t') :
    m.owner.name ∈ t.names ∧
      t'.classes = t.classes.map fun e ↦ if e.name == m.owner.name then e.addMember m else e := by
  unfold addMember at h
  split at h
  · cases h
  · next hcontains =>
    split at h
    · cases h
    · obtain rfl := Except.ok.inj h
      refine ⟨?_, rfl⟩
      by_cases hmem : m.owner.name ∈ t.names
      · exact hmem
      · rw [contains_eq_false_iff.2 hmem] at hcontains
        exact absurd rfl hcontains

/-- A class is registered under its name, behind the others. -/
theorem names_register {e : ClassEntry} (h : t.register e = .ok t') :
    t'.names = t.names ++ [e.name] := by
  simp [names, (register_eq_ok h).2]

/-- A member adds no name. -/
theorem names_addMember {m : Member} (h : t.addMember m = .ok t') : t'.names = t.names := by
  unfold names
  rw [(addMember_eq_ok h).2, List.map_map]
  refine List.map_congr_left fun e _ ↦ ?_
  dsimp only [Function.comp]
  split <;> rfl

/-- A class without members adds no constructor with a result. -/
theorem VoidConstructors.register (h : t.VoidConstructors) {e : ClassEntry}
    (he : e.members = []) (hregister : t.register e = .ok t') : t'.VoidConstructors := by
  intro e' he' m hm hconstructor
  rw [(register_eq_ok hregister).2] at he'
  obtain he' | he' := List.mem_append.1 he'
  · exact h e' he' m hm hconstructor
  · obtain rfl := List.mem_singleton.1 he'
    rw [he] at hm
    cases hm

/-- A member leaves constructors without results if it has none as a constructor. -/
theorem VoidConstructors.addMember (h : t.VoidConstructors) {m : Member}
    (hm : m.flags.isConstructor = true → m.returnType = .void)
    (hadd : t.addMember m = .ok t') : t'.VoidConstructors := by
  intro e' he' m' hm' hconstructor
  rw [(addMember_eq_ok hadd).2] at he'
  obtain ⟨e, he, rfl⟩ := List.mem_map.1 he'
  split at hm'
  · obtain hm' | hm' := List.mem_append.1 hm'
    · exact h e he m' hm' hconstructor
    · obtain rfl := List.mem_singleton.1 hm'
      exact hm hconstructor
  · exact h e he m' hm' hconstructor

end ClassTable

/-! ### Declaring -/

/-- Between the sessions classes of the given names were declared, and nothing was compiled. -/
structure Session.Declared (s : Session) (names : List String) (s' : Session) : Prop where
  scopes : s'.scopes = s.scopes
  options : s'.options = s.options
  entered : s'.entered = s.entered
  finished : s'.finished = s.finished
  names_eq : s'.classes.names = s.classes.names ++ names
  nodup : names.Nodup
  fresh : ∀ name ∈ names, name ∉ s.classes.names
  constructors : s.classes.VoidConstructors → s'.classes.VoidConstructors
  types : s.types.VoidsNamed → s'.types.VoidsNamed

namespace Session.Declared

variable {s s' s'' : Session} {names names' : List String}

/-- Nothing is declared where the class table stays as it is. -/
theorem nothing (s : Session) {types : TypeTable} (h : s.types.VoidsNamed → types.VoidsNamed) :
    s.Declared [] { s with types } :=
  ⟨rfl, rfl, rfl, rfl, by simp, .nil, nofun, fun h ↦ h, h⟩

theorem refl (s : Session) : s.Declared [] s := nothing s fun h ↦ h

/-- What is declared later adds to what was declared before. -/
theorem trans (h : s.Declared names s') (h' : s'.Declared names' s'') :
    s.Declared (names ++ names') s'' where
  scopes := h'.scopes.trans h.scopes
  options := h'.options.trans h.options
  entered := h'.entered.trans h.entered
  finished := h'.finished.trans h.finished
  names_eq := by rw [h'.names_eq, h.names_eq, List.append_assoc]
  nodup := by
    rw [List.nodup_append]
    refine ⟨h.nodup, h'.nodup, fun name hname name' hname' heq ↦ h'.fresh name' hname' ?_⟩
    rw [h.names_eq, ← heq]
    exact List.mem_append_right _ hname
  fresh name hname := by
    obtain hname | hname := List.mem_append.1 hname
    · exact h.fresh name hname
    · have hfresh := h'.fresh name hname
      rw [h.names_eq] at hfresh
      exact fun hmem ↦ hfresh (List.mem_append_left _ hmem)
  constructors hvoid := h'.constructors (h.constructors hvoid)
  types hvoids := h'.types (h.types hvoids)

end Session.Declared

namespace SessionM

/-- From any session the action declares classes of the given names. If it fails, the program is at
fault. -/
structure Declares {α : Type} (act : SessionM α) (names : List String) : Prop where
  run : ∀ s : Session, Ensures act s (fun _ s' ↦ s.Declared names s') fun e _ ↦
    e.isInternal = false

namespace Declares

variable {α β : Type} {names names' : List String}

/-- An action that does nothing declares nothing. -/
theorem pure (a : α) : Declares (pure a) [] :=
  ⟨fun s ↦ .refl s⟩

/-- Actions declare one after another. -/
theorem bind {act : SessionM α} {next : α → SessionM β} (h : Declares act names)
    (hnext : ∀ a, Declares (next a) names') : Declares (act >>= next) (names ++ names') := by
  constructor
  intro s
  refine ensures_bind (h.run s) fun a s' hs ↦ ?_
  exact ((hnext a).run s').imp fun _ _ hs' ↦ hs.trans hs'

/-- An action that declares nothing may come before one that does. -/
theorem after {act : SessionM α} {next : α → SessionM β} (h : Declares act [])
    (hnext : ∀ a, Declares (next a) names) : Declares (act >>= next) names :=
  h.bind hnext

/-- An action that declares nothing may come after one that does. -/
theorem before {act : SessionM α} {next : α → SessionM β} (h : Declares act names)
    (hnext : ∀ a, Declares (next a) []) : Declares (act >>= next) names :=
  List.append_nil names ▸ h.bind hnext

/-- To read the session declares nothing, and what fails is the fault of the program. -/
theorem query {read : Session → Except CompileError α} (h : ∀ s, Blameless (read s)) :
    Declares (query read) [] := by
  constructor
  intro s
  exact ensures_query (fun _ _ ↦ .refl s) (h s).isInternal_eq_false

/-- For each of several things, what it declares is declared. -/
theorem forM {f : α → SessionM PUnit} {name : α → List String}
    (h : ∀ a, Declares (f a) (name a)) (as : List α) : Declares (as.forM f) (as.flatMap name) := by
  induction as with
  | nil => exact pure _
  | cons a as ih => exact (h a).bind fun _ ↦ ih

/-- Actions that declare nothing declare nothing one after another. -/
theorem forM_nil {f : α → SessionM PUnit} (h : ∀ a, Declares (f a) []) (as : List α) :
    Declares (as.forM f) [] := by
  have hnil : as.flatMap (fun _ ↦ ([] : List String)) = [] := by simp
  exact hnil ▸ forM h as

end Declares

/-! ### Single entries -/

/-- An import declares no class. -/
theorem declares_importClass (short : String) (asName : Option String) (full : String)
    (span : Span) : Declares (importClass short asName full span) [] := by
  constructor
  intro s
  have himport : Ensures (ofExcept
      (s.types.importClass s.classes (short :: asName.toList) full span)) s
      (fun r s' ↦ (s.types.VoidsNamed → r.2.VoidsNamed) ∧ s' = s)
      (fun e _ ↦ e.isInternal = false) :=
    ensures_ofExcept (fun _ hr ↦ ⟨fun hvoids ↦ hvoids.importClass hr, rfl⟩)
      (Blameless.importClass ..).isInternal_eq_false
  refine ensures_get_bind (ensures_bind himport ?_)
  rintro ⟨machine, types⟩ _ ⟨hvoids, rfl⟩
  exact .nothing _ hvoids

/-- To give a class a type name declares nothing yet. -/
theorem declares_nameClass (name : String) : Declares (nameClass name) [] :=
  ⟨fun s ↦ .nothing s fun hvoids ↦ hvoids.insertClass name _⟩

/-- To register a class without members declares it. -/
theorem declares_addClass {e : ClassEntry} (he : e.members = []) (span : Span) :
    Declares (addClass e span) [e.name] := by
  constructor
  intro s
  refine ensures_get_bind ?_
  cases hregister : s.classes.register e with
  | error reason => exact ensures_throw_bind rfl
  | ok classes =>
    obtain ⟨hfresh, -⟩ := ClassTable.register_eq_ok hregister
    exact ⟨rfl, rfl, rfl, rfl, ClassTable.names_register hregister, by simp, by simpa using hfresh,
      fun hvoid ↦ hvoid.register he hregister, fun hvoids ↦ hvoids⟩

/-- To register a member declares no class. -/
theorem declares_addMember {m : Member} (hm : m.flags.isConstructor = true → m.returnType = .void)
    (span : Span) : Declares (addMember m span) [] := by
  constructor
  intro s
  refine ensures_get_bind ?_
  cases hadd : s.classes.addMember m with
  | error reason => exact ensures_throw_bind rfl
  | ok classes =>
    exact ⟨rfl, rfl, rfl, rfl, by simp [ClassTable.names_addMember hadd], .nil, nofun,
      fun hvoid ↦ hvoid.addMember hm hadd, fun hvoids ↦ hvoids⟩

theorem declares_supertypesOf (span : Span) (names : List String) :
    Declares (supertypesOf span names) [] := by
  induction names with
  | nil => exact .pure _
  | cons name names ih =>
    exact (Declares.query fun s ↦ .supertypeOf s name span).after fun _ ↦ ih.after fun _ ↦ .pure _

/-! ### Declarations -/

theorem declares_import (d : Declaration) : Declares (declareImport d) [] := by
  cases d with
  | importDecl full asName span =>
    exact (declares_importClass (simpleName full) asName full span).after fun _ ↦ .pure _
  | _ => exact .pure _

/-- Of the declarations, those of classes declare one. -/
theorem declares_class (d : Declaration) : Declares (declareClass d) d.className?.toList := by
  cases d with
  | classDecl name superclass interfaces span =>
    have hrest : ∀ superclass : ClassRef, Declares (do
        let interfaces ← supertypesOf span interfaces
        addClass
          { cls := { name }, superclass := some superclass.name
            interfaces := interfaces.map (·.name) } span) [name] := fun superclass ↦
      (declares_supertypesOf span interfaces).after fun _ ↦ declares_addClass rfl span
    cases superclass with
    | none => exact hrest .root
    | some superclass => exact (Declares.query fun s ↦ .supertypeOf s superclass span).after hrest
  | _ => exact .pure _

theorem declares_method (d : Declaration) : Declares (declareMethod d) [] := by
  cases d with
  | methodDecl owner name params returnType isStatic span =>
    refine (Declares.query fun s ↦ .paramTypes s params).after fun params ↦ ?_
    refine (Declares.query fun s ↦ .typeOf s returnType span).after fun returnType ↦ ?_
    exact declares_addMember (fun h ↦ by cases h) span
  | _ => exact .pure _

theorem declares_constructor (d : Declaration) : Declares (declareConstructor d) [] := by
  cases d with
  | constructorDecl owner params span =>
    refine (Declares.query fun s ↦ .paramTypes s params).after fun params ↦ ?_
    exact declares_addMember (fun _ ↦ rfl) span
  | _ => exact .pure _

theorem declares_defaultConstructor (owners : List String) (d : Declaration) :
    Declares (declareDefaultConstructor owners d) [] := by
  cases d with
  | classDecl name superclass interfaces span =>
    have hadd : Declares (addMember (.constructor { name } []) span) [] :=
      declares_addMember (fun _ ↦ rfl) span
    show Declares (if owners.contains name then Pure.pure () else _) []
    by_cases howner : owners.contains name = true
    · rw [if_pos howner]
      exact .pure _
    · rw [if_neg howner]
      exact hadd
  | _ => exact .pure _

/-- A script declares its own class and the classes within it, all of them under different names. -/
theorem declares_script (script : Script) :
    Declares (declareScript script)
      (script.name :: script.declarations.filterMap (·.className?)) := by
  have hclasses : Declares (script.declarations.forM declareClass)
      (script.declarations.filterMap (·.className?)) := by
    rw [List.filterMap_eq_flatMap_toList]
    exact .forM declares_class _
  constructor
  intro s
  refine ensures_get_bind ?_
  refine ((Declares.forM_nil (fun p ↦ ?_) _).after fun _ ↦ ?_).run s
  · exact (declares_importClass p.1 none p.2 .unknown).after fun _ ↦ .pure _
  refine (declares_nameClass script.name).after fun _ ↦ ?_
  refine (Declares.forM_nil declares_nameClass _).after fun _ ↦ ?_
  refine (Declares.forM_nil declares_import _).after fun _ ↦ ?_
  refine (declares_addClass (e := .ofClass script.name) rfl script.span).bind fun _ ↦ ?_
  refine hclasses.before fun _ ↦ ?_
  refine (declares_addMember (fun h ↦ by cases h) script.span).after fun _ ↦ ?_
  refine (Declares.forM_nil declares_method _).after fun _ ↦ ?_
  refine (Declares.forM_nil declares_constructor _).after fun _ ↦ ?_
  refine (declares_addMember (fun _ ↦ rfl) script.span).after fun _ ↦ ?_
  exact (Declares.forM_nil (declares_defaultConstructor _) _).after fun _ ↦ .pure _

end SessionM

end ScriptBytecode

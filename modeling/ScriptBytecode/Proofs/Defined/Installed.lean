import Mathlib.Data.List.Perm.Basic
import ScriptBytecode.Proofs.Declaring
import ScriptBytecode.Proofs.Lookups

/-!
# Installing what a script declares

Declaring a script settles first what type names stand for, and then enters classes and members into
the class table, one after another. From there on types stand for the same, since all classes that
are entered have type names already; so the rest comes down to installing what each definition
amounts to (`installs_script`), and fails where that cannot be done.

* `Script.registered` lists what is entered, in the order of the steps (`perm_registered` compares
  it with the definitions of the script);
* `SessionM.Installs` says of an action which definitions it installs, success and failure alike;
* `installs_declareClass`, `installs_declareMethod`, `installs_declareConstructor` and
  `installs_declareDefaultConstructor` are its steps, and `installs_script` puts them together.

**Why names come first.** A class may be mentioned before it is declared. So all classes get type
names in a first pass, and when supertypes and parameters are looked up in a second one, no entry
changes what a type stands for (`Session.Stands`). This is what makes the order of declarations a
matter of class table entries only.

**Success and failure alike.** `SessionM.Installs` says that the action succeeds exactly if the
definitions can be installed. With that, whether a script can be declared is a question about a list
of definitions and two tables (`installed?`), and can be settled without running any action.

**What is implied** stands among the rest of `Script.registered`: `main` before the methods that are
written, and the constructors that classes get behind those that are written, that of the script
first.
-/

namespace ScriptBytecode

/-! ### What is registered -/

namespace Declaration

/-- What is registered of a declaration when classes are. -/
def classPart : Declaration → List Definition
  | classDecl name superclass interfaces span =>
    [.written (classDecl name superclass interfaces span)]
  | _ => []

/-- What is registered of a declaration when methods are. -/
def methodPart : Declaration → List Definition
  | methodDecl owner name params returnType isStatic span =>
    [.written (methodDecl owner name params returnType isStatic span)]
  | _ => []

/-- What is registered of a declaration when constructors are. -/
def constructorPart : Declaration → List Definition
  | constructorDecl owner params span => [.written (constructorDecl owner params span)]
  | _ => []

/-- What is declared by an import; it is not registered. -/
def importPart : Declaration → List Definition
  | importDecl full asName span => [.written (importDecl full asName span)]
  | _ => []

/-- What is registered of a declaration when classes get the constructors that they do not
declare. -/
def defaultPart (owners : List String) : Declaration → List Definition
  | classDecl name .. => if owners.contains name then [] else [.implicitConstructor name]
  | _ => []

/-- Declarations are classes, methods, constructors and imports. -/
theorem perm_parts (ds : List Declaration) :
    (ds.flatMap (·.classPart) ++ (ds.flatMap (·.methodPart) ++ (ds.flatMap (·.constructorPart) ++
      ds.flatMap (·.importPart)))).Perm (ds.map .written) := by
  have hparts : (fun d : Declaration ↦
      d.classPart ++ (d.methodPart ++ (d.constructorPart ++ d.importPart))) =
      fun d ↦ [.written d] := by
    funext d
    cases d <;> rfl
  refine (((List.flatMap_append_perm ..).append_left _).append_left _).trans ?_
  refine ((List.flatMap_append_perm ..).append_left _).trans ?_
  refine (List.flatMap_append_perm ..).trans ?_
  rw [hparts, List.map_eq_flatMap]

/-- Classes get a constructor if none belongs to them. -/
theorem flatMap_defaultPart (owners : List String) (ds : List Declaration) :
    ds.flatMap (·.defaultPart owners) =
      ((ds.filterMap (·.className?)).filter (!owners.contains ·)).map .implicitConstructor := by
  induction ds with
  | nil => rfl
  | cons d ds ih =>
    rw [List.flatMap_cons, ih]
    cases d with
    | classDecl name superclass interfaces span =>
      show (if owners.contains name then [] else _) ++ _ = ((name :: _).filter _).map _
      rw [List.filter_cons]
      cases owners.contains name <;> rfl
    | _ => rfl

end Declaration

namespace Script

/-- What is registered of a script, in order: the classes, the methods and the constructors. -/
def registered (s : Script) : List Definition :=
  [.written (.classDecl s.name none [] s.span)] ++ (s.declarations.flatMap (·.classPart) ++
    ([.main s.name] ++ (s.declarations.flatMap (·.methodPart) ++
      (s.declarations.flatMap (·.constructorPart) ++ ([.implicitConstructor s.name] ++
        s.declarations.flatMap (·.defaultPart (s.declarations.filterMap (·.constructorOwner?))))))))

/-- The classes that constructors of a script belong to. -/
def constructorOwners (s : Script) : List String := s.declarations.filterMap (·.constructorOwner?)

variable (script : Script)

/-- What is registered of a script, with its imports: its class with a constructor and `main`, all
that it declares, and constructors of the classes that none belongs to. -/
theorem perm_registered : (script.registered ++ script.declarations.flatMap (·.importPart)).Perm
    (.written (.classDecl script.name none [] script.span) :: .implicitConstructor script.name ::
      .main script.name :: (script.declarations.map .written ++
        ((script.declarations.filterMap (·.className?)).filter
          (!script.constructorOwners.contains ·)).map .implicitConstructor)) := by
  have hparts := Declaration.perm_parts script.declarations
  rw [← Declaration.flatMap_defaultPart]
  unfold registered constructorOwners
  rw [List.perm_iff_count] at hparts ⊢
  intro d
  have hcount := hparts d
  simp only [List.count_append, List.count_cons, List.count_nil] at hcount ⊢
  omega

variable {script}

/-- What is registered of a script is its class, a constructor or `main` for it, a declaration, or a
constructor for a class that none belongs to. -/
theorem registered_cases {d : Definition} (h : d ∈ script.registered) :
    d = .written (.classDecl script.name none [] script.span) ∨
      d = .implicitConstructor script.name ∨ d = .main script.name ∨
      (∃ d' ∈ script.declarations, d = .written d') ∨
      ∃ name ∈ script.declarations.filterMap (·.className?),
        name ∉ script.constructorOwners ∧ d = .implicitConstructor name := by
  have hmem := script.perm_registered.mem_iff.1 (List.mem_append_left _ h)
  simp only [List.mem_cons, List.mem_append, List.mem_map, List.mem_filter, Bool.not_eq_true',
    List.contains_eq_mem, decide_eq_false_iff_not] at hmem
  rcases hmem with hd | hd | hd | ⟨d', hd', heq⟩ | ⟨name, ⟨hname, howner⟩, heq⟩
  · exact .inl hd
  · exact .inr (.inl hd)
  · exact .inr (.inr (.inl hd))
  · exact .inr (.inr (.inr (.inl ⟨d', hd', heq.symm⟩)))
  · exact .inr (.inr (.inr (.inr ⟨name, hname, howner, heq.symm⟩)))

end Script

/-! ### Installing -/

/-- A member changes no reference to a class. -/
theorem ClassTable.classRef?_addMember {t t' : ClassTable} {m : Member}
    (h : t.addMember m = .ok t') (name : String) : t'.classRef? name = t.classRef? name := by
  have hsame : (fun e : ClassEntry ↦ e.name == name) ∘
      (fun e : ClassEntry ↦ if e.name == m.owner.name then e.addMember m else e) =
      fun e ↦ e.name == name := by
    funext e
    dsimp only [Function.comp]
    split <;> rfl
  unfold classRef? ClassTable.get?
  rw [(addMember_eq_ok h).2, List.find?_map, hsame]
  cases t.classes.find? (·.name == name) with
  | none => rfl
  | some e =>
    dsimp only [Option.map]
    split <;> rfl

/-- The table with an item added to it. -/
def ClassTable.install (t : ClassTable) : Item → Except RegistrationError ClassTable
  | .ofClass header => t.register header
  | .ofMember m => t.addMember m

/-- The table with what the definitions amount to, if type names stand for what `classes` and
`types` say. -/
def installed? (classes : ClassTable) (types : TypeTable) (ds : List Definition) (t : ClassTable) :
    Option ClassTable := do
  let items ← ds.mapM (Definition.items? classes types)
  (items.flatten.foldlM ClassTable.install t).toOption

section Installed

variable {classes : ClassTable} {types : TypeTable} {ds ds' : List Definition} {t t' : ClassTable}

/-- A list of definitions is installed part by part, each part over what the part before has
left. -/
theorem installed?_append : installed? classes types (ds ++ ds') t =
    (installed? classes types ds t).bind (installed? classes types ds') := by
  unfold installed?
  rw [List.mapM_append]
  cases ds.mapM (Definition.items? classes types) with
  | none => rfl
  | some items =>
    cases ds'.mapM (Definition.items? classes types) with
    | none => cases h : items.flatten.foldlM ClassTable.install t <;> simp [h]
    | some items' =>
      show ((items ++ items').flatten.foldlM ClassTable.install t).toOption = _
      rw [List.flatten_append, List.foldlM_append]
      show _ = (items.flatten.foldlM ClassTable.install t).toOption.bind _
      cases items.flatten.foldlM ClassTable.install t <;> rfl

/-- A single definition installs the items that it amounts to, and fails where they cannot be
entered. -/
theorem installed?_singleton (d : Definition) : installed? classes types [d] t =
    (d.items? classes types).bind fun items ↦ (items.foldlM ClassTable.install t).toOption := by
  unfold installed?
  rw [List.mapM_cons]
  cases d.items? classes types with
  | none => rfl
  | some items =>
    show ([items].flatten.foldlM ClassTable.install t).toOption = _
    rw [List.flatten_singleton]
    rfl

/-- What is installed depends on what types stand for, and on nothing else. -/
theorem installed?_congr {classes' : ClassTable} {types' : TypeTable}
    (h : ∀ type, types.resolve? classes type = types'.resolve? classes' type) :
    installed? classes types = installed? classes' types' := by
  have hitems : Definition.items? classes types = Definition.items? classes' types' :=
    funext (Definition.items?_congr h)
  funext ds t
  unfold installed?
  rw [hitems]

end Installed

/-- Types stand for what the tables say. -/
structure Session.Stands (classes : ClassTable) (types : TypeTable) (s : Session) : Prop where
  types_eq : s.types = types
  reads : ∀ type, types.resolve? s.classes type = types.resolve? classes type

namespace Session.Stands

variable {classes : ClassTable} {types : TypeTable} {s : Session}

theorem refl (s : Session) : s.Stands s.classes s.types := ⟨rfl, fun _ ↦ rfl⟩

/-- A definition is installed as what it amounts to in the session. -/
theorem installed?_single (hs : s.Stands classes types) (d : Definition) (t : ClassTable) :
    installed? classes types [d] t =
      (d.items? s.classes s.types).bind fun items ↦
        (items.foldlM ClassTable.install t).toOption := by
  rw [installed?_singleton, hs.types_eq, d.items?_congr hs.reads]

/-- A definition that amounts to one item installs it. -/
theorem installed?_item (hs : s.Stands classes types) {d : Definition} {i : Item}
    (hitems : d.items? s.classes s.types = some [i]) :
    installed? classes types [d] s.classes = (s.classes.install i).toOption := by
  rw [hs.installed?_single, hitems]
  show (([i] : List Item).foldlM ClassTable.install s.classes).toOption = _
  rw [List.foldlM_cons]
  show (s.classes.install i >>= Pure.pure).toOption = _
  rw [bind_pure]

/-- What amounts to nothing that there is cannot be installed. -/
theorem installed?_eq_none (hs : s.Stands classes types) {d : Definition}
    (hitems : d.items? s.classes s.types = none) :
    installed? classes types [d] s.classes = none := by
  rw [hs.installed?_single, hitems]
  rfl

end Session.Stands

/-- Between the sessions the definitions were installed in the class table, and nothing else has
changed. -/
structure Session.Installed (classes : ClassTable) (types : TypeTable) (s : Session)
    (ds : List Definition) (s' : Session) : Prop where
  session : s' = { s with classes := s'.classes }
  stands : s'.Stands classes types
  installed : installed? classes types ds s.classes = some s'.classes

/-- What is installed in two steps is installed in one. -/
theorem Session.Installed.trans {classes : ClassTable} {types : TypeTable} {s s' s'' : Session}
    {ds ds' : List Definition} (h : s.Installed classes types ds s')
    (h' : s'.Installed classes types ds' s'') : s.Installed classes types (ds ++ ds') s'' where
  session := by rw [h'.session, h.session]
  stands := h'.stands
  installed := by
    rw [installed?_append, h.installed]
    exact h'.installed

namespace SessionM

/-- While types stand for what the tables say, the action installs the definitions; it fails if they
cannot be installed. -/
structure Installs {α : Type} (classes : ClassTable) (types : TypeTable) (act : SessionM α)
    (ds : List Definition) : Prop where
  run : ∀ {s : Session}, s.Stands classes types →
    Ensures act s (fun _ s' ↦ s.Installed classes types ds s') fun _ _ ↦
      installed? classes types ds s.classes = none

namespace Installs

variable {α β : Type} {classes : ClassTable} {types : TypeTable} {ds ds' : List Definition}

/-- An action that does nothing installs nothing. -/
theorem pure (a : α) : Installs classes types (pure a) [] := ⟨fun hs ↦ ⟨rfl, hs, rfl⟩⟩

/-- Actions install one after another. -/
theorem bind {act : SessionM α} {next : α → SessionM β} (h : Installs classes types act ds)
    (hnext : ∀ a, Installs classes types (next a) ds') :
    Installs classes types (act >>= next) (ds ++ ds') := by
  constructor
  intro s hs
  have hnone : installed? classes types ds s.classes = none →
      installed? classes types (ds ++ ds') s.classes = none := by
    intro hnone
    rw [installed?_append, hnone]
    rfl
  refine ensures_bind ((h.run hs).mono (fun _ _ h ↦ h) fun _ _ ↦ hnone) fun a s' hs' ↦ ?_
  refine ((hnext a).run hs'.stands).mono (fun _ _ hs'' ↦ hs'.trans hs'') fun _ _ hnone' ↦ ?_
  rw [installed?_append, hs'.installed]
  exact hnone'

/-- What can be installed is installed. -/
theorem exists_ok {act : SessionM α} (h : Installs classes types act ds) {s : Session}
    (hs : s.Stands classes types) {t : ClassTable}
    (ht : installed? classes types ds s.classes = some t) :
    ∃ a s', act s = .ok a s' ∧ s.Installed classes types ds s' ∧ s'.classes = t := by
  have hrun := h.run hs
  cases hact : act s with
  | error e s' => cases ht.symm.trans (hrun.of_error hact)
  | ok a s' =>
    have hinstalled := hrun.of_ok hact
    exact ⟨a, s', rfl, hinstalled, Option.some.inj (hinstalled.installed.symm.trans ht)⟩

/-- For each of several declarations, its part is installed. -/
theorem forM {f : Declaration → SessionM PUnit} {part : Declaration → List Definition}
    {decls : List Declaration} (h : ∀ d ∈ decls, Installs classes types (f d) (part d)) :
    Installs classes types (decls.forM f) (decls.flatMap part) := by
  induction decls with
  | nil => exact pure _
  | cons d decls ih =>
    exact (h d (List.mem_cons_self ..)).bind fun _ ↦ ih fun d hd ↦ h d (List.mem_cons_of_mem _ hd)

end Installs

/-! ### Single entries -/

section Entries

variable {classes : ClassTable} {types : TypeTable} {s : Session} {d : Definition}

/-- A class that has an entry among the type names is added without changing what types stand
for. -/
theorem ensures_addClass (hs : s.Stands classes types) {e : ClassEntry}
    (hnamed : (types.lookup? (.named e.name)).isSome)
    (hitems : d.items? s.classes s.types = some [.ofClass e]) (span : Span) :
    Ensures (addClass e span) s (fun _ s' ↦ s.Installed classes types [d] s') fun _ _ ↦
      installed? classes types [d] s.classes = none := by
  have hinstalled := hs.installed?_item hitems
  refine ensures_get_bind ?_
  cases hregister : s.classes.register e with
  | error reason =>
    refine ensures_throw_bind (hinstalled.trans ?_)
    show (s.classes.register e).toOption = none
    rw [hregister]
    rfl
  | ok t =>
    refine ⟨rfl, ⟨hs.types_eq, fun type ↦ ?_⟩, hinstalled.trans ?_⟩
    · refine Eq.trans ?_ (hs.reads type)
      refine TypeTable.resolve?_congr (fun _ ↦ rfl) (fun name hname ↦ ?_) type
      have hne : ¬e.name = name := by
        rintro rfl
        rw [hname] at hnamed
        cases hnamed
      show t.classRef? name = _
      unfold ClassTable.classRef? ClassTable.get?
      rw [(ClassTable.register_eq_ok hregister).2, List.find?_append]
      simp [hne]
    · show (s.classes.register e).toOption = some t
      rw [hregister]
      rfl

/-- To register a member installs the definition that amounts to it, or fails where that fails. -/
theorem ensures_addMember (hs : s.Stands classes types) {m : Member}
    (hitems : d.items? s.classes s.types = some [.ofMember m]) (span : Span) :
    Ensures (addMember m span) s (fun _ s' ↦ s.Installed classes types [d] s') fun _ _ ↦
      installed? classes types [d] s.classes = none := by
  have hinstalled := hs.installed?_item hitems
  refine ensures_get_bind ?_
  cases hadd : s.classes.addMember m with
  | error reason =>
    refine ensures_throw_bind (hinstalled.trans ?_)
    show (s.classes.addMember m).toOption = none
    rw [hadd]
    rfl
  | ok t =>
    refine ⟨rfl, ⟨hs.types_eq, fun type ↦ ?_⟩, hinstalled.trans ?_⟩
    · refine Eq.trans ?_ (hs.reads type)
      exact TypeTable.resolve?_congr (fun _ ↦ rfl)
        (fun name _ ↦ ClassTable.classRef?_addMember hadd name) type
    · show (s.classes.addMember m).toOption = some t
      rw [hadd]
      rfl

/-- To register a member installs the definition that amounts to it, in whatever class table. -/
theorem installs_addMember (classes : ClassTable) (types : TypeTable) {m : Member}
    (hitems : ∀ classes types, d.items? classes types = some [.ofMember m]) (span : Span) :
    Installs classes types (addMember m span) [d] :=
  ⟨fun hs ↦ ensures_addMember hs (hitems _ _) span⟩

end Entries

/-! ### Declarations of each kind -/

section Declarations

variable {classes : ClassTable} {types : TypeTable}

/-- To declare a class installs the class, if its name is a type name already. -/
theorem installs_declareClass {d : Declaration}
    (hnamed : ∀ name, d.className? = some name → (types.lookup? (.named name)).isSome) :
    Installs classes types (declareClass d) d.classPart := by
  cases d with
  | classDecl name superclass interfaces span =>
    constructor
    intro s hs
    let d : Definition := .written (.classDecl name superclass interfaces span)
    have hrest : ∀ c : ClassRef, s.types.superclass? s.classes superclass = some c → Ensures (do
        let interfaces ← supertypesOf span interfaces
        addClass
          { cls := { name }, superclass := some c.name
            interfaces := interfaces.map (·.name) } span) s
        (fun _ s' ↦ s.Installed classes types [d] s') fun _ _ ↦
          installed? classes types [d] s.classes = none := by
      intro c hc
      refine ensures_bind ((ensures_supertypesOf s span interfaces).mono (fun _ _ h ↦ h) ?_) ?_
      · intro _ _ hnone
        exact hs.installed?_eq_none (by simp [d, Definition.items?, Declaration.items?, hc, hnone])
      · rintro cs _ ⟨rfl, hcs⟩
        refine ensures_addClass (e := { cls := { name }, superclass := some c.name
                                        interfaces := cs.map (·.name) }) hs
                                          (hnamed name rfl) ?_ span
        simp [d, Definition.items?, Declaration.items?, hc, hcs]
    cases superclass with
    | none => exact hrest .root rfl
    | some superclass =>
      refine ensures_read_bind (s.toOption_supertypeOf superclass span) hrest fun hnone _ ↦ ?_
      exact hs.installed?_eq_none
        (by simp [Definition.items?, Declaration.items?, TypeTable.superclass?, hnone])
  | _ => exact .pure _

/-- To declare a method installs it. -/
theorem installs_declareMethod (classes : ClassTable) (types : TypeTable) (d : Declaration) :
    Installs classes types (declareMethod d) d.methodPart := by
  cases d with
  | methodDecl owner name params returnType isStatic span =>
    constructor
    intro s hs
    refine ensures_read_bind (s.toOption_paramTypes params) (fun ps hps ↦ ?_) fun hnone _ ↦ ?_
    · refine ensures_read_bind (s.toOption_typeOf returnType span) (fun r hr ↦ ?_) fun hnone _ ↦ ?_
      · refine ensures_addMember hs ?_ span
        simp [Definition.items?, Declaration.items?, hps, hr]
      · exact hs.installed?_eq_none (by simp [Definition.items?, Declaration.items?, hps, hnone])
    · exact hs.installed?_eq_none (by simp [Definition.items?, Declaration.items?, hnone])
  | _ => exact .pure _

/-- To declare a constructor installs it. -/
theorem installs_declareConstructor (classes : ClassTable) (types : TypeTable) (d : Declaration) :
    Installs classes types (declareConstructor d) d.constructorPart := by
  cases d with
  | constructorDecl owner params span =>
    constructor
    intro s hs
    refine ensures_read_bind (s.toOption_paramTypes params) (fun ps hps ↦ ?_) fun hnone _ ↦ ?_
    · refine ensures_addMember hs ?_ span
      simp [Definition.items?, Declaration.items?, hps]
    · exact hs.installed?_eq_none (by simp [Definition.items?, Declaration.items?, hnone])
  | _ => exact .pure _

/-- A class that no declared constructor belongs to gets one without parameters installed. -/
theorem installs_declareDefaultConstructor (classes : ClassTable) (types : TypeTable)
    (owners : List String) (d : Declaration) :
    Installs classes types (declareDefaultConstructor owners d) (d.defaultPart owners) := by
  cases d with
  | classDecl name superclass interfaces span =>
    show Installs classes types (if owners.contains name then Pure.pure () else _)
      (if owners.contains name then [] else _)
    split
    · exact .pure _
    · exact installs_addMember classes types (fun _ _ ↦ rfl) span
  | _ => exact .pure _

end Declarations

/-! ### A whole script -/

/-- The imports of the options. -/
def importOptions : SessionM PUnit := do
  (← get).options.imports.forM fun pair ↦ do
    let _ ← importClass pair.1 none pair.2 .unknown

/-- The part of declaring a script that settles what type names stand for. -/
def nameScript (script : Script) : SessionM PUnit := do
  nameClass script.name
  (script.declarations.filterMap (·.className?)).forM nameClass
  script.declarations.forM declareImport

/-- The part of declaring a script that enters classes and members. -/
def installScript (script : Script) : SessionM PUnit := do
  addClass (.ofClass script.name) script.span
  script.declarations.forM declareClass
  addMember
    { owner := { name := script.name }, name := mainName, params := [mainArgs]
      flags := { isStatic := true } } script.span
  script.declarations.forM declareMethod
  script.declarations.forM declareConstructor
  addMember (.constructor { name := script.name } []) script.span
  script.declarations.forM
    (declareDefaultConstructor (script.declarations.filterMap (·.constructorOwner?)))

/-- To declare a script is to bring in the options, to name what it declares, and to install it. -/
theorem declareScript_eq (script : Script) : ∃ count, declareScript script =
    (do importOptions
        nameScript script
        installScript script
        pure count) := by
  simp only [declareScript, importOptions, nameScript, installScript, bind_assoc]
  exact ⟨_, rfl⟩

/-- Once its classes have type names, what a script declares is installed. -/
theorem installs_script {script : Script} {types : TypeTable} (classes : ClassTable)
    (hnamed : ∀ name ∈ script.name :: script.declarations.filterMap (·.className?),
      (types.lookup? (.named name)).isSome) :
    Installs classes types (installScript script) script.registered := by
  have hclasses : Installs classes types (script.declarations.forM declareClass)
      (script.declarations.flatMap (·.classPart)) := by
    refine .forM fun d hd ↦ installs_declareClass fun name hname ↦ hnamed name ?_
    exact List.mem_cons_of_mem _ (List.mem_filterMap.2 ⟨d, hd, hname⟩)
  refine .bind ⟨fun hs ↦ ?_⟩ fun _ ↦ ?_
  · exact ensures_addClass hs (hnamed _ (List.mem_cons_self ..)) rfl script.span
  refine hclasses.bind fun _ ↦ ?_
  refine (installs_addMember _ _ (fun _ _ ↦ rfl) script.span).bind fun _ ↦ ?_
  refine (Installs.forM fun d _ ↦ installs_declareMethod _ _ d).bind fun _ ↦ ?_
  refine (Installs.forM fun d _ ↦ installs_declareConstructor _ _ d).bind fun _ ↦ ?_
  refine (installs_addMember _ _ (fun _ _ ↦ rfl) script.span).bind fun _ ↦ ?_
  exact .forM fun d _ ↦ installs_declareDefaultConstructor _ _ _ d

end SessionM

end ScriptBytecode

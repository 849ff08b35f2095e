import ScriptBytecode.Proofs.Moving.Scripts
import ScriptBytecode.Proofs.Recast.Installed

/-!
# Classes that a script has nothing to do with

A class of the host that neither the other classes nor the script mention does not change what the
script compiles to, even if it extends classes that the script uses: all that is asked of the class
table gets the same answer with it and without (`Compiler.compile_unrelated`).

While a script is declared, its classes and members go into a table with the class aside just as
well. From there on the table stays as it is, and the compilation is that of a session that knows
one class more.

* `Compiler.Unrelated` says which classes a compilation has nothing to do with;
* `onSession_nameScript` and `mirrors_importOptions` are the steps of declaring;
* `compile_unrelated` compares the two compilations.

**Each hypothesis excludes something that does make a difference.** A class by a known name cannot
be registered at all, and one that a known class extends would complete a hierarchy that was cut off
before. A script that writes the name of the class would be compiled differently, or refuse to
compile without it. And if a member has the signature of a member of the script, the script cannot
be declared (`Unrelated.signatures`).

**In one direction.** What compiles without the class compiles with it, to the same unit. A script
that needs the class is not a matter of this module.
-/

namespace ScriptBytecode

/-! ### Declaring -/

namespace Recast

variable {d : ClassEntry} {t t' : ClassTable}

theorem session_aside (s : Session) : (aside d t t').session s = { s with classes := t' } := by
  have hclassScope : ∀ c, (aside d t t').classScope c = c := fun c ↦
    congrArg (fun methods ↦ { c with methods }) (List.map_id _)
  have hclassCode : ∀ c, (aside d t t').classCode c = c := fun c ↦
    congrArg (fun methods ↦ { c with methods }) (List.map_id _)
  -- no method is changed, so nothing that is open or finished is
  have hframe : (aside d t t').frame = id := by
    funext frame
    cases frame with
    | ofClass c => exact congrArg Frame.ofClass (hclassScope c)
    | ofMethod m => rfl
  unfold session scopes
  rw [hframe, List.map_id, funext hclassCode]
  exact congrArg (fun finished ↦ ({ s with classes := t', finished } : Session)) (List.map_id _)

/-- An action that succeeds does so with the other table, too. -/
theorem eq_ok_of_mirrors {α : Type} {act : SessionM α} {s s' : Session} {a : α}
    {post : α → Session → Prop} (h : Mirrors (aside d t t').session act s post)
    (hok : act s = .ok a s') : act { s with classes := t' } = .ok a { s' with classes := t' } := by
  rw [← session_aside (d := d) (t := t), ← session_aside (d := d) (t := t) s', h.same, hok]
  rfl

theorem onSession_nameClass {name : String} (hne : name ≠ d.name) :
    (aside d t t').OnSession (SessionM.nameClass name) fun _ ↦ True := by
  refine ⟨fun hs ↦ ⟨rfl, trivial, hs.1, ?_, hs.2.frames⟩⟩
  have havoids : ∀ _ : String, d.name ∉ (MachineType.ofClass name).classNames := fun _ ↦
    ClassTable.Aside.notMem_classNames hne
  exact hs.2.types.insertClasses havoids [name]

end Recast

namespace ClassTable.Aside

open SessionM

variable {d : ClassEntry} {t t' : ClassTable} {script : Script} {s : Session}

/-- Other classes can be imported. -/
theorem onSession_importClass (h : Aside d t t') {full : String} (hfull : full ≠ d.name)
    (short : String) (asName : Option String) (span : Span) :
    (Recast.aside d t t').OnSession (do let _ ← importClass short asName full span)
      fun _ ↦ True :=
  (h.faithful.onSession_importClass (bne_iff_ne.2 hfull) short asName span).bind
    fun _ _ ↦ .pure trivial

theorem mirrors_importOptions (h : Aside d t t') (hs : (Recast.aside d t t').valid s)
    (hoptions : ∀ pair ∈ s.options.imports, pair.2 ≠ d.name) :
    Mirrors (Recast.aside d t t').session importOptions s fun _ s' ↦
      (Recast.aside d t t').valid s' := by
  have himports := Recast.Carries.forM fun pair hpair ↦
    h.onSession_importClass (hoptions pair hpair) pair.1 none .unknown
  exact .get_bind rfl ((himports.run hs).imp fun _ _ hs' ↦ hs'.2)

theorem onSession_nameScript (h : Aside d t t') (hname : script.name ≠ d.name)
    (hdeclarations : ∀ decl ∈ script.declarations, d.name ∉ decl.mentioned) :
    (Recast.aside d t t').OnSession (nameScript script) fun _ ↦ True := by
  have hclass : ∀ name ∈ script.declarations.filterMap (·.className?), name ≠ d.name := by
    intro name hmem
    obtain ⟨decl, hdecl, hclass⟩ := List.mem_filterMap.1 hmem
    cases decl with
    | classDecl name' superclass interfaces span =>
      obtain rfl := Option.some.inj hclass
      exact fun heq ↦ hdeclarations _ hdecl (heq ▸ List.mem_cons_self ..)
    | _ => cases hclass
  have himport : ∀ decl ∈ script.declarations,
      (Recast.aside d t t').OnSession (declareImport decl) fun _ ↦ True := by
    intro decl hdecl
    cases decl with
    | importDecl full asName span =>
      have hfull : full ≠ d.name := fun heq ↦
        hdeclarations _ hdecl (heq ▸ List.mem_cons_self ..)
      exact h.onSession_importClass hfull (simpleName full) asName span
    | _ => exact .pure trivial
  refine (Recast.onSession_nameClass hname).bind fun _ _ ↦ ?_
  refine (Recast.Carries.forM fun name hmem ↦ ?_).bind fun _ _ ↦ .forM himport
  exact Recast.onSession_nameClass (hclass name hmem)

/-- What type names stand for is settled alike with the class aside. -/
theorem mirrors_names (h : Aside d t t') (hs : (Recast.aside d t t').valid s)
    (hoptions : ∀ pair ∈ s.options.imports, pair.2 ≠ d.name) (hname : script.name ≠ d.name)
    (hbody : script.body.all (Node.names (· != d.name)) = true) :
    Mirrors (Recast.aside d t t').session (do importOptions; nameScript script) s fun _ s' ↦
      (Recast.aside d t t').valid s' := by
  have hdeclarations : ∀ decl ∈ script.declarations, d.name ∉ decl.mentioned := fun decl hdecl ↦
    (Node.declaresOnly_avoiding d.name).of_mem hbody hname hdecl
  refine (h.mirrors_importOptions hs hoptions).bind fun _ s' hs' ↦ ?_
  exact ((h.onSession_nameScript hname hdeclarations).run hs').imp fun _ _ hs'' ↦ hs''.2

/-- A script that can be declared can be declared with the class aside, unless one of its members
has a signature of the class. -/
theorem declareScript (h : Aside d t t') (hs : (Recast.aside d t t').valid s)
    (hoptions : ∀ pair ∈ s.options.imports, pair.2 ≠ d.name) (hname : script.name ≠ d.name)
    (hbody : script.body.all (Node.names (· != d.name)) = true) {count : DeclarationCount}
    {u : Session} (hu : SessionM.declareScript script s = .ok count u)
    (hapart : ∀ m ∈ u.classes.members, m ∉ t.members →
      m.fingerprint ∉ d.members.map Member.fingerprint) :
    ∃ classes, SessionM.declareScript script { s with classes := t' } =
        .ok count { u with classes } ∧
      Aside d u.classes classes ∧ u.Avoids d.name := by
  -- names are settled while the classes stay as they are, then the classes grow
  obtain ⟨count', heq⟩ := declareScript_eq script
  have hsplit : (do importOptions; nameScript script; installScript script; pure count') = (do
      (do importOptions; nameScript script)
      (do installScript script; pure count')) := by
    simp only [bind_assoc]
  rw [heq, hsplit] at hu
  rw [heq, hsplit]
  obtain ⟨_, s₁, hnames, hu⟩ := exists_of_bind_eq_ok hu
  obtain ⟨_, s₂, hinstall, hu⟩ := exists_of_bind_eq_ok hu
  cases hu
  have hmirrors := h.mirrors_names hs hoptions hname hbody
  obtain ⟨hclasses, havoids⟩ := hmirrors.yields.of_ok hnames
  have hnames' := Recast.eq_ok_of_mirrors hmirrors hnames
  -- what type names stand for is settled, and the same in both sessions
  have hnamed : ∀ name ∈ script.name :: script.declarations.filterMap (·.className?),
      (s₁.types.lookup? (.named name)).isSome := by
    obtain ⟨_, s₀, -, hrest⟩ := exists_of_bind_eq_ok hnames
    exact ((yields_named script s₀).of_ok hrest).2
  have hinstalled := ((installs_script s₁.classes hnamed).run (.refl s₁)).of_ok hinstall
  have hinstalls := hinstalled.installed
  rw [hclasses] at hinstalls
  obtain ⟨classes, hclasses', haside⟩ := h.installed? havoids.types
    (fun definition hmem ↦ Script.notMem_mentioned hname hbody hmem) hinstalls hapart
  obtain ⟨_, u', hinstall', hinstalled', rfl⟩ :=
    (installs_script t' hnamed).exists_ok (.refl { s₁ with classes := t' }) hclasses'
  refine ⟨u'.classes, ?_, haside, ?_⟩
  · rw [bind_eq_of_ok hnames', bind_eq_of_ok hinstall', hinstalled'.session, hinstalled.session]
    rfl
  · rw [hinstalled.session]
    exact ⟨havoids.types, havoids.frames⟩

/-- What is compiled in such a session is compiled with the class aside. -/
theorem compileScript (h : Aside d t t') (hs : (Recast.aside d t t').valid s)
    (hname : script.name ≠ d.name) (hbody : script.body.all (Node.names (· != d.name)) = true)
    {u : Session} (hu : SessionM.compileScript script s = .ok () u) :
    SessionM.compileScript script { s with classes := t' } = .ok () { u with classes := t' } :=
  Recast.eq_ok_of_mirrors ((h.faithful.compileScript ((keepsMethods d t t').defines h.faithful)
    (bne_iff_ne.2 hname) hbody).run hs) hu

end ClassTable.Aside

/-! ### Compilations -/

namespace ClassTable

/-- What is tried takes no node away. -/
theorem nodes_subset_run {t : ClassTable} (ht : t.Built) (as : List Addition) :
    t.hierarchy.nodes ⊆ (t.run as).hierarchy.nodes := by
  induction as generalizing t with
  | nil => exact List.Subset.refl _
  | cons a as ih =>
    refine List.Subset.trans ?_ (ih (ht.after a))
    rcases ht.after_cases a with heq | ⟨e, -, heq⟩ | ⟨m, heq⟩
    · rw [heq]
      exact List.Subset.refl _
    · rw [heq]
      exact fun _ hmem ↦ Hierarchy.mem_nodes_addClass.2 (.inl hmem)
    · rw [heq]
      exact List.Subset.refl _

end ClassTable

namespace Compiler

/-- The class is mentioned neither by the known classes, nor by what is imported, nor by the script,
whose members have none of its signatures. -/
structure Unrelated (c : Compiler) (d : ClassEntry) (root : Node) : Prop where
  /-- It is neither a known class nor a supertype of one. -/
  nodes : d.name ∉ c.classes.hierarchy.nodes
  /-- No member of a known class mentions it. -/
  members : ∀ m ∈ c.classes.members, d.name ∉ m.classNames
  /-- The options do not import it. -/
  imports : ∀ pair ∈ c.options.imports, pair.2 ≠ d.name
  /-- No name of a type or class that the script is written with is its name. -/
  script : root.all (Node.names (· != d.name)) = true
  /-- No member that is new once the script is declared has the signature of one of its members. -/
  signatures : ∀ script count s, root.script? = some script →
    SessionM.declareScript script c.start = .ok count s →
    ∀ m ∈ s.classes.members, m ∉ c.classes.members →
      m.fingerprint ∉ d.members.map Member.fingerprint

variable {c : Compiler} {d : ClassEntry} {t' : ClassTable} {root : Node} {unit : UnitCode}

theorem Unrelated.aside (h : c.Unrelated d root) {additions : List ClassTable.Addition}
    (hclasses : c.classes = ClassTable.standard.run additions)
    (hregister : c.classes.register d = .ok t') : ClassTable.Aside d c.classes t' := by
  have hstandard : [objectName, stringName] ⊆ ClassTable.standard.hierarchy.nodes := by
    decide +kernel
  have hnodes : [objectName, stringName] ⊆ c.classes.hierarchy.nodes := by
    rw [hclasses]
    exact List.Subset.trans hstandard
      (ClassTable.nodes_subset_run ClassTable.built_standard additions)
  have hbuilt : c.classes.Built := hclasses ▸ ClassTable.built_standard.run additions
  obtain ⟨haccepts, rfl⟩ := (ClassTable.register_eq_ok_iff hbuilt.closed).1 hregister
  exact ⟨hbuilt.consistent, haccepts, h.nodes, hnodes (by simp), hnodes (by simp), h.members,
    .refl _⟩

/-- Over standard classes to which others may have been added, a script that compiles does so to the
same unit after one more class was registered, if it has nothing to do with that class and the
others do not mention it. -/
theorem compile_unrelated {additions : List ClassTable.Addition}
    (hclasses : c.classes = ClassTable.standard.run additions)
    (hregister : c.classes.register d = .ok t') (hunrelated : c.Unrelated d root)
    (hunit : c.compile root = .ok unit) :
    Compiler.compile { c with classes := t' } root = .ok unit := by
  have haside := hunrelated.aside hclasses hregister
  cases root with
  | script name body span =>
    obtain ⟨hself, hbody⟩ := Bool.and_eq_true_iff.1 hunrelated.script
    have hname :
      name ≠ d.name := bne_iff_ne.1 (List.all_eq_true.1 hself name (List.mem_cons_self ..))
    obtain ⟨count, s, s', hdeclares, hcompiles, hfinishes⟩ := made_of_compile rfl hunit
    have hstart : (Recast.aside d c.classes t').valid c.start :=
      ⟨rfl, TypeTable.avoids_builtin haside.ne_root haside.ne_string,
        fun _ hframe ↦ absurd hframe List.not_mem_nil⟩
    obtain ⟨classes, hdeclares', haside', havoids⟩ := haside.declareScript hstart
      hunrelated.imports hname hbody hdeclares (hunrelated.signatures _ count s rfl hdeclares)
    -- from here on the table stays as it is
    have hcompiles' := haside'.compileScript ⟨rfl, havoids⟩ hname hbody hcompiles
    exact compile_of_made rfl ⟨hdeclares', hcompiles', hfinishes⟩
  | _ => cases hunit

/-- A script that builds a string. -/
def building : Script where
  name := "Building"
  body :=
    let string := SourceType.named "string"
    let builder := Node.construct "java.lang.StringBuilder" []
    .sequence [.call builder "append" [.string "built"] (.named "java.lang.StringBuilder") {},
      .classDef "Label" none [] [.methodDef "text" [⟨"name", string, {}⟩] string
        (.readLocal "name" string {}) false {}] {}]

/-- A class of the host that extends the one that the script uses, with a member of the same
name. -/
def auditing : ClassEntry :=
  { ClassEntry.ofClass "host.AuditingBuilder" with
      superclass := some "java.lang.StringBuilder", interfaces := ["host.Auditing"] }
  |>.method "append" [.string] (.ofClass "host.AuditingBuilder")

/-- The script has nothing to do with the class, so it compiles to the same unit with it and
without. -/
theorem compile_building : ∃ t' unit, ClassTable.standard.register auditing = .ok t' ∧
    Compiler.compile {} (.script building.name building.body building.span) = .ok unit ∧
    Compiler.compile { classes := t' } (.script building.name building.body building.span) =
      .ok unit := by
  have hregisters : (ClassTable.standard.register auditing).toOption.any (fun _ ↦ true) = true := by
    decide +kernel
  have hcompiles : (Compiler.compile {}
      (.script building.name building.body building.span)).toOption.any (fun _ ↦ true) = true := by
    decide +kernel
  -- All members of the declared table were there before or have fingerprints that the class has
  -- not.
  have hsignatures : (match SessionM.declareScript building (Compiler.start {}) with
      | .ok _ s => s.classes.members.all fun m ↦ ClassTable.standard.members.contains m ||
        !(auditing.members.map Member.fingerprint).contains m.fingerprint
      | .error _ _ => false) = true := by decide +kernel
  have hunrelated : Unrelated {} auditing
      (.script building.name building.body building.span) := by
    refine ⟨?_, ?_, fun _ hpair ↦ absurd hpair List.not_mem_nil, by decide, ?_⟩
    · dsimp only
      decide +kernel
    · dsimp only
      decide +kernel
    · intro script count s hscript hdeclare m hm hnew hmem
      dsimp only at hnew
      obtain rfl : building = script := Option.some.inj hscript
      rw [hdeclare] at hsignatures
      rcases Bool.or_eq_true_iff.1 (List.all_eq_true.1 hsignatures m hm) with hold | happart
      · exact hnew (List.contains_iff_mem.1 hold)
      · rw [List.contains_iff_mem.2 hmem] at happart
        cases happart
  obtain ⟨t', hregister, -⟩ := exists_eq_ok_of_any hregisters
  obtain ⟨unit, hunit, -⟩ := exists_eq_ok_of_any hcompiles
  have hclasses : ({} : Compiler).classes = ClassTable.standard.run [] := by
    dsimp only [ClassTable.run, List.foldl]
  refine ⟨t', unit, hregister, hunit, compile_unrelated hclasses ?_ hunrelated hunit⟩
  dsimp only
  exact hregister

end Compiler

end ScriptBytecode

import Mathlib.Data.List.Perm.Basic
import ScriptBytecode.Proofs.Moving.Runs

/-!
# Bodies whose definitions are moved

Of the nodes of a body, the definitions of classes and methods may be moved: what such a node adds
to the session does not depend on the nodes before it, and it leaves the method that the body is
compiled into alone. All other nodes see just what the other nodes before them have done. So if
nodes are reordered in such a way that the other nodes stay in order, the body compiles to the same
code, and the same is added, in another order.

* `Node.Contributes` says what a movable node adds, wherever it stands (`contributes_of_node`);
* `Runs` is a run of a body of which it is known what the nodes have added; it is split into what
  moves and what stays (`Runs.split`), and put together again (`runs_of_split`);
* `Runs.perm` says that a body with nodes moved runs alike.

**Why definitions can be moved.** All names of a script were declared before its body is compiled,
so a definition finds the same types and members wherever it stands, and adds its classes and
methods beside what is there. Nothing in the code of the other nodes depends on what was added.

**Why other nodes cannot.** They share the locals and the code of the method that they stand in. A
store that was moved before a read would change what is read, or whether it is known at all.

**Splitting a run.** `Runs.split` takes a run apart into contributions that do not depend on each
other and a run of the remaining nodes; every order that keeps the remaining ones in theirs is put
together from these pieces. So nothing is said of exchanging two neighbours.
-/

namespace ScriptBytecode

/-! ### Additions in another order -/

/-- The same methods and classes are added, in another order at most. -/
structure Additions.Reorders (d d' : Additions) : Prop where
  methods : d.methods.Perm d'.methods
  finished : d.finished.Perm d'.finished

namespace Additions

variable {d d' d'' : Additions} {ds ds' : List Additions}

namespace Reorders

theorem refl (d : Additions) : d.Reorders d := ⟨.refl _, .refl _⟩

theorem symm (h : d.Reorders d') : d'.Reorders d := ⟨h.methods.symm, h.finished.symm⟩

/-- To reorder twice is to reorder. -/
theorem trans (h : d.Reorders d') (h' : d'.Reorders d'') : d.Reorders d'' :=
  ⟨h.methods.trans h'.methods, h.finished.trans h'.finished⟩

/-- Parts may be reordered each for itself. -/
theorem append {e e' : Additions} (h : d.Reorders d') (h' : e.Reorders e') :
    (d ++ e).Reorders (d' ++ e') :=
  ⟨h.methods.append h'.methods, h'.finished.append h.finished⟩

/-- Two parts may change places. -/
theorem comm (d d' : Additions) : (d ++ d').Reorders (d' ++ d) :=
  ⟨List.perm_append_comm, List.perm_append_comm⟩

end Reorders

theorem append_assoc (d d' d'' : Additions) : (d ++ d') ++ d'' = d ++ (d' ++ d'') := by
  show append (append d d') d'' = append d (append d' d'')
  simp [append]

/-- All of the additions, one after another. -/
def concat : List Additions → Additions
  | [] => {}
  | d :: ds => d ++ concat ds

/-- Any number of parts may change places. -/
theorem reorders_concat (h : ds.Perm ds') : (concat ds).Reorders (concat ds') := by
  induction h with
  | nil => exact .refl _
  | cons d _ ih => exact (Reorders.refl d).append ih
  | swap d d' ds =>
    show (d' ++ (d ++ concat ds)).Reorders (d ++ (d' ++ concat ds))
    rw [← append_assoc, ← append_assoc]
    exact (Reorders.comm d' d).append (.refl _)
  | trans _ _ ih ih' => exact ih.trans ih'

end Additions

/-! ### Nodes that may be moved -/

namespace Node

/-- Whether a node defines a class or a method. -/
def isMovable : Node → Bool
  | classDef .. | methodDef .. => true
  | _ => false

/-- In all sessions like `s`, the node adds the additions and does nothing else. -/
def Contributes (s : Session) (n : Node) (d : Additions) : Prop :=
  ∀ g : GenState, s.ReadsAlike g.session →
    ∃ type, Gen.node n .discard g = .ok type { g with session := g.session.adds d }

variable {t : Setting} {place : Place} {n : Node} {s s' : Session} {d : Additions}

/-- What a node contributes does not depend on which of two sessions that are alike it is compiled
in. -/
theorem Contributes.of_alike (h : n.Contributes s d) (hs : s'.ReadsAlike s) :
    n.Contributes s' d :=
  fun g hg ↦ h g (hs.symm.trans hg)

/-- Classes and methods are compiled as definitions. -/
theorem exists_definition (t : Setting) (place : Place) (hn : n.isMovable = true)
    (hall : n.all isNoImport = true) : ∃ act : SessionM Unit, SessionM.AddsAlike t Unit place act ∧
      Gen.node n .discard = (do
        Gen.onSession act
        Gen.settle .void false) := by
  have h := runsAlike_discipline t
  cases n with
  | classDef name superclass interfaces members span =>
    obtain ⟨-, hmembers⟩ := Bool.and_eq_true_iff.1 hall
    refine ⟨_, h.defineClass (h.classMembers fun n hn ↦ ?_) superclass interfaces
      (members.any (·.isConstructorDef)) span, by rw [Gen.node]; rfl⟩
    exact (h.covers n (allOf_iff.1 hmembers n hn)).member _ name
  | methodDef name params returnType content isStatic span =>
    obtain ⟨hok, hcontent⟩ := Bool.and_eq_true_iff.1 hall
    exact ⟨_, h.defineMethod hok (h.covers content hcontent).node, by rw [Gen.node]; rfl⟩
  | _ => cases hn

/-- A definition that compiles contributes what it adds. -/
theorem contributes_of_node (hn : n.isMovable = true) (hall : n.all isNoImport = true)
    {g g' : GenState} {type : MachineType} (hg : g.session.StandsIn t place)
    (hrun : Gen.node n .discard g = .ok type g') :
    ∃ d, n.Contributes g.session d ∧ g' = { g with session := g.session.adds d } := by
  obtain ⟨act, hact, heq⟩ := exists_definition t place hn hall
  have honSession : ∀ {g : GenState} {a : Unit} {s : Session}, act g.session = .ok a s →
      Gen.onSession act g = .ok a { g with session := s } := by
    intro g a s h
    unfold Gen.onSession
    rw [h]
  have hnode : ∀ {g : GenState} {a : Unit} {s : Session}, act g.session = .ok a s →
      Gen.node n .discard g = .ok .void { g with session := s } := by
    intro g a s h
    rw [heq, bind_eq_of_ok (honSession h)]
    rfl
  -- The node has succeeded here, so its definition has; and it is a definition in every session
  -- alike.
  have hok : ∃ a s, act g.session = .ok a s := by
    rw [heq] at hrun
    obtain ⟨a, v, hfirst, -⟩ := exists_of_bind_eq_ok hrun
    unfold Gen.onSession at hfirst
    cases hact : act g.session with
    | ok a s => exact ⟨a, s, rfl⟩
    | error e s =>
      rw [hact] at hfirst
      cases hfirst
  obtain ⟨a, s, hfirst⟩ := hok
  obtain ⟨d, hd⟩ := hact.run ⟨hg, .refl _⟩ hfirst
  have hcontributes : n.Contributes g.session d := fun g' hg' ↦
    ⟨.void, hnode (hd _ ⟨hg, hg'⟩)⟩
  refine ⟨d, hcontributes, ?_⟩
  obtain ⟨type', hrun'⟩ := hcontributes g (.refl _)
  rw [hrun] at hrun'
  cases hrun'
  rfl

end Node

/-! ### States that are alike -/

section Alike

variable {t : Setting} {place : Place}

/-- What is done within a method does not take sessions apart. -/
theorem Session.AlikeWithin.alike_after {s : Session} (h : s.AlikeWithin t place s)
    (d : Additions × Locals) : s.AlikeIn t place (s.after d) :=
  ⟨h.alike.1, (s.readsAlike_adds d.1).trans ⟨fun _ ↦ rfl, fun _ ↦ rfl, fun _ _ ↦ rfl,
    fun _ _ _ _ _ ↦ ⟨rfl, rfl⟩, (Scopes.outline_setLocals ..).symm, rfl⟩⟩

/-- What is added does not take states apart. -/
theorem GenState.AlikeWithin.adds {g u : GenState} (h : g.AlikeWithin t place u) (d : Additions) :
    g.AlikeWithin t place { u with session := u.session.adds d } where
  session :=
    { alike := ⟨h.session.alike.1, h.session.alike.2.trans (u.session.readsAlike_adds d)⟩
      currentMethod? := by simp [Session.adds, h.session.currentMethod?] }
  asm := h.asm

/-- A state is alike to itself with some additions more. -/
theorem GenState.AlikeWithin.adds_adds {g : GenState} (h : g.AlikeWithin t place g)
    (d : Additions) : GenState.AlikeWithin t place { g with session := g.session.adds d }
      { g with session := g.session.adds d } :=
  ⟨⟨h.session.alike.adds d d, rfl⟩, rfl⟩

/-- States that are like one state are alike. -/
theorem GenState.AlikeWithin.swap {g u v : GenState} (h : g.AlikeWithin t place u)
    (hu : u.AlikeWithin t place u) (hv : g.AlikeWithin t place v) : u.AlikeWithin t place v where
  session :=
    { alike := ⟨hu.session.alike.1, h.session.alike.2.symm.trans hv.session.alike.2⟩
      currentMethod? := h.session.currentMethod?.symm.trans hv.session.currentMethod? }
  asm := h.asm.symm.trans hv.asm

end Alike

/-! ### Running a list of nodes -/

namespace Gen

/-- Nodes are run for their effects from `g`, or from a state alike: `d` is added, and the locals
and the code are those of `g'` in the end. -/
inductive Runs (t : Setting) (place : Place) : GenState → List Node → Additions → GenState → Prop
  | nil (g : GenState) : Runs t place g [] {} g
  | moved {g g' : GenState} {n : Node} {rest : List Node} {d d' : Additions}
      (hn : n.isMovable = true) (h : n.Contributes g.session d)
      (hrest : Runs t place g rest d' g') :
      Runs t place g (n :: rest) (d ++ d') g'
  | kept {g g' : GenState} {n : Node} {rest : List Node} {d d' : Additions} {l : Locals}
      {a : Assembler} {type : MachineType} (hn : n.isMovable = false)
      (h : ∀ u, g.AlikeWithin t place u → node n .discard u = .ok type (u.after ((d, l), a)))
      (hrest : Runs t place (g.after ((d, l), a)) rest d' g') :
      Runs t place g (n :: rest) (d ++ d') g'

variable {t : Setting} {place : Place} {g g' u v : GenState} {n : Node} {nodes nodes' : List Node}
  {d d' : Additions}

/-- A sequence is compiled by compiling its first node and then the others. -/
theorem sequence_cons (n : Node) (rest : List Node) :
    (∃ type, sequence (n :: rest) false g = .ok type g') ↔
      ∃ type u, node n .discard g = .ok type u ∧ ∃ type, sequence rest false u = .ok type g' := by
  cases rest with
  | nil =>
    constructor
    · rintro ⟨type, h⟩
      exact ⟨type, g', h, .void, rfl⟩
    · rintro ⟨type, u, h, type', h'⟩
      cases h'
      exact ⟨type, h⟩
  | cons m rest =>
    constructor
    · rintro ⟨type', h⟩
      obtain ⟨type, u, h, h'⟩ := exists_of_bind_eq_ok h
      exact ⟨type, u, h, type', h'⟩
    · rintro ⟨type, u, h, type', h'⟩
      exact ⟨type', (bind_eq_of_ok h).trans h'⟩

/-- Nodes that compile run from all states that are alike. -/
theorem runs_of_sequence (hall : ∀ n ∈ nodes, n.all Node.isNoImport = true)
    (hu : u.AlikeWithin t place u) (hg : g.AlikeWithin t place u) {type : MachineType}
    (h : sequence nodes false u = .ok type v) : ∃ d g', Runs t place g nodes d g' := by
  induction nodes generalizing g u type with
  | nil => exact ⟨{}, g, .nil g⟩
  | cons n rest ih =>
    have hn := hall n (List.mem_cons_self ..)
    have hrest := fun n hn ↦ hall n (List.mem_cons_of_mem _ hn)
    obtain ⟨type, w, hnode, type', h⟩ := (sequence_cons n rest).1 ⟨type, h⟩
    cases hmovable : n.isMovable with
    | true =>
      obtain ⟨d, hd, rfl⟩ := Node.contributes_of_node hmovable hn hu.session.alike.1 hnode
      obtain ⟨d', g', hruns⟩ := ih hrest (hu.adds_adds d) (hg.adds d) h
      exact ⟨_, g', .moved hmovable (hd.of_alike hg.session.alike.2) hruns⟩
    | false =>
      obtain ⟨d, hd⟩ := (((runsAlike_discipline t).covers n hn).node place .discard).run hu hnode
      have hw := hd u hu
      rw [hnode] at hw
      cases hw
      obtain ⟨d', g', hruns⟩ := ih hrest ((changing_code t).related d hu)
        ((changing_code t).related d hg) h
      exact ⟨_, g', .kept hmovable (fun u' hu' ↦ hd u' (hg.swap hu hu')) hruns⟩

/-- Nodes that run compile, in every state that is alike. -/
theorem Runs.sequence (h : Runs t place g nodes d g') (hg : g.AlikeWithin t place u) :
    ∃ type, Gen.sequence nodes false u = .ok type (u.after ((d, g'.session.locals), g'.asm)) := by
  induction h generalizing u with
  | nil g =>
    refine ⟨.void, ?_⟩
    unfold GenState.after Session.after
    rw [Session.adds_nothing, hg.session.locals_eq, Session.withLocals_locals, hg.asm]
    rfl
  | @moved g g' n rest d d' hn hd _ ih =>
    obtain ⟨type, hnode⟩ := hd u hg.session.alike.2
    obtain ⟨type', hrest⟩ := ih (hg.adds d)
    refine (sequence_cons n rest).2 ⟨type, _, hnode, type', ?_⟩
    rw [hrest]
    unfold GenState.after Session.after
    rw [Session.adds_adds]
  | @kept g g' n rest d d' l a type hn hnode _ ih =>
    obtain ⟨type', hrest⟩ := ih ((changing_code t).related ((d, l), a) hg)
    refine (sequence_cons n rest).2 ⟨type, _, hnode u hg, type', ?_⟩
    rw [hrest]
    unfold GenState.after
    rw [Session.after_after]

/-! ### Moving nodes -/

/-- What nodes contribute that are moved, and what the others do, can be told apart. -/
theorem Runs.split (h : Runs t place g nodes d g') (hg : g.AlikeWithin t place g) :
    ∃ ds d', List.Forall₂ (Node.Contributes g.session) (nodes.filter (·.isMovable)) ds ∧
      Runs t place g (nodes.filter (!·.isMovable)) d' g' ∧
      d.Reorders (Additions.concat ds ++ d') := by
  induction h with
  | nil g => exact ⟨[], {}, .nil, .nil g, .refl _⟩
  | @moved g g' n rest d d' hn hd _ ih =>
    obtain ⟨ds, e, hds, hkept, hreorders⟩ := ih hg
    rw [List.filter_cons_of_pos hn, List.filter_cons_of_neg (by simp [hn])]
    refine ⟨d :: ds, e, .cons hd hds, hkept, ?_⟩
    show (d ++ d').Reorders ((d ++ Additions.concat ds) ++ e)
    rw [Additions.append_assoc]
    exact (Additions.Reorders.refl d).append hreorders
  | @kept g g' n rest d d' l a type hn hnode _ ih =>
    obtain ⟨ds, e, hds, hkept, hreorders⟩ := ih ((changing_code t).related ((d, l), a) hg)
    have hsame : g.session.ReadsAlike (g.after ((d, l), a)).session :=
      (hg.session.alike_after (d, l)).2
    rw [List.filter_cons_of_neg (by simp [hn]), List.filter_cons_of_pos (by simp [hn])]
    refine ⟨ds, d ++ e, hds.imp fun n d hd ↦ hd.of_alike hsame, .kept hn hnode hkept, ?_⟩
    refine ((Additions.Reorders.refl d).append hreorders).trans ?_
    rw [← Additions.append_assoc, ← Additions.append_assoc]
    exact (Additions.Reorders.comm ..).append (.refl e)

/-- They can be put together again in any way that keeps the others in order. -/
theorem runs_of_split {ds : List Additions} (hg : g.AlikeWithin t place g)
    (hds : List.Forall₂ (Node.Contributes g.session) (nodes.filter (·.isMovable)) ds)
    (h : Runs t place g (nodes.filter (!·.isMovable)) d' g') :
    ∃ d, Runs t place g nodes d g' ∧ d.Reorders (Additions.concat ds ++ d') := by
  induction nodes generalizing g ds d' with
  | nil =>
    cases hds
    cases h
    exact ⟨_, .nil _, .refl _⟩
  | cons n rest ih =>
    cases hn : n.isMovable with
    -- A node that may be moved contributes what it always does, wherever it stands.
    | true =>
      rw [List.filter_cons_of_pos hn] at hds
      rw [List.filter_cons_of_neg (by simp [hn])] at h
      cases hds with
      | cons hd hds =>
        obtain ⟨d, hruns, hreorders⟩ := ih hg hds h
        refine ⟨_, .moved hn hd hruns, ?_⟩
        show Additions.Reorders _ ((_ ++ Additions.concat _) ++ d')
        rw [Additions.append_assoc]
        exact (Additions.Reorders.refl _).append hreorders
    -- Another node runs as it did, from a state that its predecessors have changed alike.
    | false =>
      rw [List.filter_cons_of_neg (by simp [hn])] at hds
      rw [List.filter_cons_of_pos (by simp [hn])] at h
      cases h with
      | moved hmovable =>
        rw [hn] at hmovable
        cases hmovable
      | @kept _ _ _ _ e e' l a type _ hnode hrest =>
        have hsame : g.session.ReadsAlike (g.after ((e, l), a)).session :=
          (hg.session.alike_after (e, l)).2
        obtain ⟨d, hruns, hreorders⟩ := ih ((changing_code t).related ((e, l), a) hg)
          (hds.imp fun n d hd ↦ hd.of_alike hsame.symm) hrest
        refine ⟨_, .kept hn hnode hruns, ?_⟩
        refine ((Additions.Reorders.refl e).append hreorders).trans ?_
        rw [← Additions.append_assoc, ← Additions.append_assoc]
        exact (Additions.Reorders.comm ..).append (.refl e')

/-- Classes and methods may be moved: nodes still run, to the same end, and the same is added in
another order. -/
theorem Runs.perm (h : Runs t place g nodes d g') (hg : g.AlikeWithin t place g)
    (hperm : nodes.Perm nodes')
    (hkept : nodes.filter (!·.isMovable) = nodes'.filter (!·.isMovable)) :
    ∃ d', Runs t place g nodes' d' g' ∧ d.Reorders d' := by
  obtain ⟨ds, e, hds, hruns, hreorders⟩ := h.split hg
  obtain ⟨ds', hds', hpermuted⟩ :=
    List.perm_comp_forall₂ (hperm.symm.filter (·.isMovable)) hds
  rw [hkept] at hruns
  obtain ⟨d', hruns', hreorders'⟩ := runs_of_split hg hds' hruns
  refine ⟨d', hruns', hreorders.trans (.trans ?_ hreorders'.symm)⟩
  exact (Additions.reorders_concat hpermuted.symm).append (.refl e)

end Gen

end ScriptBytecode

import ScriptBytecode.Proofs.Defined.Nodes

/-!
# The ways out of a node

Compiling a node may open classes and methods at any depth and may fail within any of them. Either
way, all of them are closed again and what was open before is open as before (`Gen.restores_node`).
Definitions that are compiled for their effects leave even the code and the locals of the method
around them as they were.

The result is about every node, every context it can be compiled in and both ways in which compiling
can end. It does not need the session to be good in any sense: no code need be typed, and
constructors may return what they like. Classes that were finished stay finished even if a later
part fails, and methods that were added to an open class stay in it.
-/

namespace ScriptBytecode.Gen

/-- A definition that is compiled for its effects does not touch the code around it, and what it
does to the session is what its action does. -/
theorem restores_definition {α : Type} {n : Node} {act : SessionM α} {ds : List Definition}
    (hnode : node n .discard = do
      let _ ← onSession act
      settle .void false) (h : act.Restores ds) (g : GenState) :
    Ensures (node n .discard) g
      (fun _ g' ↦ g'.asm = g.asm ∧ g.session.Restored ds g'.session)
      fun _ g' ↦ g'.asm = g.asm ∧ g.session.RestoredWithin ds g'.session := by
  rw [hnode]
  have hsession : Ensures (onSession act) g
      (fun _ g' ↦ g'.asm = g.asm ∧ g.session.Restored ds g'.session)
      fun _ g' ↦ g'.asm = g.asm ∧ g.session.RestoredWithin ds g'.session :=
    ensures_onSession ((h.run g.session).mono (fun _ _ h ↦ ⟨rfl, h⟩) fun _ _ h ↦ ⟨rfl, h⟩)
  exact ensures_bind hsession fun _ _ h ↦ h

/-- However compiling a node ends, and whatever it is compiled for, the known classes are the same,
the same classes and methods are open in the same order, only methods have been added to the classes
and only the locals of the innermost method may differ; type names stand for something else only
after the imports that were met, which are all of those in the node if it succeeds and the first of
them if it fails. A definition that is compiled for its effects leaves the code and the locals of
the method around it as they were. The class that the node is thought to stand in, `owner`, only
gives the definitions their names. -/
theorem restores_node (n : Node) (owner : Owner) (g : GenState) :
    (∀ d, Ensures (node n d) g
      (fun _ g' ↦ g.session.Resumed (n.definitions owner) g'.session)
      fun _ g' ↦ g.session.ResumedWithin (n.definitions owner) g'.session) ∧
    (n.isDefinition = true → Ensures (node n .discard) g
      (fun _ g' ↦ g'.asm = g.asm ∧ g.session.Restored (n.definitions owner) g'.session)
      fun _ g' ↦ g'.asm = g.asm ∧ g.session.RestoredWithin (n.definitions owner) g'.session) := by
  refine ⟨fun d ↦ ((definesAll n).node owner d).resumes.run g, fun hdefinition ↦ ?_⟩
  cases n with
  | classDef name superclass interfaces members span =>
    have hmembers : (classMembers name members).Defines { name, isStaticBody := false } _ :=
      defines_classMembers fun n _ ↦ (definesAll n).member _ name
    exact restores_definition (by rw [node]; rfl) (SessionM.restores_defineClass hmembers ..) g
  | methodDef name params returnType content isStatic span =>
    have hcontent := (definesAll content).node owner
    exact restores_definition (by rw [node]; rfl) (SessionM.restores_defineMethod hcontent ..) g
  | constructorDef params content span =>
    have hcontent := (definesAll content).node owner
    exact restores_definition (by rw [node]; rfl)
      (SessionM.restores_defineConstructor hcontent ..) g
  | importDef full asName span =>
    exact restores_definition (by rw [node]; rfl) (SessionM.restores_importClass full asName span) g
  | _ => cases hdefinition

/-- A class whose only method reads a variable that nothing was stored in. -/
def misreading : Node :=
  .classDef "Inner" none [] [.methodDef "f" [] (.named "int")
    (.readLocal "x" (.named "int") {}) false {}] {}

/-- Code in the midst of a method of a class. Elaboration is not to run the compiler on it. -/
@[irreducible] def midway : GenState where
  session :=
    { classes := .standard
      scopes :=
        { frames := [.ofMethod { name := "g" }, .ofClass { cls := { name := "Outer" } }] } }
  asm := { code := [.pushInt 1], stack := [.int], maxStack := 1 }

/-- A method whose body reads an unknown local, compiled in the middle of another method: compiling
fails, and the method around it is left as it was. -/
theorem restores_node_misreading : misreading.isDefinition = true ∧
    ∃ e g', node misreading .discard midway = .error e g' ∧ g'.asm = midway.asm ∧
      midway.session.RestoredWithin
        (misreading.definitions { name := "Outer", isStaticBody := false }) g'.session := by
  have hdefinition : misreading.isDefinition = true := rfl
  obtain ⟨-, hrestores⟩ :=
    restores_node misreading { name := "Outer", isStaticBody := false } midway
  replace hrestores := hrestores hdefinition
  have hfails : (match node misreading .discard midway with
      | .ok _ _ => false
      | .error _ _ => true) = true := by decide +kernel
  cases hrun : node misreading .discard midway with
  | ok type g' =>
    rw [hrun] at hfails
    cases hfails
  | error e g' => exact ⟨hdefinition, e, g', rfl, hrestores.of_error hrun⟩

end ScriptBytecode.Gen

import Mathlib.Data.List.Perm.Basic
import ScriptBytecode.Proofs.Defined.Items
import ScriptBytecode.Source.All

/-!
# What is defined was declared

All that a script declares is compiled, and nothing is compiled more often than it is declared; with
one exception. A receiver that is a type is not compiled, so what is declared within such a receiver
is passed over. `Node.passedOver` lists these declarations: they are just what is declared and not
compiled (`Node.perm_declarations`).

* `Node.definitions_induction` is the induction for all that is said of what nodes define;
* `Node.perm_declarations` compares the two lists, for nodes, and `Script.perm_declarations` for
  scripts.

**Two recursions over the tree.** Declaring walks through all nodes there are, and compiling through
those for which code is emitted. The lists are compared up to order, since the test of a loop may be
compiled behind its body, and without the constructors that are implied, since these are not written
at all.

**The exception is real.** What is declared within a receiver that is a type can be called, since it
was declared, but there is no code of it in the unit.

`Node.definitions_induction` has one case for each way in which definitions come about: none, those
of two parts one after the other, one that is written, and a class with what its members define.
Whatever is proved of definitions by it need not go through the constructs of the language again.
-/

namespace ScriptBytecode

namespace Node

mutual

/-- What a node declares within receivers that are types. -/
def passedOver (owner : Owner) (n : Node) : List Declaration :=
  match n with
  | .script .. | .literal .. | .typeName .. | .selfRef .. | .readLocal .. | .noop _ => []
  | .importDef .. => []
  | .body nodes _ _ => passedOverOf owner nodes
  | .classDef name _ _ members _ => passedOverOf { name, isStaticBody := false } members
  | .methodDef _ _ _ content _ _ | .constructorDef _ content _ => passedOver owner content
  | .assign _ value _ _ => passedOver owner value
  | .call receiver _ args _ _ =>
    (if receiver.type.isMeta then receiver.declarations owner else passedOver owner receiver) ++
      passedOverOf owner args
  | .selfCall _ args _ _ => passedOverOf owner args
  | .branch condition thenArm elseArm _ _ =>
    passedOver owner condition ++ (passedOver owner thenArm ++ passedOverAlternative owner elseArm)
  | .loop condition content _ _ _ _ => passedOver owner condition ++ passedOver owner content
termination_by structural n

/-- What the nodes of a list declare within receivers that are types. -/
def passedOverOf (owner : Owner) (nodes : List Node) : List Declaration :=
  match nodes with
  | [] => []
  | n :: rest => passedOver owner n ++ passedOverOf owner rest
termination_by structural nodes

/-- What the other arm of a branch declares within receivers that are types. -/
def passedOverAlternative (owner : Owner) (arm : Option Node) : List Declaration :=
  match arm with
  | some n => passedOver owner n
  | none => []
termination_by structural arm

end

variable {p : Node → Bool}

/-- To prove something of what every node defines, within a node that passes a test, prove it of no
definitions, of those of two parts one after another, of a single one that is written and no class,
and of a class with its members. -/
@[elab_as_elim]
theorem definitions_induction_of_all {P : List Definition → Prop} (nil : P [])
    (append : ∀ {ds ds'}, P ds → P ds' → P (ds ++ ds'))
    (written : ∀ d : Declaration, d.className? = none → P [.written d])
    (classDecl : ∀ name superclass interfaces span members,
      p (.classDef name superclass interfaces members span) = true →
      P (definitionsOf { name, isStaticBody := false } members) →
      P (.written (.classDecl name superclass interfaces span) ::
        ((if members.any (·.isConstructorDef) then [] else [.implicitConstructor name]) ++
          definitionsOf { name, isStaticBody := false } members)))
    (n : Node) (hn : n.all p = true) (owner : Owner) : P (n.definitions owner) := by
  -- Lists of nodes come up in bodies, classes and arguments, with one argument each time.
  have hlist : ∀ {owner : Owner} {nodes : List Node},
      (∀ n ∈ nodes, P (n.definitions owner)) → P (definitionsOf owner nodes) := by
    intro owner nodes h
    induction nodes with
    | nil => exact nil
    | cons n rest ih =>
      rw [definitionsOf]
      exact append (h n (List.mem_cons_self ..)) (ih fun n hn ↦ h n (List.mem_cons_of_mem _ hn))
  induction n using Node.inductionOn generalizing owner with
  | body nodes type span ih =>
    obtain ⟨-, hnodes⟩ := Bool.and_eq_true_iff.1 hn
    rw [definitions]
    exact hlist fun n hn ↦ ih n hn (allOf_iff.1 hnodes n hn) owner
  | classDef name superclass interfaces members span ih =>
    obtain ⟨hself, hmembers⟩ := Bool.and_eq_true_iff.1 hn
    rw [definitions]
    exact classDecl name superclass interfaces span members hself
      (hlist fun n hn ↦ ih n hn (allOf_iff.1 hmembers n hn) { name, isStaticBody := false })
  | methodDef name params returnType content isStatic span ih =>
    obtain ⟨-, hcontent⟩ := Bool.and_eq_true_iff.1 hn
    rw [definitions]
    exact append (written _ rfl) (ih hcontent owner)
  | constructorDef params content span ih =>
    obtain ⟨-, hcontent⟩ := Bool.and_eq_true_iff.1 hn
    rw [definitions]
    split
    · exact ih hcontent owner
    · exact append (written _ rfl) (ih hcontent owner)
  | importDef full asName span =>
    rw [definitions]
    exact written _ rfl
  | assign name value type span ih =>
    obtain ⟨-, hvalue⟩ := Bool.and_eq_true_iff.1 hn
    rw [definitions]
    exact ih hvalue owner
  | call receiver name args type span ihreceiver ihargs =>
    obtain ⟨-, hparts⟩ := Bool.and_eq_true_iff.1 hn
    obtain ⟨hreceiver, hargs⟩ := Bool.and_eq_true_iff.1 hparts
    rw [definitions]
    refine append ?_ (hlist fun n hn ↦ ihargs n hn (allOf_iff.1 hargs n hn) owner)
    split
    · exact nil
    · exact ihreceiver hreceiver owner
  | selfCall name args type span ih =>
    obtain ⟨-, hargs⟩ := Bool.and_eq_true_iff.1 hn
    rw [definitions]
    exact hlist fun n hn ↦ ih n hn (allOf_iff.1 hargs n hn) owner
  | branch condition thenArm elseArm type span ihcondition ihthen ihelse =>
    obtain ⟨-, hparts⟩ := Bool.and_eq_true_iff.1 hn
    obtain ⟨hcondition, harms⟩ := Bool.and_eq_true_iff.1 hparts
    obtain ⟨hthen, helse⟩ := Bool.and_eq_true_iff.1 harms
    rw [definitions]
    refine append (ihcondition hcondition owner) (append (ihthen hthen owner) ?_)
    cases elseArm with
    | none => exact nil
    | some n => exact ihelse n rfl (allAlternative_iff.1 helse n rfl) owner
  | loop condition content checkFirst negative type span ihcondition ihcontent =>
    obtain ⟨-, hparts⟩ := Bool.and_eq_true_iff.1 hn
    obtain ⟨hcondition, hcontent⟩ := Bool.and_eq_true_iff.1 hparts
    rw [definitions]
    split
    · exact append (ihcondition hcondition owner) (ihcontent hcontent owner)
    · exact append (ihcontent hcontent owner) (ihcondition hcondition owner)
  | _ =>
    rw [definitions]
    exact nil

/-- The same for any node. -/
@[elab_as_elim]
theorem definitions_induction {P : List Definition → Prop} (nil : P [])
    (append : ∀ {ds ds'}, P ds → P ds' → P (ds ++ ds'))
    (written : ∀ d : Declaration, d.className? = none → P [.written d])
    (classDecl : ∀ name superclass interfaces span members,
      P (definitionsOf { name, isStaticBody := false } members) →
      P (.written (.classDecl name superclass interfaces span) ::
        ((if members.any (·.isConstructorDef) then [] else [.implicitConstructor name]) ++
          definitionsOf { name, isStaticBody := false } members)))
    (n : Node) (owner : Owner) : P (n.definitions owner) := by
  have hclass : ∀ name superclass interfaces span (members : List Node), true = true →
      P (definitionsOf { name, isStaticBody := false } members) → _ :=
    fun name superclass interfaces span members _ ↦
      classDecl name superclass interfaces span members
  exact definitions_induction_of_all (p := fun _ ↦ true) nil append written hclass n
    (all_of_forall (fun _ ↦ rfl) n) owner

/-- The declarations among definitions. -/
def written (ds : List Definition) : List Declaration := ds.filterMap (·.declaration?)

@[simp] theorem written_append (ds ds' : List Definition) :
    written (ds ++ ds') = written ds ++ written ds' :=
  List.filterMap_append

variable {owner : Owner}

/-- Where two parts each fall into what is compiled and what is passed over, the whole does. -/
theorem perm_append_append {α : Type} {a b compiled compiled' passed passed' : List α}
    (h : a.Perm (compiled ++ passed)) (h' : b.Perm (compiled' ++ passed')) :
    (a ++ b).Perm ((compiled ++ compiled') ++ (passed ++ passed')) := by
  refine (h.append h').trans ?_
  rw [List.append_assoc, List.append_assoc]
  exact (List.perm_append_comm_assoc passed compiled' passed').append_left compiled

/-- If the nodes of a list are declared apart from what is passed over, so is the list. -/
theorem perm_declarationsOf {nodes : List Node}
    (h : ∀ n ∈ nodes,
      (n.declarations owner).Perm (written (n.definitions owner) ++ n.passedOver owner)) :
    (declarationsOf owner nodes).Perm
      (written (definitionsOf owner nodes) ++ passedOverOf owner nodes) := by
  induction nodes with
  | nil => exact .refl _
  | cons n rest ih =>
    rw [definitionsOf, declarationsOf, passedOverOf, written_append]
    exact perm_append_append (h n (List.mem_cons_self ..))
      (ih fun n hn ↦ h n (List.mem_cons_of_mem _ hn))

/-- What a node declares is either compiled, once for each time that it is declared, or passed
over. -/
theorem perm_declarations (n : Node) (owner : Owner) :
    (n.declarations owner).Perm (written (n.definitions owner) ++ n.passedOver owner) := by
  induction n using Node.inductionOn generalizing owner with
  | body nodes type span ih =>
    rw [definitions, declarations, passedOver]
    exact perm_declarationsOf fun n hn ↦ ih n hn owner
  | classDef name superclass interfaces members span ih =>
    rw [definitions, declarations, passedOver]
    have hmembers := perm_declarationsOf fun n hn ↦ ih n hn { name, isStaticBody := false }
    split
    · exact hmembers.cons _
    · exact hmembers.cons _
  | methodDef name params returnType content isStatic span ih =>
    rw [definitions, declarations, passedOver]
    exact (ih owner).cons _
  -- A constructor in the body of the script is passed over in both lists.
  | constructorDef params content span ih =>
    rw [definitions, declarations, passedOver]
    split
    · exact ih owner
    · exact (ih owner).cons _
  | importDef full asName span =>
    rw [definitions, declarations, passedOver]
    exact .refl _
  | assign name value type span ih =>
    rw [definitions, declarations, passedOver]
    exact ih owner
  | call receiver name args type span ihreceiver ihargs =>
    rw [definitions, declarations, passedOver, written_append]
    refine perm_append_append ?_ (perm_declarationsOf fun n hn ↦ ihargs n hn owner)
    split
    · exact .refl _
    · exact ihreceiver owner
  | selfCall name args type span ih =>
    rw [definitions, declarations, passedOver]
    exact perm_declarationsOf fun n hn ↦ ih n hn owner
  | branch condition thenArm elseArm type span ihcondition ihthen ihelse =>
    rw [definitions, declarations, passedOver, written_append, written_append, List.append_assoc]
    refine perm_append_append (ihcondition owner) (perm_append_append (ihthen owner) ?_)
    cases elseArm with
    | none => exact .refl _
    | some n => exact ihelse n rfl owner
  | loop condition content checkFirst negative type span ihcondition ihcontent =>
    rw [definitions, declarations, passedOver]
    have hparts := perm_append_append (ihcondition owner) (ihcontent owner)
    split
    · rw [written_append]
      exact hparts
    · rw [written_append]
      -- A loop that tests last defines its content first but declares its condition first.
      exact hparts.trans (List.perm_append_comm.append_right _)
  | _ =>
    rw [definitions]
    exact .refl _

end Node

/-- The names of classes are the names of classes that were declared. -/
theorem classNames_written (ds : List Definition) :
    ds.filterMap (·.className?) = (Node.written ds).filterMap (·.className?) := by
  unfold Node.written
  rw [List.filterMap_filterMap]
  refine List.filterMap_congr fun d _ ↦ ?_
  cases d <;> rfl

namespace Script

/-- What a script declares within receivers that are types. -/
def passedOver (s : Script) : List Declaration :=
  s.body.passedOver { name := s.name, isStaticBody := true }

/-- What compiling the body of a script defines. -/
def bodyDefinitions (s : Script) : List Definition :=
  s.body.definitions { name := s.name, isStaticBody := true }

variable (script : Script)

/-- What a script declares is compiled or passed over. -/
theorem perm_declarations : script.declarations.Perm
    (Node.written script.bodyDefinitions ++ script.passedOver) :=
  script.body.perm_declarations _

variable {script} in
/-- What is written of a script is its class or declared within it. -/
theorem eq_or_mem_of_mem_written {d : Declaration} (hd : d ∈ Node.written script.definitions) :
    d = .classDecl script.name none [] script.span ∨ d ∈ script.declarations :=
  (List.mem_cons.1 hd).imp_right fun hbody ↦
    script.perm_declarations.mem_iff.2 (List.mem_append_left _ hbody)

/-- The classes that a script declares are compiled, apart from those passed over. -/
theorem perm_classNames : (script.name :: script.declarations.filterMap (·.className?)).Perm
    (script.definitions.filterMap (·.className?) ++
      script.passedOver.filterMap (·.className?)) := by
  have hperm := script.perm_declarations.filterMap (·.className?)
  rw [List.filterMap_append, ← classNames_written] at hperm
  exact hperm.cons _

end Script

end ScriptBytecode

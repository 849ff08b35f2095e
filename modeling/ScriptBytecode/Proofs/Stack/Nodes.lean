import ScriptBytecode.Proofs.Stack.Branching
import ScriptBytecode.Proofs.Stack.Calls
import ScriptBytecode.Proofs.Stack.Definitions

/-!
# The operand stack around every node

By induction on syntax trees, whatever a node is, its code carries its value to the destination that
it is compiled for, and as a member of a class it is a definition that is established.

`compiled` is the induction, for code and for members of classes at once.

A node can stand in two places, within code and as a member of a class, and a definition can stand
in both. So the induction proves two facts of each node (`Compiled`), and uses both for the parts:
the members of a class are `Compiled.member`, while the body of a method is `Compiled.delivers`.

What each construct does is proved where the construct is; here the cases only put the parts
together. Most nodes produce a value and are then delivered as their destination asks
(`compiled_of_deliver`). Calls are the exception (`delivers_call`): a comparison or a negation that
is compiled for a jump has no value at any time, and hands the destination on to its operands.
-/

namespace ScriptBytecode.Gen

/-- The code of a node carries its value to any destination, and as a member of a class the node is
established. -/
structure Compiled (n : Node) : Prop where
  delivers : Delivers (node n)
  member : ∀ cls, Establishes (classMember cls n)

/-! ### Delivered nodes -/

/-- Code that produces a value delivers it. -/
theorem delivers_of_deliver {n : Node} {code : Bool → Gen MachineType}
    (hnode : ∀ d, node n d = deliver n d code) (hcode : Produces code) : Delivers (node n) := by
  rw [funext hnode]
  exact delivers_deliver n hcode

/-- Definitions do not concern the method around them. -/
theorem produces_definition {α : Type} {act : SessionM α} (hact : Establishes act) :
    Produces (fun keep ↦ do
      let _ ← onSession act
      settle .void keep) := by
  constructor
  intro o t g base keep h
  have hsession : Ensures (onSession act) g (fun _ g' ↦ Ready o t g' base) (Failed o) :=
    ensures_onSession ((hact.after h.session).imp fun _ _ hs ↦ h.onSession hs)
  exact ensures_bind hsession fun _ g' h' ↦ left_settle h'

theorem produces_nothing : Produces (settle .void) := by
  constructor
  intro o t g base keep h
  exact left_settle h

/-- Nothing but definitions is a member of a class. -/
theorem establishes_foreignMember {α : Type} (n : Node) (cls : String) :
    Establishes (throw (.misuse n.span (.foreignMember cls)) : SessionM α) :=
  ⟨fun {_ s} _ ↦ ⟨rfl, .refl s⟩⟩

/-! ### Calls -/

/-- A call may jump on its outcome, if it compares or negates. -/
theorem delivers_call {receiver : Node} {args : List Node} (hreceiver : Delivers (node receiver))
    (hargs : ∀ n ∈ args, Delivers (node n)) (name : String) (type : SourceType) (span : Span) :
    Delivers (node (.call receiver name args type span)) := by
  have hpasses := passes_arguments hargs
  have hvalue := delivers_deliver (.call receiver name args type span)
    (produces_call receiver hreceiver hpasses name span)
  constructor
  intro o t g base d h hadmitted
  cases d with
  | discard =>
    rw [node]
    · exact hvalue.run .discard h trivial
    · exact nofun
  | push =>
    rw [node]
    · exact hvalue.run .push h trivial
    · exact nofun
  | jump sense target =>
    have hvalue := hvalue.run (.jump sense target) h hadmitted
    rw [node]
    refine ensures_ite (fun _ ↦ hvalue) fun _ ↦ ?_
    split
    · exact ensures_bind (ready_compare hreceiver hpasses h hadmitted _ name span sense)
        fun _ g' h' ↦ left_nothing h'
    · refine ensures_ite (fun _ ↦ ?_) fun _ ↦ hvalue
      refine ensures_query_bind (fun receiverType _ ↦ ?_) (h.failed (.valueType ..))
      exact ensures_ite (fun _ ↦ hreceiver.run (.jump (!sense) target) h hadmitted) fun _ ↦ hvalue

/-! ### Every node -/

/-- The members of a class are established one after another. -/
theorem establishes_classMembers {members : List Node} {cls : String}
    (h : ∀ n ∈ members, Establishes (classMember cls n)) :
    Establishes (classMembers cls members) := by
  induction members with
  | nil =>
    rw [classMembers]
    exact ⟨fun hs ↦ .refl hs⟩
  | cons n rest ih =>
    have hrest := ih fun n hn ↦ h n (List.mem_cons_of_mem _ hn)
    rw [classMembers]
    constructor
    intro fine s hs
    exact ensures_bind ((h n (List.mem_cons_self ..)).run hs) fun _ s' hs' ↦ hrest.after hs'

/-- A node that is no definition is delivered, and is no member of a class. -/
theorem compiled_of_deliver {n : Node} {code : Bool → Gen MachineType}
    (hnode : ∀ d, node n d = deliver n d code)
    (hmember : ∀ cls, classMember cls n = throw (.misuse n.span (.foreignMember cls)))
    (hcode : Produces code) : Compiled n := by
  refine ⟨delivers_of_deliver hnode hcode, fun cls ↦ ?_⟩
  rw [hmember]
  exact establishes_foreignMember n cls

/-- Every node is compiled as its destination asks. -/
theorem compiled (n : Node) : Compiled n := by
  induction n using Node.inductionOn with
  | script name body span _ =>
    refine compiled_of_deliver (fun d ↦ by rw [node]) (fun _ ↦ rfl) ⟨fun keep h ↦ ?_⟩
    exact ensures_throw (h.failed_located ..)
  | body nodes type span ih =>
    refine compiled_of_deliver (fun d ↦ by rw [node]) (fun _ ↦ rfl) ?_
    exact produces_sequence fun n hn ↦ (ih n hn).delivers
  | classDef name superclass interfaces members span ih =>
    refine compiled_of_deliver (fun d ↦ by rw [node]) (fun _ ↦ rfl) (produces_definition ?_)
    have hmembers := establishes_classMembers fun n hn ↦ (ih n hn).member name
    exact SessionM.establishes_defineClass hmembers ..
  | methodDef name params returnType content isStatic span ih =>
    -- A method is established alike in code and as a member of a class.
    have hmethod := SessionM.establishes_defineMethod ih.delivers name params returnType isStatic
      span content.span
    constructor
    · exact delivers_of_deliver (fun d ↦ by rw [node]) (produces_definition hmethod)
    · intro cls
      rw [classMember]
      exact hmethod
  | constructorDef params content span ih =>
    have hconstructor := SessionM.establishes_defineConstructor ih.delivers params span
    constructor
    · exact delivers_of_deliver (fun d ↦ by rw [node]) (produces_definition hconstructor)
    · intro cls
      rw [classMember]
      exact hconstructor
  | importDef full asName span =>
    refine compiled_of_deliver (fun d ↦ by rw [node]) (fun _ ↦ rfl) (produces_definition ?_)
    exact SessionM.establishes_importClass ..
  | literal value type span =>
    exact compiled_of_deliver (fun d ↦ by rw [node]) (fun _ ↦ rfl)
      (produces_literal value type span)
  | typeName name span =>
    refine compiled_of_deliver (fun d ↦ by rw [node]) (fun _ ↦ rfl) ⟨fun keep h ↦ ?_⟩
    cases keep with
    | false => exact left_nothing h
    | true => exact ensures_throw (h.failed_located ..)
  | selfRef type span =>
    exact compiled_of_deliver (fun d ↦ by rw [node]) (fun _ ↦ rfl) (produces_selfRef span)
  | readLocal name type span =>
    exact compiled_of_deliver (fun d ↦ by rw [node]) (fun _ ↦ rfl) (produces_readLocal name span)
  | assign name value type span ih =>
    refine compiled_of_deliver (fun d ↦ by rw [node]) (fun _ ↦ rfl) ?_
    exact produces_assign ih.delivers name value type span
  -- A call is the one node whose code as a condition is not made from its value.
  | call receiver name args type span ihreceiver ihargs =>
    constructor
    · exact delivers_call ihreceiver.delivers (fun n hn ↦ (ihargs n hn).delivers) name type span
    · intro cls
      exact establishes_foreignMember ..
  | selfCall name args type span ih =>
    refine compiled_of_deliver (fun d ↦ by rw [node]) (fun _ ↦ rfl) ?_
    exact produces_callSelf (passes_arguments fun n hn ↦ (ih n hn).delivers) name span
  | branch condition thenArm elseArm type span ihcondition ihthen ihelse =>
    refine compiled_of_deliver (fun d ↦ by rw [node]) (fun _ ↦ rfl) ?_
    exact produces_branch ihcondition.delivers ihthen.delivers (fun n hn ↦ (ihelse n hn).delivers)
      type span
  | loop condition content checkFirst negative type span ihcondition ihcontent =>
    refine compiled_of_deliver (fun d ↦ by rw [node]) (fun _ ↦ rfl) ?_
    exact produces_loop ihcondition.delivers ihcontent.delivers checkFirst negative type span
  | noop span =>
    exact compiled_of_deliver (fun d ↦ by rw [node]) (fun _ ↦ rfl) produces_nothing

end ScriptBytecode.Gen

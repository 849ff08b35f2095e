import ScriptBytecode.Proofs.Defined.Constructs
import ScriptBytecode.Proofs.Defined.Scopes
import ScriptBytecode.Source.Induction

/-!
# What every node defines

By induction on syntax trees, compiling a node defines what `Node.definitions` lists, in that order,
whatever destination the node is compiled for.

Each kind of construct has a lemma that takes what its parts define (`defines_sequence`,
`defines_arguments`, `defines_loop` and so on); `definesAll` is the induction that puts them
together, for nodes and members of classes at once.

The list of a node does not depend on the destination, since a condition that is compiled for a jump
defines what it does when it is compiled for a value. So the induction is for all destinations at
once.

A class among the members of a class and one in the midst of code define the same, by one lemma
(`defines_definition`); only the place, and with it the owner of what is defined, is another.
-/

namespace ScriptBytecode

namespace Gen

variable {owner : Owner} {ds ds' : List Definition}

/-! ### Lists of nodes -/

/-- Nodes one after another define what each of them defines. -/
theorem defines_sequence {nodes : List Node}
    (h : ∀ n ∈ nodes, DefinesFor (node n) owner (n.definitions owner)) (keep : Bool) :
    Defines (sequence nodes keep) owner (Node.definitionsOf owner nodes) := by
  induction nodes with
  | nil => exact defines_settle ..
  | cons n rest ih =>
    have hn := h n (List.mem_cons_self ..)
    have hrest := ih fun n hn ↦ h n (List.mem_cons_of_mem _ hn)
    cases rest with
    | nil =>
      rw [sequence, Node.definitionsOf, Node.definitionsOf, List.append_nil]
      exact hn _
    | cons m rest =>
      rw [sequence, Node.definitionsOf]
      · exact (hn .discard).bind fun _ ↦ hrest
      · exact nofun

/-- Arguments define what they define as nodes, in order. -/
theorem defines_arguments {nodes : List Node}
    (h : ∀ n ∈ nodes, DefinesFor (node n) owner (n.definitions owner)) :
    DefinesArgs nodes.length (arguments nodes) owner (Node.definitionsOf owner nodes) := by
  induction nodes with
  | nil =>
    intro params _
    exact .pure _
  | cons n rest ih =>
    intro params hlength
    cases params with
    | nil => cases hlength
    | cons param params =>
      rw [arguments, Node.definitionsOf]
      refine (defines_receive (h n (List.mem_cons_self ..)) ..).bind fun _ ↦ ?_
      exact ih (fun n hn ↦ h n (List.mem_cons_of_mem _ hn)) params (Nat.succ.inj hlength)

/-- An alternative that is left out defines nothing. -/
theorem defines_alternative {arm : Option Node}
    (h : ∀ n ∈ arm, DefinesFor (node n) owner (n.definitions owner)) (type : MachineType) :
    Defines (alternative type arm) owner (Node.alternativeDefinitions owner arm) := by
  cases arm with
  | none => exact .ite (.pure _) (defines_emit _)
  | some n => exact defines_receive (h n rfl) ..

/-- The members of a class define what each of them defines as a member. -/
theorem defines_classMembers {members : List Node} {cls : String}
    (h : ∀ n ∈ members, (classMember cls n).Defines owner (n.definitions owner)) :
    (classMembers cls members).Defines owner (Node.definitionsOf owner members) := by
  induction members with
  | nil => exact .pure _
  | cons n rest ih =>
    rw [classMembers, Node.definitionsOf]
    refine (h n (List.mem_cons_self ..)).bind fun _ ↦ ?_
    exact ih fun n hn ↦ h n (List.mem_cons_of_mem _ hn)

/-! ### Nodes -/

/-- What is tested after the body of a loop is compiled after it. -/
theorem defines_loop {condition content : Node}
    (hcondition : DefinesFor (node condition) owner ds)
    (hcontent : DefinesFor (node content) owner ds') (checkFirst negative : Bool)
    (type : SourceType) (span : Span) (keep : Bool) :
    Defines (do
      let type ← joinType type span keep
      let before ← createLabel
      let done ← createLabel
      if !type.isVoid then emit (defaultValue type)
      bind before
      if checkFirst then
        let _ ← node condition (.jump negative done)
      if let some kind := type.kind? then emit (.pop kind)
      receive type content.span (node content)
      if checkFirst then emit (.goto before)
      else
        let _ ← node condition (.jump (!negative) before)
      bind done
      settleVoid type keep) owner (if checkFirst then ds ++ ds' else ds' ++ ds) := by
  refine (defines_joinType ..).after fun type ↦ ?_
  refine defines_createLabel.after fun before ↦ defines_createLabel.after fun done ↦ ?_
  have hend : Defines (do
      bind done
      settleVoid type keep) owner [] :=
    (defines_bindLabel _).after fun _ ↦ defines_settleVoid ..
  -- The code is opened from its end, so that each `have` names what is left of it.
  cases checkFirst with
  | true =>
    have hround : Defines (do
        receive type content.span (node content)
        emit (.goto before)
        bind done
        settleVoid type keep) owner ds' :=
      (defines_receive hcontent ..).before fun _ ↦ (defines_emit _).after fun _ ↦ hend
    have hdrop : Defines (do
        if let some kind := type.kind? then emit (.pop kind)
        receive type content.span (node content)
        emit (.goto before)
        bind done
        settleVoid type keep) owner ds' := by
      cases type.kind? with
      | none => exact hround
      | some kind => exact (defines_emit _).after fun _ ↦ hround
    have hloop : Defines (do
        bind before
        let _ ← node condition (.jump negative done)
        if let some kind := type.kind? then emit (.pop kind)
        receive type content.span (node content)
        emit (.goto before)
        bind done
        settleVoid type keep) owner (ds ++ ds') :=
      (defines_bindLabel _).after fun _ ↦ (hcondition _).bind fun _ ↦ hdrop
    exact .ite ((defines_emit _).after fun _ ↦ hloop) hloop
  | false =>
    have hround : Defines (do
        receive type content.span (node content)
        let _ ← node condition (.jump (!negative) before)
        bind done
        settleVoid type keep) owner (ds' ++ ds) :=
      (defines_receive hcontent ..).bind fun _ ↦ (hcondition _).before fun _ ↦ hend
    have hloop : Defines (do
        bind before
        if let some kind := type.kind? then emit (.pop kind)
        receive type content.span (node content)
        let _ ← node condition (.jump (!negative) before)
        bind done
        settleVoid type keep) owner (ds' ++ ds) := by
      refine (defines_bindLabel _).after fun _ ↦ ?_
      cases type.kind? with
      | none => exact hround
      | some kind => exact (defines_emit _).after fun _ ↦ hround
    exact .ite ((defines_emit _).after fun _ ↦ hloop) hloop

/-- An action on the session is all that a definition does. -/
theorem defines_definition {act : SessionM Unit} (h : act.Defines owner ds) (keep : Bool) :
    Defines (do
      onSession act
      settle .void keep) owner ds :=
  (defines_onSession h).before fun _ ↦ defines_settle ..

/-- A call may jump on its outcome, if it compares or negates. -/
theorem defines_node_call {receiver : Node} {args : List Node}
    (hreceiver : DefinesFor (node receiver) owner (receiver.definitions owner))
    (hargs : ∀ n ∈ args, DefinesFor (node n) owner (n.definitions owner)) (name : String)
    (type : SourceType) (span : Span) :
    DefinesFor (node (.call receiver name args type span)) owner
      ((Node.call receiver name args type span).definitions owner) := by
  have hcall : ∀ keep, Defines (call receiver name args span (node receiver) (arguments args) keep)
      owner _ := fun keep ↦ defines_call hreceiver (defines_arguments hargs) name span keep
  have hvalue := defines_deliver (.call receiver name args type span) hcall
  intro d
  rw [Node.definitions]
  cases d with
  | discard =>
    rw [node]
    · exact hvalue .discard
    · exact nofun
  | push =>
    rw [node]
    · exact hvalue .push
    · exact nofun
  -- As a condition, a call may be a comparison or a negation, and is a value otherwise.
  | jump sense target =>
    have hvalue := hvalue (.jump sense target)
    have hpasses := defines_arguments hargs
    rw [node]
    cases hmeta : receiver.type.isMeta with
    | true =>
      rw [hmeta] at hvalue
      exact hvalue
    | false =>
      rw [hmeta] at hvalue
      refine .ite hvalue ?_
      split
      · exact (defines_compare hreceiver hpasses ..).before fun _ ↦ .pure _
      · split
        · next hnegates =>
          obtain ⟨-, hempty⟩ := hnegates
          obtain rfl := List.isEmpty_iff.1 hempty
          refine (defines_query _).after fun receiverType ↦ .ite ?_ hvalue
          exact (List.append_nil _).symm ▸ hreceiver (.jump (!sense) target)
        · exact hvalue

/-- What a node defines, for any destination and as a member of a class. -/
structure DefinesAll (n : Node) : Prop where
  node : ∀ owner, DefinesFor (node n) owner (n.definitions owner)
  member : ∀ owner cls, (classMember cls n).Defines owner (n.definitions owner)

/-- A node that is no definition is no member of a class. -/
theorem definesAll_of_deliver {n : Node} {code : Bool → Gen MachineType}
    (hnode : ∀ d, Gen.node n d = deliver n d code)
    (hmember : ∀ cls, classMember cls n = throw (.misuse n.span (.foreignMember cls)))
    (hcode : ∀ owner keep, Defines (code keep) owner (n.definitions owner)) : DefinesAll n := by
  refine ⟨fun owner d ↦ ?_, fun owner cls ↦ ?_⟩
  · rw [hnode]
    exact defines_deliver n (hcode owner) d
  · rw [hmember]
    exact .throw _

/-- Every node defines what is listed for it. -/
theorem definesAll (n : Node) : DefinesAll n := by
  induction n using Node.inductionOn with
  | script name body span _ =>
    exact definesAll_of_deliver (fun d ↦ by rw [node]) (fun _ ↦ rfl) fun _ _ ↦ .throw _
  | body nodes type span ih =>
    refine definesAll_of_deliver (fun d ↦ by rw [node]) (fun _ ↦ rfl) fun owner keep ↦ ?_
    exact defines_sequence (fun n hn ↦ (ih n hn).node owner) keep
  | classDef name superclass interfaces members span ih =>
    refine definesAll_of_deliver (fun d ↦ by rw [node]) (fun _ ↦ rfl) fun owner keep ↦ ?_
    refine defines_definition (SessionM.defines_defineClass ?_ ..) keep
    exact defines_classMembers fun n hn ↦ (ih n hn).member _ name
  | methodDef name params returnType content isStatic span ih =>
    -- A method is compiled alike in code and as a member of a class.
    have hmethod := fun owner ↦ SessionM.defines_defineMethod (ih.node owner) name params returnType
      isStatic span content.span
    refine ⟨fun owner d ↦ ?_, fun owner cls ↦ ?_⟩
    · rw [node]
      exact defines_deliver _ (defines_definition (hmethod owner)) d
    · rw [classMember]
      exact hmethod owner
  | constructorDef params content span ih =>
    have hconstructor := fun owner ↦ SessionM.defines_defineConstructor (ih.node owner) params span
    refine ⟨fun owner d ↦ ?_, fun owner cls ↦ ?_⟩
    · rw [node]
      exact defines_deliver _ (defines_definition (hconstructor owner)) d
    · rw [classMember]
      exact hconstructor owner
  | importDef full asName span =>
    refine definesAll_of_deliver (fun d ↦ by rw [node]) (fun _ ↦ rfl) fun owner keep ↦ ?_
    exact (defines_onSession (SessionM.defines_importClass full asName span)).before fun _ ↦
      defines_settle ..
  | literal value type span =>
    refine definesAll_of_deliver (fun d ↦ by rw [node]) (fun _ ↦ rfl) fun owner keep ↦ ?_
    exact defines_literal value type span keep
  | typeName name span =>
    refine definesAll_of_deliver (fun d ↦ by rw [node]) (fun _ ↦ rfl) fun owner keep ↦ ?_
    exact .ite (.throw _) (.pure _)
  | selfRef type span =>
    refine definesAll_of_deliver (fun d ↦ by rw [node]) (fun _ ↦ rfl) fun owner keep ↦ ?_
    exact defines_selfRef span keep
  | readLocal name type span =>
    refine definesAll_of_deliver (fun d ↦ by rw [node]) (fun _ ↦ rfl) fun owner keep ↦ ?_
    exact defines_readLocal name span keep
  | assign name value type span ih =>
    refine definesAll_of_deliver (fun d ↦ by rw [node]) (fun _ ↦ rfl) fun owner keep ↦ ?_
    exact defines_assign (ih.node owner) name value type span keep
  -- A call is the one node whose code as a condition is not made from its value.
  | call receiver name args type span ihreceiver ihargs =>
    refine ⟨fun owner ↦ ?_, fun owner cls ↦ .throw _⟩
    exact defines_node_call (ihreceiver.node owner) (fun n hn ↦ (ihargs n hn).node owner) name type
      span
  | selfCall name args type span ih =>
    refine definesAll_of_deliver (fun d ↦ by rw [node]) (fun _ ↦ rfl) fun owner keep ↦ ?_
    exact defines_callSelf (defines_arguments fun n hn ↦ (ih n hn).node owner) name span keep
  | branch condition thenArm elseArm type span ihcondition ihthen ihelse =>
    refine definesAll_of_deliver (fun d ↦ by rw [node]) (fun _ ↦ rfl) fun owner keep ↦ ?_
    refine (defines_joinType ..).after fun type ↦ ?_
    refine defines_createLabel.after fun otherwise ↦ defines_createLabel.after fun done ↦ ?_
    refine (ihcondition.node owner _).bind fun _ ↦ ?_
    refine (defines_receive (ihthen.node owner) ..).bind fun _ ↦ ?_
    refine (defines_emit _).after fun _ ↦ (defines_bindLabel _).after fun _ ↦ ?_
    refine (defines_alternative (fun n hn ↦ (ihelse n hn).node owner) _).before fun _ ↦ ?_
    exact (defines_bindLabel _).after fun _ ↦ defines_settleVoid ..
  | loop condition content checkFirst negative type span ihcondition ihcontent =>
    refine definesAll_of_deliver (fun d ↦ by rw [node]) (fun _ ↦ rfl) fun owner keep ↦ ?_
    exact defines_loop (ihcondition.node owner) (ihcontent.node owner) checkFirst negative type span
      keep
  | noop span =>
    refine definesAll_of_deliver (fun d ↦ by rw [node]) (fun _ ↦ rfl) fun owner keep ↦ ?_
    exact defines_settle ..

end Gen

end ScriptBytecode

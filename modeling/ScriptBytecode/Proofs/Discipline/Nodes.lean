import ScriptBytecode.Compile.Compiler
import ScriptBytecode.Proofs.Defined.Scopes
import ScriptBytecode.Proofs.Discipline.Constructs
import ScriptBytecode.Source.Induction

/-!
# Programs under a discipline

By induction on syntax trees, the code of every node has the property of a discipline, and every
definition has it as an action on the session.

`Discipline.covers` is the induction, and `Discipline.scriptMembers` is what it comes to for the
class of a script.

**Both sides of a definition.** A definition is compiled as a member of a class or in the midst of
code, and as an action on the session it is the same in both places (`definition_settle`). So the
induction has one property for code and one for members (`Covers`), as a definition needs the former
of its body and a class the latter of its members.

**The test.** All nodes within the node pass the test `ok`. It is only used where a step asks for
it; the induction itself hands the assumption down to the parts.

**Conditions.** A comparison or a negation that is compiled for a jump never has a value, so
`node_call` is about all destinations at once and not about the two that keep or discard.
-/

namespace ScriptBytecode.Discipline

variable {t : Setting} {ok : Node → Bool} {P : (α : Type) → Place → Gen α → Prop}
  {Q D : (α : Type) → Place → SessionM α → Prop} {place : Place}

/-! ### Definitions -/

section Definitions

theorem declareThis (h : Discipline t ok P Q D) (cls : ClassRef) :
    Q Unit place (SessionM.declareThis cls) :=
  h.session.bind (h.declareLocal ..) fun _ ↦ h.session.pure _

theorem declareParam (h : Discipline t ok P Q D) (name : String) (type : MachineType)
    (span : Span) : Q Unit place (SessionM.declareParam name type span) :=
  h.session.bind (h.declareLocal ..) fun _ ↦ h.session.pure _

/-- Parameters are declared one by one. -/
theorem declareParams (h : Discipline t ok P Q D) (params : List Param)
    (types : List MachineType) : Q Unit place (SessionM.declareParams params types) := by
  induction params generalizing types with
  | nil => exact h.session.pure _
  | cons p ps ih =>
    cases types with
    | nil => exact h.session.pure _
    | cons type types => exact h.session.bind (h.declareParam ..) fun _ ↦ ih types

/-- A receiver is declared before the parameters, where there is one. -/
theorem declareArguments (h : Discipline t ok P Q D) (isStatic : Bool) (cls : ClassRef)
    (params : List Param) (types : List MachineType) :
    Q Unit place (SessionM.declareArguments isStatic cls params types) :=
  Sequential.ite (h.session.bind (h.declareThis cls) fun _ ↦ h.declareParams params types)
    (h.declareParams params types)

/-- Receiver and parameters are all that a method begins with. -/
theorem begins_declareArguments {m : MethodScope} (hlocals : m.locals = {})
    (hconstructor : m.flags.isConstructor = true → m.flags.isStatic = false) (cls : ClassRef)
    (params : List Param) : m.Begins (params.map (·.name))
      (SessionM.declareArguments m.flags.isStatic cls params m.params) := by
  refine ⟨hlocals, hconstructor, ?_⟩
  unfold argumentAllotment
  cases m.flags.isStatic with
  | true => exact SessionM.receives_declareParams params m.params
  | false =>
    exact (SessionM.receives_declareThis cls).bind (SessionM.receives_declareParams params m.params)

/-- Receiver and parameters get their slots before the code of a method is made. -/
theorem inMethod_arguments (h : Discipline t ok P Q D) {m : MethodScope} (hlocals : m.locals = {})
    (hconstructor : m.flags.isConstructor = true → m.flags.isStatic = false) {act : Gen Unit}
    (hact : P Unit (place.within m.flags) act) {cls : ClassRef} {params : List Param}
    (hwritten : m.Written ok (params.map (·.name))
      (SessionM.declareArguments m.flags.isStatic cls params m.params) act) :
    D Unit place (SessionM.inMethod m do
      if !m.flags.isStatic then SessionM.declareThis cls
      SessionM.declareParams params m.params
      Gen.assemble act) := by
  have hbegins := begins_declareArguments hlocals hconstructor cls params
  have hmethod := h.inMethod m hbegins hwritten (h.declareArguments ..) hact
  unfold SessionM.declareArguments at hmethod
  cases hstatic : m.flags.isStatic with
  | true =>
    rw [hstatic] at hmethod
    exact hmethod
  | false =>
    rw [hstatic] at hmethod
    change D Unit place (SessionM.inMethod m ((SessionM.declareThis cls >>= fun _ ↦
      SessionM.declareParams params m.params) >>= fun _ ↦ Gen.assemble act)) at hmethod
    rwa [bind_assoc] at hmethod

/-- The instructions that end a body are plain ones. -/
theorem epilogue (h : Discipline t ok P Q D) {returnType : MachineType} {style : Epilogue}
    {i : Instruction} (hi : i ∈ Gen.epilogue returnType place.isStatic style) :
    P Unit place (Gen.emit i) := by
  unfold Gen.epilogue at hi
  split at hi
  · obtain rfl := List.mem_singleton.1 hi
    exact h.emitPlain rfl rfl
  · split at hi
    · obtain rfl := List.mem_singleton.1 hi
      exact h.emitPlain rfl rfl
    · next hinstance =>
      simp only [List.mem_cons, List.not_mem_nil, or_false] at hi
      obtain rfl | rfl | rfl := hi
      · exact h.emitPlain rfl rfl
      · exact h.loadReceiver fun hstatic ↦ absurd hstatic hinstance
      · exact h.emitPlain rfl rfl
  · obtain rfl := List.mem_singleton.1 hi
    exact h.emitPlain rfl rfl

/-- A method is defined if its body may be compiled wherever it stands. -/
theorem defineMethod (h : Discipline t ok P Q D) {name : String} {params : List Param}
    {returnType : SourceType} {content : Node} {isStatic : Bool} {span : Span}
    (hok : ok (.methodDef name params returnType content isStatic span) = true)
    (hbody : ∀ place, For P place (Gen.node content)) : D Unit place
      (SessionM.defineMethod name params returnType isStatic span content.span
        (Gen.node content)) := by
  refine h.querySession (.definingClass span) ?_
  rintro ⟨cls, isStaticBody⟩ -
  refine h.querySession (.paramTypes params) ?_
  rintro types ⟨s, -, htypes⟩
  refine h.querySession (.typeOf returnType span) fun machine _ ↦ ?_
  let m : MethodScope :=
    { name, params := types, returnType := machine, flags :=
    { isStatic := isStatic || isStaticBody } }
  have hlength : m.params.length = params.length := Session.length_paramTypes htypes
  refine h.inMethod_arguments (m := m) rfl nofun ?_ (.ofMethod cls hok rfl hlength)
  refine h.gen.bind (h.receive (hbody _) ..) fun _ ↦ ?_
  have hepilogue : ∀ style, P PUnit (place.within m.flags)
      (Gen.emitAll (Gen.epilogue machine (place.within m.flags).isStatic style)) :=
    fun _ ↦ h.emitAll fun _ ↦ h.epilogue
  exact h.gen.get (·.options.epilogue)
    (fun style ↦ Gen.emitAll (Gen.epilogue machine (isStatic || isStaticBody) style))
    (fun _ _ hs ↦ hs.epilogue) fun style _ ↦ hepilogue style

/-- A constructor first calls the one of the superclass. -/
theorem callSuper (h : Discipline t ok P Q D) (hinstance : place.isStatic = false) (span : Span) :
    P Unit place (Gen.callSuper span) := by
  let next (superclass : Option ClassRef) : Gen Unit :=
    superclass.elim (throw (.internal .constructorOutsideClass)) fun superclass ↦ do
      let m ← Gen.resolve superclass constructorName [] false span
      Gen.emit (.load .reference 0)
      Gen.emit (.invokeSpecial m.toRef)
  have hnext : ∀ superclass, P Unit place (next superclass) := by
    intro superclass
    cases superclass with
    | none => exact h.gen.throw _
    | some superclass =>
      refine h.resolve superclass constructorName [] false span fun m hm ↦ ?_
      have hload := h.loadReceiver fun hstatic ↦ absurd hstatic (Bool.eq_false_iff.1 hinstance)
      exact h.gen.bind hload fun _ ↦ h.emit (.ofConstructor hm) rfl
  have heq : Gen.callSuper span = MonadState.get >>= fun g ↦
      next (g.session.scopes.currentClass?.map (·.superclass)) := by
    refine congrArg (MonadState.get >>= ·) (funext fun g ↦ ?_)
    cases g.session.scopes.currentClass? <;> rfl
  rw [heq]
  exact h.gen.get (fun s ↦ s.scopes.currentClass?.map (·.superclass)) next
    (fun s s' hs ↦ hs.map_currentClass? fun _ ↦ rfl) fun superclass _ ↦ hnext superclass

/-- A constructor is defined if its body may be compiled wherever it stands. -/
theorem defineConstructor (h : Discipline t ok P Q D) {params : List Param} {content : Node}
    {span : Span} (hok : ok (.constructorDef params content span) = true)
    (hbody : ∀ place, For P place (Gen.node content)) :
    D Unit place (SessionM.defineConstructor params span (Gen.node content)) := by
  refine h.querySession (.definingClass span) ?_
  rintro ⟨cls, isStaticBody⟩ -
  cases isStaticBody with
  | true => exact h.definition.throw (.misuse span .constructorInScript)
  | false =>
    refine h.querySession (.paramTypes params) ?_
    rintro types ⟨s, -, htypes⟩
    let m : MethodScope :=
      { name := constructorName, params := types, flags := { isConstructor := true } }
    have hlength : m.params.length = params.length := Session.length_paramTypes htypes
    refine h.inMethod_arguments (m := m) rfl (fun _ ↦ rfl) ?_
      (.ofConstructor cls hok rfl rfl hlength)
    refine h.gen.bind (h.callSuper rfl span) fun _ ↦ ?_
    exact h.gen.bind (hbody _ .discard) fun _ ↦ h.emitPlain rfl rfl

/-- A constructor is defined for a class that has none. -/
theorem defineDefaultConstructor (h : Discipline t ok P Q D) (span : Span) :
    D Unit place (SessionM.defineDefaultConstructor span) := by
  refine h.querySession (.definingClass span) ?_
  rintro ⟨cls, isStaticBody⟩ -
  let m : MethodScope := { name := constructorName, flags := { isConstructor := true } }
  have hbegins : m.Begins [] (SessionM.declareThis cls) :=
    ⟨rfl, fun _ ↦ rfl, SessionM.receives_declareThis cls⟩
  refine h.inMethod m hbegins (.ofClass cls span rfl rfl rfl) (h.declareThis cls) ?_
  exact h.gen.bind (h.callSuper rfl span) fun _ ↦ h.emitPlain rfl rfl

/-- The classes that a definition names are only read. -/
theorem supertypesOf (h : Discipline t ok P Q D) (span : Span) (names : List String) :
    D (List ClassRef) place (SessionM.supertypesOf span names) := by
  induction names with
  | nil => exact h.definition.pure _
  | cons name names ih =>
    refine h.querySession (.supertypeOf name span) fun c _ ↦ ?_
    exact h.definition.bind ih fun cs ↦ h.definition.pure _

/-- What is known about the class when it is entered is its name. -/
theorem defineClass (h : Discipline t ok P Q D) {members : SessionM Unit} {name : String}
    (hmembers : D Unit { name, isStaticBody := false, isStatic := false } members)
    (superclass : Option String) (interfaces : List String) (hasConstructor : Bool) (span : Span) :
    D Unit place
      (SessionM.defineClass name superclass interfaces hasConstructor span members) := by
  -- The class is looked up by its name, and has this name even if the look-up fails.
  let cls (s : Session) : ClassRef := (s.classes.classRef? name).getD { name }
  have hcls : ∀ s, (cls s).name = name := by
    intro s
    show ((s.classes.classRef? name).getD { name }).name = name
    cases hc : s.classes.classRef? name with
    | none => rfl
    | some c => exact ClassTable.name_of_classRef? hc
  have hcontents : D Unit { name, isStaticBody := false, isStatic := false } (do
      if !hasConstructor then SessionM.defineDefaultConstructor span
      members) :=
    Sequential.ite (h.definition.bind (h.defineDefaultConstructor span) fun _ ↦ hmembers) hmembers
  let contents (cls superclass : ClassRef) : SessionM Unit := do
    let interfaces ← SessionM.supertypesOf span interfaces
    SessionM.inClass { cls, superclass, interfaces := interfaces.map (·.name) } do
      if !hasConstructor then SessionM.defineDefaultConstructor span
      members
  have hrest : ∀ cls superclass, cls.name = name → D Unit place (contents cls superclass) := by
    rintro ⟨_, isInterface⟩ superclass rfl
    exact h.definition.bind (h.supertypesOf span interfaces) fun cs ↦ h.inClass rfl hcontents
  have hread : ∀ s s' : Session, s.ReadsAlike s' → cls s = cls s' := fun s s' hs ↦
    congrArg (·.getD { name }) (hs.classRef? name)
  cases superclass with
  | none =>
    refine h.definition.get cls (contents · .root) hread ?_
    rintro _ ⟨s, -, rfl⟩
    exact hrest _ .root (hcls s)
  | some superclass =>
    refine h.definition.get cls
      (fun cls ↦ SessionM.query (·.supertypeOf superclass span) >>= contents cls) hread ?_
    rintro _ ⟨s, -, rfl⟩
    exact h.querySession (.supertypeOf superclass span) fun c _ ↦ hrest _ c (hcls s)

end Definitions

/-! ### Lists of nodes -/

/-- Nodes are compiled one after another. -/
theorem sequence (h : Discipline t ok P Q D) {nodes : List Node}
    (hnodes : ∀ n ∈ nodes, For P place (Gen.node n)) (keep : Bool) :
    P MachineType place (Gen.sequence nodes keep) := by
  induction nodes with
  | nil => exact h.settle ..
  | cons n rest ih =>
    have hn := hnodes n (List.mem_cons_self ..)
    have hrest := ih fun n hn ↦ hnodes n (List.mem_cons_of_mem _ hn)
    cases rest with
    | nil => exact hn _
    | cons m rest => exact h.gen.bind (hn .discard) fun _ ↦ hrest

/-- Arguments are compiled one after another. -/
theorem arguments (h : Discipline t ok P Q D) {nodes : List Node}
    (hnodes : ∀ n ∈ nodes, For P place (Gen.node n)) : ForArgs P place (Gen.arguments nodes) := by
  induction nodes with
  | nil => exact fun params ↦ h.gen.pure _
  | cons n rest ih =>
    intro params
    cases params with
    | nil => exact h.gen.pure _
    | cons param params =>
      refine h.gen.bind (h.receive (hnodes n (List.mem_cons_self ..)) ..) fun _ ↦ ?_
      exact ih (fun n hn ↦ hnodes n (List.mem_cons_of_mem _ hn)) params

/-- An alternative is compiled, or stands for nothing. -/
theorem alternative (h : Discipline t ok P Q D) {arm : Option Node}
    (harm : ∀ n ∈ arm, For P place (Gen.node n)) (type : MachineType) :
    P Unit place (Gen.alternative type arm) := by
  cases arm with
  | none =>
    exact Sequential.ite (h.gen.pure _) (h.defaultValue type)
  | some n => exact h.receive (harm n rfl) ..

/-- The members of a class are compiled one after another. -/
theorem classMembers (h : Discipline t ok P Q D) {members : List Node} {cls : String}
    (hmembers : ∀ n ∈ members, D Unit place (Gen.classMember cls n)) :
    D Unit place (Gen.classMembers cls members) := by
  induction members with
  | nil => exact h.definition.pure _
  | cons n rest ih =>
    refine h.definition.bind (hmembers n (List.mem_cons_self ..)) fun _ ↦ ?_
    exact ih fun n hn ↦ hmembers n (List.mem_cons_of_mem _ hn)

/-! ### Nodes -/

section Nodes

variable {condition content : Node}

/-- What two branches join to is read before they are compiled. -/
theorem joinType_bind (h : Discipline t ok P Q D) {α : Type} (type : SourceType) (span : Span)
    (keep : Bool) {next : MachineType → Gen α} (hnext : ∀ type, P α place (next type)) :
    P α place (Gen.joinType type span keep >>= next) := by
  cases keep with
  | true => exact h.query (.typeOf type span) fun type _ ↦ hnext type
  | false => exact hnext .void

/-- A condition is compiled with both of its branches. -/
theorem branch (h : Discipline t ok P Q D) {thenArm : Node} {elseArm : Option Node}
    (hcondition : For P place (Gen.node condition)) (hthen : For P place (Gen.node thenArm))
    (helse : ∀ n ∈ elseArm, For P place (Gen.node n)) (type : SourceType) (span : Span)
    (keep : Bool) : P MachineType place (do
      let type ← Gen.joinType type span keep
      let otherwise ← Gen.createLabel
      let done ← Gen.createLabel
      let _ ← Gen.node condition (.jump false otherwise)
      Gen.receive type thenArm.span (Gen.node thenArm)
      Gen.emit (.goto done)
      Gen.bind otherwise
      Gen.alternative type elseArm
      Gen.bind done
      Gen.settleVoid type keep) := by
  refine h.joinType_bind type span keep fun type ↦ ?_
  refine h.gen.bind h.createLabel fun otherwise ↦ h.gen.bind h.createLabel fun done ↦ ?_
  refine h.gen.bind (hcondition _) fun _ ↦ h.gen.bind (h.receive hthen ..) fun _ ↦ ?_
  refine h.gen.bind (h.emitPlain rfl rfl) fun _ ↦ h.gen.bind (h.bindLabel _) fun _ ↦ ?_
  refine h.gen.bind (h.alternative helse type) fun _ ↦ ?_
  exact h.gen.bind (h.bindLabel _) fun _ ↦ h.settleVoid ..

/-- A loop is compiled with its condition, on whichever side of the body it stands. -/
theorem loop (h : Discipline t ok P Q D) (hcondition : For P place (Gen.node condition))
    (hcontent : For P place (Gen.node content)) (checkFirst negative : Bool) (type : SourceType)
    (span : Span) (keep : Bool) : P MachineType place (do
      let type ← Gen.joinType type span keep
      let before ← Gen.createLabel
      let done ← Gen.createLabel
      if !type.isVoid then Gen.emit (Gen.defaultValue type)
      Gen.bind before
      if checkFirst then
        let _ ← Gen.node condition (.jump negative done)
      if let some kind := type.kind? then Gen.emit (.pop kind)
      Gen.receive type content.span (Gen.node content)
      if checkFirst then Gen.emit (.goto before)
      else
        let _ ← Gen.node condition (.jump (!negative) before)
      Gen.bind done
      Gen.settleVoid type keep) := by
  refine h.joinType_bind type span keep fun type ↦ ?_
  refine h.gen.bind h.createLabel fun before ↦ h.gen.bind h.createLabel fun done ↦ ?_
  have hend : P MachineType place (do
      Gen.bind done
      Gen.settleVoid type keep) :=
    h.gen.bind (h.bindLabel _) fun _ ↦ h.settleVoid ..
  -- From the end of the loop to its beginning, each part is followed by what has been shown.
  have hround : P MachineType place (do
      Gen.receive type content.span (Gen.node content)
      if checkFirst then Gen.emit (.goto before)
      else
        let _ ← Gen.node condition (.jump (!negative) before)
      Gen.bind done
      Gen.settleVoid type keep) := by
    refine h.gen.bind (h.receive hcontent ..) fun _ ↦ Sequential.ite ?_ ?_
    · exact h.gen.bind (h.emitPlain rfl rfl) fun _ ↦ hend
    · exact h.gen.bind (hcondition _) fun _ ↦ hend
  have hdrop : P MachineType place (do
      if let some kind := type.kind? then Gen.emit (.pop kind)
      Gen.receive type content.span (Gen.node content)
      if checkFirst then Gen.emit (.goto before)
      else
        let _ ← Gen.node condition (.jump (!negative) before)
      Gen.bind done
      Gen.settleVoid type keep) := by
    cases type.kind? with
    | none => exact hround
    | some kind => exact h.gen.bind (h.emitPlain rfl rfl) fun _ ↦ hround
  have hloop : P MachineType place (do
      Gen.bind before
      if checkFirst then
        let _ ← Gen.node condition (.jump negative done)
      if let some kind := type.kind? then Gen.emit (.pop kind)
      Gen.receive type content.span (Gen.node content)
      if checkFirst then Gen.emit (.goto before)
      else
        let _ ← Gen.node condition (.jump (!negative) before)
      Gen.bind done
      Gen.settleVoid type keep) := by
    refine h.gen.bind (h.bindLabel _) fun _ ↦ Sequential.ite ?_ hdrop
    exact h.gen.bind (hcondition _) fun _ ↦ hdrop
  refine Sequential.ite ?_ hloop
  exact h.gen.bind (h.defaultValue type) fun _ ↦ hloop

/-- An action on the session is all that a definition does. -/
theorem definition_settle (h : Discipline t ok P Q D) {act : SessionM Unit}
    (hact : D Unit place act) (keep : Bool) : P MachineType place (do
      Gen.onSession act
      Gen.settle .void keep) :=
  h.gen.bind (h.onSession hact) fun _ ↦ h.settle ..

/-- A call may jump on its outcome, if it compares or negates. -/
theorem node_call (h : Discipline t ok P Q D) {receiver : Node} {args : List Node} {name : String}
    {type : SourceType} {span : Span} (hok : ok (.call receiver name args type span) = true)
    (hreceiver : For P place (Gen.node receiver))
    (hargs : ∀ n ∈ args, For P place (Gen.node n)) :
    For P place (Gen.node (.call receiver name args type span)) := by
  have hpasses := h.arguments hargs
  have hcall : ∀ keep, P MachineType place
      (Gen.call receiver name args span (Gen.node receiver) (Gen.arguments args) keep) :=
    fun keep ↦ h.call hok hreceiver hpasses keep
  have hvalue := h.deliver (.call receiver name args type span) hcall
  intro d
  cases d with
  | discard => exact hvalue .discard
  | push => exact hvalue .push
  | jump sense target =>
    have hvalue := hvalue (.jump sense target)
    rw [Gen.node]
    refine Sequential.ite hvalue ?_
    split
    · exact h.gen.bind (h.compare hreceiver hpasses ..) fun _ ↦ h.gen.pure _
    · refine Sequential.ite (h.query (.valueType receiver) fun receiverType _ ↦ ?_) hvalue
      exact Sequential.ite (hreceiver (.jump (!sense) target)) hvalue

end Nodes

/-- The code of a node has the property for any destination, and the node has it as a member of a
class. -/
structure Covers (P : (α : Type) → Place → Gen α → Prop)
    (D : (α : Type) → Place → SessionM α → Prop) (n : Node) : Prop where
  node : ∀ place, For P place (Gen.node n)
  member : ∀ place cls, D Unit place (Gen.classMember cls n)

/-- A node that is no definition is no member of a class. -/
theorem covers_of_deliver (h : Discipline t ok P Q D) {n : Node} {code : Bool → Gen MachineType}
    (hnode : ∀ d, Gen.node n d = Gen.deliver n d code)
    (hmember : ∀ cls, Gen.classMember cls n = throw (.misuse n.span (.foreignMember cls)))
    (hcode : ∀ place keep, P MachineType place (code keep)) : Covers P D n := by
  refine ⟨fun place d ↦ ?_, fun place cls ↦ ?_⟩
  · rw [hnode]
    exact h.deliver n (hcode place) d
  · rw [hmember]
    exact h.definition.throw _

/-- All programs have the property of a discipline if their nodes pass its test. -/
theorem covers (h : Discipline t ok P Q D) (n : Node) (hn : n.all ok = true) : Covers P D n := by
  induction n using Node.inductionOn with
  | script name body span _ =>
    exact h.covers_of_deliver (fun d ↦ by rw [Gen.node]) (fun _ ↦ rfl) fun _ _ ↦ h.gen.throw _
  | body nodes type span ih =>
    obtain ⟨-, hnodes⟩ := Bool.and_eq_true_iff.1 hn
    refine h.covers_of_deliver (fun d ↦ by rw [Gen.node]) (fun _ ↦ rfl) fun place keep ↦ ?_
    exact h.sequence (fun n hn ↦ (ih n hn (Node.allOf_iff.1 hnodes n hn)).node place) keep
  | classDef name superclass interfaces members span ih =>
    obtain ⟨-, hmembers⟩ := Bool.and_eq_true_iff.1 hn
    refine h.covers_of_deliver (fun d ↦ by rw [Gen.node]) (fun _ ↦ rfl) fun place keep ↦ ?_
    refine h.definition_settle (h.defineClass (h.classMembers fun n hn ↦ ?_) ..) keep
    exact (ih n hn (Node.allOf_iff.1 hmembers n hn)).member _ name
  | methodDef name params returnType content isStatic span ih =>
    obtain ⟨hok, hcontent⟩ := Bool.and_eq_true_iff.1 hn
    -- A method may stand in code and in a class; only its place differs.
    have hmethod : ∀ place, D Unit place (SessionM.defineMethod name params returnType isStatic span
        content.span (Gen.node content)) := fun _ ↦ h.defineMethod hok (ih hcontent).node
    refine ⟨fun place d ↦ ?_, fun place _ ↦ hmethod place⟩
    rw [Gen.node]
    exact h.deliver _ (h.definition_settle (hmethod place)) d
  | constructorDef params content span ih =>
    obtain ⟨hok, hcontent⟩ := Bool.and_eq_true_iff.1 hn
    have hconstructor : ∀ place, D Unit place (SessionM.defineConstructor params span
        (Gen.node content)) := fun _ ↦ h.defineConstructor hok (ih hcontent).node
    refine ⟨fun place d ↦ ?_, fun place _ ↦ hconstructor place⟩
    rw [Gen.node]
    exact h.deliver _ (h.definition_settle (hconstructor place)) d
  | importDef full asName span =>
    have hok := Node.passes_of_all hn
    refine h.covers_of_deliver (fun d ↦ by rw [Gen.node]) (fun _ ↦ rfl) fun place keep ↦ ?_
    exact h.gen.bind (h.onSession (h.importClass hok)) fun _ ↦ h.settle ..
  | literal value type span =>
    refine h.covers_of_deliver (fun d ↦ by rw [Gen.node]) (fun _ ↦ rfl) fun place keep ↦ ?_
    exact h.literal value type span keep
  | typeName name span =>
    refine h.covers_of_deliver (fun d ↦ by rw [Gen.node]) (fun _ ↦ rfl) fun place keep ↦ ?_
    exact Sequential.ite (h.gen.throw _) (h.gen.pure _)
  | selfRef type span =>
    refine h.covers_of_deliver (fun d ↦ by rw [Gen.node]) (fun _ ↦ rfl) fun place keep ↦ ?_
    exact h.selfRef span keep
  | readLocal name type span =>
    refine h.covers_of_deliver (fun d ↦ by rw [Gen.node]) (fun _ ↦ rfl) fun place keep ↦ ?_
    exact h.readLocal name span keep
  | assign name value type span ih =>
    obtain ⟨-, hvalue⟩ := Bool.and_eq_true_iff.1 hn
    refine h.covers_of_deliver (fun d ↦ by rw [Gen.node]) (fun _ ↦ rfl) fun place keep ↦ ?_
    exact h.assign (Node.passes_of_all hn) rfl ((ih hvalue).node place) value type span keep
  | call receiver name args type span ihreceiver ihargs =>
    obtain ⟨hok, hparts⟩ := Bool.and_eq_true_iff.1 hn
    obtain ⟨hreceiver, hargs⟩ := Bool.and_eq_true_iff.1 hparts
    refine ⟨fun place ↦ ?_, fun place cls ↦ h.definition.throw _⟩
    exact h.node_call hok ((ihreceiver hreceiver).node place) fun n hn ↦
      (ihargs n hn (Node.allOf_iff.1 hargs n hn)).node place
  | selfCall name args type span ih =>
    obtain ⟨hok, hargs⟩ := Bool.and_eq_true_iff.1 hn
    refine h.covers_of_deliver (fun d ↦ by rw [Gen.node]) (fun _ ↦ rfl) fun place keep ↦ ?_
    refine h.callSelf hok (h.arguments fun n hn ↦ ?_) keep
    exact (ih n hn (Node.allOf_iff.1 hargs n hn)).node place
  | branch condition thenArm elseArm type span ihcondition ihthen ihelse =>
    obtain ⟨-, hparts⟩ := Bool.and_eq_true_iff.1 hn
    obtain ⟨hcondition, harms⟩ := Bool.and_eq_true_iff.1 hparts
    obtain ⟨hthen, helse⟩ := Bool.and_eq_true_iff.1 harms
    refine h.covers_of_deliver (fun d ↦ by rw [Gen.node]) (fun _ ↦ rfl) fun place keep ↦ ?_
    exact h.branch ((ihcondition hcondition).node place) ((ihthen hthen).node place)
      (fun n hn ↦ (ihelse n hn (Node.allAlternative_iff.1 helse n hn)).node place) type span keep
  | loop condition content checkFirst negative type span ihcondition ihcontent =>
    obtain ⟨-, hparts⟩ := Bool.and_eq_true_iff.1 hn
    obtain ⟨hcondition, hcontent⟩ := Bool.and_eq_true_iff.1 hparts
    refine h.covers_of_deliver (fun d ↦ by rw [Gen.node]) (fun _ ↦ rfl) fun place keep ↦ ?_
    exact h.loop ((ihcondition hcondition).node place) ((ihcontent hcontent).node place) checkFirst
      negative type span keep
  | noop span =>
    refine h.covers_of_deliver (fun d ↦ by rw [Gen.node]) (fun _ ↦ rfl) fun place keep ↦ ?_
    exact h.settle ..

/-! ### Scripts -/

/-- The method of a script begins with its arguments. -/
theorem begins_main (span : Span) :
    SessionM.mainScope.Begins ["args"] (SessionM.declareParam "args" mainArgs span) :=
  ⟨rfl, nofun, SessionM.receives_declareParam "args" mainArgs span⟩

/-- What is compiled within the class of a script has the property, if the nodes of its body pass
the test, and the method that runs the script has it as soon as its code does. -/
theorem scriptMembers (h : Discipline t ok P Q D) {script : Script}
    (hscript : script.body.all ok = true)
    (hmain : P Unit (place.within SessionM.mainScope.flags) (do
        let _ ← Gen.node script.body .discard
        Gen.emit .returnVoid) → D Unit place (SessionM.defineMain script.body script.span)) :
    D Unit place (do
      SessionM.defineDefaultConstructor script.span
      SessionM.defineMain script.body script.span) := by
  refine h.definition.bind (h.defineDefaultConstructor script.span) fun _ ↦ hmain ?_
  exact h.gen.bind ((h.covers script.body hscript).node _ .discard) fun _ ↦ h.emitPlain rfl rfl

end ScriptBytecode.Discipline

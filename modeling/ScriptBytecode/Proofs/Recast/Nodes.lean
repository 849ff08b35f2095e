import ScriptBytecode.Proofs.Recast.Definitions

/-!
# Programs in a changed session

By induction on syntax trees, whatever a node is, its code is the same in a changed session, as long
as the names that it is written with are allowed. So a script is compiled alike in a changed session
(`Faithful.compileScript`), and its unit is the changed one.

`covers` is the induction on nodes. How methods end is left to a hypothesis (`Recast.Defines`),
which each change provides.

A node is covered as code and as a member of a class at once, as classes are nodes, and their
members may be any nodes. For all that is neither a method nor a constructor the second part is an
error in both sessions.

The names that are tested are those that nodes are written with. What a name stands for does not
have to be known for that, so the hypothesis on a script can be checked without declaring it.
-/

namespace ScriptBytecode.Recast

variable {r : Recast}

/-- The code of a node carries the change for any destination, and the node carries it as a member
of a class. -/
structure Covers (r : Recast) (n : Node) : Prop where
  node : r.For (Gen.node n)
  member : ∀ cls, r.OnSession (Gen.classMember cls n) fun _ ↦ True

theorem allows_of_mentioned {n : Node} (hn : n.all (Node.names r.allows) = true) :
    ∀ name ∈ n.mentioned, r.allows name = true :=
  List.all_eq_true.1 (Node.passes_of_all hn)

namespace Faithful

variable (h : r.Faithful)

include h

/-! ### Lists of nodes -/

theorem sequence {nodes : List Node} (hnodes : ∀ n ∈ nodes, r.For (Gen.node n)) (keep : Bool) :
    r.OnGen (Gen.sequence nodes keep) r.familiar := by
  induction nodes with
  | nil => exact h.settle h.void keep
  | cons n rest ih =>
    have hn := hnodes n (List.mem_cons_self ..)
    have hrest := ih fun n hn ↦ hnodes n (List.mem_cons_of_mem _ hn)
    cases rest with
    | nil => exact hn _
    | cons m rest => exact (hn .discard).bind fun _ _ ↦ hrest

theorem arguments {nodes : List Node} (hnodes : ∀ n ∈ nodes, r.For (Gen.node n)) :
    r.ForArgs (Gen.arguments nodes) := by
  induction nodes with
  | nil => exact fun params _ ↦ .pure trivial
  | cons n rest ih =>
    intro params hparams
    cases params with
    | nil => exact .pure trivial
    | cons param params =>
      obtain ⟨hparam, hparams⟩ := List.forall_mem_cons.1 hparams
      refine (h.receive (hnodes n (List.mem_cons_self ..)) hparam n.span).bind fun _ _ ↦ ?_
      exact ih (fun n hn ↦ hnodes n (List.mem_cons_of_mem _ hn)) params hparams

theorem alternative {arm : Option Node} (harm : ∀ n ∈ arm, r.For (Gen.node n))
    {type : MachineType} (htype : r.familiar type) :
    r.OnGen (Gen.alternative type arm) fun _ ↦ True := by
  cases arm with
  | none => exact .ite (fun _ ↦ .pure trivial) fun _ ↦ onGen_emit _
  | some n => exact h.receive (harm n rfl) htype n.span

omit h in
theorem classMembers {members : List Node} {cls : String}
    (hmembers : ∀ n ∈ members, r.OnSession (Gen.classMember cls n) fun _ ↦ True) :
    r.OnSession (Gen.classMembers cls members) fun _ ↦ True := by
  induction members with
  | nil => exact .pure trivial
  | cons n rest ih =>
    refine (hmembers n (List.mem_cons_self ..)).bind fun _ _ ↦ ?_
    exact ih fun n hn ↦ hmembers n (List.mem_cons_of_mem _ hn)

/-! ### Branches and loops -/

section Control

variable {condition content : Node} {type : SourceType}
  (hcondition : r.For (Gen.node condition))
  (htype : ∀ name ∈ type.mentioned, r.allows name = true)

include htype in
theorem joinType (span : Span) (keep : Bool) :
    r.OnGen (Gen.joinType type span keep) r.familiar :=
  .ite (fun _ ↦ (h.typeOf span htype).onGen) fun _ ↦ .pure h.void

include hcondition htype

theorem branch {thenArm : Node} {elseArm : Option Node} (hthen : r.For (Gen.node thenArm))
    (helse : ∀ n ∈ elseArm, r.For (Gen.node n)) (span : Span) (keep : Bool) :
    r.OnGen (do
      let type ← Gen.joinType type span keep
      let otherwise ← Gen.createLabel
      let done ← Gen.createLabel
      let _ ← Gen.node condition (.jump false otherwise)
      Gen.receive type thenArm.span (Gen.node thenArm)
      Gen.emit (.goto done)
      Gen.bind otherwise
      Gen.alternative type elseArm
      Gen.bind done
      Gen.settleVoid type keep) r.familiar := by
  refine (h.joinType htype span keep).bind fun type hfamiliar ↦ ?_
  refine onGen_createLabel.bind fun otherwise _ ↦ onGen_createLabel.bind fun done _ ↦ ?_
  refine (hcondition _).bind fun _ _ ↦ (h.receive hthen hfamiliar thenArm.span).bind fun _ _ ↦ ?_
  refine (onGen_emit _).bind fun _ _ ↦ (onGen_bind otherwise).bind fun _ _ ↦ ?_
  refine (h.alternative helse hfamiliar).bind fun _ _ ↦ (onGen_bind done).bind fun _ _ ↦ ?_
  exact h.settleVoid hfamiliar keep

theorem loop (hcontent : r.For (Gen.node content)) (checkFirst negative : Bool) (span : Span)
    (keep : Bool) : r.OnGen (do
      let type ← Gen.joinType type span keep
      let before ← Gen.createLabel
      let done ← Gen.createLabel
      if !type.isVoid then Gen.emit (Gen.defaultValue type)
      Gen.bind before
      if checkFirst then
        let _ ← Gen.node condition (.jump negative done)
      if let some kind := type.kind? then Gen.emit (.pop kind)
      Gen.receive type content.span (Gen.node content)
      if checkFirst then Gen.emit (.goto before)
      else
        let _ ← Gen.node condition (.jump (!negative) before)
      Gen.bind done
      Gen.settleVoid type keep) r.familiar := by
  refine (h.joinType htype span keep).bind fun type hfamiliar ↦ ?_
  refine onGen_createLabel.bind fun before _ ↦ onGen_createLabel.bind fun done _ ↦ ?_
  -- As elsewhere, the loop is opened from its end.
  have hend : r.OnGen (do
      Gen.bind done
      Gen.settleVoid type keep) r.familiar :=
    (onGen_bind done).bind fun _ _ ↦ h.settleVoid hfamiliar keep
  have hround : r.OnGen (do
      Gen.receive type content.span (Gen.node content)
      if checkFirst then Gen.emit (.goto before)
      else
        let _ ← Gen.node condition (.jump (!negative) before)
      Gen.bind done
      Gen.settleVoid type keep) r.familiar := by
    refine (h.receive hcontent hfamiliar content.span).bind fun _ _ ↦ .ite (fun _ ↦ ?_) fun _ ↦ ?_
    · exact (onGen_emit _).bind fun _ _ ↦ hend
    · exact (hcondition _).bind fun _ _ ↦ hend
  have hdrop : r.OnGen (do
      if let some kind := type.kind? then Gen.emit (.pop kind)
      Gen.receive type content.span (Gen.node content)
      if checkFirst then Gen.emit (.goto before)
      else
        let _ ← Gen.node condition (.jump (!negative) before)
      Gen.bind done
      Gen.settleVoid type keep) r.familiar := by
    cases type.kind? with
    | none => exact hround
    | some kind => exact (onGen_emit _).bind fun _ _ ↦ hround
  have htest : r.OnGen (do
      Gen.bind before
      if checkFirst then
        let _ ← Gen.node condition (.jump negative done)
      if let some kind := type.kind? then Gen.emit (.pop kind)
      Gen.receive type content.span (Gen.node content)
      if checkFirst then Gen.emit (.goto before)
      else
        let _ ← Gen.node condition (.jump (!negative) before)
      Gen.bind done
      Gen.settleVoid type keep) r.familiar := by
    refine (onGen_bind before).bind fun _ _ ↦ .ite (fun _ ↦ ?_) fun _ ↦ hdrop
    exact (hcondition _).bind fun _ _ ↦ hdrop
  exact onGen_emit_if _ _ htest

end Control

/-! ### Definitions -/

/-- An action on the session is all that a definition does. -/
theorem definition_settle {α : Type} {act : SessionM α} (hact : r.OnSession act fun _ ↦ True)
    (keep : Bool) : r.OnGen (do
      let _ ← Gen.onSession act
      Gen.settle .void keep) r.familiar :=
  (onGen_onSession hact).bind fun _ _ ↦ h.settle h.void keep

theorem onSession_importClass {full : String} (hfull : r.allows full = true) (short : String)
    (asName : Option String) (span : Span) :
    r.OnSession (SessionM.importClass short asName full span) fun _ ↦ True := by
  refine ⟨fun {s} (hs : r.valid s) ↦ ?_⟩
  obtain ⟨hsame, hfamiliar⟩ := h.classRef? hs hfull
  have himport : (r.session s).types.importClass (r.session s).classes (short :: asName.toList)
      full span = s.types.importClass s.classes (short :: asName.toList) full span := by
    show s.types.importClass (r.classes s.classes) _ full span = _
    unfold TypeTable.importClass
    rw [hsame]
  have hrun : ∀ s, SessionM.importClass short asName full span s = EStateM.bind
      (SessionM.ofExcept (s.types.importClass s.classes (short :: asName.toList) full span))
      (fun imported ↦ do
        set { s with types := imported.2 }
        Pure.pure imported.1) s := fun _ ↦ rfl
  constructor
  · rw [hrun, hrun, himport]
    cases s.types.importClass s.classes (short :: asName.toList) full span <;> rfl
  · refine ensures_get_bind ?_
    unfold TypeTable.importClass
    cases hc : s.classes.classRef? full with
    | none => exact ensures_throw_bind trivial
    | some c => exact ensures_pure_bind ⟨trivial, h.importClass _ hs (hfamiliar c hc)⟩

theorem supertypesOf {names : List String} (hnames : ∀ name ∈ names, r.allows name = true)
    (span : Span) : r.OnSession (SessionM.supertypesOf span names) fun _ ↦ True := by
  induction names with
  | nil => exact .pure trivial
  | cons name names ih =>
    obtain ⟨hname, hnames⟩ := List.forall_mem_cons.1 hnames
    refine (h.supertypeOf hname span).onSession.bind fun c _ ↦ ?_
    exact (ih hnames).bind fun cs _ ↦ .pure trivial

theorem defineClass (hdefines : r.Defines) {name : String} {superclass : Option String}
    {interfaces : List String} {members : SessionM Unit} (hname : r.allows name = true)
    (hsuperclass : ∀ c ∈ superclass, r.allows c = true)
    (hinterfaces : ∀ c ∈ interfaces, r.allows c = true)
    (hmembers : r.OnSession members fun _ ↦ True) (hasConstructor : Bool) (span : Span) :
    r.OnSession (SessionM.defineClass name superclass interfaces hasConstructor span members)
      fun _ ↦ True := by
  have hcontents : r.OnSession (do
      if !hasConstructor then SessionM.defineDefaultConstructor span
      members) fun _ ↦ True :=
    .ite (fun _ ↦ (hdefines.defineDefaultConstructor span).bind fun _ _ ↦ hmembers) fun _ ↦ hmembers
  have hrest : ∀ cls superclass : ClassRef, r.familiar (.ref cls) → r.familiar (.ref superclass) →
      r.OnSession (do
        let interfaces ← SessionM.supertypesOf span interfaces
        SessionM.inClass { cls, superclass, interfaces := interfaces.map (·.name) } do
          if !hasConstructor then SessionM.defineDefaultConstructor span
          members) fun _ ↦ True := fun cls superclass hcls hsuperclass ↦
    (h.supertypesOf hinterfaces span).bind fun _ _ ↦ h.inClass hcontents rfl hcls hsuperclass
  refine ⟨fun {s} (hs : r.valid s) ↦ ?_⟩
  obtain ⟨hsame, hfamiliar⟩ := h.classRef? hs hname
  have hcls : r.familiar (.ref ((s.classes.classRef? name).getD { name })) := by
    cases hc : s.classes.classRef? name with
    | none => exact h.ofClass hname
    | some c => exact hfamiliar c hc
  have hread : (r.session s).classes.classRef? name = s.classes.classRef? name := hsame
  refine .get_bind (by rw [hread]) ?_
  cases superclass with
  | none => exact (hrest _ .root hcls h.object).run hs
  | some superclass =>
    have hread := h.supertypeOf (hsuperclass superclass rfl) span
    exact (hread.onSession.bind fun c hc ↦ hrest _ c hcls hc).run hs

/-! ### Nodes -/

/-- A call may jump on its outcome, if it compares or negates. -/
theorem node_call {receiver : Node} {args : List Node} {name : String} {type : SourceType}
    {span : Span} (hn : (Node.call receiver name args type span).all (Node.names r.allows) = true)
    (hreceiver : r.For (Gen.node receiver)) (hargs : ∀ n ∈ args, r.For (Gen.node n)) :
    r.For (Gen.node (.call receiver name args type span)) := by
  obtain ⟨-, hparts⟩ := Bool.and_eq_true_iff.1 hn
  obtain ⟨hreceivers, hall⟩ := Bool.and_eq_true_iff.1 hparts
  have hall := Node.allOf_iff.1 hall
  have hpasses := h.arguments hargs
  have hvalue := h.deliver hn (h.call hall hpasses hreceivers hreceiver name span)
  intro d
  cases d with
  | discard => exact hvalue .discard
  | push => exact hvalue .push
  | jump sense target =>
    have hvalue := hvalue (.jump sense target)
    rw [Gen.node]
    refine .ite (fun _ ↦ hvalue) fun _ ↦ ?_
    split
    · exact (h.compare hall hpasses hreceivers hreceiver _ name span sense target).bind
        fun _ _ ↦ .pure h.void
    · refine .ite (fun _ ↦ ?_) fun _ ↦ hvalue
      refine (h.valueType hreceivers).onGen.bind fun _ _ ↦ ?_
      exact .ite (fun _ ↦ hreceiver (.jump (!sense) target)) fun _ ↦ hvalue

/-- A node that is no definition is no member of a class. -/
theorem covers_of_deliver {n : Node} (hn : n.all (Node.names r.allows) = true)
    {code : Bool → Gen MachineType} (hnode : ∀ d, Gen.node n d = Gen.deliver n d code)
    (hmember : ∀ cls, Gen.classMember cls n = throw (.misuse n.span (.foreignMember cls)))
    (hcode : ∀ keep, r.OnGen (code keep) r.familiar) : r.Covers n := by
  refine ⟨fun d ↦ ?_, fun cls ↦ ?_⟩
  · rw [hnode]
    exact h.deliver hn hcode d
  · rw [hmember]
    exact .throw _

/-- All programs are compiled alike in a changed session. -/
theorem covers (hdefines : r.Defines) {n : Node} (hn : n.all (Node.names r.allows) = true) :
    r.Covers n := by
  induction n using Node.inductionOn with
  | script name body span _ =>
    exact h.covers_of_deliver hn (fun d ↦ by rw [Gen.node]) (fun _ ↦ rfl) fun _ ↦ .throw _
  | body nodes type span ih =>
    obtain ⟨-, hnodes⟩ := Bool.and_eq_true_iff.1 hn
    have hnodes := Node.allOf_iff.1 hnodes
    refine h.covers_of_deliver hn (fun d ↦ by rw [Gen.node]) (fun _ ↦ rfl)
      (h.sequence fun n hn ↦ ?_)
    exact (ih n hn (hnodes n hn)).node
  | classDef name superclass interfaces members span ih =>
    have hwritten := allows_of_mentioned hn
    obtain ⟨-, hmembers⟩ := Bool.and_eq_true_iff.1 hn
    have hmembers := Node.allOf_iff.1 hmembers
    refine h.covers_of_deliver hn (fun d ↦ by rw [Gen.node]) (fun _ ↦ rfl) fun keep ↦ ?_
    refine h.definition_settle
      (h.defineClass hdefines ?_ ?_ ?_ (classMembers fun n hn ↦ ?_) ..) keep
    · exact hwritten name (List.mem_cons_self ..)
    · exact fun c hc ↦ hwritten c (List.mem_cons_of_mem _
        (List.mem_append_left _ (Option.mem_toList.2 hc)))
    · exact fun c hc ↦ hwritten c (List.mem_cons_of_mem _ (List.mem_append_right _ hc))
    · exact (ih n hn (hmembers n hn)).member name
  | methodDef name params returnType content isStatic span ih =>
    have hwritten := allows_of_mentioned hn
    obtain ⟨-, hcontent⟩ := Bool.and_eq_true_iff.1 hn
    have hbody := (ih hcontent).node
    -- How a method ends is for the change to say, so definitions are a hypothesis
    -- (`Recast.Defines`).
    have hmethod := hdefines.defineMethod name isStatic span hbody
      (fun p hp name hname ↦ hwritten name
        (List.mem_append_left _ (List.mem_flatMap.2 ⟨p, hp, hname⟩)))
      fun name hname ↦ hwritten name (List.mem_append_right _ hname)
    refine ⟨fun d ↦ ?_, fun _ ↦ hmethod⟩
    rw [Gen.node]
    exact h.deliver hn (h.definition_settle hmethod) d
  | constructorDef params content span ih =>
    have hwritten := allows_of_mentioned hn
    obtain ⟨-, hcontent⟩ := Bool.and_eq_true_iff.1 hn
    have hbody := (ih hcontent).node
    have hconstructor := hdefines.defineConstructor span hbody fun p hp name hname ↦
      hwritten name (List.mem_flatMap.2 ⟨p, hp, hname⟩)
    refine ⟨fun d ↦ ?_, fun _ ↦ hconstructor⟩
    rw [Gen.node]
    exact h.deliver hn (h.definition_settle hconstructor) d
  | importDef full asName span =>
    have hwritten := allows_of_mentioned hn
    refine h.covers_of_deliver hn (fun d ↦ by rw [Gen.node]) (fun _ ↦ rfl) ?_
    exact h.definition_settle (h.onSession_importClass (hwritten full (List.mem_cons_self ..)) ..)
  | literal value type span =>
    have hwritten := allows_of_mentioned hn
    refine h.covers_of_deliver hn (fun d ↦ by rw [Gen.node]) (fun _ ↦ rfl) ?_
    exact h.literal hwritten value span
  | typeName name span =>
    refine h.covers_of_deliver hn (fun d ↦ by rw [Gen.node]) (fun _ ↦ rfl) fun keep ↦ ?_
    exact .ite (fun _ ↦ .throw _) fun _ ↦ .pure h.void
  | selfRef type span =>
    exact h.covers_of_deliver hn (fun d ↦ by rw [Gen.node]) (fun _ ↦ rfl) (h.selfRef span)
  | readLocal name type span =>
    exact h.covers_of_deliver hn (fun d ↦ by rw [Gen.node]) (fun _ ↦ rfl) (h.readLocal name span)
  | assign name value type span ih =>
    have hwritten := allows_of_mentioned hn
    obtain ⟨-, hvalue⟩ := Bool.and_eq_true_iff.1 hn
    have hcode := (ih hvalue).node
    refine h.covers_of_deliver hn (fun d ↦ by rw [Gen.node]) (fun _ ↦ rfl) ?_
    exact h.assign hvalue hcode hwritten name span
  | call receiver name args type span ihreceiver ihargs =>
    obtain ⟨-, hparts⟩ := Bool.and_eq_true_iff.1 hn
    obtain ⟨hreceiver, hargs⟩ := Bool.and_eq_true_iff.1 hparts
    have hargs := Node.allOf_iff.1 hargs
    refine ⟨h.node_call hn ?_ fun n hn ↦ ?_, fun cls ↦ .throw _⟩
    · exact (ihreceiver hreceiver).node
    · exact (ihargs n hn (hargs n hn)).node
  | selfCall name args type span ih =>
    obtain ⟨-, hargs⟩ := Bool.and_eq_true_iff.1 hn
    have hargs := Node.allOf_iff.1 hargs
    refine h.covers_of_deliver hn (fun d ↦ by rw [Gen.node]) (fun _ ↦ rfl) ?_
    refine h.callSelf hargs (h.arguments fun n hn ↦ ?_) name span
    exact (ih n hn (hargs n hn)).node
  | branch condition thenArm elseArm type span ihcondition ihthen ihelse =>
    have hwritten := allows_of_mentioned hn
    obtain ⟨-, hparts⟩ := Bool.and_eq_true_iff.1 hn
    obtain ⟨hcondition, harms⟩ := Bool.and_eq_true_iff.1 hparts
    obtain ⟨hthen, helse⟩ := Bool.and_eq_true_iff.1 harms
    have helse := Node.allAlternative_iff.1 helse
    refine h.covers_of_deliver hn (fun d ↦ by rw [Gen.node]) (fun _ ↦ rfl) fun keep ↦ ?_
    exact h.branch (ihcondition hcondition).node hwritten (ihthen hthen).node
      (fun n hn ↦ (ihelse n hn (helse n hn)).node) span keep
  | loop condition content checkFirst negative type span ihcondition ihcontent =>
    have hwritten := allows_of_mentioned hn
    obtain ⟨-, hparts⟩ := Bool.and_eq_true_iff.1 hn
    obtain ⟨hcondition, hcontent⟩ := Bool.and_eq_true_iff.1 hparts
    refine h.covers_of_deliver hn (fun d ↦ by rw [Gen.node]) (fun _ ↦ rfl) fun keep ↦ ?_
    exact h.loop (ihcondition hcondition).node hwritten (ihcontent hcontent).node checkFirst
      negative span keep
  | noop span =>
    exact h.covers_of_deliver hn (fun d ↦ by rw [Gen.node]) (fun _ ↦ rfl) (h.settle h.void)

/-! ### Scripts -/

/-- A script is compiled alike in a changed session. -/
theorem compileScript (hdefines : r.Defines) {script : Script}
    (hname : r.allows script.name = true) (hbody : script.body.all (Node.names r.allows) = true) :
    r.OnSession (SessionM.compileScript script) fun _ ↦ True := by
  refine h.inClass ?_ rfl (h.ofClass hname) h.object
  refine (hdefines.defineDefaultConstructor script.span).bind fun _ _ ↦ ?_
  exact hdefines.defineMain script.span (h.covers hdefines hbody).node

end Faithful

end ScriptBytecode.Recast

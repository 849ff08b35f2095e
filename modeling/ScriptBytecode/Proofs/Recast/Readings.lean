import ScriptBytecode.Compile.Definitions
import ScriptBytecode.Proofs.Recast.Basic
import ScriptBytecode.Proofs.Resolution

/-!
# What is read from a changed session

Where a change is faithful, all that compilation looks up for a node is the same in the changed
session: what its types stand for, the members that its calls resolve to, and the type of its value.
All types that come up in this are familiar.

`Reads.bind` puts readings together. `Faithful.valueType` is the reading that takes an induction on
syntax trees; the others follow the look-ups of a session one by one.

A look-up that fails is a reading as well, and fails alike in the changed session. The type of a
call that has none written on it is read by resolving the call, with the types of its arguments, and
so on downwards: that is why there is an induction.
-/

namespace ScriptBytecode.Recast

variable {r : Recast}

/-! ### Readings made of others -/

namespace Reads

variable {α β : Type} {post : α → Prop} {post₂ : β → Prop}

theorem const {outcome : Except CompileError α} (h : ∀ a, outcome = .ok a → post a) :
    r.Reads (fun _ ↦ outcome) post :=
  ⟨fun _ ↦ rfl, fun _ ha ↦ h _ ha⟩

theorem ok {a : α} (h : post a) : r.Reads (fun _ ↦ .ok a) post :=
  const fun _ ha ↦ Except.ok.inj ha ▸ h

theorem error (e : CompileError) : r.Reads (fun _ ↦ .error e) post :=
  const fun _ ha ↦ by cases ha

/-- Readings follow each other. -/
theorem bind {read : Session → Except CompileError α}
    {next : Session → α → Except CompileError β} (h : r.Reads read post)
    (hnext : ∀ a, post a → r.Reads (next · a) post₂) :
    r.Reads (fun s ↦ read s >>= next s) post₂ := by
  constructor
  · intro s hs
    rw [h.same hs]
    cases hread : read s with
    | error e => rfl
    | ok a => exact (hnext a (h.result hs hread)).same hs
  · intro s b hs hb
    cases hread : read s with
    | error e =>
      rw [hread] at hb
      cases hb
    | ok a =>
      rw [hread] at hb
      exact (hnext a (h.result hs hread)).result hs hb

theorem ite {c : Prop} [Decidable c] {read read' : Session → Except CompileError α}
    (hpos : r.Reads read post) (hneg : r.Reads read' post) :
    r.Reads (fun s ↦ if c then read s else read' s) post := by
  split
  · exact hpos
  · exact hneg

end Reads

/-- What a call leaves is familiar if the result and what stands in for it are. -/
theorem familiar_resultType {m : Member} {standIn : MachineType} (hm : r.familiar m.returnType)
    (hstandIn : r.familiar standIn) : r.familiar (Session.resultType m standIn) := by
  unfold Session.resultType
  split
  · exact hstandIn
  · exact hm

theorem Reads.valueTypes {nodes : List Node}
    (hnodes : ∀ n ∈ nodes, r.Reads (·.valueType n) r.familiar) :
    r.Reads (·.valueTypes nodes) fun types ↦ ∀ type ∈ types, r.familiar type := by
  induction nodes with
  | nil =>
    simp only [Session.valueTypes]
    exact .ok fun _ hmem ↦ absurd hmem List.not_mem_nil
  | cons n nodes ih =>
    simp only [Session.valueTypes]
    refine (hnodes n (List.mem_cons_self ..)).bind fun type htype ↦ ?_
    have hrest := ih fun n hn ↦ hnodes n (List.mem_cons_of_mem _ hn)
    exact hrest.bind fun types htypes ↦ .ok (List.forall_mem_cons.2 ⟨htype, htypes⟩)

namespace Faithful

variable (h : r.Faithful)

include h

theorem void : r.familiar .void := h.builtin _ (by simp)
theorem boolean : r.familiar .boolean := h.builtin _ (by simp)
theorem object : r.familiar .object := h.builtin _ (by simp)
theorem string : r.familiar .string := h.builtin _ (by simp)
theorem mainArgs : r.familiar mainArgs := h.builtin _ (by simp)

theorem width (w : Width) : r.familiar w.type := by
  cases w with
  | narrow => exact h.builtin .int (by simp)
  | wide => exact h.builtin .long (by simp)

/-! ### Types -/

/-- The type of a node is read alike if what the node names is allowed. -/
theorem typeOf_node {n : Node} (hn : n.names r.allows = true) (span : Span) :
    r.Reads (·.typeOf n.type span) r.familiar :=
  h.typeOf span fun name hname ↦ List.all_eq_true.1 hn name (n.mentioned_type_subset hname)

theorem typeOf_named {name : String} (hname : r.allows name = true) (span : Span) :
    r.Reads (·.typeOf (.named name) span) r.familiar := by
  refine h.typeOf span fun name' hname' ↦ ?_
  unfold SourceType.mentioned at hname'
  split at hname'
  · cases hname'
  · obtain rfl := List.mem_singleton.1 hname'
    exact hname

/-- So is a class that is extended or implemented, -/
theorem supertypeOf {name : String} (hname : r.allows name = true) (span : Span) :
    r.Reads (·.supertypeOf name span) fun c ↦ r.familiar (.ref c) := by
  refine (h.typeOf_named hname span).bind fun type htype ↦ ?_
  cases type with
  | ref c => exact .ok htype
  | _ => exact .error _

/-- and the types of parameters. -/
theorem paramTypes {params : List Param}
    (hparams : ∀ p ∈ params, ∀ name ∈ p.type.mentioned, r.allows name = true) :
    r.Reads (·.paramTypes params) fun types ↦ ∀ type ∈ types, r.familiar type := by
  induction params with
  | nil => exact .ok fun _ hmem ↦ absurd hmem List.not_mem_nil
  | cons p ps ih =>
    refine (h.typeOf p.span (hparams p (List.mem_cons_self ..))).bind fun type htype ↦ ?_
    have hrest := ih fun p hp ↦ hparams p (List.mem_cons_of_mem _ hp)
    exact hrest.bind fun types htypes ↦ .ok (List.forall_mem_cons.2 ⟨htype, htypes⟩)

/-- So is the class whose static member is called, -/
theorem metaClass {receiver : Node} (hreceiver : receiver.names r.allows = true) (name : String)
    (span : Span) : r.Reads (·.metaClass receiver.type receiver.span name span) fun c ↦
      r.familiar (.ref c) := by
  refine (h.typeOf_node hreceiver receiver.span).bind fun type htype ↦ ?_
  cases type with
  | ref c => exact .ok htype
  | _ => exact .error _

/-- the class of a receiver, -/
theorem receiverClass {receiver : MachineType} (hreceiver : r.familiar receiver) (name : String)
    (span : Span) : r.Reads (fun _ ↦ Session.receiverClass receiver name span) fun c ↦
      r.familiar (.ref c) := by
  cases receiver with
  | ref c => exact .ok hreceiver
  | array element => exact .ok h.object
  | void => exact .ok h.object
  | primitive p => exact .error _

/-! ### Callees -/

/-- What does not depend on the methods of the current class can be read from it. -/
theorem current_reads {α : Type} {f : ClassScope → α} (hf : ∀ c, f (r.classScope c) = f c)
    {post : α → Prop} (hpost : ∀ c : ClassScope, r.familiar (.ref c.cls) →
      r.familiar (.ref c.superclass) → post (f c)) (e : CompileError) :
    r.Reads (fun s ↦ (s.scopes.currentClass?.map f).elim (.error e) .ok) post := by
  constructor
  · intro s _
    show ((r.scopes s.scopes).currentClass?.map f).elim _ _ = _
    rw [currentClass?_scopes]
    cases s.scopes.currentClass? with
    | none => rfl
    | some c => exact congrArg Except.ok (hf c)
  · intro s a hs ha
    cases hc : s.scopes.currentClass? with
    | none =>
      rw [hc] at ha
      cases ha
    | some c =>
      rw [hc] at ha
      obtain ⟨hcls, hsuperclass⟩ := h.current hs hc
      exact Except.ok.inj ha ▸ hpost c hcls hsuperclass

/-- and the class that a definition belongs to. -/
theorem definingClass (span : Span) :
    r.Reads (·.definingClass span) fun place ↦ r.familiar (.ref place.1) := by
  have heq : (Session.definingClass · span) = fun s ↦
      (s.scopes.currentClass?.map fun c ↦ (c.cls, c.isStaticBody)).elim
        (.error (.misuse span .definitionOutsideClass)) .ok := by
    funext s
    unfold Session.definingClass
    cases s.scopes.currentClass? <;> rfl
  rw [heq]
  exact h.current_reads (f := fun c ↦ (c.cls, c.isStaticBody)) (fun _ ↦ rfl)
    (fun _ hcls _ ↦ hcls) _

/-- A call without a receiver refers to the same member. -/
theorem selfCallee (name : String) {args : Session → Except CompileError (List MachineType)}
    (hargs : r.Reads args fun types ↦ ∀ type ∈ types, r.familiar type) (span : Span) :
    r.Reads (fun s ↦ s.selfCallee name (args s) span) fun callee ↦
      r.familiar (.ref callee.1) ∧ r.familiar callee.2.returnType ∧
        ∀ param ∈ callee.2.params, r.familiar param := by
  constructor
  · intro s hs
    have hstatic : (r.session s).scopes.isStatic = s.scopes.isStatic := r.isStatic_scopes _
    have hcurrent : (r.session s).scopes.currentClass? = s.scopes.currentClass?.map r.classScope :=
      r.currentClass?_scopes _
    unfold Session.selfCallee
    rw [hargs.same hs, hstatic, hcurrent]
    cases hc : s.scopes.currentClass? with
    | none => rfl
    | some c =>
      cases hread : args s with
      | error e => rfl
      | ok types =>
        have hsame : ∀ isStatic, (r.session s).classes.resolve c.cls name types isStatic span =
            s.classes.resolve c.cls name types isStatic span := fun isStatic ↦
          (h.resolve name isStatic span (h.current hs hc).1 (hargs.result hs hread)).same hs
        simp only [Option.map, classScope, bind, Except.bind, hsame]
  · rintro s ⟨cls, m⟩ hs hfound
    obtain ⟨c, types, isStatic, hc, rfl, hread, hm, -⟩ := Session.resolve_of_selfCallee hfound
    have hcls := (h.current hs hc).1
    have hresolve := h.resolve name isStatic span hcls (hargs.result hs hread)
    exact ⟨hcls, hresolve.result hs hm⟩

/-! ### Types of values -/

/-- The type of a value does not depend on the change. -/
theorem valueType {n : Node} (hn : n.all (Node.names r.allows) = true) :
    r.Reads (·.valueType n) r.familiar := by
  induction n using Node.inductionOn with
  | call receiver name args type span ihreceiver ihargs =>
    obtain ⟨hown, hparts⟩ := Bool.and_eq_true_iff.1 hn
    obtain ⟨hreceiver, hargs⟩ := Bool.and_eq_true_iff.1 hparts
    have htypes := Reads.valueTypes fun n hn ↦ ihargs n hn (Node.allOf_iff.1 hargs n hn)
    -- Calls on types and on values both look a member up and take the type of its result.
    have hresult : ∀ {cls : ClassRef} {standIn : MachineType} (isStatic : Bool),
        r.familiar (.ref cls) → r.familiar standIn → r.Reads (fun s ↦ do
          let m ← s.classes.resolve cls name (← s.valueTypes args) isStatic span
          .ok (Session.resultType m standIn)) r.familiar := fun isStatic hcls hstandIn ↦
      htypes.bind fun types htypes ↦ (h.resolve name isStatic span hcls htypes).bind
        fun m hm ↦ .ok (familiar_resultType hm.1 hstandIn)
    simp only [Session.valueType]
    refine (h.typeOf_node hown span).bind fun inferred hinferred ↦ .ite (.ok hinferred) (.ite ?_ ?_)
    · refine (h.metaClass (Node.passes_of_all hreceiver) name span).bind fun cls hcls ↦ ?_
      exact .ite (.ok hcls) (hresult true hcls h.object)
    · refine (ihreceiver hreceiver).bind fun receiverType htype ↦ ?_
      split
      · exact .ok h.object
      · exact (h.receiverClass htype name span).bind fun cls hcls ↦ hresult false hcls htype
  | selfCall name args type span ihargs =>
    obtain ⟨hown, hargs⟩ := Bool.and_eq_true_iff.1 hn
    have htypes := Reads.valueTypes fun n hn ↦ ihargs n hn (Node.allOf_iff.1 hargs n hn)
    simp only [Session.valueType]
    refine (h.typeOf_node hown span).bind fun inferred hinferred ↦ .ite (.ok hinferred) ?_
    refine (h.selfCallee name htypes span).bind fun callee hcallee ↦ .ok ?_
    refine familiar_resultType hcallee.2.1 ?_
    split
    · exact h.object
    · exact hcallee.1
  | _ =>
    have hown := Node.passes_of_all hn
    simp only [Session.valueType]
    refine (h.typeOf_node hown _).bind fun inferred hinferred ↦ .ok ?_
    split
    · exact h.object
    · exact hinferred

/-- So are the types of arguments. -/
theorem valueTypes {nodes : List Node}
    (hnodes : ∀ n ∈ nodes, n.all (Node.names r.allows) = true) :
    r.Reads (·.valueTypes nodes) fun types ↦ ∀ type ∈ types, r.familiar type :=
  Reads.valueTypes fun n hn ↦ h.valueType (hnodes n hn)

end Faithful

end ScriptBytecode.Recast

import ScriptBytecode.Source.Declarations
import ScriptBytecode.Source.Induction

/-!
# All nodes within a node

`Node.all` tests a node and everything that stands within it, however deep. What passes declares
only what the nodes that pass declare each for itself (`DeclaresOnly.of_mem`).
-/

namespace ScriptBytecode.Node

mutual

/-- Whether a node and all nodes within it pass a test. -/
def all (p : Node → Bool) (n : Node) : Bool :=
  p n && match n with
  | .script _ content _ | .methodDef _ _ _ content _ _ | .constructorDef _ content _ =>
    all p content
  | .assign _ value _ _ => all p value
  | .body nodes _ _ | .classDef _ _ _ nodes _ | .selfCall _ nodes _ _ => allOf p nodes
  | .call receiver _ args _ _ => all p receiver && allOf p args
  | .branch condition thenArm elseArm _ _ =>
    all p condition && (all p thenArm && allAlternative p elseArm)
  | .loop condition content _ _ _ _ => all p condition && all p content
  | .importDef .. | .literal .. | .typeName .. | .selfRef .. | .readLocal .. | .noop _ => true
termination_by structural n

/-- Whether the nodes of a list and all nodes within them pass a test. -/
def allOf (p : Node → Bool) (nodes : List Node) : Bool :=
  match nodes with
  | [] => true
  | n :: rest => all p n && allOf p rest
termination_by structural nodes

/-- Whether the other arm of a branch passes a test with all nodes within it, if there is one. -/
def allAlternative (p : Node → Bool) (arm : Option Node) : Bool :=
  match arm with
  | some n => all p n
  | none => true
termination_by structural arm

end

mutual

/-- A node and all nodes within it. -/
def parts (n : Node) : List Node :=
  n :: match n with
  | .script _ content _ | .methodDef _ _ _ content _ _ | .constructorDef _ content _ =>
    parts content
  | .assign _ value _ _ => parts value
  | .body nodes _ _ | .classDef _ _ _ nodes _ | .selfCall _ nodes _ _ => partsOf nodes
  | .call receiver _ args _ _ => parts receiver ++ partsOf args
  | .branch condition thenArm elseArm _ _ =>
    parts condition ++ (parts thenArm ++ alternativeParts elseArm)
  | .loop condition content _ _ _ _ => parts condition ++ parts content
  | .importDef .. | .literal .. | .typeName .. | .selfRef .. | .readLocal .. | .noop _ => []
termination_by structural n

/-- The nodes of a list and all nodes within them. -/
def partsOf (nodes : List Node) : List Node :=
  match nodes with
  | [] => []
  | n :: rest => parts n ++ partsOf rest
termination_by structural nodes

/-- The other arm of a branch and all nodes within it, if there is one. -/
def alternativeParts (arm : Option Node) : List Node :=
  match arm with
  | some n => parts n
  | none => []
termination_by structural arm

end

variable {p : Node → Bool} {n : Node}

/-- All nodes of a list pass if each of them does. -/
theorem allOf_iff {nodes : List Node} : allOf p nodes = true ↔ ∀ n ∈ nodes, n.all p = true := by
  induction nodes with
  | nil => simp [allOf]
  | cons n rest ih => simp [allOf, ih]

theorem allAlternative_iff {arm : Option Node} :
    allAlternative p arm = true ↔ ∀ n ∈ arm, n.all p = true := by
  cases arm with
  | none => simp [allAlternative]
  | some n => simp [allAlternative]

/-- A node itself passes what all nodes within it do. -/
theorem passes_of_all (h : n.all p = true) : p n = true := by
  unfold all at h
  exact (Bool.and_eq_true_iff.1 h).1

/-- A test that is passed by a node and all nodes within it. -/
theorem all_iff : n.all p = true ↔ ∀ m ∈ n.parts, p m = true := by
  have hlist : ∀ nodes : List Node, (∀ n ∈ nodes, (n.all p = true ↔ ∀ m ∈ n.parts, p m = true)) →
      (allOf p nodes = true ↔ ∀ m ∈ partsOf nodes, p m = true) := by
    intro nodes
    induction nodes with
    | nil => simp [allOf, partsOf]
    | cons n rest ih =>
      intro h
      rw [allOf, partsOf, Bool.and_eq_true, List.forall_mem_append, h n (List.mem_cons_self ..),
        ih fun n hn ↦ h n (List.mem_cons_of_mem _ hn)]
  have harm : ∀ arm : Option Node, (∀ n ∈ arm, (n.all p = true ↔ ∀ m ∈ n.parts, p m = true)) →
      (allAlternative p arm = true ↔ ∀ m ∈ alternativeParts arm, p m = true) := by
    intro arm h
    cases arm with
    | none => simp [allAlternative, alternativeParts]
    | some n => exact h n rfl
  induction n using inductionOn with
  | script _ _ _ ih | methodDef _ _ _ _ _ _ ih | constructorDef _ _ _ ih | assign _ _ _ _ ih =>
    rw [all, parts, Bool.and_eq_true, List.forall_mem_cons]
    exact and_congr_right' ih
  | body _ _ _ ih | classDef _ _ _ _ _ ih | selfCall _ _ _ _ ih =>
    rw [all, parts, Bool.and_eq_true, List.forall_mem_cons]
    exact and_congr_right' (hlist _ ih)
  | call _ _ _ _ _ ihreceiver ihargs =>
    rw [all, parts, Bool.and_eq_true, Bool.and_eq_true, List.forall_mem_cons,
      List.forall_mem_append]
    exact and_congr_right' (and_congr ihreceiver (hlist _ ihargs))
  | branch _ _ _ _ _ ihcondition ihthen ihelse =>
    rw [all, parts, Bool.and_eq_true, Bool.and_eq_true, Bool.and_eq_true, List.forall_mem_cons,
      List.forall_mem_append, List.forall_mem_append]
    exact and_congr_right' (and_congr ihcondition (and_congr ihthen (harm _ ihelse)))
  | loop _ _ _ _ _ _ ihcondition ihcontent =>
    rw [all, parts, Bool.and_eq_true, Bool.and_eq_true, List.forall_mem_cons,
      List.forall_mem_append]
    exact and_congr_right' (and_congr ihcondition ihcontent)
  | _ => simp [all, parts]

/-- If all nodes pass a test, so do those within a node. -/
theorem all_of_forall (h : ∀ n, p n = true) (n : Node) : n.all p = true := all_iff.2 fun m _ ↦ h m

/-- What passes with all nodes within it has only nodes within it of which this holds as well. -/
theorem all_all (h : n.all p = true) : n.all (·.all p) = true := by
  induction n using inductionOn with
  | script _ _ _ ih | methodDef _ _ _ _ _ _ ih | constructorDef _ _ _ ih | assign _ _ _ _ ih =>
    obtain ⟨-, hcontent⟩ := Bool.and_eq_true_iff.1 h
    exact Bool.and_eq_true_iff.2 ⟨h, ih hcontent⟩
  | body _ _ _ ih | classDef _ _ _ _ _ ih | selfCall _ _ _ _ ih =>
    obtain ⟨-, hnodes⟩ := Bool.and_eq_true_iff.1 h
    exact Bool.and_eq_true_iff.2
      ⟨h, allOf_iff.2 fun n hn ↦ ih n hn (allOf_iff.1 hnodes n hn)⟩
  | call _ _ _ _ _ ihreceiver ihargs =>
    obtain ⟨-, hparts⟩ := Bool.and_eq_true_iff.1 h
    obtain ⟨hreceiver, hargs⟩ := Bool.and_eq_true_iff.1 hparts
    have hall := allOf_iff.2 fun n hn ↦ ihargs n hn (allOf_iff.1 hargs n hn)
    exact Bool.and_eq_true_iff.2 ⟨h, Bool.and_eq_true_iff.2 ⟨ihreceiver hreceiver, hall⟩⟩
  | branch _ _ _ _ _ ihcondition ihthen ihelse =>
    obtain ⟨-, hparts⟩ := Bool.and_eq_true_iff.1 h
    obtain ⟨hcondition, harms⟩ := Bool.and_eq_true_iff.1 hparts
    obtain ⟨hthen, helse⟩ := Bool.and_eq_true_iff.1 harms
    have hall := allAlternative_iff.2 fun n hn ↦ ihelse n hn (allAlternative_iff.1 helse n hn)
    exact Bool.and_eq_true_iff.2
      ⟨h, Bool.and_eq_true_iff.2 ⟨ihcondition hcondition,
        Bool.and_eq_true_iff.2 ⟨ihthen hthen, hall⟩⟩⟩
  | loop _ _ _ _ _ _ ihcondition ihcontent =>
    obtain ⟨-, hparts⟩ := Bool.and_eq_true_iff.1 h
    obtain ⟨hcondition, hcontent⟩ := Bool.and_eq_true_iff.1 hparts
    exact Bool.and_eq_true_iff.2
      ⟨h, Bool.and_eq_true_iff.2 ⟨ihcondition hcondition, ihcontent hcontent⟩⟩
  | _ => exact Bool.and_eq_true_iff.2 ⟨h, rfl⟩

/-- What passes with all nodes within it does so for each of them. -/
theorem all_of_mem_parts {m : Node} (h : n.all p = true) (hm : m ∈ n.parts) : m.all p = true :=
  all_iff.1 (all_all h) m hm

/-! ### Declarations -/

/-- Nodes declare one after another. -/
theorem declarationsOf_eq (owner : Owner) (nodes : List Node) :
    declarationsOf owner nodes = nodes.flatMap (·.declarations owner) := by
  induction nodes with
  | nil => rfl
  | cons n rest ih => rw [declarationsOf, ih, List.flatMap_cons]

/-- To prove something of what every node declares, within a node that passes a test, prove it of no
declarations, of those of two parts one after another, of a single one, and of a class with its
members. -/
@[elab_as_elim]
theorem declarations_induction {P : Owner → List Declaration → Prop} (nil : ∀ {owner}, P owner [])
    (append : ∀ {owner ds ds'}, P owner ds → P owner ds' → P owner (ds ++ ds'))
    (ofClass : ∀ {owner} name superclass interfaces members span,
      p (.classDef name superclass interfaces members span) = true →
      P { name, isStaticBody := false } (declarationsOf { name, isStaticBody := false } members) →
      P owner (.classDecl name superclass interfaces span ::
        declarationsOf { name, isStaticBody := false } members))
    (ofMethod : ∀ {owner} name params returnType content isStatic span,
      p (.methodDef name params returnType content isStatic span) = true →
      P owner [.methodDecl owner.name name params returnType (isStatic || owner.isStaticBody) span])
    (ofConstructor : ∀ {owner} params content span, owner.isStaticBody = false →
      p (.constructorDef params content span) = true →
      P owner [.constructorDecl owner.name params span])
    (ofImport : ∀ {owner} full asName span, p (.importDef full asName span) = true →
      P owner [.importDecl full asName span])
    (n : Node) (hn : n.all p = true) (owner : Owner) : P owner (n.declarations owner) := by
  have hlist : ∀ {owner : Owner} {nodes : List Node},
      (∀ n ∈ nodes, P owner (n.declarations owner)) → P owner (declarationsOf owner nodes) := by
    intro owner nodes h
    induction nodes with
    | nil => exact nil
    | cons n rest ih =>
      rw [declarationsOf]
      exact append (h n (List.mem_cons_self ..)) (ih fun n hn ↦ h n (List.mem_cons_of_mem _ hn))
  induction n using inductionOn generalizing owner with
  | body nodes type span ih =>
    obtain ⟨-, hnodes⟩ := Bool.and_eq_true_iff.1 hn
    rw [declarations]
    exact hlist fun n hn ↦ ih n hn (allOf_iff.1 hnodes n hn) owner
  | classDef name superclass interfaces members span ih =>
    obtain ⟨hself, hmembers⟩ := Bool.and_eq_true_iff.1 hn
    rw [declarations]
    -- the members belong to the class, and no longer to the one around it
    exact ofClass name superclass interfaces members span hself
      (hlist fun n hn ↦ ih n hn (allOf_iff.1 hmembers n hn) _)
  | methodDef name params returnType content isStatic span ih =>
    obtain ⟨hself, hcontent⟩ := Bool.and_eq_true_iff.1 hn
    rw [declarations]
    exact append (ofMethod name params returnType content isStatic span hself) (ih hcontent owner)
  | constructorDef params content span ih =>
    obtain ⟨hself, hcontent⟩ := Bool.and_eq_true_iff.1 hn
    rw [declarations]
    refine append ?_ (ih hcontent owner)
    split
    · exact nil
    · next hbody => exact ofConstructor params content span (Bool.eq_false_iff.2 hbody) hself
  | importDef full asName span =>
    rw [declarations]
    exact ofImport full asName span (passes_of_all hn)
  | assign name value type span ih =>
    obtain ⟨-, hvalue⟩ := Bool.and_eq_true_iff.1 hn
    rw [declarations]
    exact ih hvalue owner
  | call receiver name args type span ihreceiver ihargs =>
    obtain ⟨-, hparts⟩ := Bool.and_eq_true_iff.1 hn
    obtain ⟨hreceiver, hargs⟩ := Bool.and_eq_true_iff.1 hparts
    rw [declarations]
    exact append (ihreceiver hreceiver owner)
      (hlist fun n hn ↦ ihargs n hn (allOf_iff.1 hargs n hn) owner)
  | selfCall name args type span ih =>
    obtain ⟨-, hargs⟩ := Bool.and_eq_true_iff.1 hn
    rw [declarations]
    exact hlist fun n hn ↦ ih n hn (allOf_iff.1 hargs n hn) owner
  | branch condition thenArm elseArm type span ihcondition ihthen ihelse =>
    obtain ⟨-, hparts⟩ := Bool.and_eq_true_iff.1 hn
    obtain ⟨hcondition, harms⟩ := Bool.and_eq_true_iff.1 hparts
    obtain ⟨hthen, helse⟩ := Bool.and_eq_true_iff.1 harms
    rw [declarations]
    refine append (append (ihcondition hcondition owner) (ihthen hthen owner)) ?_
    cases elseArm with
    | none => exact nil
    | some n => exact ihelse n rfl (allAlternative_iff.1 helse n rfl) owner
  | loop condition content checkFirst negative type span ihcondition ihcontent =>
    obtain ⟨-, hparts⟩ := Bool.and_eq_true_iff.1 hn
    obtain ⟨hcondition, hcontent⟩ := Bool.and_eq_true_iff.1 hparts
    rw [declarations]
    exact append (ihcondition hcondition owner) (ihcontent hcontent owner)
  | _ => exact nil

/-- In classes whose names have a property, nodes that pass a test declare only what has a property
of its own. -/
structure DeclaresOnly (p : Node → Bool) (named : String → Prop) (q : Declaration → Prop) :
    Prop where
  ofClass : ∀ {name superclass interfaces members span},
    p (.classDef name superclass interfaces members span) = true →
    named name ∧ q (.classDecl name superclass interfaces span)
  ofMethod : ∀ {owner name params returnType content isStatic span} {isStaticHere : Bool},
    named owner → p (.methodDef name params returnType content isStatic span) = true →
    q (.methodDecl owner name params returnType isStaticHere span)
  ofConstructor : ∀ {owner params content span}, named owner →
    p (.constructorDef params content span) = true → q (.constructorDecl owner params span)
  ofImport : ∀ {full asName span}, p (.importDef full asName span) = true →
    q (.importDecl full asName span)

/-- If all nodes within a node pass, so does all that it declares. -/
theorem DeclaresOnly.of_mem {named : String → Prop} {q : Declaration → Prop}
    (h : DeclaresOnly p named q) (hn : n.all p = true) {owner : Owner} (howner : named owner.name)
    {d : Declaration} (hd : d ∈ n.declarations owner) : q d := by
  revert howner d
  refine declarations_induction (P := fun owner ds ↦ named owner.name → ∀ {d}, d ∈ ds → q d)
    ?nil ?append ?ofClass ?ofMethod ?ofConstructor ?ofImport n hn owner
  case nil => exact fun _ _ ↦ nofun
  case append =>
    intro owner ds ds' h h' howner d hd
    exact (List.mem_append.1 hd).elim (h howner) (h' howner)
  case ofClass =>
    intro owner name superclass interfaces members span hself hmembers howner d hd
    obtain ⟨hname, hclass⟩ := h.ofClass hself
    obtain rfl | hd := List.mem_cons.1 hd
    · exact hclass
    · exact hmembers hname hd
  case ofMethod =>
    intro owner name params returnType content isStatic span hself howner d hd
    obtain rfl := List.mem_singleton.1 hd
    exact h.ofMethod howner hself
  case ofConstructor =>
    intro owner params content span _ hself howner d hd
    obtain rfl := List.mem_singleton.1 hd
    exact h.ofConstructor howner hself
  case ofImport =>
    intro owner full asName span hself howner d hd
    obtain rfl := List.mem_singleton.1 hd
    exact h.ofImport hself

end ScriptBytecode.Node

import Mathlib.Computability.Language
import ScriptBytecode.Bytecode.Unit
import ScriptBytecode.Proofs.Arguments
import ScriptBytecode.Proofs.Voids
import ScriptBytecode.Source.All

/-!
# What code does to locals

An instruction names slots, and not the local that it was emitted for. So code is considered
together with the accesses of the source that its loads and stores were emitted for (`Noted`).

Which accesses a node carries out can be read off the source, up to two things that depend on types:
whether a branch or a loop has a value that is wanted, and whether a call without a receiver is one
of a static member. So the accesses of a node are a language, of words that are the accesses in
their order (`Node.accesses`). Each access in a word is one of some node that stands within
(`Node.exists_part_of_mem`), and all words of a node have the same number of stores
(`Node.counts_accesses`).

**Both choices are real.** A branch whose value is wanted is compiled for its effects only if its
type turns out to be one without values, and a call under a plain name loads the receiver only if
the member that it resolves to is not static. Neither can be read off the source. All else can: for
each read of a local whose value is wanted there is exactly one load, and for each assignment
exactly one store.

**Languages and products.** What is done one after the other is a product of languages, and what
depends on types is a sum. `1` is the language of a node that does nothing to locals; `0` has no
words, and stands for an alternative that is not there.
-/

namespace ScriptBytecode

/-! ### Accesses -/

/-- What is done to a local in the source. -/
inductive Access where
  /-- Its value is read. -/
  | read (name : String)
  /-- A value is stored in it. -/
  | write (name : String)
  /-- The receiver is read, wherever it has been put. -/
  | receiver
deriving DecidableEq, Repr

/-- Whether a value is stored. -/
def Access.isWrite : Access → Bool
  | write _ => true
  | read _ | receiver => false

/-- An instruction with the access that it was emitted for, if it was emitted for one. -/
abbrev Noted := Instruction × Option Access

/-- What an instruction can have been emitted for. -/
inductive Noted.Fits : Noted → Prop
  /-- A load for a read. -/
  | read (name : String) (kind : StackKind) (slot : UInt16) :
    Fits (.load kind slot, some (.read name))
  /-- A store for a write. -/
  | write (name : String) (kind : StackKind) (slot : UInt16) :
    Fits (.store kind slot, some (.write name))
  /-- A load of the receiver. -/
  | receiver : Fits (.load .reference 0, some .receiver)
  /-- An instruction that has nothing to do with locals. -/
  | plain {i : Instruction} (hi : i.isAccess = false) : Fits (i, none)

/-- If the words of one language are words of another, so are they with others behind them. -/
theorem mem_mul_of_forall {as as' bs : Language Access} (h : ∀ word ∈ as, word ∈ as') :
    ∀ word ∈ as * bs, word ∈ as' * bs := by
  intro word hword
  obtain ⟨front, hfront, back, hback, rfl⟩ := Language.mem_mul.1 hword
  exact Language.append_mem_mul (h front hfront) hback

/-- What is done by parts that are compiled for the value of a branch or a loop, if one is wanted
and it has one. -/
def joined (type : SourceType) (wanted : Bool) (parts : Bool → Language Access) :
    Language Access :=
  if wanted then parts true + (if type.canBeVoid then parts false else 0) else parts false

/-- Where a value is wanted, there may be one. -/
theorem mem_joined_of_true (type : SourceType) {parts : Bool → Language Access}
    {word : List Access} (h : word ∈ parts true) : word ∈ joined type true parts :=
  (Language.mem_add ..).2 (.inl h)

/-- There may be none only if the type says so. -/
theorem mem_joined_of_false {type : SourceType} (htype : type.canBeVoid = true)
    {parts : Bool → Language Access} {word : List Access} (h : word ∈ parts false) :
    word ∈ joined type true parts := by
  unfold joined
  rw [if_pos rfl, if_pos htype]
  exact (Language.mem_add ..).2 (.inr h)

/-- A word of a branch or a loop is one of its parts, for a value or for effects. -/
theorem exists_mem_of_mem_joined {type : SourceType} {wanted : Bool}
    {parts : Bool → Language Access} {word : List Access} (h : word ∈ joined type wanted parts) :
    ∃ wanted, word ∈ parts wanted := by
  unfold joined at h
  split at h
  · obtain h | h := (Language.mem_add ..).1 h
    · exact ⟨true, h⟩
    · split at h
      · exact ⟨false, h⟩
      · exact absurd h (Language.notMem_zero _)
  · exact ⟨false, h⟩

namespace Node

mutual

/-- What a node does to the locals of the method that it stands in, in the order of its code, if its
value is wanted, or if it is not. A local or the receiver is read only for its value. Definitions
within the node have locals of their own. -/
def accesses (isStatic : Bool) (n : Node) (wanted : Bool) : Language Access :=
  match n with
  | .body nodes _ _ => sequenceAccesses isStatic nodes wanted
  | .selfRef .. => if wanted && !isStatic then {[.receiver]} else 1
  | .readLocal name _ _ => if wanted then {[.read name]} else 1
  | .assign name value _ _ => accesses isStatic value true * {[.write name]}
  | .call receiver _ args _ _ =>
    if receiver.type.isMeta then argumentAccesses isStatic args
    else accesses isStatic receiver true * argumentAccesses isStatic args
  | .selfCall name args _ _ =>
    (if isStatic && name != constructorName then 1 else 1 + {[.receiver]}) *
      argumentAccesses isStatic args
  | .branch condition thenArm elseArm type _ =>
    joined type wanted fun wanted ↦ accesses isStatic condition true *
      (accesses isStatic thenArm wanted * alternativeAccesses isStatic elseArm wanted)
  | .loop condition content checkFirst _ type _ =>
    joined type wanted fun wanted ↦
      if checkFirst then accesses isStatic condition true * accesses isStatic content wanted
      else accesses isStatic content wanted * accesses isStatic condition true
  | .script .. | .classDef .. | .methodDef .. | .constructorDef .. | .importDef .. => 1
  | .literal .. | .typeName .. | .noop _ => 1
termination_by structural n

/-- What nodes do to locals, one after another: all but the last without a value that is wanted. -/
def sequenceAccesses (isStatic : Bool) (nodes : List Node) (wanted : Bool) : Language Access :=
  match nodes with
  | [] => 1
  | [n] => accesses isStatic n wanted
  | n :: rest => accesses isStatic n false * sequenceAccesses isStatic rest wanted
termination_by structural nodes

/-- What arguments do to locals, one after another. -/
def argumentAccesses (isStatic : Bool) (nodes : List Node) : Language Access :=
  match nodes with
  | [] => 1
  | n :: rest => accesses isStatic n true * argumentAccesses isStatic rest
termination_by structural nodes

/-- What the other arm of a branch does to locals, if there is one. -/
def alternativeAccesses (isStatic : Bool) (arm : Option Node) (wanted : Bool) : Language Access :=
  match arm with
  | some n => accesses isStatic n wanted
  | none => 1
termination_by structural arm

end

/-- Whether a node is such an access itself, and not only through a node within it. -/
def does (isStatic : Bool) : Node → Access → Bool
  | .readLocal name _ _, .read other | .assign name _ _ _, .write other => name == other
  | .selfRef .., .receiver => !isStatic
  | .selfCall name _ _ _, .receiver => !isStatic || name == constructorName
  | _, _ => false

/-! ### Accesses and the nodes that they belong to -/

section Parts

variable {isStatic wanted : Bool} {word : List Access} {a : Access}

/-- Each access of a word is one of some node that stands within. -/
def Accounts (isStatic : Bool) (nodes : List Node) (words : Language Access) : Prop :=
  ∀ word ∈ words, ∀ a ∈ word, ∃ n ∈ nodes, n.does isStatic a = true

namespace Accounts

variable {nodes nodes' : List Node} {words words' : Language Access}

theorem one : Accounts isStatic nodes 1 := by
  rintro word rfl a ha
  cases ha

theorem single {n : Node} (hn : n ∈ nodes) (ha : n.does isStatic a = true) :
    Accounts isStatic nodes {[a]} := by
  rintro word rfl b hb
  obtain rfl := List.mem_singleton.1 hb
  exact ⟨n, hn, ha⟩

/-- Words that follow each other are accounted for part by part. -/
theorem mul (h : Accounts isStatic nodes words) (h' : Accounts isStatic nodes words') :
    Accounts isStatic nodes (words * words') := by
  intro word hword a ha
  obtain ⟨first, hfirst, second, hsecond, rfl⟩ := Language.mem_mul.1 hword
  obtain ha | ha := List.mem_append.1 ha
  · exact h first hfirst a ha
  · exact h' second hsecond a ha

/-- More nodes account for more. -/
theorem mono (h : Accounts isStatic nodes words) (hsub : nodes ⊆ nodes') :
    Accounts isStatic nodes' words := by
  intro word hword a ha
  obtain ⟨n, hn, hdoes⟩ := h word hword a ha
  exact ⟨n, hsub hn, hdoes⟩

/-- What is accounted for whether a value is wanted or not is accounted for in a branch. -/
theorem joined {type : SourceType} {parts : Bool → Language Access}
    (h : ∀ wanted, Accounts isStatic nodes (parts wanted)) :
    Accounts isStatic nodes (joined type wanted parts) := by
  intro word hword
  obtain ⟨wanted, hword⟩ := exists_mem_of_mem_joined hword
  exact h wanted word hword

end Accounts

/-- A sequence is accounted for by its nodes. -/
theorem accounts_sequenceAccesses {nodes : List Node}
    (h : ∀ n ∈ nodes, ∀ wanted, Accounts isStatic n.parts (n.accesses isStatic wanted)) :
    Accounts isStatic (partsOf nodes) (sequenceAccesses isStatic nodes wanted) := by
  induction nodes with
  | nil => exact .one
  | cons n rest ih =>
    have hn := fun wanted ↦ (h n (List.mem_cons_self ..) wanted).mono
      (List.subset_append_left n.parts (partsOf rest))
    have hrest := (ih fun n hn ↦ h n (List.mem_cons_of_mem _ hn)).mono
      (List.subset_append_right n.parts (partsOf rest))
    cases rest with
    | nil => exact hn wanted
    | cons m rest => exact (hn false).mul hrest

/-- So are arguments. -/
theorem accounts_argumentAccesses {nodes : List Node}
    (h : ∀ n ∈ nodes, ∀ wanted, Accounts isStatic n.parts (n.accesses isStatic wanted)) :
    Accounts isStatic (partsOf nodes) (argumentAccesses isStatic nodes) := by
  induction nodes with
  | nil => exact .one
  | cons n rest ih =>
    have hrest := ih fun n hn ↦ h n (List.mem_cons_of_mem _ hn)
    exact ((h n (List.mem_cons_self ..) true).mono (List.subset_append_left ..)).mul
      (hrest.mono (List.subset_append_right ..))

/-- All accesses of a node are those of nodes within it. The induction is on the node. -/
theorem accounts_accesses (isStatic : Bool) (n : Node) (wanted : Bool) :
    Accounts isStatic n.parts (n.accesses isStatic wanted) := by
  induction n using Node.inductionOn generalizing wanted with
  | body nodes type span ih =>
    exact (accounts_sequenceAccesses ih).mono (List.subset_cons_self ..)
  | selfRef type span =>
    rw [accesses]
    split
    · next h =>
      exact .single (List.mem_cons_self ..) (Bool.and_eq_true_iff.1 h).2
    · exact .one
  | readLocal name type span =>
    rw [accesses]
    split
    · exact .single (List.mem_cons_self ..) (beq_self_eq_true name)
    · exact .one
  | assign name value type span ih =>
    exact ((ih true).mono (List.subset_cons_self ..)).mul
      (.single (List.mem_cons_self ..) (beq_self_eq_true name))
  | call receiver name args type span ihreceiver ihargs =>
    have hargs := (accounts_argumentAccesses ihargs).mono
      (List.subset_append_right receiver.parts (partsOf args))
    rw [accesses]
    split
    · exact hargs.mono (List.subset_cons_self ..)
    · exact (((ihreceiver true).mono (List.subset_append_left ..)).mul hargs).mono
        (List.subset_cons_self ..)
  | selfCall name args type span ih =>
    have hargs := (accounts_argumentAccesses ih).mono (List.subset_cons_self
      (.selfCall name args type span) (partsOf args))
    refine Accounts.mul ?_ hargs
    split
    · exact .one
    · -- The receiver is read by the call itself, unless it is known to have none.
      next hreceiver =>
      rintro word (rfl | rfl) a ha
      · cases ha
      · obtain rfl := List.mem_singleton.1 ha
        refine ⟨_, List.mem_cons_self .., ?_⟩
        cases isStatic with
        | false => rfl
        | true => simpa [does] using hreceiver
  | branch condition thenArm elseArm type span ihcondition ihthen ihelse =>
    have helse : ∀ wanted, Accounts isStatic (alternativeParts elseArm)
        (alternativeAccesses isStatic elseArm wanted) := by
      intro wanted
      cases elseArm with
      | none => exact .one
      | some n => exact ihelse n rfl wanted
    have harms := fun wanted ↦ ((ihthen wanted).mono (List.subset_append_left ..)).mul
      ((helse wanted).mono (List.subset_append_right ..))
    refine Accounts.mono (.joined fun wanted ↦ ?_) (List.subset_cons_self ..)
    exact ((ihcondition true).mono (List.subset_append_left ..)).mul
      ((harms wanted).mono (List.subset_append_right ..))
  | loop condition content checkFirst negative type span ihcondition ihcontent =>
    have hcondition := (ihcondition true).mono
      (List.subset_append_left condition.parts content.parts)
    have hcontent := fun wanted ↦ (ihcontent wanted).mono
      (List.subset_append_right condition.parts content.parts)
    refine Accounts.mono (.joined fun wanted ↦ ?_) (List.subset_cons_self ..)
    split
    · exact hcondition.mul (hcontent wanted)
    · exact (hcontent wanted).mul hcondition
  | _ => exact .one

/-- Each access in a word of a node is one of some node that stands within. -/
theorem exists_part_of_mem {n : Node} (h : word ∈ n.accesses isStatic wanted) (ha : a ∈ word) :
    ∃ m ∈ n.parts, m.does isStatic a = true :=
  accounts_accesses isStatic n wanted word h a ha

end Parts

/-! ### Stores -/

mutual

/-- How often a node stores in locals of the method that it stands in. -/
def writes (n : Node) : Nat :=
  match n with
  | .body nodes _ _ | .selfCall _ nodes _ _ => writesOf nodes
  | .assign _ value _ _ => writes value + 1
  | .call receiver _ args _ _ =>
    if receiver.type.isMeta then writesOf args else writes receiver + writesOf args
  | .branch condition thenArm elseArm _ _ =>
    writes condition + (writes thenArm + alternativeWrites elseArm)
  | .loop condition content _ _ _ _ => writes condition + writes content
  | .script .. | .classDef .. | .methodDef .. | .constructorDef .. | .importDef .. => 0
  | .literal .. | .typeName .. | .selfRef .. | .readLocal .. | .noop _ => 0
termination_by structural n

/-- How often nodes store in locals. -/
def writesOf (nodes : List Node) : Nat :=
  match nodes with
  | [] => 0
  | n :: rest => writes n + writesOf rest
termination_by structural nodes

/-- How often the other arm of a branch stores in locals, if there is one. -/
def alternativeWrites (arm : Option Node) : Nat :=
  match arm with
  | some n => writes n
  | none => 0
termination_by structural arm

end

/-- Each word has as many stores. -/
def Counts (count : Nat) (words : Language Access) : Prop :=
  ∀ word ∈ words, word.countP Access.isWrite = count

namespace Counts

variable {count count' : Nat} {words words' : Language Access}

theorem single (a : Access) : Counts (if a.isWrite then 1 else 0) {[a]} := by
  rintro word rfl
  cases a <;> rfl

theorem one : Counts 0 1 := by
  rintro word rfl
  rfl

/-- Stores that follow each other add up. -/
theorem mul (h : Counts count words) (h' : Counts count' words') :
    Counts (count + count') (words * words') := by
  intro word hword
  obtain ⟨first, hfirst, second, hsecond, rfl⟩ := Language.mem_mul.1 hword
  rw [List.countP_append, h first hfirst, h' second hsecond]

theorem joined {type : SourceType} {wanted : Bool} {parts : Bool → Language Access}
    (h : ∀ wanted, Counts count (parts wanted)) : Counts count (joined type wanted parts) := by
  intro word hword
  obtain ⟨wanted, hword⟩ := exists_mem_of_mem_joined hword
  exact h wanted word hword

end Counts

variable {isStatic : Bool}

theorem counts_sequenceAccesses {nodes : List Node} {wanted : Bool}
    (h : ∀ n ∈ nodes, ∀ wanted, Counts n.writes (n.accesses isStatic wanted)) :
    Counts (writesOf nodes) (sequenceAccesses isStatic nodes wanted) := by
  induction nodes with
  | nil => exact .one
  | cons n rest ih =>
    have hn := h n (List.mem_cons_self ..)
    have hrest := ih fun n hn ↦ h n (List.mem_cons_of_mem _ hn)
    cases rest with
    | nil => exact hn wanted
    | cons m rest => exact (hn false).mul hrest

theorem counts_argumentAccesses {nodes : List Node}
    (h : ∀ n ∈ nodes, ∀ wanted, Counts n.writes (n.accesses isStatic wanted)) :
    Counts (writesOf nodes) (argumentAccesses isStatic nodes) := by
  induction nodes with
  | nil => exact .one
  | cons n rest ih =>
    exact (h n (List.mem_cons_self ..) true).mul (ih fun n hn ↦ h n (List.mem_cons_of_mem _ hn))

/-- All words of a node have as many stores as the node. -/
theorem counts_accesses (isStatic : Bool) (n : Node) (wanted : Bool) :
    Counts n.writes (n.accesses isStatic wanted) := by
  induction n using Node.inductionOn generalizing wanted with
  | body nodes type span ih => exact counts_sequenceAccesses ih
  | selfRef type span =>
    rw [accesses]
    split
    · exact .single .receiver
    · exact .one
  | readLocal name type span =>
    rw [accesses]
    split
    · exact .single (.read name)
    · exact .one
  | assign name value type span ih => exact (ih true).mul (.single (.write name))
  | call receiver name args type span ihreceiver ihargs =>
    rw [accesses, writes]
    split
    · exact counts_argumentAccesses ihargs
    · exact (ihreceiver true).mul (counts_argumentAccesses ihargs)
  | selfCall name args type span ih =>
    -- Whether the receiver is read or not, it is not stored.
    have hreceiver : Counts 0 (if isStatic && name != constructorName then 1
        else 1 + {[Access.receiver]}) := by
      split
      · exact .one
      · rintro word (rfl | rfl) <;> rfl
    have hcall := hreceiver.mul (counts_argumentAccesses ih)
    rwa [Nat.zero_add] at hcall
  | branch condition thenArm elseArm type span ihcondition ihthen ihelse =>
    refine Counts.joined fun wanted ↦ (ihcondition true).mul ((ihthen wanted).mul ?_)
    cases elseArm with
    | none => exact .one
    | some n => exact ihelse n rfl wanted
  | loop condition content checkFirst negative type span ihcondition ihcontent =>
    rw [accesses, writes]
    refine .joined fun wanted ↦ ?_
    split
    · exact (ihcondition true).mul (ihcontent wanted)
    · rw [Nat.add_comm]
      exact (ihcontent wanted).mul (ihcondition true)
  | _ => exact .one

end Node

end ScriptBytecode

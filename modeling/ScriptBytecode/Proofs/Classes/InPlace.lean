import ScriptBytecode.Proofs.Ensures
import ScriptBytecode.Proofs.Classes.Order

/-!
# Additions made in place

`ClassTable.register` and `ClassTable.addMember` yield a new table. A host keeps one table and
changes it, piece by piece: a name gets its node, then each supertype a node and an edge, then
signatures are added, and last the class. What an addition leaves behind when it is refused depends
on where its checks stand among these changes.

* `InPlace.register` and `InPlace.addMember` are the additions in that form.
* `InPlace.whole` makes an addition as a whole, and leaves the table alone if it is refused.

The two forms agree, since all checks come first (`register_eq`, `addMember_eq`). This is why a
refused addition leaves the table as it was.

**Why there are two forms.** As a whole an addition is a function from tables to tables, and this is
the form that proofs are made about. In place it is a sequence of changes with checks among them,
which is what a host sees when one of the checks fails half way. That the two agree is not true of
any sequence: were a check to stand behind a change, a refusal would leave a node or an edge behind.

**The checks look at more than one class.** The check for cycles is made for each supertype in turn
with the hierarchy as it was before (`forM_checkSupertype`), and the check for signatures compares
the members with those of the table and with each other (`checkMembers_eq`).
-/

namespace ScriptBytecode.ClassTable

/-! ### Changes to a table -/

/-- An action on a class table that changes it in place. -/
abbrev InPlace := EStateM RegistrationError ClassTable

namespace InPlace

/-- Makes sure that a name has a node. -/
def addNode (name : String) : InPlace Unit :=
  modify fun t ↦ { t with hierarchy := t.hierarchy.addNode name }

/-- Adds an edge from a class to a direct supertype, which gets a node. -/
def addEdge (sub sup : String) : InPlace Unit := do
  addNode sup
  modify fun t ↦
    { t with hierarchy := { t.hierarchy with edges := t.hierarchy.edges ++ [(sub, sup)] } }

/-- Refuses a class whose name is taken. -/
def checkName (name : String) : InPlace Unit := do
  if (← get).contains name then throw (.duplicateClass name)

/-- Refuses members of a class that is not there. -/
def checkOwner (name : String) : InPlace Unit := do
  if !(← get).contains name then throw (.unknownOwner name)

/-- Refuses a supertype that would close a cycle. -/
def checkSupertype (name sup : String) : InPlace Unit := do
  if (← get).closesCycle name sup then throw (.circularInheritance name)

/-- Refuses members whose signature the table has, or is among those `seen`. The signatures of the
members come before those seen, the last one first. -/
def checkMembers (seen : List Fingerprint) : List Member → InPlace (List Fingerprint)
  | [] => pure seen
  | m :: ms => do
    if seen.contains m.fingerprint || (← get).signatures.contains m.fingerprint then
      throw (.duplicateMember m.render)
    checkMembers (m.fingerprint :: seen) ms

/-- Adds a class that nothing speaks against, with the signatures of its members. -/
def insertClass (e : ClassEntry) (signatures : List Fingerprint) : InPlace Unit := do
  addNode e.name
  e.supertypes.forM (addEdge e.name)
  modify fun t ↦ { t with signatures := t.signatures ++ signatures }
  modify fun t ↦ { t with classes := t.classes ++ [e] }

/-- Adds a class together with the members it carries. -/
def register (e : ClassEntry) : InPlace Unit := do
  checkName e.name
  e.supertypes.forM (checkSupertype e.name)
  let seen ← checkMembers [] e.members
  insertClass e seen.reverse

/-- Adds a member that nothing speaks against. -/
def insertMember (m : Member) : InPlace Unit := do
  modify fun t ↦ { t with signatures := t.signatures ++ [m.fingerprint] }
  modify fun t ↦
    { t with classes := t.classes.map fun e ↦ if e.name == m.owner.name then e.addMember m else e }

/-- Adds a member to the class that owns it. -/
def addMember (m : Member) : InPlace Unit := do
  checkOwner m.owner.name
  discard <| checkMembers [] [m]
  insertMember m

/-- Makes an addition as a whole. -/
def whole (add : ClassTable → Except RegistrationError ClassTable) : InPlace Unit := fun t ↦
  match add t with
  | .ok t' => .ok () t'
  | .error err => .error err t

section Whole

variable {add : ClassTable → Except RegistrationError ClassTable} {t u : ClassTable}
  {err : RegistrationError}

/-- As a whole, an addition succeeds just when it can be made. -/
theorem whole_eq_ok_iff : whole add t = .ok () u ↔ add t = .ok u := by
  unfold whole
  cases add t <;> simp

/-- As a whole, an addition that is refused leaves the table alone. -/
theorem whole_eq_error_iff : whole add t = .error err u ↔ add t = .error err ∧ u = t := by
  unfold whole
  cases add t <;> simp [eq_comm]

theorem whole_of_ok (h : add t = .ok u) : whole add t = .ok () u := whole_eq_ok_iff.2 h

theorem whole_of_error (h : add t = .error err) : whole add t = .error err t :=
  whole_eq_error_iff.2 ⟨h, rfl⟩

end Whole

/-! ### The checks -/

/-- A table whose names are asked for stays as it is. -/
theorem checkName_eq (t : ClassTable) (name : String) :
    checkName name t =
      if t.contains name then .error (.duplicateClass name) t else .ok () t := by
  show (if t.contains name then throw _ else pure () : InPlace Unit) t = _
  split <;> rfl

/-- The check for the owner refuses a member of an unknown class. -/
theorem checkOwner_eq (t : ClassTable) (name : String) :
    checkOwner name t = if !t.contains name then .error (.unknownOwner name) t else .ok () t := by
  show (if !t.contains name then throw _ else pure () : InPlace Unit) t = _
  split <;> rfl

/-- So does one whose hierarchy is asked for. -/
theorem checkSupertype_eq (t : ClassTable) (name sup : String) :
    checkSupertype name sup t =
      if t.closesCycle name sup then .error (.circularInheritance name) t else .ok () t := by
  show (if t.closesCycle name sup then throw _ else pure () : InPlace Unit) t = _
  split <;> rfl

/-- The checks for cycles refuse a class if any of its supertypes leads back to it. -/
theorem forM_checkSupertype (t : ClassTable) (name : String) (sups : List String) :
    sups.forM (checkSupertype name) t =
      if sups.any (t.closesCycle name) then .error (.circularInheritance name) t else .ok () t := by
  induction sups with
  | nil => rfl
  | cons sup sups ih =>
    have hsup := checkSupertype_eq t name sup
    rw [List.any_cons]
    show (checkSupertype name sup >>= fun _ ↦ sups.forM (checkSupertype name)) t = _
    cases hcycle : t.closesCycle name sup with
    | true =>
      rw [hcycle] at hsup
      exact bind_eq_of_error hsup
    | false =>
      rw [hcycle] at hsup
      rw [bind_eq_of_ok hsup, ih, Bool.false_or]

/-- Nor does a table change that is asked for signatures. The member that is refused is the first
one that repeats a signature. -/
theorem checkMembers_eq (t : ClassTable) (seen : List Fingerprint) (ms : List Member) :
    checkMembers seen ms t = match firstDuplicate? (seen ++ t.signatures) ms with
      | some m => .error (.duplicateMember m.render) t
      | none => .ok ((ms.map Member.fingerprint).reverse ++ seen) t := by
  induction ms generalizing seen with
  | nil => rfl
  | cons m ms ih =>
    have hcontains : (seen ++ t.signatures).contains m.fingerprint =
        (seen.contains m.fingerprint || t.signatures.contains m.fingerprint) :=
      List.contains_append
    have hstep : checkMembers seen (m :: ms) t =
        (if seen.contains m.fingerprint || t.signatures.contains m.fingerprint then
          throw (.duplicateMember m.render)
        else checkMembers (m.fingerprint :: seen) ms : InPlace _) t := rfl
    rw [hstep, firstDuplicate?, hcontains]
    cases seen.contains m.fingerprint || t.signatures.contains m.fingerprint with
    | true => rfl
    | false =>
      show checkMembers (m.fingerprint :: seen) ms t = _
      rw [ih, List.map_cons, List.reverse_cons, List.append_assoc]
      rfl

/-! ### The changes -/

/-- The edges to the supertypes are added one after another. -/
theorem forM_addEdge (t : ClassTable) (name : String) (sups : List String) :
    sups.forM (addEdge name) t =
      .ok () { t with hierarchy := sups.foldl (·.addEdge name ·) t.hierarchy } := by
  induction sups generalizing t with
  | nil => rfl
  | cons sup sups ih =>
    have hsup : addEdge name sup t =
        .ok () { t with hierarchy := t.hierarchy.addEdge name sup } := by
      unfold Hierarchy.addEdge
      rw [← Hierarchy.edges_addNode t.hierarchy sup]
      rfl
    show (addEdge name sup >>= fun _ ↦ sups.forM (addEdge name)) t = _
    rw [bind_eq_of_ok hsup, ih]
    rfl

/-- A class is put at the end, and its signatures behind all others. -/
theorem insertClass_eq (t : ClassTable) (e : ClassEntry) (signatures : List Fingerprint) :
    insertClass e signatures t = .ok ()
      { classes := t.classes ++ [e]
        hierarchy := t.hierarchy.addClass e.name e.supertypes
        signatures := t.signatures ++ signatures } := by
  have hnode : addNode e.name t = .ok () { t with hierarchy := t.hierarchy.addNode e.name } := rfl
  have hedges := forM_addEdge { t with hierarchy := t.hierarchy.addNode e.name } e.name e.supertypes
  exact (bind_eq_of_ok hnode).trans (bind_eq_of_ok hedges)

/-! ### Whole additions -/

/-- A class is registered in place as it is registered as a whole. -/
theorem register_eq (e : ClassEntry) : register e = whole (·.register e) := by
  funext t
  have hname := checkName_eq t e.name
  have hcycle := forM_checkSupertype t e.name e.supertypes
  have hmembers := checkMembers_eq t [] e.members
  rw [List.nil_append, List.append_nil] at hmembers
  unfold register
  by_cases hknown : t.contains e.name = true
  · rw [if_pos hknown] at hname
    rw [whole_of_error (if_pos hknown), bind_eq_of_error hname]
  rw [if_neg hknown] at hname
  rw [bind_eq_of_ok hname]
  by_cases hany : e.supertypes.any (t.closesCycle e.name) = true
  · rw [if_pos hany] at hcycle
    rw [whole_of_error ((if_neg hknown).trans (if_pos hany)), bind_eq_of_error hcycle]
  rw [if_neg hany] at hcycle
  rw [bind_eq_of_ok hcycle]
  -- what is left of both is the question for duplicate members
  have hadd : t.register e = _ := (if_neg hknown).trans (if_neg hany)
  cases hdup : firstDuplicate? t.signatures e.members with
  | some m =>
    rw [hdup] at hmembers hadd
    rw [whole_of_error hadd, bind_eq_of_error hmembers]
  | none =>
    rw [hdup] at hmembers hadd
    rw [whole_of_ok hadd, bind_eq_of_ok hmembers, insertClass_eq, List.reverse_reverse]

/-- A member is added in place as it is added as a whole. -/
theorem addMember_eq (m : Member) : addMember m = whole (·.addMember m) := by
  funext t
  have howner := checkOwner_eq t m.owner.name
  have hmember := checkMembers_eq t [] [m]
  rw [List.nil_append, firstDuplicate?] at hmember
  unfold addMember
  by_cases hunknown : (!t.contains m.owner.name) = true
  · rw [if_pos hunknown] at howner
    rw [whole_of_error (if_pos hunknown), bind_eq_of_error howner]
  rw [if_neg hunknown] at howner
  rw [bind_eq_of_ok howner]
  by_cases hdup : t.signatures.contains m.fingerprint = true
  · rw [if_pos hdup] at hmember
    rw [whole_of_error ((if_neg hunknown).trans (if_pos hdup))]
    exact bind_eq_of_error (bind_eq_of_error hmember)
  · rw [if_neg hdup] at hmember
    rw [whole_of_ok ((if_neg hunknown).trans (if_neg hdup))]
    exact bind_eq_of_ok (bind_eq_of_ok hmember)

end InPlace

end ScriptBytecode.ClassTable

import Mathlib.Data.List.Forall2
import ScriptBytecode.Classes.Standard
import ScriptBytecode.Proofs.Classes.Linearization

/-!
# Conversions one after another

What converts to a type that converts to a third one converts to the third: widening is followed by
no other conversion of numbers, and references follow the edges of the hierarchy. The one conversion
that follows no edge is that of any reference to the root class, so conversions can be put together
as long as the root class has no supertypes itself (`Hierarchy.Rooted`).

So it is in the table of the standard classes and in all that it can be extended to, since additions
leave the supertypes of a class as they are.

* `Hierarchy.Converts` gives conversions by their rules, and `isAssignable_iff` says that these are
  the conversions a table knows;
* `isAssignable_trans` and `areAssignable_trans` put conversions together;
* `rooted_run` says that nothing leads up from the root class in a table that was extended.

**Where transitivity could fail.** A reference converts to the root class whatever the hierarchy
says. If the root class had a supertype, a class could convert to the root class and the root class
to its supertype, while the class itself need not. No table that is extended from the standard one
can come to that: a class gets its supertypes when it is registered, and the root class is
registered first (`rooted_run`).

**Lists of arguments** are converted one by one, so the result for types carries over to calls
(`areAssignable_trans`): what accepts the converted arguments accepts the original ones.
-/

namespace ScriptBytecode

/-! ### Conversions as a relation -/

namespace Hierarchy

/-- One type converts to another, given the edges between classes. -/
inductive Converts (h : Hierarchy) : MachineType → MachineType → Prop
  /-- A primitive type converts to itself. -/
  | primitive (p : Primitive) : h.Converts (.primitive p) (.primitive p)
  /-- Integers are widened. -/
  | widen : h.Converts .int .long
  /-- A class converts to what it leads to, and to the root class. -/
  | reference {c d : ClassRef} (hd : d.name = objectName ∨ h.Leads c.name d.name) :
      h.Converts (.ref c) (.ref d)
  /-- An array type converts to itself. -/
  | array (element : MachineType) : h.Converts (.array element) (.array element)
  /-- An array is an object. -/
  | object (element : MachineType) {d : ClassRef} (hd : d.name = objectName) :
      h.Converts (.array element) (.ref d)

/-- The root class has no supertypes. -/
def Rooted (h : Hierarchy) : Prop := h.supertypes objectName = []

variable {h : Hierarchy} {a b c : MachineType}

/-- The root class converts to nothing else. -/
theorem Rooted.eq_of_leads (hrooted : h.Rooted) {name : String}
    (hname : name = objectName ∨ h.Leads objectName name) : name = objectName := by
  rcases hname with heq | hleads
  · exact heq
  · rcases Relation.ReflTransGen.cases_head hleads with heq | ⟨sup, hbelow, -⟩
    · exact heq.symm
    · have hsup := mem_supertypes.2 hbelow
      rw [hrooted] at hsup
      cases hsup

/-- Conversions can be put together where nothing leads up from the root class. -/
theorem Converts.trans (hrooted : h.Rooted) (hab : h.Converts a b) (hbc : h.Converts b c) :
    h.Converts a c := by
  cases hab with
  | primitive p => exact hbc
  | widen =>
    cases hbc
    exact .widen
  | array element => exact hbc
  | reference hd =>
    cases hbc with
    | reference he =>
      rcases hd with hd | hd
      · rw [hd] at he
        exact .reference (.inl (hrooted.eq_of_leads he))
      · exact .reference (he.imp_right hd.trans)
  | object element hd =>
    cases hbc with
    | reference he =>
      rw [hd] at he
      exact .object element (hrooted.eq_of_leads he)

end Hierarchy

namespace ClassTable

variable {t : ClassTable} {a b c : MachineType} {as bs cs : List MachineType}

/-- A class can stand where the root class or one of its supertypes is expected. -/
theorem isAssignable_ref_iff (hclosed : t.hierarchy.Closed) {c d : ClassRef} :
    t.isAssignable (.ref c) (.ref d) = true ↔
      d.name = objectName ∨ t.hierarchy.Leads c.name d.name := by
  rw [← isSubtype_iff hclosed]
  by_cases hname : c.name = d.name
  · simp [isAssignable, conversion?, isSubtype, hname]
  · by_cases hd : d.name = objectName ∨ t.isSubtype c.name d.name = true <;>
      simp [isAssignable, conversion?, hname, hd]

/-- What a table calls assignable are the conversions of its hierarchy. -/
theorem isAssignable_iff (hclosed : t.hierarchy.Closed) :
    t.isAssignable a b = true ↔ t.hierarchy.Converts a b := by
  constructor
  · intro hconverts
    cases a with
    | void => simp [isAssignable] at hconverts
    | primitive p =>
      cases b with
      | primitive q =>
        cases p <;> cases q <;> first | exact .primitive _ | exact .widen | cases hconverts
      | _ => cases hconverts
    | ref c =>
      cases b with
      | ref d => exact .reference ((isAssignable_ref_iff hclosed).1 hconverts)
      | _ => cases hconverts
    | array element =>
      cases b with
      | array element' =>
        have heq : element = element' := by simpa [isAssignable, conversion?] using hconverts
        rw [heq]
        exact .array _
      | ref d => exact .object _ (by simpa [isAssignable, conversion?] using hconverts)
      | _ => cases hconverts
  · intro hconverts
    cases hconverts with
    | primitive p => simp [isAssignable, conversion?]
    | widen => rfl
    | reference hd => exact (isAssignable_ref_iff hclosed).2 hd
    | array element => simp [isAssignable, conversion?]
    | object element hd => simp [isAssignable, conversion?, hd]

/-- What converts to a type that converts to a third one converts to the third. -/
theorem isAssignable_trans (hclosed : t.hierarchy.Closed) (hrooted : t.hierarchy.Rooted)
    (hab : t.isAssignable a b = true) (hbc : t.isAssignable b c = true) :
    t.isAssignable a c = true := by
  rw [isAssignable_iff hclosed] at hab hbc ⊢
  exact hab.trans hrooted hbc

/-- Lists are assignable if they have the same length and are so element by element. -/
theorem areAssignable_iff :
    t.areAssignable as bs = true ↔ List.Forall₂ (t.isAssignable · ·) as bs := by
  induction as generalizing bs with
  | nil => cases bs <;> simp [areAssignable]
  | cons a as ih => cases bs <;> simp [areAssignable, ih]

/-- Arguments that can stand where others are expected are accepted by what accepts these. -/
theorem areAssignable_trans (hclosed : t.hierarchy.Closed) (hrooted : t.hierarchy.Rooted)
    (hab : List.Forall₂ (t.isAssignable · ·) as bs) (hbc : t.areAssignable bs cs = true) :
    t.areAssignable as cs = true := by
  rw [areAssignable_iff] at hbc ⊢
  induction hab generalizing cs with
  | nil => exact hbc
  | cons hhead _ ih =>
    cases hbc with
    | cons hhead' htail' =>
      exact .cons (isAssignable_trans hclosed hrooted hhead hhead') (ih htail')

/-- Whatever is tried, the root class of the standard classes gets no supertypes. -/
theorem rooted_run (as : List Addition) : (standard.run as).hierarchy.Rooted := by
  unfold Hierarchy.Rooted
  rw [supertypes_run built_standard (by decide +kernel)]
  decide +kernel

end ClassTable

end ScriptBytecode

import ScriptBytecode.Proofs.Defined.Items
import ScriptBytecode.Proofs.OpenScopes

/-!
# What a session has defined

The classes and members that were defined so far can be read off a session, from its open and its
finished classes. `Session.Defined` says of two sessions that between them a list of definitions was
compiled: what they amount to was added, and nothing else. Order does not matter here, since a
method is finished after what stands within it.

`Defined.leaveMethod` and `Defined.leaveClass` are the steps in which something is added: what was
opened is closed, and the definition amounts to it.

**Open and finished alike.** A method is first one of an open class and later one of a finished
class, and its items are among those of the session all the time. So the items only grow, and a
definition that was compiled at any depth is accounted for at once.

**What order is lost.** Items are compared up to permutation. The order of classes in the unit is
the order in which they were entered, and is recorded apart, by their names.
-/

namespace ScriptBytecode

/-! ### Reading off what was defined -/

/-- The member that a compiled method is, in the class `owner`. -/
def MethodCode.member (owner : String) (m : MethodCode) : Member :=
  { owner := { name := owner }, name := m.name, params := m.params, returnType := m.returnType
    flags := m.flags }

/-- A compiled class without its methods. -/
def ClassCode.header (c : ClassCode) : ClassEntry :=
  { cls := { name := c.name }, superclass := some c.superclass, interfaces := c.interfaces }

/-- A compiled class and its members. -/
def ClassCode.items (c : ClassCode) : List Item :=
  .ofClass c.header :: c.methods.map fun m ↦ .ofMember (m.member c.name)

/-- The classes and members of a unit. -/
def UnitCode.items (u : UnitCode) : List Item := u.classes.flatMap ClassCode.items

/-- What an open frame has defined so far. -/
def Frame.items : Frame → List Item
  | .ofClass c => c.done.items
  | .ofMethod _ => []

/-- The classes and members defined so far. -/
def Session.items (s : Session) : List Item :=
  s.scopes.frames.flatMap Frame.items ++ s.finished.flatMap ClassCode.items

/-- A method is added to what the class around it has defined. -/
theorem Scopes.items_addMethod {s : Scopes} {c : ClassScope} (h : s.currentClass? = some c)
    (m : MethodCode) : ((s.addMethod m).frames.flatMap Frame.items).Perm
      (.ofMember (m.member c.cls.name) :: s.frames.flatMap Frame.items) := by
  obtain ⟨frames⟩ := s
  show ((addMethodTo m frames).flatMap Frame.items).Perm _
  change frames.findSome? classOf? = some c at h
  induction frames with
  | nil => cases h
  | cons frame frames ih =>
    cases frame with
    | ofMethod scope => exact ih h
    | ofClass scope =>
      obtain rfl := Option.some.inj h
      have hmethods : ({ scope with methods := scope.methods ++ [m] } : ClassScope).done.items =
          scope.done.items ++ [.ofMember (m.member scope.cls.name)] := by
        simp [ClassScope.done, ClassCode.items, ClassCode.header]
      show (({ scope with methods := scope.methods ++ [m] } : ClassScope).done.items ++ _).Perm
        (_ :: (scope.done.items ++ _))
      rw [hmethods, List.append_assoc]
      exact List.perm_middle

/-! ### Standing in a class -/

namespace Session

/-- The innermost open class is the given one. -/
def Within (s : Session) (owner : Owner) : Prop :=
  ∃ c, s.scopes.currentClass? = some c ∧ c.cls.name = owner.name ∧
    c.isStaticBody = owner.isStaticBody

variable {s s' s'' : Session} {owner : Owner}

/-- Code goes on in the same class. -/
theorem Continues.within (h : s.Continues s') (hs : s.Within owner) : s'.Within owner := by
  obtain ⟨c, hc, hname, hstatic⟩ := hs
  obtain ⟨methods, hcurrent⟩ := h.currentClass? hc
  exact ⟨_, hcurrent, hname, hstatic⟩

/-- A method that is opened is in the same class. -/
theorem Within.openMethod (h : s.Within owner) (m : MethodScope) :
    (s.openMethod m).2.Within owner := h

/-- A class that is opened is the innermost one. -/
theorem within_openClass (s : Session) (c : ClassScope) :
    (s.openClass c).Within { name := c.cls.name, isStaticBody := c.isStaticBody } :=
  ⟨c, rfl, rfl, rfl⟩

/-! ### Compiled definitions -/

/-- Between the sessions the definitions were compiled, one after another. -/
structure Defined (s : Session) (ds : List Definition) (s' : Session) : Prop where
  continues : s.Continues s'
  types : s'.types = typesAfter s.classes s.types ds
  entered : s'.entered = s.entered ++ ds.filterMap (·.className?)
  items : ∃ items, itemsOf? s.classes s.types ds = some items ∧ s'.items.Perm (s.items ++ items)

namespace Defined

variable {ds ds' : List Definition} {d : Definition}

theorem refl (s : Session) : s.Defined [] s :=
  ⟨.refl s, rfl, (List.append_nil _).symm, [], rfl, .of_eq (List.append_nil _).symm⟩

/-- Definitions are compiled one after another. -/
theorem trans (h : s.Defined ds s') (h' : s'.Defined ds' s'') : s.Defined (ds ++ ds') s'' where
  continues := h.continues.trans h'.continues
  types := by rw [h'.types, h.types, h.continues.classes, typesAfter_append]
  entered := by rw [h'.entered, h.entered, List.filterMap_append, List.append_assoc]
  items := by
    obtain ⟨items, hitems, hperm⟩ := h.items
    obtain ⟨items', hitems', hperm'⟩ := h'.items
    rw [h.continues.classes, h.types] at hitems'
    refine ⟨items ++ items', itemsOf?_append hitems hitems', hperm'.trans ?_⟩
    rw [← List.append_assoc]
    exact hperm.append_right _

/-- A change of locals defines nothing. -/
theorem withLocals (s : Session) (l : Locals) : s.Defined [] (s.withLocals l) where
  continues := (Continues.refl s).withLocals l
  types := rfl
  entered := (List.append_nil _).symm
  items := by
    refine ⟨[], rfl, .of_eq ?_⟩
    rw [List.append_nil]
    obtain ⟨classes, types, ⟨frames⟩, options, entered, finished⟩ := s
    cases frames with
    | nil => rfl
    | cons frame frames => cases frame <;> rfl

/-- A method defines itself and what stands within it. -/
theorem leaveMethod {m m' : MethodScope} {t : Scopes} {code : MethodCode}
    (hs : s.Within owner) (h : (s.openMethod m).2.Defined ds s')
    (ht : t.outline = s.scopes.outline) (hscopes : s'.scopes = (t.enterMethod m').2)
    (hitem : d.items? s.classes s.types = some [.ofMember (code.member owner.name)])
    (hname : d.className? = none) (htypes : d.typesAfter s.classes s.types = s.types) :
    s.Defined (d :: ds) (s'.withScopes (t.addMethod code)) where
  continues := ⟨h.continues.classes, (Scopes.outline_addMethod ..).trans ht⟩
  types := by
    show s'.types = typesAfter s.classes (d.typesAfter s.classes s.types) ds
    rw [htypes]
    exact h.types
  entered := by
    rw [List.filterMap_cons_none hname]
    exact h.entered
  items := by
    obtain ⟨items, hitems, hperm⟩ := h.items
    refine ⟨_, itemsOf?_cons hitem (htypes.symm ▸ hitems), ?_⟩
    obtain ⟨c, hc, hcname, -⟩ := hs
    obtain ⟨methods, hcurrent⟩ := Scopes.currentClass?_of_outline ht hc
    have hadd := Scopes.items_addMethod hcurrent code
    have hopen : s'.items =
        t.frames.flatMap Frame.items ++ s'.finished.flatMap ClassCode.items := by
      unfold Session.items
      rw [hscopes]
      rfl
    rw [hopen] at hperm
    rw [← hcname]
    exact (hadd.append_right _).trans ((hperm.cons _).trans List.perm_middle.symm)

/-- A class defines itself and its members. -/
theorem leaveClass {c : ClassScope} (hc : c.methods = []) (h : (s.openClass c).Defined ds s')
    {methods : List MethodCode} {t : Scopes} (ht : t.outline = s.scopes.outline)
    (hscopes : s'.scopes = t.enterClass { c with methods })
    (hitem : d.items? s.classes s.types = some [.ofClass c.done.header])
    (hname : d.className? = some c.cls.name) (htypes : d.typesAfter s.classes s.types = s.types) :
    s.Defined (d :: ds) { s'.withScopes t with
      finished := ClassScope.done { c with methods } :: s'.finished } where
  continues := ⟨h.continues.classes, ht⟩
  types := by
    show s'.types = typesAfter s.classes (d.typesAfter s.classes s.types) ds
    rw [htypes]
    exact h.types
  entered := by
    rw [List.filterMap_cons_some hname, List.append_cons]
    exact h.entered
  items := by
    obtain ⟨items, hitems, hperm⟩ := h.items
    refine ⟨_, itemsOf?_cons hitem (htypes.symm ▸ hitems), ?_⟩
    have hopened : (s.openClass c).items = .ofClass c.done.header :: s.items := by
      simp [Session.items, openClass, Scopes.enterClass, Frame.items, ClassCode.items,
        ClassScope.done, hc]
    have hopen : s'.items = ((ClassScope.done { c with methods }).items ++
        t.frames.flatMap Frame.items) ++ s'.finished.flatMap ClassCode.items := by
      unfold Session.items
      rw [hscopes]
      rfl
    rw [hopen, hopened] at hperm
    show (t.frames.flatMap Frame.items ++
      ((ClassScope.done { c with methods }).items ++ s'.finished.flatMap ClassCode.items)).Perm _
    rw [← List.append_assoc]
    exact (List.perm_append_comm.append_right _).trans (hperm.trans List.perm_middle.symm)

end Defined

end Session

end ScriptBytecode

import ScriptBytecode.Compile.Typing
import ScriptBytecode.Proofs.Ensures
import ScriptBytecode.Source.Induction

/-!
# The locals of the current method

While the code of a method is generated, most of a session stands still and only the locals of the
method change. `Session.withLocals` is a session with other locals in its current method. Neither
the class around the method nor the types of its nodes depend on them.

* `Session.withLocals_withLocals`, `withLocals_locals` and `locals_withLocals` are the laws of
  putting and getting;
* `Session.valueType_withLocals` says that types do not depend on locals;
* `SessionM.ensures_declareLocal` is what declaring a local does to a session.

Apart from definitions, the code of a method changes nothing of the session but these locals, so a
state in the midst of a method is the state at its beginning with other locals put. Saying so with
one equation, and not with one for each field that stays the same, is what keeps the proofs about
code from speaking of sessions at all.

That types do not depend on locals has a reason in the source language: a read of a local carries
its type with it, so the table of locals is asked for slots only.
-/

namespace ScriptBytecode

namespace Scopes

@[simp] theorem currentClass?_setLocals (s : Scopes) (l : Locals) :
    (s.setLocals l).currentClass? = s.currentClass? := by
  obtain ⟨frames⟩ := s
  cases frames with
  | nil => rfl
  | cons frame frames => cases frame <;> rfl

@[simp] theorem isStatic_setLocals (s : Scopes) (l : Locals) :
    (s.setLocals l).isStatic = s.isStatic := by
  obtain ⟨frames⟩ := s
  cases frames with
  | nil => rfl
  | cons frame frames => cases frame <;> rfl

/-- Only the locals that were put last remain. -/
@[simp] theorem setLocals_setLocals (s : Scopes) (l l' : Locals) :
    (s.setLocals l).setLocals l' = s.setLocals l' := by
  obtain ⟨frames⟩ := s
  cases frames with
  | nil => rfl
  | cons frame frames => cases frame <;> rfl

/-- The current method has the new locals, and all else as before. -/
@[simp] theorem currentMethod?_setLocals (s : Scopes) (l : Locals) :
    (s.setLocals l).currentMethod? =
      s.currentMethod?.map fun scope ↦ { scope with locals := l } := by
  obtain ⟨frames⟩ := s
  cases frames with
  | nil => rfl
  | cons frame frames => cases frame <;> rfl

end Scopes

namespace Session

/-- The locals of the current method. -/
def locals (s : Session) : Locals :=
  match s.scopes.currentMethod? with
  | some scope => scope.locals
  | none => {}

/-- The session with other locals in the current method. -/
def withLocals (s : Session) (l : Locals) : Session := { s with scopes := s.scopes.setLocals l }

@[simp] theorem withLocals_withLocals (s : Session) (l l' : Locals) :
    (s.withLocals l).withLocals l' = s.withLocals l' := by
  simp [withLocals]

/-- A session has its own locals. -/
@[simp] theorem withLocals_locals (s : Session) : s.withLocals s.locals = s := by
  obtain ⟨classes, types, ⟨frames⟩, options, entered, finished⟩ := s
  cases frames with
  | nil => rfl
  | cons frame frames => cases frame <;> rfl

/-- Where a method is open, its locals are those that were put. -/
theorem locals_withLocals {s : Session} {scope : MethodScope}
    (h : s.scopes.currentMethod? = some scope) (l : Locals) : (s.withLocals l).locals = l := by
  simp [locals, withLocals, h]

/-- Finding the callee of a call without a receiver does not depend on locals. -/
theorem selfCallee_withLocals (s : Session) (l : Locals) (name : String)
    (args : Except CompileError (List MachineType)) (span : Span) :
    (s.withLocals l).selfCallee name args span = s.selfCallee name args span := by
  simp [selfCallee, withLocals]

theorem metaClass_withLocals (s : Session) (l : Locals) (type : SourceType) (typeSpan : Span)
    (name : String) (span : Span) :
    (s.withLocals l).metaClass type typeSpan name span = s.metaClass type typeSpan name span := rfl

/-- The types of values are found one by one. -/
theorem valueTypes_congr {s s' : Session} {nodes : List Node}
    (h : ∀ n ∈ nodes, s.valueType n = s'.valueType n) :
    s.valueTypes nodes = s'.valueTypes nodes := by
  induction nodes with
  | nil => rfl
  | cons n nodes ih =>
    rw [valueTypes, valueTypes, h n (List.mem_cons_self ..),
      ih fun n hn ↦ h n (List.mem_cons_of_mem _ hn)]

/-- One value has one type. -/
theorem valueTypes_single {s : Session} {n : Node} {type : MachineType}
    (h : s.valueTypes [n] = .ok [type]) : s.valueType n = .ok type := by
  rw [valueTypes] at h
  cases hn : s.valueType n with
  | error e => rw [hn] at h; cases h
  | ok t => rw [hn] at h; cases h; rfl

/-- The type of a value does not depend on locals. -/
@[simp] theorem valueType_withLocals (s : Session) (l : Locals) (n : Node) :
    (s.withLocals l).valueType n = s.valueType n := by
  induction n using Node.inductionOn with
  | call receiver name args type span ihreceiver ihargs =>
    rw [valueType, valueType, ihreceiver, valueTypes_congr ihargs, metaClass_withLocals]
    rfl
  | selfCall name args type span ihargs =>
    rw [valueType, valueType, valueTypes_congr ihargs, selfCallee_withLocals]
    rfl
  | _ => rfl

end Session

/-- A declaration works on the locals of the current method and changes nothing else. -/
theorem SessionM.ensures_declareLocal {s : Session} {outside : CompileError}
    {declare : Locals → Except CompileError (LocalVar × Locals)}
    {post : LocalVar → Session → Prop} {fails : CompileError → Session → Prop}
    (hok : ∀ v l, declare s.locals = .ok (v, l) → (s.withLocals l).locals = l →
      post v (s.withLocals l))
    (herr : ∀ e, declare s.locals = .error e → fails e s)
    (houtside : s.scopes.currentMethod? = none → fails outside s) :
    Ensures (declareLocal outside declare) s post fails := by
  refine ensures_get_bind ?_
  split
  · next hnone => exact ensures_throw (houtside hnone)
  · next scope hscope =>
    have hlocals : s.locals = scope.locals := by simp [Session.locals, hscope]
    rw [hlocals] at hok herr
    have hdeclare : Ensures (ofExcept (declare scope.locals)) s
        (fun r s' ↦ s' = s ∧ declare scope.locals = .ok r) fails :=
      ensures_ofExcept (fun r hr ↦ ⟨rfl, hr⟩) herr
    refine ensures_bind hdeclare ?_
    rintro ⟨v, l⟩ _ ⟨rfl, hvl⟩
    exact hok v l hvl (Session.locals_withLocals hscope l)

end ScriptBytecode

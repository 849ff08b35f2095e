import ScriptBytecode.Error

/-!
# The labels of one method

A `LabelTable` remembers of every label of a method whether it has been bound and with which operand
stack it is reached. The first jump to a label, or its binding if that comes first, fixes the stack;
whatever reaches the label later must agree with it.

The position that a label is bound at may itself be unreachable from the instruction before it. Then
control arrives by jumps only, and goes on with the stack that they have fixed.
-/

namespace ScriptBytecode

/-- What is known of one label. -/
structure LabelState where
  /-- Whether the label has a position. -/
  bound : Bool := false
  /-- The operand stack at the label, once anything has reached it. -/
  stack : Option (List StackKind) := none
deriving DecidableEq, Repr, Inhabited

/-- The labels of one method, in the order of creation. -/
structure LabelTable where
  /-- The state of each label. -/
  states : List LabelState := []
deriving DecidableEq, Repr, Inhabited

namespace LabelTable

/-- What is known of a label, if it is one of the table. -/
def get? (t : LabelTable) (l : Label) : Option LabelState := t.states[l.index]?

/-- Replaces what is known of a label. -/
def set (t : LabelTable) (l : Label) (state : LabelState) : LabelTable :=
  { states := t.states.set l.index state }

/-- The label that is created next. -/
def next (t : LabelTable) : Label := ⟨t.states.length⟩

/-- Adds the label `next`, unbound and not reached. -/
def create (t : LabelTable) : LabelTable := { states := t.states ++ [{}] }

/-- Records that a jump reaches a label with the given stack. -/
def jump (t : LabelTable) (l : Label) (stack : List StackKind) : Except Fault LabelTable :=
  match t.get? l with
  | none => .error (.foreignLabel l)
  | some state =>
    match state.stack with
    | none => .ok (t.set l { state with stack := some stack })
    | some expected =>
      if expected = stack then .ok t
      else .error (.jumpMismatch l stack.length expected.length)

/-- Gives a label its position, which control reaches from above with the given stack, if at all.
Returns the stack that control goes on with, if any is known. A label that is found to disagree
counts as bound all the same. -/
def bind (t : LabelTable) (l : Label) (current : Option (List StackKind)) :
    LabelTable × Except Fault (Option (List StackKind)) :=
  match t.get? l with
  | none => (t, .error (.foreignLabel l))
  | some state =>
    if state.bound then (t, .error (.boundTwice l))
    else
      let stack := state.stack <|> current
      let t := t.set l { bound := true, stack }
      match current, state.stack with
      | some actual, some expected =>
        if expected = actual then (t, .ok stack)
        else (t, .error (.bindMismatch l actual.length expected.length))
      | _, _ => (t, .ok stack)

/-- The labels without a position. -/
def unbound (t : LabelTable) : List Label :=
  (List.range t.states.length).map Label.mk |>.filter fun l ↦
    match t.get? l with
    | some state => !state.bound
    | none => false

/-- The number of labels created. -/
def size (t : LabelTable) : Nat := t.states.length

@[simp] theorem size_create (t : LabelTable) : t.create.size = t.size + 1 := by
  simp [create, size]

@[simp] theorem size_set (t : LabelTable) (l : Label) (state : LabelState) :
    (t.set l state).size = t.size := by
  simp [set, size]

end LabelTable

end ScriptBytecode

import ScriptBytecode.Error

/-!
# Local variables

The locals of a method live in numbered slots; a 64-bit integer takes two. Slots are handed out in
order and never taken back. `this` comes first if the method has it, then the parameters, then every
variable at its first store.

Slots are numbered with 16 bits. A method that needs more of them than that gets the first ones once
more: the count wraps around.

A variable keeps its slot as long as values of one kind are stored in it, whatever their type. A
store of another kind moves the variable to a fresh slot, and from there on the name means the new
one.
-/

namespace ScriptBytecode

/-- A variable in its slot. -/
structure LocalVar where
  /-- The variable's name. -/
  name : String
  /-- The type of the value it holds. -/
  type : MachineType
  /-- The kind of the values it holds. -/
  kind : StackKind
  /-- Its first slot. -/
  slot : UInt16
deriving DecidableEq, Repr, Inhabited

/-- The first slot after the variable. -/
def LocalVar.limit (v : LocalVar) : UInt16 := v.slot + .ofNat v.kind.width

/-- The local variables of one method. -/
structure Locals where
  /-- Every allocation so far, the latest first. Of several under one name the first one counts. -/
  bindings : List LocalVar := []
  /-- The first slot that is free. -/
  nextSlot : UInt16 := 0
  /-- Slots handed out so far: the highest that `nextSlot` has been. -/
  size : UInt16 := 0
deriving DecidableEq, Repr, Inhabited

namespace Locals

/-- The variable that a name means. -/
def get? (l : Locals) (name : String) : Option LocalVar := l.bindings.find? (·.name == name)

/-- The variable that the next allocation makes. -/
def fresh (l : Locals) (name : String) (type : MachineType) (kind : StackKind) : LocalVar :=
  { name, type, kind, slot := l.nextSlot }

/-- Hands the next free slots to a variable. -/
def allocate (l : Locals) (name : String) (type : MachineType) (kind : StackKind) : Locals :=
  let v := l.fresh name type kind
  { bindings := v :: l.bindings, nextSlot := v.limit, size := max l.size v.limit }

/-- The kind of the variables of a type. -/
def kindOf (type : MachineType) (name : String) (span : Span) : Except CompileError StackKind :=
  match type.kind? with
  | some kind => .ok kind
  | none => .error (.misuse span (.valuelessVariable name))

/-- Allocates the receiver, which has to come first. -/
def declareThis (l : Locals) (cls : ClassRef) : Except Fault (LocalVar × Locals) :=
  if l.nextSlot = 0 then
    .ok (l.fresh "this" (.ref cls) .reference, l.allocate "this" (.ref cls) .reference)
  else .error .lateReceiver

/-- Allocates a parameter. Its name must be new. -/
def declareParam (l : Locals) (name : String) (type : MachineType) (span : Span) :
    Except CompileError (LocalVar × Locals) :=
  if (l.get? name).isSome then .error (.located span (.duplicateDefinition name))
  else
    match kindOf type name span with
    | .ok kind => .ok (l.fresh name type kind, l.allocate name type kind)
    | .error e => .error e

/-- The variable that a store to a name writes: the one the name means if its kind is right, and
otherwise a fresh one. -/
def declareStore (l : Locals) (name : String) (type : MachineType) (span : Span) :
    Except CompileError (LocalVar × Locals) :=
  match kindOf type name span with
  | .error e => .error e
  | .ok kind =>
    match l.get? name with
    | some v =>
      if v.kind = kind then
        .ok ({ v with type }, { l with bindings := l.bindings.replace v { v with type } })
      else .ok (l.fresh name type kind, l.allocate name type kind)
    | none => .ok (l.fresh name type kind, l.allocate name type kind)

/-- A name means the slots it was given last. -/
@[simp] theorem get?_allocate_self (l : Locals) (name : String) (type : MachineType)
    (kind : StackKind) : (l.allocate name type kind).get? name = some (l.fresh name type kind) := by
  simp [allocate, get?, fresh]

/-- Other names mean what they meant. -/
theorem get?_allocate_of_ne (l : Locals) {name other : String} (type : MachineType)
    (kind : StackKind) (h : name ≠ other) :
    (l.allocate name type kind).get? other = l.get? other := by
  simp [allocate, get?, fresh, h]

end Locals

end ScriptBytecode

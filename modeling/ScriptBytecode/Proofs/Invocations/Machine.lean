import Mathlib.Data.List.Basic
import ScriptBytecode.Bytecode.Instruction

/-!
# Running code that calls members

What a method does to the world around it is a `History`: the instances that it allocates and the
members that it invokes, in the order in which it does so, each invocation with its receiver and its
arguments. What invoked members do is left open. A `World` answers every invocation, with whatever
value of the type of the result and in whatever dependence on the history; it also holds the values
of the local variables and the current instance.

* `Datum` is a value of a running method, an integer or a reference.
* `State` is an operand stack together with a history, and `State.execute` runs one instruction.
* `State.run` runs instructions one after another. Code that only calls members has no jumps, so
  there is no position in the code to keep track of.

The machine stops where an instruction does not find operands of the kinds that it needs. In
particular it invokes a member only if there is an argument of the right kind for every parameter,
and below them a reference if the member has a receiver.

Instances are told apart by their place in the history, so two allocations never yield the same
reference, and a reference to an instance says when it was allocated.

This machine has no arithmetic beyond what calls need and no conditions. It is not compared with the
one for jumps and variables: code of a method may use both, but no result here is about such code.
-/

namespace ScriptBytecode.Invocations

/-! ### Values -/

/-- What a reference refers to. -/
inductive Reference where
  /-- Nothing. -/
  | null
  /-- The instance of a string constant. -/
  | constant (text : String)
  /-- Any other instance. -/
  | object (id : Nat)
deriving DecidableEq, Repr, Inhabited

/-- A value of a running method. Truth values are the integers `0` and `1`. -/
inductive Datum where
  | int (n : Int32)
  | long (n : Int64)
  | reference (r : Reference)
deriving DecidableEq, Repr, Inhabited

namespace Datum

/-- The null reference. -/
def null : Datum := reference .null

/-- The kind of the value. -/
def kind : Datum → StackKind
  | int _ => .int
  | long _ => .long
  | reference _ => .reference

theorem exists_int_of_kind {v : Datum} (h : v.kind = .int) : ∃ n, v = int n := by
  cases v <;> simp_all [kind]

theorem exists_long_of_kind {v : Datum} (h : v.kind = .long) : ∃ n, v = long n := by
  cases v <;> simp_all [kind]

theorem exists_reference_of_kind {v : Datum} (h : v.kind = .reference) : ∃ r, v = reference r := by
  cases v <;> simp_all [kind]

end Datum

/-! ### Histories -/

/-- Something that a method does to the world around it. -/
inductive Event where
  /-- An instance is allocated. -/
  | allocation (cls : ClassRef)
  /-- A member is invoked, on a receiver unless it is static. -/
  | invocation (member : MemberRef) (receiver : Option Datum) (args : List Datum)
deriving DecidableEq, Repr

/-- What a method has done so far, the earliest first. -/
abbrev History := List Event

/-- The world around a method: what invoked members return, which may depend on all that has
happened up to the invocation, and the variables and the instance that the method has. -/
structure World where
  /-- The integer that the latest invocation returns. -/
  int : History → Int32
  /-- The 64-bit integer that the latest invocation returns. -/
  long : History → Int64
  /-- The reference that the latest invocation returns. -/
  reference : History → Reference
  /-- The values of the local variables; some may have none yet. -/
  locals : String → Option Datum
  /-- The current instance. -/
  self : Reference

/-- What the latest invocation returns if its result is of the given type. -/
def World.answer (w : World) (type : MachineType) (h : History) : Option Datum :=
  type.kind?.map fun
    | .int => .int (w.int h)
    | .long => .long (w.long h)
    | .reference => .reference (w.reference h)

/-- An invocation is answered by a value of the type of the result. -/
theorem World.map_kind_answer (w : World) (type : MachineType) (h : History) :
    (w.answer type h).map Datum.kind = type.kind? := by
  unfold answer
  cases type.kind? with
  | none => rfl
  | some kind => cases kind <;> rfl

/-! ### Running instructions -/

/-- The values in the local slots. A slot that was never written holds nothing. -/
abbrev Slots := UInt16 → Option Datum

/-- The operand stack, top first, and what has happened. -/
structure State where
  stack : List Datum
  history : History

namespace State

/-- Whether there is an argument of the right kind for every parameter. -/
def Fit (args : List Datum) (params : List MachineType) : Prop :=
  args.map (fun v ↦ some v.kind) = params.map (·.kind?)

instance (args : List Datum) (params : List MachineType) : Decidable (Fit args params) :=
  inferInstanceAs (Decidable (_ = _))

/-- The member is invoked and leaves its result on the rest of the stack. -/
def record (w : World) (m : MemberRef) (receiver : Option Datum) (args rest : List Datum)
    (h : History) : State :=
  let h := h ++ [.invocation m receiver args]
  ⟨(w.answer m.returnType h).toList ++ rest, h⟩

/-- Invokes a member with the arguments on the stack, the last one on top. If it has a receiver,
that lies below them. -/
def invoke (w : World) (m : MemberRef) (hasReceiver : Bool) (c : State) : Option State :=
  let args := (c.stack.take m.params.length).reverse
  if Fit args m.params then
    match hasReceiver, c.stack.drop m.params.length with
    | false, rest => some (record w m none args rest c.history)
    | true, .reference r :: rest => some (record w m (some (.reference r)) args rest c.history)
    | true, _ => none
  else none

/-- Runs an instruction. -/
def execute (w : World) (slots : Slots) (c : State) (i : Instruction) : Option State :=
  match i, c.stack with
  | .pushInt n, stack => some { c with stack := .int n :: stack }
  | .pushLong n, stack => some { c with stack := .long n :: stack }
  | .pushString text, stack => some { c with stack := .reference (.constant text) :: stack }
  | .pushNull, stack => some { c with stack := .null :: stack }
  | .load kind slot, stack =>
    (slots slot).bind fun v ↦ if v.kind = kind then some { c with stack := v :: stack } else none
  | .dup kind, v :: stack =>
    if v.kind = kind then some { c with stack := v :: v :: stack } else none
  | .pop kind, v :: stack => if v.kind = kind then some { c with stack } else none
  | .iadd, .int y :: .int x :: stack => some { c with stack := .int (x + y) :: stack }
  | .isub, .int y :: .int x :: stack => some { c with stack := .int (x - y) :: stack }
  | .ladd, .long y :: .long x :: stack => some { c with stack := .long (x + y) :: stack }
  | .lsub, .long y :: .long x :: stack => some { c with stack := .long (x - y) :: stack }
  | .i2l, .int x :: stack => some { c with stack := .long x.toInt64 :: stack }
  | .new cls, stack =>
    -- the place in the history tells instances apart that are allocated here
    some ⟨.reference (.object c.history.length) :: stack, c.history ++ [.allocation cls]⟩
  | .invokeStatic m, _ => c.invoke w m false
  | .invokeVirtual m, _ => c.invoke w m true
  | .invokeInterface m, _ => c.invoke w m true
  | .invokeSpecial m, _ => c.invoke w m true
  | _, _ => none

/-- Runs instructions one after another. -/
def run (w : World) (slots : Slots) (code : List Instruction) (c : State) : Option State :=
  code.foldlM (execute w slots) c

section Run

variable {w : World} {slots : Slots} {code code' : List Instruction} {i : Instruction} {c : State}

@[simp] theorem run_nil : run w slots [] c = some c := rfl

theorem run_singleton : run w slots [i] c = c.execute w slots i := by
  show (c.execute w slots i).bind some = _
  exact Option.bind_fun_some _

/-- Code runs piece by piece. -/
theorem run_append : run w slots (code ++ code') c =
    (run w slots code c).bind (run w slots code') :=
  List.foldlM_append ..

theorem execute_load (kind : StackKind) (slot : UInt16) (stack : List Datum) (h : History) :
    execute w slots ⟨stack, h⟩ (.load kind slot) =
      (slots slot).bind fun v ↦ if v.kind = kind then some ⟨v :: stack, h⟩ else none := rfl

/-- An invocation takes from the stack what belongs to it and leaves the rest. -/
theorem invoke_static {m : MemberRef} {args rest : List Datum} {h : History}
    (hargs : Fit args m.params) :
    invoke w m false ⟨args.reverse ++ rest, h⟩ = some (record w m none args rest h) := by
  have hlength : m.params.length = args.reverse.length := by
    simpa using (congrArg List.length hargs).symm
  unfold invoke
  dsimp only
  rw [hlength, List.take_left', List.drop_left', List.reverse_reverse]
  · exact if_pos hargs
  all_goals rfl

/-- A member with a receiver is invoked if all arguments and the receiver are there. -/
theorem invoke_instance {m : MemberRef} {args rest : List Datum} {r : Reference} {h : History}
    (hargs : Fit args m.params) :
    invoke w m true ⟨args.reverse ++ .reference r :: rest, h⟩ =
      some (record w m (some (.reference r)) args rest h) := by
  have hlength : m.params.length = args.reverse.length := by
    simpa using (congrArg List.length hargs).symm
  unfold invoke
  dsimp only
  rw [hlength, List.take_left', List.drop_left', List.reverse_reverse]
  · exact if_pos hargs
  all_goals rfl

end Run

end State

end ScriptBytecode.Invocations

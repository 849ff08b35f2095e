import ScriptBytecode.Compile.Compiler
import ScriptBytecode.Proofs.Arguments
import ScriptBytecode.Proofs.CallTypes
import ScriptBytecode.Proofs.Classes.Aside
import ScriptBytecode.Proofs.Classes.Assignability
import ScriptBytecode.Proofs.Classes.Batches
import ScriptBytecode.Proofs.Classes.BreadthFirst
import ScriptBytecode.Proofs.Classes.Consistent
import ScriptBytecode.Proofs.Classes.Hiding
import ScriptBytecode.Proofs.Classes.InPlace
import ScriptBytecode.Proofs.Classes.Linearization
import ScriptBytecode.Proofs.Classes.Members
import ScriptBytecode.Proofs.Classes.Order
import ScriptBytecode.Proofs.Classes.Overloads
import ScriptBytecode.Proofs.Classes.Permuted
import ScriptBytecode.Proofs.Classes.Reachability
import ScriptBytecode.Proofs.Classes.Specificity
import ScriptBytecode.Proofs.Classes.TypeOrder
import ScriptBytecode.Proofs.Collisions
import ScriptBytecode.Proofs.CurrentLocals
import ScriptBytecode.Proofs.Declaring
import ScriptBytecode.Proofs.Defined.Actions
import ScriptBytecode.Proofs.Defined.Constructors
import ScriptBytecode.Proofs.Defined.Constructs
import ScriptBytecode.Proofs.Defined.Declared
import ScriptBytecode.Proofs.Defined.Exits
import ScriptBytecode.Proofs.Defined.Installed
import ScriptBytecode.Proofs.Defined.Items
import ScriptBytecode.Proofs.Defined.Nodes
import ScriptBytecode.Proofs.Defined.Once
import ScriptBytecode.Proofs.Defined.Registered
import ScriptBytecode.Proofs.Defined.Restored
import ScriptBytecode.Proofs.Defined.Scopes
import ScriptBytecode.Proofs.Defined.Sessions
import ScriptBytecode.Proofs.Defined.Units
import ScriptBytecode.Proofs.Discipline.Basic
import ScriptBytecode.Proofs.Discipline.Codes
import ScriptBytecode.Proofs.Discipline.Constructs
import ScriptBytecode.Proofs.Discipline.Instructions
import ScriptBytecode.Proofs.Discipline.Methods
import ScriptBytecode.Proofs.Discipline.Nodes
import ScriptBytecode.Proofs.Discipline.Readings
import ScriptBytecode.Proofs.Dispatch
import ScriptBytecode.Proofs.Emission
import ScriptBytecode.Proofs.Ensures
import ScriptBytecode.Proofs.Execution.Bounds
import ScriptBytecode.Proofs.Execution.Control
import ScriptBytecode.Proofs.Execution.Evaluator
import ScriptBytecode.Proofs.Execution.Expressions
import ScriptBytecode.Proofs.Execution.Following
import ScriptBytecode.Proofs.Execution.Fragment
import ScriptBytecode.Proofs.Execution.Machine
import ScriptBytecode.Proofs.Execution.Pieces
import ScriptBytecode.Proofs.Execution.Simulation
import ScriptBytecode.Proofs.Handles
import ScriptBytecode.Proofs.Invocations.Calls
import ScriptBytecode.Proofs.Invocations.Evaluator
import ScriptBytecode.Proofs.Invocations.Machine
import ScriptBytecode.Proofs.Invocations.Pieces
import ScriptBytecode.Proofs.Invocations.Simulation
import ScriptBytecode.Proofs.LocalSlots
import ScriptBytecode.Proofs.Lookups
import ScriptBytecode.Proofs.Moving.Additions
import ScriptBytecode.Proofs.Moving.Bodies
import ScriptBytecode.Proofs.Moving.Declarations
import ScriptBytecode.Proofs.Moving.Runs
import ScriptBytecode.Proofs.Moving.Scripts
import ScriptBytecode.Proofs.OpenScopes
import ScriptBytecode.Proofs.Operands
import ScriptBytecode.Proofs.Outputs
import ScriptBytecode.Proofs.Paths.Branching
import ScriptBytecode.Proofs.Paths.Charts
import ScriptBytecode.Proofs.Paths.Constructs
import ScriptBytecode.Proofs.Paths.Courses
import ScriptBytecode.Proofs.Paths.Leads
import ScriptBytecode.Proofs.Paths.Methods
import ScriptBytecode.Proofs.Paths.Nodes
import ScriptBytecode.Proofs.Paths.Outside
import ScriptBytecode.Proofs.Paths.Tracking
import ScriptBytecode.Proofs.Paths.Units
import ScriptBytecode.Proofs.Paths.Whereabouts
import ScriptBytecode.Proofs.Recast.Aside
import ScriptBytecode.Proofs.Recast.Basic
import ScriptBytecode.Proofs.Recast.Constructs
import ScriptBytecode.Proofs.Recast.Definitions
import ScriptBytecode.Proofs.Recast.Epilogues
import ScriptBytecode.Proofs.Recast.Installed
import ScriptBytecode.Proofs.Recast.Legacy
import ScriptBytecode.Proofs.Recast.Nodes
import ScriptBytecode.Proofs.Recast.Readings
import ScriptBytecode.Proofs.Recast.Unrelated
import ScriptBytecode.Proofs.Resolution
import ScriptBytecode.Proofs.Slots.Accesses
import ScriptBytecode.Proofs.Slots.Layout
import ScriptBytecode.Proofs.Slots.Methods
import ScriptBytecode.Proofs.Slots.Ranges
import ScriptBytecode.Proofs.Slots.Receiver
import ScriptBytecode.Proofs.Stack.Branching
import ScriptBytecode.Proofs.Stack.Calls
import ScriptBytecode.Proofs.Stack.Closed
import ScriptBytecode.Proofs.Stack.Definitions
import ScriptBytecode.Proofs.Stack.Labels
import ScriptBytecode.Proofs.Stack.Midway
import ScriptBytecode.Proofs.Stack.Nodes
import ScriptBytecode.Proofs.Stack.Ready
import ScriptBytecode.Proofs.Stack.Statements
import ScriptBytecode.Proofs.Stack.Streams
import ScriptBytecode.Proofs.Stack.Typed
import ScriptBytecode.Proofs.Stack.Units
import ScriptBytecode.Proofs.Stack.Values
import ScriptBytecode.Proofs.Stack.Verifier
import ScriptBytecode.Proofs.TypeNames
import ScriptBytecode.Source.All
import ScriptBytecode.Source.Induction

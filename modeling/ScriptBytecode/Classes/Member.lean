import ScriptBytecode.Hash.Fingerprint
import ScriptBytecode.Types.Machine

/-!
# Members of classes

A `Member` is a method or constructor as its class declares it. Constructors share one reserved
name and are told apart from methods by their flag, which also selects how their signature is
fingerprinted. A `MemberRef` is what an invocation instruction keeps of a member: everything but the
flags.
-/

namespace ScriptBytecode

/-- The name of every constructor. -/
def constructorName : String := "<init>"

/-- Traits of a member that change how a call of it is emitted. -/
structure MemberFlags where
  /-- The member takes no receiver. -/
  isStatic : Bool := false
  /-- The member is declared by an interface. -/
  isInterface : Bool := false
  /-- The member initializes an instance. -/
  isConstructor : Bool := false
deriving DecidableEq, Repr, Inhabited

/-- A method or constructor of a class. -/
structure Member where
  /-- The declaring class. -/
  owner : ClassRef
  /-- The member's name; `constructorName` for constructors. -/
  name : String
  /-- Parameter types in order. -/
  params : List MachineType := []
  /-- The type of the result, `void` for none. -/
  returnType : MachineType := .void
  /-- The member's traits. -/
  flags : MemberFlags := {}
deriving DecidableEq, Repr, Inhabited

/-- A symbolic reference to a member, as instructions hold it. -/
structure MemberRef where
  /-- The declaring class. -/
  owner : ClassRef
  /-- The member's name. -/
  name : String
  /-- Parameter types in order. -/
  params : List MachineType
  /-- The type of the result. -/
  returnType : MachineType
deriving DecidableEq, Repr, Inhabited

namespace MemberRef

/-- The reference as listings write it. -/
def render (m : MemberRef) : String :=
  m.owner.name ++ "." ++ m.name ++ "(" ++ MachineType.renderList m.params ++ ")" ++
    m.returnType.render

instance : ToString MemberRef := ⟨render⟩

end MemberRef

/-- The fingerprint of a machine type is that of its name. -/
def MachineType.fingerprint (t : MachineType) : Fingerprint := .ofName t.render

namespace Member

/-- The reference that an invocation of the member holds. -/
def toRef (m : Member) : MemberRef :=
  { owner := m.owner, name := m.name, params := m.params, returnType := m.returnType }

/-- The member's identity: its owner, its name unless it is a constructor, and its parameters. -/
def fingerprint (m : Member) : Fingerprint :=
  let params := m.params.map MachineType.fingerprint
  if m.flags.isConstructor then .ofConstructor m.owner.name params
  else .ofMethod m.owner.name m.name params

/-- The signature as messages write it. -/
def render (m : Member) : String :=
  m.owner.name ++ "." ++ m.name ++ "(" ++ MachineType.renderList m.params ++ ") -> " ++
    m.returnType.render

instance : ToString Member := ⟨render⟩

/-- The constructor of the class `owner` with the given parameters. -/
def constructor (owner : ClassRef) (params : List MachineType) : Member :=
  { owner, name := constructorName, params, flags := { isConstructor := true } }

end Member

end ScriptBytecode

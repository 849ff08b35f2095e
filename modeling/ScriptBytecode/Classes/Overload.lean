import ScriptBytecode.Classes.Conversion
import ScriptBytecode.Error

/-!
# Choosing among overloaded members

A call names a member and passes arguments. Its candidates are the members of that name that are
visible on the receiver's class; those that accept the arguments are applicable. If one applicable
member is strictly more specific than all the others, it is the one called. If none is applicable,
or no such member stands out, the call is in error.

A member is more specific than another if each of its parameters can stand where the other's is
expected.
-/

namespace ScriptBytecode.ClassTable

/-! ### Comparing members -/

/-- Whether a member accepts arguments of the given types. -/
def isApplicable (t : ClassTable) (m : Member) (args : List MachineType) : Bool :=
  t.areAssignable args m.params

/-- Whether each parameter of `a` can stand where its partner in `b` is expected. -/
def isMoreSpecific (t : ClassTable) (a b : Member) : Bool :=
  t.areAssignable a.params b.params

/-- Whether `a` is more specific than `b`, and not conversely. -/
def isStrictlyMoreSpecific (t : ClassTable) (a b : Member) : Bool :=
  t.isMoreSpecific a b && !t.isMoreSpecific b a

/-- The members of a list that are strictly more specific than all others before and after them.
`before` holds what precedes the rest of the list. -/
def winners (t : ClassTable) (before : List Member) : List Member → List Member
  | [] => []
  | m :: after =>
    let rest := t.winners (before ++ [m]) after
    if (before ++ after).all (t.isStrictlyMoreSpecific m) then m :: rest else rest

/-- The one member that is strictly more specific than all the others. -/
def mostSpecific? (t : ClassTable) (candidates : List Member) : Option Member :=
  match t.winners [] candidates with
  | [m] => some m
  | _ => none

/-! ### Resolving a call -/

/-- The members that are visible on a class under a name and accept the arguments. -/
def applicable (t : ClassTable) (cls name : String) (args : List MachineType) (isStatic : Bool) :
    List Member :=
  (t.visibleMembers cls name isStatic).filter (t.isApplicable · args)

/-- The member that a call refers to. -/
def resolve (t : ClassTable) (receiver : ClassRef) (name : String) (args : List MachineType)
    (isStatic : Bool) (span : Span) : Except CompileError Member :=
  let candidates := t.applicable receiver.name name args isStatic
  match candidates, t.mostSpecific? candidates with
  | [], _ => .error <| .located span <|
      .noApplicableMethod receiver.name name (MachineType.renderList args)
  | _, some m => .ok m
  | _, none => .error <| .located span <|
      .ambiguousCall receiver.name name (MachineType.renderList args)
        (" or ".intercalate (candidates.map Member.render))

end ScriptBytecode.ClassTable

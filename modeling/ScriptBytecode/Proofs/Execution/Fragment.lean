import ScriptBytecode.Proofs.Execution.Evaluator

/-!
# Trees that compute with integers and locals

`Arithmetical` singles out the trees that `meaning` evaluates: constants, locals, sums and
differences of numbers, sequences, branches and loops, with conditions made of comparisons,
negations and truth values. In such a tree each local name is only ever stored with one kind; the
kinds are a parameter.

The kind of a name is that of the types at which it is stored: for each store the type that was
inferred for it, or else that of the value. A name that is only read may have any kind.

Truth values are integers and may be stored and read as such. A comparison or a negation is a
condition only: it has no value of its own, and can be used for one within a branch.
-/

namespace ScriptBytecode

/-! ### The trees -/

mutual

/-- Trees that compute with integers and locals, where each name is stored with its kind. -/
inductive Arithmetical (s : Session) (kinds : String → StackKind) : Node → Prop
  | int (n : Int32) (type : SourceType) (span : Span) :
    Arithmetical s kinds (.literal (.int n) type span)
  | long (n : Int64) (type : SourceType) (span : Span) :
    Arithmetical s kinds (.literal (.long n) type span)
  | bool (b : Bool) (type : SourceType) (span : Span) :
    Arithmetical s kinds (.literal (.bool b) type span)
  | readLocal (name : String) (type : SourceType) (span : Span) :
    Arithmetical s kinds (.readLocal name type span)
  | assign {name : String} {value : Node} {type : SourceType} {span : Span}
    (kind : ∀ t, s.storeType value type span = .ok t → t.kind? = some (kinds name))
    (hvalue : Arithmetical s kinds value) : Arithmetical s kinds (.assign name value type span)
  | calculate {receiver argument : Node} {operator : String} (type : SourceType) (span : Span)
    (hoperator : operator = "+" ∨ operator = "-") (hvalue : receiver.type.isMeta = false)
    (hnumeric : ∀ t, s.valueType receiver = .ok t → (Width.ofType? t).isSome = true)
    (hreceiver : Arithmetical s kinds receiver) (hargument : Arithmetical s kinds argument) :
    Arithmetical s kinds (.call receiver operator [argument] type span)
  | body {nodes : List Node} (type : SourceType) (span : Span)
    (hnodes : ∀ n ∈ nodes, Arithmetical s kinds n) : Arithmetical s kinds (.body nodes type span)
  | noop (span : Span) : Arithmetical s kinds (.noop span)
  | branch {condition thenArm : Node} {elseArm : Option Node} (type : SourceType) (span : Span)
    (hcondition : Decisive s kinds condition) (hthen : Arithmetical s kinds thenArm)
    (helse : ∀ n ∈ elseArm, Arithmetical s kinds n) :
    Arithmetical s kinds (.branch condition thenArm elseArm type span)
  | loop {condition content : Node} (checkFirst negative : Bool) (type : SourceType) (span : Span)
    (hcondition : Decisive s kinds condition) (hcontent : Arithmetical s kinds content) :
    Arithmetical s kinds (.loop condition content checkFirst negative type span)

/-- Conditions on integers and locals. -/
inductive Decisive (s : Session) (kinds : String → StackKind) : Node → Prop
  | comparison {receiver argument : Node} {operator : String}
    (type : SourceType) (span : Span) (hoperator : (relation? operator).isSome = true)
    (hvalue : receiver.type.isMeta = false) (hreceiver : Arithmetical s kinds receiver)
    (hargument : Arithmetical s kinds argument) :
    Decisive s kinds (.call receiver operator [argument] type span)
  | negation {receiver : Node} (type : SourceType) (span : Span)
    (hvalue : receiver.type.isMeta = false) (hboolean : s.valueType receiver = .ok .boolean)
    (hreceiver : Decisive s kinds receiver) : Decisive s kinds (.call receiver "!" [] type span)
  | value {n : Node} (hn : Arithmetical s kinds n) : Decisive s kinds n

end

end ScriptBytecode

import ScriptBytecode.Hash.XXH64

/-!
# Fingerprints of classes and member signatures

A `Fingerprint` is a 64-bit word computed from a name or a signature. Two signatures with the same
fingerprint count as the same signature, so the class table compares fingerprints to reject a member
declared twice.

The text hash enters only through the words of the owner's and the member's name. The rest is
`mixParams`: each parameter rotates the running word and adds the parameter's fingerprint, scaled by
an odd factor that depends on its position, so that parameter order matters.
-/

namespace ScriptBytecode

/-- A 64-bit identity of a class or of a member signature. -/
structure Fingerprint where
  /-- The word itself. -/
  word : UInt64
deriving DecidableEq, Inhabited

namespace Fingerprint

/-! ### Domain markers -/

/-- Marks fingerprints of classes. -/
def typeMark : UInt64 := 0x2fac10b63a6cc57c

/-- Marks fingerprints of methods. -/
def methodMark : UInt64 := 0x7d3c8b4a92e15f6d

/-- Marks fingerprints of constructors. -/
def constructorMark : UInt64 := 0x9a7f3d5e2b8c4601

/-- Stands between the owner and the name of a method. -/
def separator : UInt64 := 0x4bc94d6bd06053ad

/-! ### Construction -/

/-- The fingerprint that stands for nothing. -/
def empty : Fingerprint := ⟨0⟩

/-- Whether this is the fingerprint that stands for nothing. -/
def isEmpty (f : Fingerprint) : Bool := f.word == 0

/-- Mixes the parameters from position `i` on into the running word `h`. -/
def mixFrom (i : Nat) (h : UInt64) : List Fingerprint → UInt64
  | [] => h
  | p :: ps => mixFrom (i + 1) (XXH64.rotl h 7 + p.word * UInt64.ofNat (2 * i + 1)) ps

/-- Mixes the parameters, and last their number, into the running word `h`. -/
def mixParams (h : UInt64) (params : List Fingerprint) : UInt64 :=
  mixFrom 0 h params ^^^ UInt64.ofNat params.length

/-- The running word of a method before its parameters, from the hashes of owner and name. -/
def methodSeed (owner name : UInt64) : UInt64 :=
  XXH64.rotl (methodMark ^^^ owner) 5 ^^^ separator ^^^ name

/-- The fingerprint of the class `name`. -/
def ofName (name : String) : Fingerprint := ⟨typeMark ^^^ XXH64.hash name⟩

/-- The fingerprint of a method of `owner`. -/
def ofMethod (owner name : String) (params : List Fingerprint) : Fingerprint :=
  ⟨mixParams (methodSeed (XXH64.hash owner) (XXH64.hash name)) params⟩

/-- The fingerprint of a constructor of `owner`. -/
def ofConstructor (owner : String) (params : List Fingerprint) : Fingerprint :=
  ⟨mixParams (constructorMark ^^^ XXH64.hash owner) params⟩

/-! ### Printing -/

/-- The word as sixteen hexadecimal digits. -/
def render (f : Fingerprint) : String :=
  let digits := Nat.toDigits 16 f.word.toNat
  "0x" ++ String.ofList (List.replicate (16 - digits.length) '0' ++ digits)

instance : ToString Fingerprint := ⟨render⟩

end Fingerprint

end ScriptBytecode

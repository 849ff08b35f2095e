/-!
# Source positions

A `Span` is where a construct starts in its source and how many bytes it covers. Spans are carried
through to error messages and decide nothing else. Line `0` is reserved: it marks a construct that
was built without a position.
-/

namespace ScriptBytecode

/-- The position of a construct: a line and a column, both counted from one, and a length. -/
structure Span where
  /-- Line number; `0` when the position is unknown. -/
  line : Nat := 0
  /-- Column number. -/
  col : Nat := 0
  /-- Length in bytes. -/
  len : Nat := 0
deriving DecidableEq, Repr, Inhabited

namespace Span

/-- The span of a construct without a position. -/
def unknown : Span := {}

/-- The empty span at a position. -/
def point (line col : Nat) : Span := ⟨line, col, 0⟩

/-- Whether the span carries no position. -/
def isUnknown (s : Span) : Bool := s.line == 0

/-- Line and column, whether or not they are known. -/
def position (s : Span) : String := s!"{s.line}:{s.col}"

/-- How messages name the span. -/
def render (s : Span) : String := if s.isUnknown then "<unknown>" else s.position

instance : ToString Span := ⟨render⟩

end Span

end ScriptBytecode

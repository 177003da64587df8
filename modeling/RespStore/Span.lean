/-!
# Spans

A span is a run of consecutive bytes inside a byte string, given by its first and its last
offset. A span is never empty.
-/

namespace RespStore

/-- The first and the last offset of a run of bytes. -/
structure Span where
  /-- The offset of the first byte. -/
  first : Nat
  /-- The offset of the last byte. -/
  last : Nat
  deriving Repr, DecidableEq

/-- The number of bytes in a span. -/
def Span.length (s : Span) : Nat := s.last - s.first + 1

end RespStore

/-! # Spans — places and ranges in a script

    Lines and columns count from zero, columns in characters.  A span is shown
    half open but answers a cursor at either end (`Span.covers`). -/

namespace ScriptAtlas

/-- A place in a script. -/
structure Position where
  line : Nat
  column : Nat
deriving DecidableEq, Repr

/-- Whether a place is not after another. -/
def Position.le (p q : Position) : Bool :=
  p.line < q.line || (p.line == q.line && p.column ≤ q.column)

/-- The order of places: by line, then by column. -/
def Position.order : Position → Position → Ordering :=
  compareLex (compareOn (·.line)) (compareOn (·.column))

/-- A range between two places. -/
structure Span where
  start : Position
  stop : Position
deriving DecidableEq, Repr

namespace Span

/-- A range within one line. -/
def onLine (line start stop : Nat) : Span := ⟨⟨line, start⟩, ⟨line, stop⟩⟩

/-- The first character of a file, which stands for the file itself. -/
def fileStart : Span := onLine 0 0 1

/-- Whether a cursor lies in the range, both ends included. -/
def covers (s : Span) (p : Position) : Bool := s.start.le p && p.le s.stop

end Span

end ScriptAtlas

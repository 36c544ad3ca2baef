import EcmaScript.Text.Cursor

/-!
# Positions and spans

A position is a byte offset plus one, so that zero is free to mean that no position is
known. A span is a pair of positions; its end is the position behind the last byte.
Whatever leaves the library, trees and diagnostics alike, is told in offsets, which
start at zero.
-/

namespace EcmaScript

/-- A byte offset plus one; zero stands for an unknown position. -/
abbrev Position := Nat

namespace Position

/-- The position of a byte offset. -/
def ofOffset (offset : Nat) : Position := offset + 1

/-- The byte offset of a position; an unknown position counts as the start of the text. -/
def offset (p : Position) : Nat := p - 1

@[simp] theorem offset_ofOffset (n : Nat) : offset (ofOffset n) = n := by
  simp [offset, ofOffset]

end Position

/-- A stretch of a text, from `start` up to but not including `stop`. -/
structure Span where
  /-- The position of the first byte. -/
  start : Position
  /-- The position behind the last byte. -/
  stop : Position
deriving Repr, DecidableEq, Hashable

namespace Span

/-- The span that stands for no place at all. -/
def unset : Span := ⟨0, 0⟩

instance : Inhabited Span := ⟨unset⟩

/-- The span between two byte offsets. -/
def ofOffsets (start stop : Nat) : Span := ⟨.ofOffset start, .ofOffset stop⟩

/-- Whether both ends are unknown. -/
def isUnset (s : Span) : Bool := s.start == 0 && s.stop == 0

/-- The number of bytes in the span. -/
def length (s : Span) : Nat := s.stop - s.start

/-- Whether the span holds no byte. -/
def isEmpty (s : Span) : Bool := s.start == s.stop

/-- Whether a position lies in the span; the end does not. -/
def contains (s : Span) (p : Position) : Bool := s.start ≤ p && p < s.stop

/-- Whether the other span lies wholly in this one. -/
def encloses (s other : Span) : Bool := s.start ≤ other.start && other.stop ≤ s.stop

/-- From the start of this span to the end of the other, or to the start of this one when
the other ends before it. -/
def through (s other : Span) : Span := ⟨s.start, max other.stop s.start⟩

/-- Both ends as byte offsets. -/
def offsets (s : Span) : Nat × Nat := (Position.offset s.start, Position.offset s.stop)

/-- Both ends as byte offsets, unless the span is unset. -/
def range? (s : Span) : Option (Nat × Nat) := if s.isUnset then none else some s.offsets

/-- The text of the span; nothing when the span is unset, reaches beyond the source, or
cuts a character. -/
def slice? (s : Span) (source : String) : Option String := do
  let (start, stop) ← s.range?
  if start ≤ stop then
    let (_, back) ← splitBytes? start source.toList
    let (front, _) ← splitBytes? (stop - start) back
    return String.ofList front
  else none

/-- The span as a half-open interval, `[start, stop)`. -/
def display (s : Span) : String := s!"[{s.start}, {s.stop})"

/-- The two positions with two dots between them. -/
def debug (s : Span) : String := s!"{s.start}..{s.stop}"

end Span

end EcmaScript

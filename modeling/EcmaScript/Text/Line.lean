import EcmaScript.Text.Span

/-!
# Lines and columns

Lines are ended by a line feed and by nothing else, and columns count bytes. The place of
an offset can be found by reading the text up to it, or, for many offsets of one text,
from a table of the offsets at which lines start.
-/

namespace EcmaScript

/-- A line and a column, both counted from one. -/
structure LineColumn where
  /-- The line, counted from one. -/
  line : Nat
  /-- The byte in the line, counted from one. -/
  column : Nat
deriving Repr, DecidableEq, Inhabited

namespace LineColumn

/-- The place behind a character of which at most `n` bytes are read. -/
def step (place : LineColumn) (ch : Char) (n : Nat) : LineColumn :=
  if ch = '\n' then ⟨place.line + 1, 1⟩ else ⟨place.line, place.column + min n ch.utf8Size⟩

/-- The place reached from `place` by reading `n` bytes, or as many as there are. -/
def after (place : LineColumn) : Nat → List Char → LineColumn
  | 0, _ => place
  | _ + 1, [] => place
  | n + 1, ch :: cs => after (place.step ch (n + 1)) (n + 1 - ch.utf8Size) cs

/-- The place of a byte offset, found by reading the text before it. -/
def ofOffset (text : String) (offset : Nat) : LineColumn :=
  after ⟨1, 1⟩ offset text.toList

end LineColumn

/-- The byte of a line feed. -/
def lineFeed : UInt8 := 10

/-- The bytes of a text in UTF-8. -/
def utf8Bytes (text : String) : List UInt8 := text.toUTF8.data.toList

/-- Where a value is in an increasing array. -/
inductive Rank where
  /-- It is the entry at an index. -/
  | found (index : Nat)
  /-- It is no entry, and would have to be put in at an index. -/
  | missing (index : Nat)
deriving Repr, DecidableEq

namespace Rank

/-- The entry from `base` on, among the next `size` ones, that is the last to be at most
`value`, found by halving. The first of them is not looked at. -/
def narrow (entries : Array Nat) (value base size : Nat) : Nat :=
  if size ≤ 1 then base
  else
    let middle := base + size / 2
    if value < entries.getD middle 0 then narrow entries value base (size - size / 2)
    else narrow entries value middle (size - size / 2)
termination_by size

/-- Binary search for a value in an increasing array. -/
def search (entries : Array Nat) (value : Nat) : Rank :=
  if entries.isEmpty then .missing 0
  else
    let index := narrow entries value 0 entries.size
    match compare (entries.getD index 0) value with
    | .eq => .found index
    | .lt => .missing (index + 1)
    | .gt => .missing index

end Rank

/-- The offsets at which the lines of a text start, for looking up many places. -/
structure LineTable where
  /-- The start of every line, in increasing order. -/
  starts : Array Nat
  /-- The length of the text in bytes. -/
  size : Nat
deriving Repr, DecidableEq

namespace LineTable

/-- The offsets behind the line feeds of some bytes, of which the first is at `offset`. -/
def startsFrom (offset : Nat) : List UInt8 → List Nat
  | [] => []
  | byte :: bytes =>
    if byte = lineFeed then (offset + 1) :: startsFrom (offset + 1) bytes
    else startsFrom (offset + 1) bytes

/-- The table of a text. -/
def ofString (text : String) : LineTable :=
  ⟨(0 :: startsFrom 0 (utf8Bytes text)).toArray, text.utf8ByteSize⟩

/-- The number of lines; a text that ends in a line feed has an empty last line. -/
def count (table : LineTable) : Nat := table.starts.size

/-- The line that an offset is on, counted from zero: the one that starts there or, where
none does, the one in front of the first that starts behind it. -/
def lineIndex (table : LineTable) (offset : Nat) : Nat :=
  match Rank.search table.starts offset with
  | .found line => line
  | .missing line => line - 1

/-- The place of a byte offset; an offset beyond the text counts as its end. -/
def lineColumn (table : LineTable) (offset : Nat) : LineColumn :=
  let offset := min offset table.size
  let line := table.lineIndex offset
  ⟨line + 1, offset - table.starts.getD line 0 + 1⟩

/-- The place of a position. -/
def lineColumnAt (table : LineTable) (p : Position) : LineColumn :=
  table.lineColumn (Position.offset p)

end LineTable

end EcmaScript

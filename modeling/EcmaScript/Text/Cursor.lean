/-!
# Cursors into a text

A cursor is what is left to read of a text together with the number of bytes already
read. Every position in the library counts UTF-8 bytes, but reading goes character by
character over a list, so a cursor can never stop inside a character.
-/

namespace EcmaScript

/-- The number of bytes that a list of characters takes in UTF-8. -/
def byteLength : List Char → Nat
  | [] => 0
  | c :: cs => c.utf8Size + byteLength cs

@[simp] theorem byteLength_nil : byteLength [] = 0 := rfl

@[simp] theorem byteLength_cons (c : Char) (cs : List Char) :
    byteLength (c :: cs) = c.utf8Size + byteLength cs := rfl

@[simp] theorem byteLength_append (xs ys : List Char) :
    byteLength (xs ++ ys) = byteLength xs + byteLength ys := by
  induction xs with
  | nil => simp
  | cons x xs ih => simp [ih]; omega

/-- The characters that fill exactly the first `n` bytes, and those that follow; nothing
when the text is shorter or byte `n` lies inside a character. -/
def splitBytes? : Nat → List Char → Option (List Char × List Char)
  | 0, cs => some ([], cs)
  | _ + 1, [] => none
  | n + 1, c :: cs =>
    if c.utf8Size ≤ n + 1 then
      (splitBytes? (n + 1 - c.utf8Size) cs).map fun (front, back) => (c :: front, back)
    else none

/-- The characters that lie wholly in the first `n` bytes. -/
def takeBytes : Nat → List Char → List Char
  | _, [] => []
  | n, c :: cs => if c.utf8Size ≤ n then c :: takeBytes (n - c.utf8Size) cs else []

/-- A place in a text that is being read. -/
structure Cursor where
  /-- How many bytes come before this place. -/
  offset : Nat
  /-- The characters from this place on. -/
  rest : List Char
deriving Repr, DecidableEq, Inhabited

namespace Cursor

/-- The start of a text. -/
def ofString (text : String) : Cursor := ⟨0, text.toList⟩

/-- The character at this place, if the text has not ended. -/
def peek? (c : Cursor) : Option Char := c.rest.head?

/-- The place behind the first character; the end of the text stays where it is. -/
def next (c : Cursor) : Cursor :=
  match c.rest with
  | [] => c
  | ch :: cs => ⟨c.offset + ch.utf8Size, cs⟩

/-- The place `n` characters further on. -/
def advance : Nat → Cursor → Cursor
  | 0, c => c
  | n + 1, c => advance n c.next

/-- Moves over the longest run of characters that satisfy `p`. -/
def skipWhile (p : Char → Bool) (c : Cursor) : Cursor :=
  go c.offset c.rest
where
  /-- The walk itself, on the two parts of the cursor. -/
  go (offset : Nat) : List Char → Cursor
    | [] => ⟨offset, []⟩
    | ch :: cs => if p ch then go (offset + ch.utf8Size) cs else ⟨offset, ch :: cs⟩

/-- The characters between two cursors of one text. -/
def charsUntil (start stop : Cursor) : List Char :=
  takeBytes (stop.offset - start.offset) start.rest

/-- The text between two cursors of one text. -/
def textUntil (start stop : Cursor) : String :=
  String.ofList (start.charsUntil stop)

/-- The next cursor has no more characters. -/
theorem length_next_le (c : Cursor) : c.next.rest.length ≤ c.rest.length := by
  unfold next
  split <;> simp_all

/-- The next cursor has fewer characters unless there are none. -/
theorem length_next_lt {c : Cursor} {ch : Char} {cs : List Char} (h : c.rest = ch :: cs) :
    c.next.rest.length < c.rest.length := by
  simp [next, h]

/-- Further on there are no more characters. -/
theorem length_advance_le (n : Nat) (c : Cursor) :
    (c.advance n).rest.length ≤ c.rest.length := by
  induction n generalizing c with
  | zero => simp [advance]
  | succ n ih => exact Nat.le_trans (ih c.next) c.length_next_le

private theorem length_skipWhile_go_le (p : Char → Bool) (offset : Nat) (cs : List Char) :
    (skipWhile.go p offset cs).rest.length ≤ cs.length := by
  induction cs generalizing offset with
  | nil => simp [skipWhile.go]
  | cons ch cs ih =>
    unfold skipWhile.go
    split
    · exact Nat.le_succ_of_le (ih _)
    · simp

/-- Behind a run of characters there are no more. -/
theorem length_skipWhile_le (p : Char → Bool) (c : Cursor) :
    (c.skipWhile p).rest.length ≤ c.rest.length :=
  length_skipWhile_go_le p c.offset c.rest

/-- Behind a run that is not empty there are fewer characters. -/
theorem length_skipWhile_lt {p : Char → Bool} {c : Cursor} {ch : Char} {cs : List Char}
    (h : c.rest = ch :: cs) (hp : p ch = true) :
    (c.skipWhile p).rest.length < c.rest.length := by
  simp only [skipWhile, h, skipWhile.go, hp, if_true]
  exact Nat.lt_succ_of_le (length_skipWhile_go_le _ _ _)

end Cursor

end EcmaScript

import EcmaScript.Character.Class
import EcmaScript.Diagnostic.Problem
import EcmaScript.Text.Cursor

/-!
# Trivia

White space, line breaks and comments: what may stand between two tokens and belongs to
neither. Of it the grammar only wants to know whether it holds a line break.
-/

namespace EcmaScript.Lexer

open Character

/-- The gap before a token. -/
structure Trivia where
  /-- Whether the gap holds a line break, in a comment or outside. -/
  lineBreak : Bool
  /-- The comment that is not closed, if the gap ends in one. -/
  faults : List Fault
  /-- The place behind the gap. -/
  stop : Cursor

/-- What comes behind the opening of a block comment. -/
structure BlockComment where
  /-- Whether the comment holds a line break. -/
  lineBreak : Bool
  /-- Whether the comment is closed before the text ends. -/
  closed : Bool
  /-- The place behind the comment. -/
  stop : Cursor

/-- Reads a block comment from behind its opening. -/
def blockComment (lineBreak : Bool) (offset : Nat) : List Char → BlockComment
  | [] => ⟨lineBreak, false, ⟨offset, []⟩⟩
  | '*' :: '/' :: cs => ⟨lineBreak, true, ⟨offset + 2, cs⟩⟩
  | c :: cs => blockComment (lineBreak || isLineBreak c) (offset + c.utf8Size) cs

/-- A comment leaves no more characters than there were. -/
theorem length_blockComment_le (lineBreak : Bool) (offset : Nat) (cs : List Char) :
    (blockComment lineBreak offset cs).stop.rest.length ≤ cs.length := by
  fun_induction blockComment lineBreak offset cs <;> simp_all <;> omega

/-- Reads the gap that starts at `c`, behind a part of it that held a line break or not. -/
def trivia (lineBreak : Bool) (c : Cursor) : Trivia :=
  match h : c.rest with
  | [] => ⟨lineBreak, [], c⟩
  | '/' :: '/' :: cs =>
    trivia lineBreak (Cursor.skipWhile (!isLineBreak ·) ⟨c.offset + 2, cs⟩)
  | '/' :: '*' :: cs =>
    let comment := blockComment false (c.offset + 2) cs
    if comment.closed then trivia (lineBreak || comment.lineBreak) comment.stop
    else ⟨lineBreak || comment.lineBreak, [⟨.unterminatedComment, c.offset⟩], comment.stop⟩
  | ch :: cs =>
    if isLineBreak ch then trivia true ⟨c.offset + ch.utf8Size, cs⟩
    else if isBlank ch then trivia lineBreak ⟨c.offset + ch.utf8Size, cs⟩
    else ⟨lineBreak, [], c⟩
termination_by c.rest.length
decreasing_by
  · have := Cursor.length_skipWhile_le (!isLineBreak ·) ⟨c.offset + 2, cs⟩
    simp_all
    omega
  · have := length_blockComment_le false (c.offset + 2) cs
    simp_all
    omega
  · simp_all
  · simp_all

/-- What stands between tokens leaves no more characters than there were. -/
theorem length_trivia_le (lineBreak : Bool) (c : Cursor) :
    (trivia lineBreak c).stop.rest.length ≤ c.rest.length := by
  fun_induction trivia lineBreak c with
  | case1 => simp
  | case2 lineBreak c cs h ih =>
    have := Cursor.length_skipWhile_le (!isLineBreak ·) ⟨c.offset + 2, cs⟩
    simp_all
    omega
  | case3 lineBreak c cs h comment hclosed ih =>
    have := length_blockComment_le false (c.offset + 2) cs
    grind
  | case4 lineBreak c cs h comment hopen =>
    have := length_blockComment_le false (c.offset + 2) cs
    grind
  | case5 => grind
  | case6 => grind
  | case7 => simp

end EcmaScript.Lexer

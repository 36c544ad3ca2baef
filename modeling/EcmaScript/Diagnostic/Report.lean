import EcmaScript.Diagnostic.Basic

/-!
# Reports

What a user is shown of a diagnostic next to the source text: the message, a label at the
character that is meant, and a line that tells the place in words.
-/

namespace EcmaScript

/-- A mark in the source text. -/
structure Mark where
  /-- What stands at the mark. -/
  text : String
  /-- The byte offset of the mark. -/
  offset : Nat
  /-- The number of bytes that are marked. -/
  length : Nat
deriving Repr, DecidableEq, Inhabited

/-- A diagnostic as it is shown. -/
structure Report where
  /-- What is wrong. -/
  message : String
  /-- The category and the place, in words. -/
  help : String
  /-- The marks in the source text. -/
  labels : List Mark
deriving Repr, DecidableEq, Inhabited

/-- A mark at the character that starts at a byte offset. It is empty at the end of the text,
or if no character starts there. -/
def Mark.atOffset (source : String) (offset : Nat) : Mark :=
  let offset := min offset source.utf8ByteSize
  let length := match splitBytes? offset source.toList with
    | some (_, c :: _) => c.utf8Size
    | _ => 0
  ⟨"here", offset, length⟩

/-- The report of a diagnostic. -/
def Diagnostic.report (source : String) (d : Diagnostic) : Report where
  message := d.message
  help := s!"{d.category.name} error at line {d.line}, column {d.column}"
  labels := [.atOffset source d.offset]

end EcmaScript

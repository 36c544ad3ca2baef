import EcmaScript.Proofs.Syntax.Map

/-!
# Relocating syntax trees

A tree that differs from another one in its spans alone. Where a span goes depends on the form
of the node that it is the span of; names and literals go where expressions do. A tree of a part
of a text is one in the whole text with all its spans further to the left, by the number of bytes
that come before the part.
-/

namespace EcmaScript

/-- The name with its span elsewhere. -/
def Identifier.relocate (f : Span → Span) (id : Identifier) : Identifier :=
  { id with span := f id.span }

/-- The spans go elsewhere, and the scopes stay. -/
def DataMap.relocating (f : Relocation) : DataMap where
  span := f
  name := Identifier.relocate (f .expression)
  label := Identifier.relocate (f .expression)

/-- The name of a property with its span elsewhere. -/
abbrev MemberName.relocate (f : Span → Span) : MemberName → MemberName :=
  mapData (.relocating fun _ => f)

/-- The span so many bytes further to the left. -/
def Span.back (n : Nat) (s : Span) : Span :=
  .ofOffsets (Position.offset s.start - n) (Position.offset s.stop - n)

namespace Node

/-- The tree with the spans of the nodes of each form, and those of names and literals as if they
were expressions, elsewhere. -/
abbrev relocate (f : Relocation) {form : Form} : Node form → Node form :=
  mapData (.relocating f)

/-- The tree so many bytes further to the left. -/
abbrev back (n : Nat) {form : Form} : Node form → Node form := relocate fun _ => Span.back n

end Node

/-- The script with the spans of its nodes elsewhere. -/
def Program.relocate (f : Relocation) (program : Program) : Program :=
  ⟨f .statement program.span, program.body.map (Node.relocate f)⟩

end EcmaScript

import EcmaScript.Parser.Basic

/-!
# Conformance fixtures

A fixture is a short script with what is expected of parsing it. A script that is expected
to be refused may tell the message that comes first.
-/

namespace EcmaScript

/-- What is expected of parsing a script. -/
inductive Expectation where
  | accept
  /-- The script is refused; the first message is this one, if one is given. -/
  | reject (message : Option String)
deriving Repr, DecidableEq, Inhabited

/-- A script with what is expected of parsing it. -/
structure Fixture where
  /-- The name of the fixture. -/
  name : String
  /-- The part of the grammar that it is about. -/
  category : String
  /-- The script. -/
  source : String
  /-- What is expected. -/
  expect : Expectation
deriving Repr, DecidableEq, Inhabited

/-- The result of a fixture. -/
structure Outcome where
  /-- Why the fixture failed, if it did. -/
  detail : Option String
deriving Repr, DecidableEq, Inhabited

/-- Whether the fixture did as expected. -/
def Outcome.passed (outcome : Outcome) : Bool := outcome.detail.isNone

/-- The first message, and how many diagnostics there are. -/
def Diagnostics.describe : Diagnostics → String
  | [] => "no errors"
  | first :: more => s!"'{first.message}' ({more.length + 1} errors)"

namespace Expectation

/-- Why the result of parsing is not as expected, if it is not. -/
def complaint? : Expectation → Except Diagnostics Program → Option String
  | accept, .ok _ => none
  | accept, .error ds => some ds.describe
  | reject _, .ok _ => some "parsed, expected an error"
  | reject none, .error _ => none
  | reject (some expected), .error ds =>
    if ds.head?.any (·.message == expected) then none
    else some s!"expected '{expected}', got {ds.describe}"

end Expectation

namespace Fixture

/-- A script to be accepted. -/
def accept (name category source : String) : Fixture := ⟨name, category, source, .accept⟩

/-- A script to be refused. -/
def reject (name category source : String) : Fixture := ⟨name, category, source, .reject none⟩

/-- A script to be refused with a given message. -/
def rejectWith (name category source message : String) : Fixture :=
  ⟨name, category, source, .reject (some message)⟩

/-- Parses the script and compares. -/
def run (fixture : Fixture) : Outcome := ⟨fixture.expect.complaint? (parse fixture.source)⟩

end Fixture

end EcmaScript

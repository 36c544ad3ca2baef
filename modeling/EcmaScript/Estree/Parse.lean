import EcmaScript.Estree.Basic
import EcmaScript.Estree.Options
import EcmaScript.Parser.Basic
import EcmaScript.Scope.Resolve
import EcmaScript.Token.Sequence

/-!
# From source text to JSON

The two results that a caller can have as JSON: the tree of a program and the sequence of
its tokens. Tokens are given also where a source text is refused.
-/

namespace EcmaScript

/-- The tree of a program as JSON, or what is wrong with the source text. -/
def parseToJson (source : String) (options : Options) : Except Diagnostics Json := do
  let program ← parse source
  return (if options.resolve then program.resolved else program).toJson

/-- A token as JSON. -/
def Token.toJson (t : Token) : Json :=
  .object [("kind", .string t.kind.name), ("value", .string t.value),
    ("start", .ofNat t.start.offset), ("end", .ofNat t.stop.offset),
    ("newlineBefore", .bool t.afterLineBreak)]

/-- The tokens of a source text as JSON, and what is wrong with their spelling. -/
def tokensToJson (source : String) : Json × Diagnostics :=
  let (tokens, faults) := tokenize source
  (.array (tokens.map Token.toJson), faults.map (Fault.diagnose source))

end EcmaScript

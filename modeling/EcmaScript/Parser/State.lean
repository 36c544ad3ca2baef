import EcmaScript.Character.NameRanges
import EcmaScript.Lexer.Basic
import EcmaScript.Number.Numeral
import EcmaScript.Syntax.Cover

/-!
# Parsers

A parser takes tokens from a lexer and ends early when it meets a problem of syntax. Faults
of the lexer do not end it, so they may come before that problem in the list of faults, and
a token that the lexer could not read ends parsing without a further fault.

Besides the lexer, a parser remembers what has to be settled later: a default in an object
literal that is wrong unless the literal becomes a pattern, an operator that is wrong if the
parentheses around it become parameters, and the notes of the cover grammar.

Every loop goes through `iterate`, which goes on only as long as tokens are taken. So what
is left of the text bounds the number of rounds.
-/

namespace EcmaScript

namespace Parser

/-- What a parser knows between two tokens. -/
structure State where
  /-- The lexer; its token is the next one to take. -/
  lexer : Lexer
  /-- The length of the text in bytes. -/
  size : Nat
  /-- The offset behind the token that was taken last. -/
  consumed : Nat := 0
  /-- The first default in an object literal that no pattern has claimed yet. -/
  coverInit : Option Nat := none
  /-- The first operator that suspends the current function, as the fault that it is in
  parameters. -/
  suspension : Option Fault := none
  /-- What the text says about expressions that may become patterns. -/
  notes : CoverNotes := {}
  /-- The tokens that were taken, the last one first. -/
  taken : List Token := []
  /-- The offsets at which a statement or a field ended with no semicolon behind it, the last
  one first. -/
  implied : List Nat := []

/-- How many bytes of the text have not been taken. -/
def State.remaining (s : State) : Nat := s.size - s.consumed

/-- Before the first token of a text. -/
def State.ofString (text : String) : State :=
  { lexer := (Lexer.ofString text).skipHashbang.scan, size := text.utf8ByteSize }

/-- The early end of parsing, with all faults that were met. -/
structure Abort where
  /-- The faults in the order in which they were met. -/
  faults : Array Fault

end Parser

/-- A computation that takes tokens, and may end early. -/
abbrev Parser := StateT Parser.State (Except Parser.Abort)

namespace Parser

/-- The token to be taken next. -/
def token : Parser Token := return (← get).lexer.token

/-- The kind of the token to be taken next. -/
def kind : Parser TokenKind := return (← get).lexer.token.kind

/-- The offset of the token to be taken next. -/
def offset : Parser Nat := return (← get).lexer.token.start.offset

/-- Whether a line break lies before the token to be taken next. -/
def afterLineBreak : Parser Bool := return (← get).lexer.token.afterLineBreak

/-- The token behind the one to be taken next. Looking at it leaves no trace. -/
def peek : Parser Token := return (← get).lexer.scan.token

/-- Whether the token to be taken next has a given kind. -/
def isAt (k : TokenKind) : Parser Bool := return (← kind) == k

/-- Takes a token. -/
def advance : Parser Unit :=
  modify fun s =>
    { s with
      consumed := s.lexer.token.stop.offset
      lexer := s.lexer.scan
      taken := s.lexer.token :: s.taken }

/-- Takes a token and gives it. -/
def take : Parser Token := do
  let t ← token
  advance
  return t

/-- Takes the token if it has a given kind, and tells whether it had. -/
def eat (k : TokenKind) : Parser Bool := do
  if ← isAt k then
    advance
    return true
  else return false

/-- Ends parsing with a problem at a given offset. -/
def fail {α : Type} (place : Nat) (problem : Problem) : Parser α := fun s =>
  .error ⟨s.lexer.faults.push ⟨problem, place⟩⟩

/-- Ends parsing with a problem at the token to be taken next. -/
def failHere {α : Type} (problem : Problem) : Parser α := do fail (← offset) problem

/-- Why a token cannot stand where it stands; the lexer has told it of an illegal one. -/
def unexpectedProblem? (t : Token) : Option Problem :=
  match t.kind with
  | .illegal => none
  | .endOfFile => some .unexpectedEnd
  | .number | .bigInt => some .unexpectedNumber
  | .string => some .unexpectedString
  | .template | .templateHead => some .unexpectedTemplate
  | .escapedReservedWord => some .escapedKeyword
  | .word .enumKw => some .unexpectedReservedWord
  | k => some (if k.isIdentifierLike then .unexpectedIdentifier else .unexpectedToken t.text)

/-- Ends parsing because the token to be taken next cannot stand here. -/
def unexpected {α : Type} : Parser α := do
  match unexpectedProblem? (← token) with
  | some problem => failHere problem
  | none => fun s => .error ⟨s.lexer.faults⟩

/-- Takes a token that must have a given kind. -/
def expect (k : TokenKind) : Parser Unit := do
  unless ← eat k do unexpected

/-- A result that may be a fault. -/
def orFail {α : Type} : Except Fault α → Parser α
  | .ok a => pure a
  | .error fault => fail fault.offset fault.problem

/-- From a given offset to the end of the token that was taken last. -/
def spanFrom (start : Nat) : Parser Span := return .ofOffsets start (← get).consumed

/-- Whether a statement can end before the next token: a brace, the end of the text or a
line break comes. -/
def atImpliedEnd : Parser Bool := do
  let t ← token
  return t.kind == .mark .closeBrace || t.kind == .endOfFile || t.afterLineBreak

/-- Notes that what was taken last ends a statement or a field with no semicolon behind it. -/
def noteImplied : Parser Unit :=
  modify fun s => { s with implied := s.consumed :: s.implied }

/-- Takes the semicolon at the end of a statement, which may be implied. -/
def semicolon : Parser Unit := do
  unless ← eat (.mark .semicolon) do
    if ← atImpliedEnd then noteImplied else unexpected

/-- Takes the semicolon at the end of a statement that ends wherever it is missing. -/
def optionalSemicolon : Parser Unit := do
  unless ← eat (.mark .semicolon) do noteImplied

/-- The outcome of one round of a loop. -/
inductive Round (σ β : Type) where
  /-- One more round. -/
  | next (state : σ)
  /-- The loop is over. -/
  | done (result : β)

/-- Repeats a step until it is done. A round that takes no token, other than the last, ends
parsing. -/
def iterate {σ β : Type} (step : σ → Parser (Round σ β)) (a : σ) : Parser β := fun s =>
  match step a s with
  | .error e => .error e
  | .ok (.done b, s') => .ok (b, s')
  | .ok (.next a', s') =>
    if s'.remaining < s.remaining then iterate step a' s' else unexpected s'
termination_by s => s.remaining

/-- Repeats a parser until it gives nothing, and lists what it gave. -/
def many {α : Type} (p : Parser (Option α)) : Parser (List α) :=
  iterate (fun found => do
    match ← p with
    | some a => return .next (a :: found)
    | none => return .done found.reverse) []

/-- A loop through recursion: `body` may call itself at a state with less text. -/
def recursive {ι α : Type} (body : (ι → Parser α) → ι → Parser α) (i : ι) : Parser α := fun s =>
  body (fun i' s' => if s'.remaining < s.remaining then recursive body i' s' else unexpected s') i s
termination_by s => s.remaining

/-- Items with commas between them up to a closing token, which stays. A comma may follow the
last one. -/
def commaList {α : Type} (close : TokenKind) (item : Parser α) : Parser (List α) :=
  many do
    if ← isAt close then return none
    let a ← item
    unless ← isAt close do expect (.mark .comma)
    return some a

/-- A token as an identifier. -/
def identifierOf (t : Token) : Identifier := { span := t.span, name := t.value }

/-- Takes a token as a name, whatever it is. -/
def takeIdentifier : Parser Identifier := return identifierOf (← take)

/-- Takes a token as a private name. -/
def takePrivateName : Parser PrivateName := do
  let t ← take
  return { span := t.span, name := t.value }

/-- Takes a token as a number. -/
def takeNumber : Parser NumberLiteral := do
  let t ← take
  return { span := t.span, value := Numeral.value t.text, raw := t.text }

/-- Takes a token as a big integer. -/
def takeBigInt : Parser BigIntLiteral := do
  let t ← take
  return { span := t.span, raw := t.text }

/-- Takes a token as a string. -/
def takeString : Parser StringLiteral := do
  let t ← take
  return { span := t.span, value := t.value, raw := t.text }

/-- Takes a token as a regular expression. -/
def takeRegex : Parser RegexLiteral := do
  let t ← take
  return { span := t.span, pattern := t.value, flags := t.raw }

end Parser

end EcmaScript

/-!
# Punctuators

The tokens that are spelled by punctuation characters alone, in the order of their codes.
The assignment operators come last.
-/

namespace EcmaScript

/-- A token spelled by punctuation characters. -/
inductive Punctuator where
  | openBrace | closeBrace | openParen | closeParen | openBracket | closeBracket | dot | ellipsis
  | semicolon | comma | questionDot | less | greater | lessEqual | greaterEqual | equal
  | notEqual | strictEqual | strictNotEqual | arrow | plus | minus | times | power | slash
  | percent | plusPlus | minusMinus | shiftLeft | shiftRight | shiftRightZero | bitAnd | bitOr
  | bitXor | bang | tilde | and | or | question | colon | coalesce | assign | plusAssign
  | minusAssign | timesAssign | powerAssign | slashAssign | percentAssign | shiftLeftAssign
  | shiftRightAssign | shiftRightZeroAssign | bitAndAssign | bitOrAssign | bitXorAssign
  | orAssign | andAssign | coalesceAssign
deriving Repr, DecidableEq, Inhabited, Hashable

namespace Punctuator

/-- The characters that spell a punctuator. -/
def text : Punctuator → String
  | openBrace => "\x7b"
  | closeBrace => "\x7d"
  | openParen => "("
  | closeParen => ")"
  | openBracket => "["
  | closeBracket => "]"
  | dot => "."
  | ellipsis => "..."
  | semicolon => ";"
  | comma => ","
  | questionDot => "?."
  | less => "<"
  | greater => ">"
  | lessEqual => "<="
  | greaterEqual => ">="
  | equal => "=="
  | notEqual => "!="
  | strictEqual => "==="
  | strictNotEqual => "!=="
  | arrow => "=>"
  | plus => "+"
  | minus => "-"
  | times => "*"
  | power => "**"
  | slash => "/"
  | percent => "%"
  | plusPlus => "++"
  | minusMinus => "--"
  | shiftLeft => "<<"
  | shiftRight => ">>"
  | shiftRightZero => ">>>"
  | bitAnd => "&"
  | bitOr => "|"
  | bitXor => "^"
  | bang => "!"
  | tilde => "~"
  | and => "&&"
  | or => "||"
  | question => "?"
  | colon => ":"
  | coalesce => "??"
  | assign => "="
  | plusAssign => "+="
  | minusAssign => "-="
  | timesAssign => "*="
  | powerAssign => "**="
  | slashAssign => "/="
  | percentAssign => "%="
  | shiftLeftAssign => "<<="
  | shiftRightAssign => ">>="
  | shiftRightZeroAssign => ">>>="
  | bitAndAssign => "&="
  | bitOrAssign => "|="
  | bitXorAssign => "^="
  | orAssign => "||="
  | andAssign => "&&="
  | coalesceAssign => "??="

/-- The name under which a punctuator is reported. -/
def name : Punctuator → String
  | openBrace => "OpenBraceToken"
  | closeBrace => "CloseBraceToken"
  | openParen => "OpenParenToken"
  | closeParen => "CloseParenToken"
  | openBracket => "OpenBracketToken"
  | closeBracket => "CloseBracketToken"
  | dot => "DotToken"
  | ellipsis => "DotDotDotToken"
  | semicolon => "SemicolonToken"
  | comma => "CommaToken"
  | questionDot => "QuestionDotToken"
  | less => "LessThanToken"
  | greater => "GreaterThanToken"
  | lessEqual => "LessThanEqualsToken"
  | greaterEqual => "GreaterThanEqualsToken"
  | equal => "EqualsEqualsToken"
  | notEqual => "ExclamationEqualsToken"
  | strictEqual => "EqualsEqualsEqualsToken"
  | strictNotEqual => "ExclamationEqualsEqualsToken"
  | arrow => "EqualsGreaterThanToken"
  | plus => "PlusToken"
  | minus => "MinusToken"
  | times => "AsteriskToken"
  | power => "AsteriskAsteriskToken"
  | slash => "SlashToken"
  | percent => "PercentToken"
  | plusPlus => "PlusPlusToken"
  | minusMinus => "MinusMinusToken"
  | shiftLeft => "LessThanLessThanToken"
  | shiftRight => "GreaterThanGreaterThanToken"
  | shiftRightZero => "GreaterThanGreaterThanGreaterThanToken"
  | bitAnd => "AmpersandToken"
  | bitOr => "BarToken"
  | bitXor => "CaretToken"
  | bang => "ExclamationToken"
  | tilde => "TildeToken"
  | and => "AmpersandAmpersandToken"
  | or => "BarBarToken"
  | question => "QuestionToken"
  | colon => "ColonToken"
  | coalesce => "QuestionQuestionToken"
  | assign => "EqualsToken"
  | plusAssign => "PlusEqualsToken"
  | minusAssign => "MinusEqualsToken"
  | timesAssign => "AsteriskEqualsToken"
  | powerAssign => "AsteriskAsteriskEqualsToken"
  | slashAssign => "SlashEqualsToken"
  | percentAssign => "PercentEqualsToken"
  | shiftLeftAssign => "LessThanLessThanEqualsToken"
  | shiftRightAssign => "GreaterThanGreaterThanEqualsToken"
  | shiftRightZeroAssign => "GreaterThanGreaterThanGreaterThanEqualsToken"
  | bitAndAssign => "AmpersandEqualsToken"
  | bitOrAssign => "BarEqualsToken"
  | bitXorAssign => "CaretEqualsToken"
  | orAssign => "BarBarEqualsToken"
  | andAssign => "AmpersandAmpersandEqualsToken"
  | coalesceAssign => "QuestionQuestionEqualsToken"

/-- Every punctuator, in the order of the codes. -/
def all : List Punctuator := [
  .openBrace, .closeBrace, .openParen, .closeParen, .openBracket, .closeBracket, .dot, .ellipsis,
  .semicolon, .comma, .questionDot, .less, .greater, .lessEqual, .greaterEqual, .equal,
  .notEqual, .strictEqual, .strictNotEqual, .arrow, .plus, .minus, .times, .power, .slash,
  .percent, .plusPlus, .minusMinus, .shiftLeft, .shiftRight, .shiftRightZero, .bitAnd, .bitOr,
  .bitXor, .bang, .tilde, .and, .or, .question, .colon, .coalesce, .assign, .plusAssign,
  .minusAssign, .timesAssign, .powerAssign, .slashAssign, .percentAssign, .shiftLeftAssign,
  .shiftRightAssign, .shiftRightZeroAssign, .bitAndAssign, .bitOrAssign, .bitXorAssign,
  .orAssign, .andAssign, .coalesceAssign]

/-- Every punctuator, the longest spellings first. -/
def longestFirst : List Punctuator :=
  [4, 3, 2, 1].flatMap fun n => all.filter (·.text.length == n)

/-- The longest punctuator that a text starts with. -/
def startOf? (cs : List Char) : Option Punctuator :=
  longestFirst.find? fun p => p.text.toList.isPrefixOf cs

/-- The operators that assign, `=` among them. -/
def isAssignment : Punctuator → Bool
  | assign | plusAssign | minusAssign | timesAssign | powerAssign | slashAssign | percentAssign
  | shiftLeftAssign | shiftRightAssign | shiftRightZeroAssign | bitAndAssign | bitOrAssign
  | bitXorAssign | orAssign | andAssign | coalesceAssign => true
  | _ => false

/-- The operators that decide by their left operand whether to look at the right one. -/
def isLogical : Punctuator → Bool
  | and | or | coalesce => true
  | _ => false

end Punctuator

end EcmaScript

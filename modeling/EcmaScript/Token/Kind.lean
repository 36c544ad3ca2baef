import EcmaScript.Token.Keyword
import EcmaScript.Token.Punctuator

/-!
# Token kinds

What the grammar needs to know of a token apart from its spelling. Each kind has a code and
a name under which it is reported; the codes follow the grouping of the kinds, literals
first, then punctuation, then words.
-/

namespace EcmaScript

/-- The kind of a token. -/
inductive TokenKind where
  /-- Before anything is read. -/
  | unknown
  | endOfFile
  /-- Characters that form no token. -/
  | illegal
  /-- A reserved word with an escape in its spelling. -/
  | escapedReservedWord
  | number
  | bigInt
  | string
  | regex
  /-- A template without substitutions. -/
  | template
  | templateHead
  | templateMiddle
  | templateTail
  | mark (p : Punctuator)
  /-- A name that starts with `#`. -/
  | privateName
  | identifier
  | word (w : Keyword)
deriving Repr, DecidableEq, Inhabited

namespace TokenKind

/-- The number of a kind: punctuators start at 12 and leave out 53, keywords start at 71. -/
def code : TokenKind → Nat
  | unknown => 0
  | endOfFile => 1
  | illegal => 2
  | escapedReservedWord => 3
  | number => 4
  | bigInt => 5
  | string => 6
  | regex => 7
  | template => 8
  | templateHead => 9
  | templateMiddle => 10
  | templateTail => 11
  | mark p => if p.isAssignment then p.ctorIdx + 13 else p.ctorIdx + 12
  | privateName => 53
  | identifier => 70
  | word w => w.ctorIdx + 71

/-- The name under which a kind is reported. -/
def name : TokenKind → String
  | unknown => "Unknown"
  | endOfFile => "EndOfFileToken"
  | illegal => "Illegal"
  | escapedReservedWord => "EscapedReservedWord"
  | number => "NumericLiteral"
  | bigInt => "BigIntLiteral"
  | string => "StringLiteral"
  | regex => "RegularExpressionLiteral"
  | template => "NoSubstitutionTemplateLiteral"
  | templateHead => "TemplateHead"
  | templateMiddle => "TemplateMiddle"
  | templateTail => "TemplateTail"
  | mark p => p.name
  | privateName => "PrivateIdentifier"
  | identifier => "Identifier"
  | word w => w.name

/-- Words that are never names. -/
def isReservedWord : TokenKind → Bool
  | word w => w.isReserved
  | _ => false

/-- Words that are names outside their special position. -/
def isContextualKeyword : TokenKind → Bool
  | word w => w.isContextual
  | _ => false

/-- Kinds that can be used as a name. -/
def isIdentifierLike : TokenKind → Bool
  | identifier => true
  | word w => w.isContextual
  | _ => false

/-- Kinds that can be used as a property name behind a dot. -/
def isIdentifierName : TokenKind → Bool
  | identifier | word _ | escapedReservedWord => true
  | _ => false

/-- Punctuators; names that start with `#` are counted among them. -/
def isPunctuation : TokenKind → Bool
  | mark _ | privateName => true
  | _ => false

/-- Literals that are one token. -/
def isLiteral : TokenKind → Bool
  | number | bigInt | string | regex | template => true
  | _ => false

/-- Templates and pieces of templates. -/
def isTemplate : TokenKind → Bool
  | template | templateHead | templateMiddle | templateTail => true
  | _ => false

/-- Operators that assign. -/
def isAssignmentOperator : TokenKind → Bool
  | mark p => p.isAssignment
  | _ => false

/-- The operators `&&`, `||` and `??`. -/
def isLogicalOperator : TokenKind → Bool
  | mark p => p.isLogical
  | _ => false

/-- Whether a slash behind a token of this kind starts a regular expression; behind what can
end an operand it divides. -/
def allowsRegexAfter : TokenKind → Bool
  | identifier | escapedReservedWord | privateName | number | bigInt | string | regex
  | template | templateTail => false
  | mark .closeParen | mark .closeBracket | mark .closeBrace | mark .plusPlus
  | mark .minusMinus => false
  | word .thisKw | word .superKw | word .nullKw | word .trueKw | word .falseKw => false
  | word w => !w.isContextual
  | _ => true

/-- The spelling of a keyword. -/
def keywordText? : TokenKind → Option String
  | word w => some w.text
  | _ => none

/-- The spelling of a punctuator. -/
def punctuationText? : TokenKind → Option String
  | mark p => some p.text
  | _ => none

/-- The spelling of an operator, empty for a kind that has no fixed spelling. -/
def operatorText : TokenKind → String
  | mark p => p.text
  | word w => w.text
  | _ => ""

end TokenKind

end EcmaScript

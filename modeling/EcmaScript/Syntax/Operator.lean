import EcmaScript.Token.Kind

/-!
# Operators

The operators of expressions, apart from the tokens that spell them. Binary operators have
a precedence; the higher one binds its operands first, and of equal ones the left, except
for the power operator.
-/

namespace EcmaScript

/-- Operators in front of their operand. -/
inductive UnaryOperator where
  | plus | minus | bitNot | not | delete | typeof | void
deriving Repr, DecidableEq, Inhabited

namespace UnaryOperator

/-- The spelling of an operator. -/
def text : UnaryOperator → String
  | plus => "+"
  | minus => "-"
  | bitNot => "~"
  | not => "!"
  | delete => "delete"
  | typeof => "typeof"
  | void => "void"

/-- The operator that a token spells. -/
def ofKind? : TokenKind → Option UnaryOperator
  | .mark .plus => some plus
  | .mark .minus => some minus
  | .mark .tilde => some bitNot
  | .mark .bang => some not
  | .word .deleteKw => some delete
  | .word .typeofKw => some typeof
  | .word .voidKw => some void
  | _ => none

end UnaryOperator

/-- Operators that change their operand by one, in front of it or behind. -/
inductive UpdateOperator where
  | increment | decrement
deriving Repr, DecidableEq, Inhabited

namespace UpdateOperator

/-- The spelling of an operator. -/
def text : UpdateOperator → String
  | increment => "++"
  | decrement => "--"

/-- The operator that a token spells. -/
def ofKind? : TokenKind → Option UpdateOperator
  | .mark .plusPlus => some increment
  | .mark .minusMinus => some decrement
  | _ => none

end UpdateOperator

/-- Operators between two operands. -/
inductive BinaryOperator where
  | coalesce | or | and | bitOr | bitXor | bitAnd
  | equal | notEqual | strictEqual | strictNotEqual
  | less | greater | lessEqual | greaterEqual | instanceOf | isIn
  | shiftLeft | shiftRight | shiftRightZero
  | add | subtract | multiply | divide | remainder | power
deriving Repr, DecidableEq, Inhabited

/-- How tightly an operator binds; zero is looser than any operator. -/
abbrev Precedence := Nat

namespace BinaryOperator

/-- The spelling of an operator. -/
def text : BinaryOperator → String
  | coalesce => "??"
  | or => "||"
  | and => "&&"
  | bitOr => "|"
  | bitXor => "^"
  | bitAnd => "&"
  | equal => "=="
  | notEqual => "!="
  | strictEqual => "==="
  | strictNotEqual => "!=="
  | less => "<"
  | greater => ">"
  | lessEqual => "<="
  | greaterEqual => ">="
  | instanceOf => "instanceof"
  | isIn => "in"
  | shiftLeft => "<<"
  | shiftRight => ">>"
  | shiftRightZero => ">>>"
  | add => "+"
  | subtract => "-"
  | multiply => "*"
  | divide => "/"
  | remainder => "%"
  | power => "**"

/-- The operator that a token spells. -/
def ofKind? : TokenKind → Option BinaryOperator
  | .mark .coalesce => some coalesce
  | .mark .or => some or
  | .mark .and => some and
  | .mark .bitOr => some bitOr
  | .mark .bitXor => some bitXor
  | .mark .bitAnd => some bitAnd
  | .mark .equal => some equal
  | .mark .notEqual => some notEqual
  | .mark .strictEqual => some strictEqual
  | .mark .strictNotEqual => some strictNotEqual
  | .mark .less => some less
  | .mark .greater => some greater
  | .mark .lessEqual => some lessEqual
  | .mark .greaterEqual => some greaterEqual
  | .word .instanceofKw => some instanceOf
  | .word .inKw => some isIn
  | .mark .shiftLeft => some shiftLeft
  | .mark .shiftRight => some shiftRight
  | .mark .shiftRightZero => some shiftRightZero
  | .mark .plus => some add
  | .mark .minus => some subtract
  | .mark .times => some multiply
  | .mark .slash => some divide
  | .mark .percent => some remainder
  | .mark .power => some power
  | _ => none

/-- How tightly the operator binds. -/
def precedence : BinaryOperator → Precedence
  | coalesce => 5
  | or => 6
  | and => 7
  | bitOr => 8
  | bitXor => 9
  | bitAnd => 10
  | equal | notEqual | strictEqual | strictNotEqual => 11
  | less | greater | lessEqual | greaterEqual | instanceOf | isIn => 12
  | shiftLeft | shiftRight | shiftRightZero => 13
  | add | subtract => 14
  | multiply | divide | remainder => 15
  | power => 16

/-- Of operators in the right operand, those that bind more tightly than this stay there. The
power operator takes another power operator into its right operand. -/
def rightPrecedence (op : BinaryOperator) : Precedence :=
  if op = power then 15 else op.precedence

/-- The operators that may not evaluate their right operand. -/
def isLogical : BinaryOperator → Bool
  | coalesce | or | and => true
  | _ => false

end BinaryOperator

/-- Operators that assign to their left operand. -/
inductive AssignmentOperator where
  /-- Assigns the right operand. -/
  | assign
  /-- Assigns the result of a binary operator. -/
  | compound (op : BinaryOperator)
deriving Repr, DecidableEq, Inhabited

namespace AssignmentOperator

/-- The spelling of an operator. -/
def text : AssignmentOperator → String
  | assign => "="
  | compound op => op.text ++ "="

/-- The operator that a token spells. -/
def ofKind? : TokenKind → Option AssignmentOperator
  | .mark .assign => some assign
  | .mark .plusAssign => some (compound .add)
  | .mark .minusAssign => some (compound .subtract)
  | .mark .timesAssign => some (compound .multiply)
  | .mark .powerAssign => some (compound .power)
  | .mark .slashAssign => some (compound .divide)
  | .mark .percentAssign => some (compound .remainder)
  | .mark .shiftLeftAssign => some (compound .shiftLeft)
  | .mark .shiftRightAssign => some (compound .shiftRight)
  | .mark .shiftRightZeroAssign => some (compound .shiftRightZero)
  | .mark .bitAndAssign => some (compound .bitAnd)
  | .mark .bitOrAssign => some (compound .bitOr)
  | .mark .bitXorAssign => some (compound .bitXor)
  | .mark .orAssign => some (compound .or)
  | .mark .andAssign => some (compound .and)
  | .mark .coalesceAssign => some (compound .coalesce)
  | _ => none

end AssignmentOperator

end EcmaScript

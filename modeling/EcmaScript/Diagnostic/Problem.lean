/-!
# Problems of a source text

Everything that can be wrong with a source text, as a cause. Problems in the spelling of
a token are lexical: the lexer notes them and goes on. All others are problems of syntax,
and parsing ends at the first of them.
-/

namespace EcmaScript

/-- Which part of the front end a problem belongs to. -/
inductive Category where
  /-- A badly spelled token. -/
  | lexical
  /-- A token, or a construct, in the wrong place. -/
  | syntactic
deriving Repr, DecidableEq, Inhabited

/-- The name under which a category is reported. -/
def Category.name : Category → String
  | .lexical => "lexical"
  | .syntactic => "syntax"

/-- The two loops whose head binds a variable to each of many values. -/
inductive LoopKind where
  /-- The loop over property names. -/
  | forIn
  /-- The loop over the values of an iterable, awaited or not. -/
  | forOf
deriving Repr, DecidableEq, Inhabited

/-- The words that introduce the loop. -/
def LoopKind.text : LoopKind → String
  | .forIn => "for-in"
  | .forOf => "for-of"

/-- The ways in which a constructor may be declared wrongly. -/
inductive ConstructorFlaw where
  | getter
  | setter
  /-- A generator, asynchronous or not. -/
  | generator
  /-- An asynchronous method. -/
  | asynchronous
deriving Repr, DecidableEq, Inhabited

/-- What the message calls the flaw. -/
def ConstructorFlaw.text : ConstructorFlaw → String
  | .getter => "a getter"
  | .setter => "a setter"
  | .generator => "a generator"
  | .asynchronous => "an async method"

/-- A reason for refusing a source text. -/
inductive Problem where
  /-- A character, or a malformed number or name, that begins no token. -/
  | illegalToken
  | unterminatedString
  | unterminatedTemplate
  | unterminatedRegex
  | unterminatedComment
  | regexFlags
  | hexEscape
  | unicodeEscape
  /-- A code point above the last one that exists. -/
  | undefinedCodePoint
  | misplacedSeparator
  /-- A token, given as it is spelled, that cannot stand here. -/
  | unexpectedToken (text : String)
  | unexpectedEnd
  | unexpectedIdentifier
  | unexpectedReservedWord
  | unexpectedNumber
  | unexpectedString
  | unexpectedTemplate
  | escapedKeyword
  | newlineAfterThrow
  | nestingTooDeep
  | destructuringTarget
  | assignmentTarget
  | prefixTarget
  | postfixTarget
  | loopTarget (loop : LoopKind)
  | loopSingleBinding (loop : LoopKind)
  | loopInitializer (loop : LoopKind)
  | shorthandInitializer
  | restElementLast
  | restParameterLast
  | restParameterDefault
  | destructuringWithoutInitializer
  | constWithoutInitializer
  | letAsBoundName
  | illegalReturn
  | illegalBreak
  | illegalContinue
  | undefinedLabel (name : String)
  | duplicateLabel (name : String)
  | tryAlone
  | secondDefault
  | yieldInParameters
  | awaitInParameters
  | newTarget
  | superKeyword
  | getterParameters
  | setterParameters
  | setterRest
  /-- An unparenthesized unary operand on the left of the power operator. -/
  | unaryBeforePower
  | templateOnOptionalChain
  | optionalChainFromNew
  | templateEscape
  | privateOutsideClass (name : String)
  | secondConstructor
  | constructorKind (flaw : ConstructorFlaw)
  | constructorField
  | privateConstructor
  | staticPrototype
deriving Repr, DecidableEq, Inhabited

namespace Problem

/-- The part of the front end that meets the problem. -/
def category : Problem → Category
  | illegalToken | unterminatedString | unterminatedTemplate | unterminatedRegex
  | unterminatedComment | regexFlags | hexEscape | unicodeEscape | undefinedCodePoint
  | misplacedSeparator => .lexical
  | _ => .syntactic

/-- The wording of a problem. -/
def message : Problem → String
  | illegalToken => "Invalid or unexpected token"
  | unterminatedString => "Unterminated string literal"
  | unterminatedTemplate => "Unterminated template literal"
  | unterminatedRegex => "Invalid regular expression: missing /"
  | unterminatedComment => "Unterminated comment"
  | regexFlags => "Invalid regular expression flags"
  | hexEscape => "Invalid hexadecimal escape sequence"
  | unicodeEscape => "Invalid Unicode escape sequence"
  | undefinedCodePoint => "Undefined Unicode code-point"
  | misplacedSeparator => "Numeric separators are not allowed here"
  | unexpectedToken text => s!"Unexpected token {text}"
  | unexpectedEnd => "Unexpected end of input"
  | unexpectedIdentifier => "Unexpected identifier"
  | unexpectedReservedWord => "Unexpected reserved word"
  | unexpectedNumber => "Unexpected number"
  | unexpectedString => "Unexpected string"
  | unexpectedTemplate => "Unexpected template string"
  | escapedKeyword => "Keyword must not contain escaped characters"
  | newlineAfterThrow => "Illegal newline after throw"
  | nestingTooDeep => "Maximum nesting depth exceeded"
  | destructuringTarget => "Invalid destructuring assignment target"
  | assignmentTarget => "Invalid left-hand side in assignment"
  | prefixTarget => "Invalid left-hand side expression in prefix operation"
  | postfixTarget => "Invalid left-hand side expression in postfix operation"
  | loopTarget loop => s!"Invalid left-hand side in {loop.text} loop"
  | loopSingleBinding loop =>
    s!"Invalid left-hand side in {loop.text} loop: Must have a single binding."
  | loopInitializer loop => s!"{loop.text} loop variable declaration may not have an initializer."
  | shorthandInitializer => "Invalid shorthand property initializer"
  | restElementLast => "Rest element must be last element"
  | restParameterLast => "Rest parameter must be last formal parameter"
  | restParameterDefault => "Rest parameter may not have a default initializer"
  | destructuringWithoutInitializer => "Missing initializer in destructuring declaration"
  | constWithoutInitializer => "Missing initializer in const declaration"
  | letAsBoundName => "let is disallowed as a lexically bound name"
  | illegalReturn => "Illegal return statement"
  | illegalBreak => "Illegal break statement"
  | illegalContinue => "Illegal continue statement: no surrounding iteration statement"
  | undefinedLabel name => s!"Undefined label '{name}'"
  | duplicateLabel name => s!"Label '{name}' has already been declared"
  | tryAlone => "Missing catch or finally after try"
  | secondDefault => "More than one default clause in switch statement"
  | yieldInParameters => "Yield expression not allowed in formal parameter"
  | awaitInParameters => "Illegal await-expression in formal parameters of async function"
  | newTarget => "new.target expression is not allowed here"
  | superKeyword => "'super' keyword unexpected here"
  | getterParameters => "Getter must not have any formal parameters."
  | setterParameters => "Setter must have exactly one formal parameter."
  | setterRest => "Setter function argument must not be a rest parameter"
  | unaryBeforePower =>
    "Unary operator used immediately before exponentiation expression. " ++
      "Parenthesis must be used to disambiguate operator precedence"
  | templateOnOptionalChain => "Invalid tagged template on optional chain"
  | optionalChainFromNew => "Invalid optional chain from new expression"
  | templateEscape => "Invalid escape sequence in template"
  | privateOutsideClass name => s!"Private field '#{name}' must be declared in an enclosing class"
  | secondConstructor => "A class may only have one constructor"
  | constructorKind flaw => s!"Class constructor may not be {flaw.text}"
  | constructorField => "Classes may not have a field named 'constructor'"
  | privateConstructor => "Classes may not have a private field named '#constructor'"
  | staticPrototype => "Classes may not have a static property named 'prototype'"

end Problem

/-- A problem together with the byte offset at which it is reported. -/
structure Fault where
  /-- What is wrong. -/
  problem : Problem
  /-- Where it is reported. -/
  offset : Nat
deriving Repr, DecidableEq, Inhabited

end EcmaScript

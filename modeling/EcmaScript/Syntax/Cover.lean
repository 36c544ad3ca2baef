import EcmaScript.Diagnostic.Problem
import EcmaScript.Syntax.Node

/-!
# Expressions read as patterns

Whether `[a, b]` is an array or a pattern is known only from what follows it, so it is read
as an expression first and turned into a pattern when an arrow or an assignment comes. Two
facts about the text that the tree does not hold are needed for it: which expressions stand
in parentheses, and which arrays end in a spread with a comma behind it.

A pattern that declares, as in parameters, consists of names only; one that assigns may
have properties as its targets, and names and properties may stand in parentheses.
-/

namespace EcmaScript

/-- What a pattern has to know about the text beyond the tree. -/
structure CoverNotes where
  /-- The spans of the expressions that stand alone in parentheses. -/
  parenthesized : List Span := []
  /-- For arrays whose last element is a spread with a comma behind it, the offset of the
  array with the offset of the comma. -/
  spreadCommas : List (Nat × Nat) := []
deriving Repr, Inhabited

namespace CoverNotes

/-- Whether the expression at a span stands in parentheses. -/
def isParenthesized (notes : CoverNotes) (span : Span) : Bool :=
  notes.parenthesized.contains span

/-- The comma behind the spread that ends the array at an offset. -/
def spreadComma? (notes : CoverNotes) (offset : Nat) : Option Nat :=
  notes.spreadCommas.lookup offset

/-- The notes with one more parenthesized expression. -/
def addParenthesized (notes : CoverNotes) (span : Span) : CoverNotes :=
  { notes with parenthesized := span :: notes.parenthesized }

/-- The notes with one more comma behind a spread. -/
def addSpreadComma (notes : CoverNotes) (array comma : Nat) : CoverNotes :=
  { notes with spreadCommas := (array, comma) :: notes.spreadCommas }

end CoverNotes

/-- The byte offset at which a node starts. -/
def Node.offset {form : Form} (node : Node form) : Nat := Position.offset node.span.start

namespace Cover

/-- A result that blames the given offset. -/
def blame {α : Type} (problem : Problem) (offset : Nat) : Except Fault α :=
  .error ⟨problem, offset⟩

mutual

/-- Checks that a pattern that was read as the target of an assignment can declare. -/
def checkDeclaring (notes : CoverNotes) (pattern : Pattern) : Except Fault Unit :=
  if notes.isParenthesized pattern.span then blame .destructuringTarget pattern.offset
  else
    match pattern with
    | .binding _ => .ok ()
    | .memberTarget expression => blame .destructuringTarget expression.offset
    | .arrayPattern _ elements rest => do
      checkElements notes elements
      checkRest notes rest
    | .objectPattern _ properties rest => do
      checkProperties notes properties
      checkRest notes rest

/-- Checks the elements of an array pattern. -/
def checkElements (notes : CoverNotes) : List (Option (Node .element)) → Except Fault Unit
  | [] => .ok ()
  | none :: more => checkElements notes more
  | some (.element _ target _) :: more => do
    checkDeclaring notes target
    checkElements notes more

/-- Checks the properties of an object pattern. -/
def checkProperties (notes : CoverNotes) : List (Node .patternProperty) → Except Fault Unit
  | [] => .ok ()
  | .patternProperty _ _ (.element _ target _) _ :: more => do
    checkDeclaring notes target
    checkProperties notes more

/-- Checks the rest of a pattern. -/
def checkRest (notes : CoverNotes) : Option (Node .rest) → Except Fault Unit
  | none => .ok ()
  | some (.rest _ argument) => checkDeclaring notes argument

end

/-- The element that an expression is in a pattern, given what it is as a pattern: an
assignment is a pattern with a default. -/
def elementOf (notes : CoverNotes) (declaring : Bool) (expression : Expression)
    (pattern : Except Fault Pattern) : Except Fault (Node .element) :=
  match expression with
  | .assignment span operator target value => do
    if notes.isParenthesized span then blame .destructuringTarget expression.offset
    else if operator = .assign then
      if declaring then checkDeclaring notes target
      return .element span target (some value)
    else
      return .element span (← pattern) none
  | _ => do return .element expression.span (← pattern) none

/-- The rest of an object pattern, which is a plain target. -/
def objectRest (notes : CoverNotes) (declaring : Bool) (span : Span) (argument : Expression) :
    Except Fault (Node .rest) :=
  if declaring && notes.isParenthesized argument.span then
    blame .destructuringTarget argument.offset
  else
    match argument with
    | .reference id => .ok (.rest span (.binding id))
    | _ =>
      if argument.isSimpleTarget && !declaring then .ok (.rest span (.memberTarget argument))
      else blame .destructuringTarget argument.offset

mutual

/-- The pattern that an expression is. -/
def toPattern (notes : CoverNotes) (declaring : Bool) (expression : Expression) :
    Except Fault Pattern :=
  if notes.isParenthesized expression.span && (declaring || !expression.isSimpleTarget) then
    blame .destructuringTarget expression.offset
  else
    match expression with
    | .reference id => .ok (.binding id)
    | .array span elements => do
      let (elements, rest) ← toElements notes declaring (Position.offset span.start) elements
      return .arrayPattern span elements rest
    | .object span members => do
      let (properties, rest) ← toProperties notes declaring members
      return .objectPattern span properties rest
    | _ =>
      if expression.isSimpleTarget && !declaring then .ok (.memberTarget expression)
      else blame .destructuringTarget expression.offset

/-- The elements of an array, from the offset `array`, as those of a pattern. Only the last
one may be a spread, and no comma may follow it. -/
def toElements (notes : CoverNotes) (declaring : Bool) (array : Nat) :
    List (Option Expression) →
      Except Fault (List (Option (Node .element)) × Option (Node .rest))
  | [] => .ok ([], none)
  | none :: more => do
    let (elements, rest) ← toElements notes declaring array more
    return (none :: elements, rest)
  | some (.spread span argument) :: more =>
    if !more.isEmpty then blame .restElementLast (Position.offset span.start)
    else
      match notes.spreadComma? array with
      | some comma => blame .restElementLast comma
      | none => do
        let pattern ← toPattern notes declaring argument
        return ([], some (.rest span pattern))
  | some expression :: more => do
    let element ← elementOf notes declaring expression (toPattern notes declaring expression)
    let (elements, rest) ← toElements notes declaring array more
    return (some element :: elements, rest)

/-- The members of an object as the properties of a pattern. -/
def toProperties (notes : CoverNotes) (declaring : Bool) :
    List (Node .objectMember) →
      Except Fault (List (Node .patternProperty) × Option (Node .rest))
  | [] => .ok ([], none)
  | .property span key value kind method :: more => do
    if method || kind != .init then blame .destructuringTarget (Position.offset span.start)
    else
      let element ← elementOf notes declaring value (toPattern notes declaring value)
      let (properties, rest) ← toProperties notes declaring more
      return (.patternProperty span key element false :: properties, rest)
  | .shorthand span name initializer :: more => do
    let (properties, rest) ← toProperties notes declaring more
    return (.patternProperty span (.identifierKey name)
      (.element span (.binding name) initializer) true :: properties, rest)
  | .spreadMember span argument :: more => do
    if !more.isEmpty then blame .restElementLast (Position.offset span.start)
    else return ([], some (← objectRest notes declaring span argument))

end

/-- The element that an expression is in a pattern. -/
def toElement (notes : CoverNotes) (declaring : Bool) (expression : Expression) :
    Except Fault (Node .element) :=
  elementOf notes declaring expression (toPattern notes declaring expression)

/-- Expressions between parentheses, before it is known what they are. -/
structure Parenthesized where
  /-- From one parenthesis to the other. -/
  span : Span
  /-- What stands between the commas; spreads are allowed for now. -/
  items : List Expression
  /-- The offset behind a comma that no expression follows. -/
  trailingComma : Option Nat

/-- Whether an expression is a spread. -/
def isSpread : Expression → Bool
  | .spread .. => true
  | _ => false

/-- Whether an expression is an assignment. -/
def isAssignment : Expression → Bool
  | .assignment .. => true
  | _ => false

/-- The expressions before an arrow as parameters. -/
def toParameterItems (notes : CoverNotes) (trailingComma : Bool) :
    List Expression → Except Fault (List (Node .element) × Option (Node .rest))
  | [] => .ok ([], none)
  | .spread span argument :: more => do
    let offset := Position.offset span.start
    if !more.isEmpty || trailingComma then blame .restParameterLast offset
    else if isAssignment argument then blame .restParameterDefault offset
    else return ([], some (.rest span (← toPattern notes true argument)))
  | expression :: more => do
    let element ← toElement notes true expression
    let (elements, rest) ← toParameterItems notes trailingComma more
    return (element :: elements, rest)

/-- The parameters that parenthesized expressions are. -/
def Parenthesized.toParameters (cover : Parenthesized) (notes : CoverNotes) :
    Except Fault (Node .parameters) := do
  let (params, rest) ← toParameterItems notes cover.trailingComma.isSome cover.items
  return .parameters cover.span params rest

/-- The expression that parenthesized expressions are; several are a sequence. -/
def Parenthesized.toExpression (cover : Parenthesized) : Except Fault Expression :=
  match cover.trailingComma, cover.items.find? isSpread with
  | some offset, _ => blame (.unexpectedToken ")") offset
  | none, some spread => blame (.unexpectedToken "...") spread.offset
  | none, none =>
    match cover.items with
    | [] => blame (.unexpectedToken ")") (Position.offset cover.span.stop - 1)
    | [expression] => .ok expression
    | first :: more =>
      .ok (.sequence (first.span.through ((more.getLast?.getD first).span)) cover.items)

/-- The target of a plain assignment or of a loop that an expression is; what is no target at
all is blamed as `problem`. -/
def toTarget (notes : CoverNotes) (problem : Problem) (expression : Expression) :
    Except Fault Pattern :=
  let valid := match expression with
    | .reference _ | .member .. | .index .. => true
    | .array .. | .object .. => !notes.isParenthesized expression.span
    | _ => false
  if valid then toPattern notes false expression else blame problem expression.offset

/-- The target of a compound assignment that an expression is. -/
def toSimpleTarget (expression : Expression) : Except Fault Pattern :=
  match expression with
  | .reference id => .ok (.binding id)
  | _ =>
    if expression.isSimpleTarget then .ok (.memberTarget expression)
    else blame .assignmentTarget expression.offset

end Cover

end EcmaScript

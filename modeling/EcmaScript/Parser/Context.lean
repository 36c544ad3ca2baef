import EcmaScript.Text.Span

/-!
# Grammar context

What a parser is told by the constructs around it: which operators and statements have
their meaning here, and which labels can be jumped to. A construct passes a context on to
its parts and nothing comes back, so leaving a construct needs no undoing.
-/

namespace EcmaScript.Parser

/-- A label of an enclosing statement. -/
structure Label where
  /-- The name of the label. -/
  name : String
  /-- Whether the labeled statement is a loop. -/
  isLoop : Bool
  /-- The offset of the labeled statement. -/
  bodyStart : Nat
deriving Repr, DecidableEq

/-- What the constructs around a parser say about it. -/
structure Context where
  /-- A bare `in` ends an expression, as in the head of a loop. -/
  noIn : Bool := false
  /-- `yield` is an operator. -/
  canYield : Bool := false
  /-- `await` is an operator. -/
  canAwait : Bool := false
  /-- `new.target` has a meaning. -/
  inFunction : Bool := false
  /-- `super` has properties. -/
  superProperty : Bool := false
  /-- `super` can be called. -/
  superCall : Bool := false
  /-- Private names can be used. -/
  inClass : Bool := false
  /-- Operators that suspend the function are wrong. -/
  inParameters : Bool := false
  /-- A return statement has a function to return from. -/
  canReturn : Bool := false
  /-- There is a loop to continue. -/
  inLoop : Bool := false
  /-- There is a loop or switch to break from. -/
  inBreakable : Bool := false
  /-- The labels of the enclosing statements, the innermost first. -/
  labels : List Label := []
deriving Repr, DecidableEq

namespace Context

/-- The context with `in` as an operator. -/
def allowIn (ctx : Context) : Context := { ctx with noIn := false }

/-- The context in which a bare `in` ends an expression. -/
def disallowIn (ctx : Context) : Context := { ctx with noIn := true }

/-- The parameters and the body of a function that is not an arrow function. -/
def function (ctx : Context) (isAsync isGenerator : Bool) : Context :=
  { inClass := ctx.inClass, inFunction := true, canReturn := true
    canYield := isGenerator, canAwait := isAsync }

/-- The parameters and the body of a method. -/
def method (ctx : Context) (isAsync isGenerator superCall : Bool) : Context :=
  { ctx.function isAsync isGenerator with superProperty := true, superCall }

/-- The initializer of a field or the statements of a static block. -/
def classInit (ctx : Context) : Context :=
  { ctx.function false false with superProperty := true, canReturn := false }

/-- The body of an arrow function. -/
def arrow (ctx : Context) (isAsync : Bool) : Context :=
  { ctx with
    canYield := false, canAwait := isAsync, inParameters := false, canReturn := true
    inLoop := false, inBreakable := false, labels := [] }

/-- The body of a loop. -/
def loop (ctx : Context) : Context := { ctx with inLoop := true, inBreakable := true }

/-- The label with a given name. -/
def label? (ctx : Context) (name : String) : Option Label :=
  ctx.labels.find? (·.name == name)

/-- The body of a labeled statement. When the label itself is the body of another label, as
in `a: b: …`, the other one is a label of a loop too if this one is. -/
def labeled (ctx : Context) (start : Nat) (label : Label) : Context :=
  let around := ctx.labels.takeWhile (·.bodyStart == start)
  let beyond := ctx.labels.dropWhile (·.bodyStart == start)
  { ctx with labels := label :: around.map ({ · with isLoop := label.isLoop }) ++ beyond }

end Context

end EcmaScript.Parser

import EcmaScript.Parser.Basic

/-!
# A parser with registers

The parsers of the grammar pass a context on to their parts. Here the same grammar is run by a
machine that keeps this context in registers: flags, the depth of nesting, and what a function
notes about its statements. A construct changes the registers before it runs its parts and puts
back by hand what it has changed. Nothing is put back when parsing ends early.

Nothing else bounds the machine: its loops have no check of their own and run on fuel, as many
rounds as bytes are left and one more, and so does the recursion through the heritage of classes.
A machine that is out of fuel says so.
-/

namespace EcmaScript

open EcmaScript.Parser

/-- Facts about the constructs around a parser. -/
structure Flags where
  /-- A bare `in` ends an expression. -/
  noIn : Bool := false
  /-- `yield` is an operator. -/
  canYield : Bool := false
  /-- `await` is an operator. -/
  canAwait : Bool := false
  /-- `new.target` has a meaning. -/
  inFunction : Bool := false
  /-- `super` has properties. -/
  superProperty : Bool := false
  /-- `super` can be called. -/
  superCall : Bool := false
  /-- Private names can be used. -/
  inClass : Bool := false
  /-- Operators that suspend the function are wrong. -/
  inParameters : Bool := false
  /-- The statements of a static block are parsed. -/
  inStaticBlock : Bool := false
deriving Repr, DecidableEq

/-- The flags for a function that is not an arrow function. -/
def Flags.function (f : Flags) (isAsync isGenerator : Bool) : Flags :=
  { inClass := f.inClass, inFunction := true, canYield := isGenerator, canAwait := isAsync }

/-- What is noted about the statements of one function. -/
structure FunctionFacts where
  /-- A return statement has a function to return from. -/
  canReturn : Bool := false
  /-- The labels of the enclosing statements, the innermost first. -/
  labels : List Label := []
  /-- How many loops are around. -/
  iterationDepth : Nat := 0
  /-- How many loops and switches are around. -/
  breakableDepth : Nat := 0
deriving Repr, DecidableEq

/-- Where a machine keeps what the constructs around a parser say. -/
structure Registers where
  /-- Facts that expressions ask for. -/
  flags : Flags := {}
  /-- How many constructs that count as nested are around. -/
  depth : Nat := 0
  /-- Facts that statements ask for. -/
  facts : FunctionFacts := {}
deriving Repr, DecidableEq

/-- What the registers say, as the context of a parser. -/
def Registers.context (r : Registers) : Context where
  noIn := r.flags.noIn
  canYield := r.flags.canYield
  canAwait := r.flags.canAwait
  inFunction := r.flags.inFunction
  superProperty := r.flags.superProperty
  superCall := r.flags.superCall
  inClass := r.flags.inClass
  inParameters := r.flags.inParameters
  canReturn := r.facts.canReturn
  inLoop := r.facts.iterationDepth != 0
  inBreakable := r.facts.breakableDepth != 0
  labels := r.facts.labels

/-- How a run ends that gives no result. -/
inductive Halt where
  /-- Parsing has ended early. -/
  | abort (abort : Abort)
  /-- The fuel of a loop or a recursion is used up. -/
  | exhausted

/-- What a run comes to. -/
structure Run (α : Type) where
  /-- The depths of nesting that were gone through, one for each change. -/
  depths : List Nat
  /-- The result with the registers and the state behind it. -/
  outcome : Except Halt (α × Registers × State)

/-- A run with another one behind it. -/
def Run.andThen {α β : Type} (run : Run α) (f : α → Registers → State → Run β) : Run β :=
  match run.outcome with
  | .error halt => ⟨run.depths, .error halt⟩
  | .ok (a, r, s) =>
    let rest := f a r s
    ⟨run.depths ++ rest.depths, rest.outcome⟩

/-- What a parser that runs in the same way comes to; nothing if there is no fuel left. -/
def Run.parsed? {α : Type} (run : Run α) : Option (Except Abort (α × State)) :=
  match run.outcome with
  | .ok (a, _, s) => some (.ok (a, s))
  | .error (.abort abort) => some (.error abort)
  | .error .exhausted => none

/-- A computation that takes tokens and uses registers. -/
def Machine (α : Type) : Type := Registers → State → Run α

namespace Machine

instance : Monad Machine where
  pure a := fun r s => ⟨[], .ok (a, r, s)⟩
  bind m f := fun r s => (m r s).andThen f

/-- A parser as a machine, which leaves the registers alone. -/
def ofParser {α : Type} (p : Parser α) : Machine α := fun r s =>
  match p s with
  | .ok (a, s') => ⟨[], .ok (a, r, s')⟩
  | .error abort => ⟨[], .error (.abort abort)⟩

instance : MonadLift Parser Machine where
  monadLift := ofParser

/-- A parser that looks at the registers. -/
def reading {α : Type} (p : Context → Parser α) : Machine α := fun r s =>
  ofParser (p r.context) r s

/-- The registers. -/
def registers : Machine Registers := fun r s => ⟨[], .ok (r, r, s)⟩

/-- Puts in other flags. -/
def setFlags (flags : Flags) : Machine Unit := fun r s => ⟨[], .ok ((), { r with flags }, s)⟩

/-- Puts in other facts about the current function. -/
def setFacts (facts : FunctionFacts) : Machine Unit := fun r s =>
  ⟨[], .ok ((), { r with facts }, s)⟩

/-- Puts in another depth of nesting. -/
def setDepth (depth : Nat) : Machine Unit := fun r s => ⟨[depth], .ok ((), { r with depth }, s)⟩

/-- Goes one level further in, and ends parsing where there are too many. -/
def enter : Machine Unit := do
  let depth := (← registers).depth + 1
  setDepth depth
  if maxDepth < depth then (failHere .nestingTooDeep : Parser Unit)

/-- Goes one level back. -/
def leave : Machine Unit := do
  setDepth ((← registers).depth - 1)

/-- A construct one level further in. -/
def deeper {α : Type} (m : Machine α) : Machine α := do
  enter
  let a ← m
  leave
  return a

/-- A construct with other flags around it. -/
def withFlags {α : Type} (f : Flags → Flags) (m : Machine α) : Machine α := do
  let saved := (← registers).flags
  setFlags (f saved)
  let a ← m
  setFlags saved
  return a

/-- A construct in which `in` is an operator. -/
def allowIn {α : Type} (m : Machine α) : Machine α := withFlags ({ · with noIn := false }) m

/-- A construct that a bare `in` ends. -/
def disallowIn {α : Type} (m : Machine α) : Machine α := withFlags ({ · with noIn := true }) m

/-- What a function around another one has noted. -/
structure Enclosing where
  /-- The flags. -/
  flags : Flags
  /-- The facts about statements. -/
  facts : FunctionFacts
  /-- The first operator that suspends the function. -/
  suspension : Option Fault

/-- Enters a function, and gives what the one around it has noted. -/
def enterFunction (flags : Flags) (facts : FunctionFacts) : Machine Enclosing := fun r s =>
  ⟨[], .ok (⟨r.flags, r.facts, s.suspension⟩, { r with flags, facts },
    { s with suspension := none })⟩

/-- Leaves a function for the one around it. -/
def leaveFunction (outer : Enclosing) : Machine Unit := fun r s =>
  ⟨[], .ok ((), { r with flags := outer.flags, facts := outer.facts },
    { s with suspension := outer.suspension })⟩

/-- The parts of a function with its own flags and facts. -/
def inFunction {α : Type} (flags : Flags) (facts : FunctionFacts) (m : Machine α) :
    Machine α := do
  let outer ← enterFunction flags facts
  let a ← m
  leaveFunction outer
  return a

/-- Ends a run that is out of fuel. -/
def exhaust {α : Type} : Machine α := fun _ _ => ⟨[], .error .exhausted⟩

/-- Repeats a step until it is done, so many times at most. -/
def rounds {σ β : Type} (step : σ → Machine (Round σ β)) : Nat → σ → Machine β
  | 0, _ => exhaust
  | fuel + 1, a => do
    match ← step a with
    | .next a' => rounds step fuel a'
    | .done b => return b

/-- Repeats a step until it is done. The bytes that are left bound the number of rounds. -/
def iterate {σ β : Type} (step : σ → Machine (Round σ β)) (a : σ) : Machine β := fun r s =>
  rounds step (s.remaining + 1) a r s

/-- Repeats a parser until it gives nothing, and lists what it gave. -/
def many {α : Type} (m : Machine (Option α)) : Machine (List α) :=
  iterate (fun found => do
    match ← m with
    | some a => return .next (a :: found)
    | none => return .done found.reverse) []

/-- A recursion that goes so many levels deep at most. -/
def levels {α : Type} (body : Machine α → Machine α) : Nat → Machine α
  | 0 => exhaust
  | fuel + 1 => body (levels body fuel)

/-- A recursion. The bytes that are left bound the number of its levels. -/
def recursive {α : Type} (body : Machine α → Machine α) : Machine α := fun r s =>
  levels body (s.remaining + 1) r s

/-- Items with commas between them up to a closing token, which stays. -/
def commaList {α : Type} (close : TokenKind) (item : Machine α) : Machine (List α) :=
  many do
    if ← isAt close then return none
    let a ← item
    unless ← isAt close do expect (.mark .comma)
    return some a

/-- The constructs one level further in. -/
structure Nested where
  statement : Machine Statement
  expressionStatement : Machine Statement
  bindingTarget : Machine Pattern
  assignment : Machine Expression
  binary : Precedence → Machine Expression
  unary : Machine Expression
  newCallee : Machine Expression

/-- The constructs that a construct is made of. -/
structure Grammar extends Nested where
  heritage : Machine Expression

/-- Without fuel nothing can be parsed. -/
def Nested.exhausted : Nested where
  statement := exhaust
  expressionStatement := exhaust
  bindingTarget := exhaust
  assignment := exhaust
  binary _ := exhaust
  unary := exhaust
  newCallee := exhaust

/-- An expression that no pattern can claim. -/
def closed {α : Type} (m : Machine α) : Machine α := do
  let outer ← takeCoverInit
  let a ← m
  checkCoverInit
  setCoverInit outer
  return a

namespace Nested

/-- An expression without a comma. -/
def value (g : Nested) : Machine Expression := closed g.assignment

/-- An expression in which a default of an object literal may be left for a pattern. -/
def expressionOrCover (g : Nested) : Machine Expression := do
  let start ← offset
  let first ← g.assignment
  if ← isAt (.mark .comma) then
    let more ← many do
      if ← eat (.mark .comma) then return some (← g.assignment) else return none
    return .sequence (← spanFrom start) (first :: more)
  else return first

/-- An expression. -/
def expression (g : Nested) : Machine Expression := closed g.expressionOrCover

/-- Statements up to a closing token, which stays. -/
def statementsUntil (g : Nested) (close : TokenKind) : Machine (List Statement) :=
  many do
    if ← isAt close then return none
    if ← isAt .endOfFile then (unexpected : Parser Unit)
    return some (← g.statement)

/-- Statements in braces. -/
def block (g : Nested) : Machine (Node .block) := do
  let start ← offset
  expect (.mark .openBrace)
  let body ← g.statementsUntil (.mark .closeBrace)
  expect (.mark .closeBrace)
  return .block (← spanFrom start) body 0

end Nested

end Machine

end EcmaScript

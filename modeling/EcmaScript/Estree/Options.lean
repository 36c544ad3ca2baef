import EcmaScript.Json.Scan

/-!
# Options

The options of parsing, and their JSON form. This is an object, in which members that are
no options are ignored, or an array of the options in order. Whatever is no such form,
because it is no JSON, gives a wrong type or gives an option twice, stands for the defaults.
-/

namespace EcmaScript

/-- What a caller can choose. -/
structure Options where
  /-- Whether names are resolved, so that the tree has the numbers of scopes. -/
  resolve : Bool := false
deriving Repr, DecidableEq, Inhabited

namespace Options

open Json.Scan

/-- A truth value and what comes behind it. -/
def readBool? (cs : List Char) : Option (Bool × List Char) :=
  match expect? "true" cs with
  | some rest => some (true, rest)
  | none => (expect? "false" cs).map (false, ·)

/-- A key with its colon, and what comes behind blanks then. -/
def readKey? (cs : List Char) : Option (List Char × List Char) := do
  let inner ← expect? "\"" (skipBlanks cs)
  let (key, rest) ← readString? (inner.length + 1) inner
  return (key, skipBlanks (← expect? ":" (skipBlanks rest)))

/-- A member of an object added to the options found so far, and what comes behind it. -/
def readMember? (found : Option Bool) (cs : List Char) : Option (Option Bool × List Char) := do
  let (key, rest) ← readKey? cs
  if key == "resolve".toList then
    if found.isSome then none
    let (value, rest) ← readBool? rest
    return (some value, rest)
  else return (found, ← skipValue? rest)

/-- The members of an object up to its closing brace, and what comes behind it. Each of them
takes characters, so that `fuel` need not exceed their number. -/
def readMembers? : Nat → Option Bool → List Char → Option (Option Bool × List Char)
  | 0, _, _ => none
  | fuel + 1, found, cs => do
    let (found, rest) ← readMember? found cs
    match skipBlanks rest with
    | ',' :: more => readMembers? fuel found more
    | '\x7d' :: more => return (found, more)
    | _ => none

/-- The options that an object or an array gives, and what comes behind it. -/
def read? (cs : List Char) : Option (Option Bool × List Char) :=
  match skipBlanks cs with
  | '\x7b' :: inner =>
    match skipBlanks inner with
    | '\x7d' :: rest => some (none, rest)
    | _ => readMembers? inner.length none inner
  | '[' :: inner =>
    match skipBlanks inner with
    | ']' :: rest => some (none, rest)
    | items => do
      let (value, rest) ← readBool? items
      return (some value, ← expect? "]" (skipBlanks rest))
  | _ => none

/-- The options that a JSON text gives. -/
def ofText (text : String) : Options :=
  match read? text.toList with
  | some (value, rest) => if (skipBlanks rest).isEmpty then { resolve := value.getD false } else {}
  | none => {}

end Options

end EcmaScript

import EcmaScript.Parser.Function

/-!
# Classes

Class declarations and expressions. The words `static`, `async`, `get` and `set` modify the
member that follows, unless what follows shows that they are the name of a member
themselves.
-/

namespace EcmaScript.Parser

/-- Whether the word to be taken next modifies the member behind it. What ends a member, its
parameters or its value show that the word is a name; so does, for `async`, a line break. -/
def isModifier (ends : TokenKind → Bool) : Parser Bool := do
  let next ← peek
  let isAsync ← isAt (.word .asyncKw)
  return !ends next.kind && !(isAsync && next.afterLineBreak)

/-- Takes a given word if it modifies the member behind it, and tells whether it does. -/
def eatModifier (ends : TokenKind → Bool) (w : Keyword) : Parser Bool := do
  if ← isAt (.word w) then
    if ← isModifier ends then
      advance
      return true
  return false

/-- What modifies a member of a class or an object. -/
structure Modifiers where
  /-- The member is asynchronous. -/
  isAsync : Bool := false
  /-- The member is a generator. -/
  isGenerator : Bool := false
  /-- The member is an accessor. -/
  accessor : PropertyKind := .init

/-- Whether the member must be a method. -/
def Modifiers.requireMethod (m : Modifiers) : Bool :=
  m.isAsync || m.isGenerator || m.accessor != .init

/-- The modifiers of a member; an accessor has no others. -/
def modifiers (ends : TokenKind → Bool) : Parser Modifiers := do
  let isAsync ← eatModifier ends .asyncKw
  let isGenerator ← eat (.mark .times)
  if isAsync || isGenerator then return { isAsync, isGenerator }
  else if ← eatModifier ends .getKw then return { accessor := .getter }
  else if ← eatModifier ends .setKw then return { accessor := .setter }
  else return {}

/-- What shows that the word before it is a member of a class. -/
def endsClassName : TokenKind → Bool
  | .mark .openParen | .mark .assign | .mark .semicolon | .mark .closeBrace | .endOfFile => true
  | _ => false

/-- The value of a field. -/
def fieldInitializer (g : Nested) (ctx : Context) : Parser Expression :=
  ownSuspensions (g.value ctx.classInit)

/-- A static block from the word `static` on. -/
def staticBlock (g : Nested) (ctx : Context) : Parser (Node .classElement) := do
  let start ← offset
  advance
  expect (.mark .openBrace)
  let body ← ownSuspensions do
    let body ← g.statementsUntil ctx.classInit (.mark .closeBrace)
    expect (.mark .closeBrace)
    return body
  return .staticBlock (← spanFrom start) body 0

/-- Why a member with these modifiers cannot be a constructor. -/
def constructorFlaw? (m : Modifiers) : Option ConstructorFlaw :=
  match m.accessor with
  | .getter => some .getter
  | .setter => some .setter
  | .init =>
    if m.isGenerator then some .generator
    else if m.isAsync then some .asynchronous
    else none

/-- A method or a field from its modifiers on, and whether it is a constructor. -/
def methodOrField (g : Nested) (ctx : Context) (start : Nat)
    (derived isStatic hasConstructor : Bool) : Parser (Node .classElement × Bool) := do
  let m ← modifiers endsClassName
  let place ← offset
  let key ← propertyKey g ctx true
  if let .privateKey name := key then
    if name.name == "constructor" then fail place .privateConstructor
  if isStatic && key.staticName? == some "prototype" then fail place .staticPrototype
  let namedConstructor := key.staticName? == some "constructor"
  if ← isAt (.mark .openParen) then
    let isConstructor := !isStatic && namedConstructor
    if isConstructor then
      if let some flaw := constructorFlaw? m then fail place (.constructorKind flaw)
      if hasConstructor then fail place .secondConstructor
    let kind : MethodKind := match m.accessor with
      | .getter => .getter
      | .setter => .setter
      | .init => if isConstructor then .constructor else .method
    let value ←
      methodFunction g ctx m.isAsync m.isGenerator m.accessor (isConstructor && derived)
    return (.method (← spanFrom start) key kind isStatic value, isConstructor)
  else
    if m.requireMethod then unexpected
    if namedConstructor then fail place .constructorField
    let value ←
      if ← eat (.mark .assign) then pure (some (← fieldInitializer g ctx)) else pure none
    semicolon
    return (.field (← spanFrom start) key isStatic value, false)

/-- A member of a class, and whether it is a constructor. -/
def classElement (g : Nested) (ctx : Context) (derived hasConstructor : Bool) :
    Parser (Node .classElement × Bool) := do
  let start ← offset
  if (← isAt (.word .staticKw)) && (← peek).kind == .mark .openBrace then
    return (← staticBlock g ctx, false)
  else
    let isStatic ← eatModifier endsClassName .staticKw
    methodOrField g ctx start derived isStatic hasConstructor

/-- The members of a class up to its closing brace, which stays. At most one of them is a
constructor. -/
def classElements (g : Nested) (ctx : Context) (derived : Bool) :
    Parser (List (Node .classElement)) :=
  iterate (fun (found, hasConstructor) => do
    if ← isAt (.mark .closeBrace) then return .done found.reverse
    else if ← eat (.mark .semicolon) then return .next (found, hasConstructor)
    else
      let (element, isConstructor) ← classElement g ctx derived hasConstructor
      return .next (element :: found, hasConstructor || isConstructor)) ([], false)

/-- A class. A declared one must have a name. -/
def classDefinition (g : Grammar) (ctx : Context) (isDeclaration : Bool) :
    Parser (Node .classDefinition) := do
  let start ← offset
  expect (.word .classKw)
  let k ← kind
  let name ←
    if k.isIdentifierLike || k == .escapedReservedWord then pure (some (← identifier ctx))
    else if isDeclaration then unexpected
    else pure none
  let superClass ←
    if ← eat (.word .extendsKw) then pure (some (← g.heritage ctx)) else pure none
  let bodyStart ← offset
  expect (.mark .openBrace)
  let elements ← classElements g.toNested { ctx with inClass := true } superClass.isSome
  expect (.mark .closeBrace)
  let bodySpan ← spanFrom bodyStart
  return .classDefinition (← spanFrom start) name superClass bodySpan elements 0

end EcmaScript.Parser

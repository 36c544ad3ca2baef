/-!
# Keywords

Reserved words can never be names. Contextual keywords are names wherever the grammar does
not give them their special meaning.
-/

namespace EcmaScript

/-- A word with a meaning of its own, reserved or contextual, in the order of the codes. -/
inductive Keyword where
  | breakKw | caseKw | catchKw | classKw | constKw | continueKw | debuggerKw | defaultKw
  | deleteKw | doKw | elseKw | enumKw | exportKw | extendsKw | falseKw | finallyKw | forKw
  | functionKw | ifKw | importKw | inKw | instanceofKw | newKw | nullKw | returnKw | superKw
  | switchKw | thisKw | throwKw | trueKw | tryKw | typeofKw | varKw | voidKw | whileKw | withKw
  | asyncKw | awaitKw | getKw | letKw | ofKw | setKw | staticKw | targetKw | yieldKw
deriving Repr, DecidableEq, Inhabited, Hashable

namespace Keyword

/-- The spelling of a keyword. -/
def text : Keyword → String
  | breakKw => "break"
  | caseKw => "case"
  | catchKw => "catch"
  | classKw => "class"
  | constKw => "const"
  | continueKw => "continue"
  | debuggerKw => "debugger"
  | defaultKw => "default"
  | deleteKw => "delete"
  | doKw => "do"
  | elseKw => "else"
  | enumKw => "enum"
  | exportKw => "export"
  | extendsKw => "extends"
  | falseKw => "false"
  | finallyKw => "finally"
  | forKw => "for"
  | functionKw => "function"
  | ifKw => "if"
  | importKw => "import"
  | inKw => "in"
  | instanceofKw => "instanceof"
  | newKw => "new"
  | nullKw => "null"
  | returnKw => "return"
  | superKw => "super"
  | switchKw => "switch"
  | thisKw => "this"
  | throwKw => "throw"
  | trueKw => "true"
  | tryKw => "try"
  | typeofKw => "typeof"
  | varKw => "var"
  | voidKw => "void"
  | whileKw => "while"
  | withKw => "with"
  | asyncKw => "async"
  | awaitKw => "await"
  | getKw => "get"
  | letKw => "let"
  | ofKw => "of"
  | setKw => "set"
  | staticKw => "static"
  | targetKw => "target"
  | yieldKw => "yield"

/-- The name under which a keyword is reported. -/
def name : Keyword → String
  | breakKw => "BreakKeyword"
  | caseKw => "CaseKeyword"
  | catchKw => "CatchKeyword"
  | classKw => "ClassKeyword"
  | constKw => "ConstKeyword"
  | continueKw => "ContinueKeyword"
  | debuggerKw => "DebuggerKeyword"
  | defaultKw => "DefaultKeyword"
  | deleteKw => "DeleteKeyword"
  | doKw => "DoKeyword"
  | elseKw => "ElseKeyword"
  | enumKw => "EnumKeyword"
  | exportKw => "ExportKeyword"
  | extendsKw => "ExtendsKeyword"
  | falseKw => "FalseKeyword"
  | finallyKw => "FinallyKeyword"
  | forKw => "ForKeyword"
  | functionKw => "FunctionKeyword"
  | ifKw => "IfKeyword"
  | importKw => "ImportKeyword"
  | inKw => "InKeyword"
  | instanceofKw => "InstanceOfKeyword"
  | newKw => "NewKeyword"
  | nullKw => "NullKeyword"
  | returnKw => "ReturnKeyword"
  | superKw => "SuperKeyword"
  | switchKw => "SwitchKeyword"
  | thisKw => "ThisKeyword"
  | throwKw => "ThrowKeyword"
  | trueKw => "TrueKeyword"
  | tryKw => "TryKeyword"
  | typeofKw => "TypeOfKeyword"
  | varKw => "VarKeyword"
  | voidKw => "VoidKeyword"
  | whileKw => "WhileKeyword"
  | withKw => "WithKeyword"
  | asyncKw => "AsyncKeyword"
  | awaitKw => "AwaitKeyword"
  | getKw => "GetKeyword"
  | letKw => "LetKeyword"
  | ofKw => "OfKeyword"
  | setKw => "SetKeyword"
  | staticKw => "StaticKeyword"
  | targetKw => "TargetKeyword"
  | yieldKw => "YieldKeyword"

/-- Every keyword, in the order of the codes. -/
def all : List Keyword := [
  .breakKw, .caseKw, .catchKw, .classKw, .constKw, .continueKw, .debuggerKw, .defaultKw,
  .deleteKw, .doKw, .elseKw, .enumKw, .exportKw, .extendsKw, .falseKw, .finallyKw, .forKw,
  .functionKw, .ifKw, .importKw, .inKw, .instanceofKw, .newKw, .nullKw, .returnKw, .superKw,
  .switchKw, .thisKw, .throwKw, .trueKw, .tryKw, .typeofKw, .varKw, .voidKw, .whileKw, .withKw,
  .asyncKw, .awaitKw, .getKw, .letKw, .ofKw, .setKw, .staticKw, .targetKw, .yieldKw]

/-- Words that are names outside their special position. -/
def isContextual : Keyword → Bool
  | asyncKw | awaitKw | getKw | letKw | ofKw | setKw | staticKw | targetKw | yieldKw => true
  | _ => false

/-- Words that are never names. -/
def isReserved (w : Keyword) : Bool := !w.isContextual

/-- The keyword with a given spelling. -/
def ofText? (text : String) : Option Keyword := all.find? (·.text == text)

end Keyword

end EcmaScript

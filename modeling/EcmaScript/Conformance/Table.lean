import EcmaScript.Conformance.Basic

/-!
# The fixtures

Short scripts for every part of the grammar, grouped by that part, some to be accepted and
some to be refused.
-/

namespace EcmaScript.Fixture

/-- Declarations of variables, functions and classes. -/
def declarations : List Fixture := [
  .accept "var_declaration" "declarations" "var x = 42;",
  .accept "let_const" "declarations" "let a = 1, b; const c = a + 1;",
  .accept "function_declaration" "declarations" "function add(a, b) \x7b return a + b; \x7d",
  .accept "generator_declaration" "declarations" "function* g() \x7b yield 1; yield* g(); \x7d",
  .accept "async_function" "declarations" "async function f() \x7b await f(); \x7d",
  .accept "class_declaration" "declarations"
    "class A extends B \x7b constructor() \x7b super(); \x7d \x7d",
  .accept "let_as_identifier" "declarations" "var let = 1; let;",
  .rejectWith "const_without_init" "declarations"
    "const x;"
    "Missing initializer in const declaration",
  .rejectWith "destructuring_without_init" "declarations"
    "var \x7ba\x7d;"
    "Missing initializer in destructuring declaration",
  .rejectWith "escaped_keyword" "declarations"
    "var v\\u0061r = 1;"
    "Keyword must not contain escaped characters"]

/-- Statements and jumps. -/
def statements : List Fixture := [
  .accept "if_else" "statements" "if (a) b(); else \x7b c(); \x7d",
  .accept "loops" "statements" "while (a) break; do a(); while (b) for (;;) \x7b\x7d",
  .accept "for_in_of" "statements"
    "for (const k in o) \x7b\x7d for (let [a, b] of pairs) \x7b\x7d",
  .accept "for_await" "statements"
    "async function f() \x7b for await (const x of xs) \x7b\x7d \x7d",
  .accept "labels" "statements"
    "outer: for (;;) \x7b inner: while (1) \x7b continue outer; \x7d \x7d",
  .accept "switch" "statements" "switch (x) \x7b case 1: break; default: y(); \x7d",
  .accept "try_forms" "statements"
    "try \x7b\x7d catch \x7b\x7d try \x7b\x7d catch (e) \x7b\x7d finally \x7b\x7d",
  .accept "asi" "statements" "a = 1\nb = 2\nreturn_ = a\n++b",
  .accept "debugger_empty" "statements" "debugger; ; ;",
  .rejectWith "try_alone" "statements" "try \x7b\x7d" "Missing catch or finally after try",
  .rejectWith "top_level_break" "statements" "break;" "Illegal break statement",
  .rejectWith "continue_in_switch" "statements"
    "switch (x) \x7b case 1: continue; \x7d"
    "Illegal continue statement: no surrounding iteration statement",
  .rejectWith "undefined_label" "statements"
    "while (1) \x7b break nowhere; \x7d"
    "Undefined label 'nowhere'",
  .rejectWith "top_level_return" "statements" "return 1;" "Illegal return statement",
  .rejectWith "two_defaults" "statements"
    "switch (x) \x7b default: default: \x7d"
    "More than one default clause in switch statement",
  .reject "throw_newline" "statements" "throw\nerror;",
  .rejectWith "declaration_as_loop_body" "statements"
    "while (x) const z = 0;"
    "Unexpected token const"]

/-- Operators, literals and properties. -/
def expressions : List Fixture := [
  .accept "precedence" "expressions" "a + b * c ** d ** e - f % g;",
  .accept "logical_mix_parenthesized" "expressions" "(a && b || c) ?? d;",
  .accept "conditional" "expressions" "a ? b : c ? d : e;",
  .accept "optional_chain" "expressions" "a?.b?.[c]?.(d).e;",
  .accept "new_target" "expressions" "function F() \x7b return new.target; \x7d",
  .accept "regex_vs_division" "expressions" "x = a / b / c; y = /re/g.test(s);",
  .accept "keyword_property_division" "expressions" "a.return / 2; x.default / y / z;",
  .accept "template" "expressions" "`a$\x7bb\x7dc$\x7b`d$\x7be\x7d`\x7d`; tag`x\\unicode`;",
  .accept "private_in" "expressions"
    "class A \x7b #x; static has(o) \x7b return #x in o; \x7d \x7d",
  .accept "literals" "expressions" "0x1F; 0o17; 0b11; 1_000; 10n; 017; .5e-3; 'str'; null; true;",
  .rejectWith "assign_to_binary" "expressions" "a + b = c" "Invalid left-hand side in assignment",
  .rejectWith "assign_to_chain" "expressions" "a?.b = 1" "Invalid left-hand side in assignment",
  .rejectWith "prefix_on_call" "expressions"
    "++a()"
    "Invalid left-hand side expression in prefix operation",
  .rejectWith "postfix_on_literal" "expressions"
    "1++"
    "Invalid left-hand side expression in postfix operation",
  .reject "unary_before_exponent" "expressions" "-a ** b;",
  .reject "mixed_coalesce" "expressions" "a && b ?? c;",
  .rejectWith "optional_chain_from_new" "expressions"
    "new a?.b()"
    "Invalid optional chain from new expression",
  .rejectWith "tagged_optional_chain" "expressions"
    "a?.b`c`"
    "Invalid tagged template on optional chain",
  .rejectWith "untagged_bad_escape" "expressions"
    "`\\unicode`"
    "Invalid escape sequence in template",
  .rejectWith "private_outside_class" "expressions"
    "this.#x"
    "Private field '#x' must be declared in an enclosing class"]

/-- Arrow functions and what is read as an expression first. -/
def arrows : List Fixture := [
  .accept "arrow_forms" "arrows" "x => x; (a, b) => a + b; () => \x7b\x7d; async (x) => await x;",
  .accept "arrow_patterns" "arrows" "(\x7b a, b: [c] = [] \x7d, ...rest) => a;",
  .accept "destructuring_assignment" "arrows" "(\x7b a: x, b = 2 \x7d = o); [p, , ...q] = r;",
  .accept "parenthesized_sequence" "arrows" "(a, b);",
  .rejectWith "trailing_comma_sequence" "arrows" "(a, b,);" "Unexpected token )",
  .rejectWith "rest_then_comma" "arrows"
    "(...a,) => 0"
    "Rest parameter must be last formal parameter",
  .rejectWith "newline_before_arrow" "arrows" "(a)\n=> a" "Unexpected token =>",
  .rejectWith "arrow_body_operand" "arrows" "x => \x7b\x7d + 1" "Unexpected token +",
  .reject "shorthand_init_in_object" "arrows" "(\x7b a = 1 \x7d);",
  .reject "parenthesized_object_target" "arrows" "(\x7ba\x7d) = 1;",
  .reject "parenthesized_arrow_parameter" "arrows" "((a)) => 0;",
  .reject "yield_in_arrow_parameters" "arrows" "function* g() \x7b (a = yield) => 0; \x7d"]

/-- Parameters, generators and asynchronous functions. -/
def functions : List Fixture := [
  .accept "default_params" "functions" "function f(a = 1, \x7b b \x7d = \x7b\x7d, ...c) \x7b\x7d",
  .accept "yield_as_identifier" "functions" "function f() \x7b var yield = 1; \x7d",
  .accept "await_as_identifier" "functions" "var await = 1;",
  .rejectWith "yield_binding_in_generator" "functions"
    "function* g() \x7b var yield; \x7d"
    "Unexpected reserved word",
  .rejectWith "await_binding_in_async" "functions"
    "async function f() \x7b var await; \x7d"
    "Unexpected reserved word",
  .rejectWith "yield_in_params" "functions"
    "function* g(a = yield) \x7b\x7d"
    "Yield expression not allowed in formal parameter",
  .rejectWith "getter_with_param" "functions"
    "(\x7b get a(x) \x7b\x7d \x7d)"
    "Getter must not have any formal parameters.",
  .rejectWith "setter_without_param" "functions"
    "(\x7b set a() \x7b\x7d \x7d)"
    "Setter must have exactly one formal parameter."]

/-- Members of classes. -/
def classes : List Fixture := [
  .accept "class_members" "classes"
    "class A \x7b static x = 1; #y; get z() \x7b return 1; \x7d set z(v) \x7b\x7d static \x7b A.x++; \x7d *gen() \x7b\x7d async m() \x7b\x7d \x7d",
  .accept "class_expression" "classes" "const C = class Named \x7b\x7d;",
  .accept "computed_members" "classes" "class A \x7b [k] = 1; ['m']() \x7b\x7d \x7d",
  .reject "duplicate_constructor" "classes"
    "class A \x7b constructor() \x7b\x7d constructor() \x7b\x7d \x7d",
  .reject "field_named_constructor" "classes" "class A \x7b constructor = 1; \x7d",
  .reject "static_prototype" "classes" "class A \x7b static prototype() \x7b\x7d \x7d",
  .reject "super_call_outside_constructor" "classes" "class A \x7b m() \x7b super(); \x7d \x7d"]

/-- The spelling of tokens. -/
def lexical : List Fixture := [
  .accept "hashbang" "lexical" "#!/usr/bin/env node\nx;",
  .accept "unicode_identifiers" "lexical" "var \\u0061b = 1, ünï = 2;",
  .accept "comments" "lexical" "/* block */ a // line\nb; /* two\nlines */ c;",
  .rejectWith "bad_character" "lexical" "a @ b;" "Invalid or unexpected token",
  .reject "unterminated_string" "lexical" "'abc",
  .reject "unterminated_comment" "lexical" "/* never closed",
  .reject "bad_hex_escape" "lexical" "'\\x';",
  .reject "separator_at_end" "lexical" "1_;"]

/-- Every fixture. -/
def all : List Fixture :=
  declarations ++ statements ++ expressions ++ arrows ++ functions ++ classes ++ lexical

/-- The outcomes of all fixtures, in their order. -/
def runAll : List (Fixture × Outcome) := all.map fun fixture => (fixture, fixture.run)

end EcmaScript.Fixture

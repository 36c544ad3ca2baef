import EcmaScript.Character.Class
import EcmaScript.Command.Basic
import EcmaScript.Conformance.Table
import EcmaScript.Main
import EcmaScript.Proofs.Estree.Faithful
import EcmaScript.Proofs.Estree.Same
import EcmaScript.Proofs.Syntax.Relocate
import EcmaScript.Proofs.Slice.Script
import EcmaScript.Proofs.Blank.Script
import EcmaScript.Proofs.Implied.Script
import EcmaScript.Proofs.Syntax.Erase
import EcmaScript.Scope.Resolve
import EcmaScript.Syntax.Visit
import EcmaScript.Proofs.Build.Operand
import EcmaScript.Proofs.Build.Script
import EcmaScript.Proofs.Scope.Layout
import EcmaScript.Proofs.Scope.Site
import EcmaScript.Proofs.Scope.Table
import EcmaScript.Proofs.Scope.Shape
import EcmaScript.Proofs.Scope.Traced
import EcmaScript.Proofs.Scope.Resolved
import EcmaScript.Proofs.Scope.Seen
import EcmaScript.Proofs.Build.Rules
import EcmaScript.Proofs.Scope.Visited
import EcmaScript.Proofs.Scope.Declared
import EcmaScript.Proofs.Scope.Home
import EcmaScript.Proofs.Scope.Accepted
import EcmaScript.Proofs.Fit.Script
import EcmaScript.Proofs.Words.Async
import EcmaScript.Proofs.Words.Labels
import EcmaScript.Proofs.Braces.Script
import EcmaScript.Proofs.Order.Calls
import EcmaScript.Proofs.Lexer.Alone
import EcmaScript.Proofs.Lexer.Chunks
import EcmaScript.Proofs.Lexer.LineBreaks
import EcmaScript.Proofs.Lexer.NameForms
import EcmaScript.Proofs.Number.Radix
import EcmaScript.Proofs.Lexer.StringForms
import EcmaScript.Proofs.Order.Forward
import EcmaScript.Proofs.Text.Lines
import EcmaScript.Proofs.Scope.Again
import EcmaScript.Proofs.Blame.Report
import EcmaScript.Proofs.Diagnostic.Template
import EcmaScript.Proofs.Machine.Restores

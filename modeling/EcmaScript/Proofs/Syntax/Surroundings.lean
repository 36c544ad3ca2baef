import EcmaScript.Proofs.Syntax.Parts

/-!
# Surroundings of nodes

What stands around a node in a program, as far as the meaning of the node hangs on it: the
functions, classes, loops, switches and labels that it is within, the innermost first. For a
function it matters whether the node is among its parameters or in its body.

Jumps and operators that suspend a function reach only as far as the nearest boundary, which is
a function, an arrow function, a static block or the initializer of a field. What `new.target`
and `super` mean is passed on by arrow functions.
-/

namespace EcmaScript

/-- A construct around a node, with the part of it that the node is in. -/
inductive Around where
  /-- The parameters of a function that is not an arrow function. -/
  | parameters
  /-- The body of such a function. -/
  | body (isGenerator isAsync : Bool)
  | arrowParameters
  | arrowBody (isAsync : Bool)
  | staticBlock
  /-- The initializer of a field. -/
  | fieldValue
  | loopBody
  /-- The cases of a switch. -/
  | switch
  /-- A statement with a label, and whether it is a loop with labels. -/
  | labeled (name : String) (ofLoop : Bool)
  /-- The function of a method of a class. -/
  | method (kind : MethodKind)
  /-- The function of a method or an accessor of an object. -/
  | objectMethod
  /-- The members of a class. -/
  | classBody (isDerived : Bool)
deriving Repr, DecidableEq

/-- What stands around a node, the innermost first. -/
abbrev Surroundings := List Around

namespace Around

/-- Whether no jump leads out of the construct. -/
def isBoundary : Around → Bool
  | parameters | body .. | arrowParameters | arrowBody _ | staticBlock | fieldValue => true
  | _ => false

/-- Whether the construct is a function that is not an arrow function. -/
def isFunction : Around → Bool
  | parameters | body .. => true
  | _ => false

/-- Whether the construct is an arrow function. -/
def isArrow : Around → Bool
  | arrowParameters | arrowBody _ => true
  | _ => false

/-- Whether the construct decides what `this`, `super` and `new.target` mean. -/
def hasThis : Around → Bool
  | parameters | body .. | staticBlock | fieldValue => true
  | _ => false

end Around

/-- A function has a `this` of its own. -/
theorem Around.hasThis_of_isFunction {a : Around} (h : a.isFunction = true) : a.hasThis = true := by
  cases a <;> first | rfl | exact nomatch h

namespace Surroundings

/-- The nearest boundary. -/
def boundary? (σ : Surroundings) : Option Around := σ.find? Around.isBoundary

/-- What is within the nearest boundary. -/
def inside (σ : Surroundings) : Surroundings := σ.takeWhile fun a => !a.isBoundary

/-- From the construct on that decides what `this`, `super` and `new.target` mean. -/
def receiver (σ : Surroundings) : Surroundings := σ.dropWhile fun a => !a.hasThis

/-- There is a function to return from. -/
def CanReturn (σ : Surroundings) : Prop :=
  ∃ a, σ.boundary? = some a ∧ (a.isFunction = true ∨ a.isArrow = true)

/-- There is a loop or a switch to break from. -/
def CanBreak (σ : Surroundings) : Prop := .loopBody ∈ σ.inside ∨ .switch ∈ σ.inside

/-- There is a loop to continue. -/
def CanContinue (σ : Surroundings) : Prop := .loopBody ∈ σ.inside

/-- A statement around has the label. -/
def HasLabel (σ : Surroundings) (name : String) : Prop :=
  ∃ ofLoop, .labeled name ofLoop ∈ σ.inside

/-- A loop around has the label. -/
def HasLoopLabel (σ : Surroundings) (name : String) : Prop := .labeled name true ∈ σ.inside

/-- The nearest boundary is the body of a generator. -/
def CanYield (σ : Surroundings) : Prop := ∃ isAsync, σ.boundary? = some (.body true isAsync)

/-- The nearest boundary is the body of an asynchronous function. -/
def CanAwait (σ : Surroundings) : Prop :=
  (∃ isGenerator, σ.boundary? = some (.body isGenerator true)) ∨
    σ.boundary? = some (.arrowBody true)

/-- `new.target` has a meaning. -/
def HasNewTarget (σ : Surroundings) : Prop := ∃ a ∈ σ, a.hasThis = true

/-- `super` can be called: what decides on it is the constructor of a derived class. -/
def HasSuperCall (σ : Surroundings) : Prop :=
  ∃ f outer, σ.receiver = f :: .method .constructor :: .classBody true :: outer ∧
    f.isFunction = true

/-- A function here is that of a method or an accessor. -/
def IsMember (σ : Surroundings) : Prop :=
  .objectMethod ∈ σ.head? ∨ ∃ kind, .method kind ∈ σ.head?

/-- `super` has properties: what decides on it is the function of a method, the initializer of a
field or a static block. -/
def HasSuperProperty (σ : Surroundings) : Prop :=
  ∃ (a : Around) (outer : Surroundings), σ.receiver = a :: outer ∧
    (a = .fieldValue ∨ a = .staticBlock ∨ a.isFunction = true ∧ outer.IsMember)

/-- Private names can be used. -/
def InClass (σ : Surroundings) : Prop := ∃ isDerived, .classBody isDerived ∈ σ

section

variable {a : Around} {σ : Surroundings} {name : String}

/-- What bounds the jumps around a node is the nearest boundary. -/
theorem boundary?_cons_of_isBoundary (h : a.isBoundary = true) :
    boundary? (a :: σ) = some a := by simp [boundary?, h]

/-- What is no boundary leaves the one further out. -/
theorem boundary?_cons (h : a.isBoundary = false) : boundary? (a :: σ) = σ.boundary? := by
  simp [boundary?, h]

/-- Nothing is inside of a boundary that starts here. -/
theorem inside_cons_of_isBoundary (h : a.isBoundary = true) : inside (a :: σ) = [] := by
  simp [inside, h]

/-- What is no boundary is inside of the one further out. -/
theorem inside_cons (h : a.isBoundary = false) : inside (a :: σ) = a :: σ.inside := by
  simp [inside, h]

/-- What is no boundary leaves it to return or not. -/
theorem canReturn_cons (h : a.isBoundary = false) : CanReturn (a :: σ) ↔ σ.CanReturn := by
  rw [CanReturn, boundary?_cons h, CanReturn]

/-- What can be broken out of can be from further in. -/
theorem CanBreak.cons (h : σ.CanBreak) (ha : a.isBoundary = false) : CanBreak (a :: σ) := by
  rw [CanBreak, inside_cons ha]
  exact h.imp (List.mem_cons_of_mem a) (List.mem_cons_of_mem a)

/-- What can be continued can be from further in. -/
theorem CanContinue.cons (h : σ.CanContinue) (ha : a.isBoundary = false) :
    CanContinue (a :: σ) := by
  rw [CanContinue, inside_cons ha]
  exact List.mem_cons_of_mem a h

/-- What can yield can do so from further in. -/
theorem CanYield.cons (h : σ.CanYield) (ha : a.isBoundary = false) : CanYield (a :: σ) := by
  rw [CanYield, boundary?_cons ha]
  exact h

/-- What can wait can do so from further in. -/
theorem CanAwait.cons (h : σ.CanAwait) (ha : a.isBoundary = false) : CanAwait (a :: σ) := by
  rw [CanAwait, boundary?_cons ha]
  exact h

/-- What has no `this` of its own leaves that of what is around it. -/
theorem receiver_cons (h : a.hasThis = false) : receiver (a :: σ) = σ.receiver := by
  simp [receiver, h]

/-- What has a `this` of its own is what it belongs to. -/
theorem receiver_cons_of_hasThis (h : a.hasThis = true) : receiver (a :: σ) = a :: σ := by
  simp [receiver, h]

/-- The target of `new` is known further in. -/
theorem HasNewTarget.cons (h : σ.HasNewTarget) (a : Around) : HasNewTarget (a :: σ) := by
  obtain ⟨b, hb, hthis⟩ := h
  exact ⟨b, List.mem_cons_of_mem a hb, hthis⟩

/-- Where there is a `this`, the target of `new` is known. -/
theorem hasNewTarget_of_hasThis (h : a.hasThis = true) : HasNewTarget (a :: σ) :=
  ⟨a, List.mem_cons_self, h⟩

/-- What can call `super` can do so from further in. -/
theorem HasSuperCall.cons (h : σ.HasSuperCall) (ha : a.hasThis = false) :
    HasSuperCall (a :: σ) := by
  rw [HasSuperCall, receiver_cons ha]
  exact h

/-- What has properties of `super` has them further in. -/
theorem HasSuperProperty.cons (h : σ.HasSuperProperty) (ha : a.hasThis = false) :
    HasSuperProperty (a :: σ) := by
  rw [HasSuperProperty, receiver_cons ha]
  exact h

/-- A function that is a member has properties of `super`. -/
theorem hasSuperProperty_of_isMember (ha : a.isFunction = true) (h : σ.IsMember) :
    HasSuperProperty (a :: σ) :=
  ⟨a, σ, receiver_cons_of_hasThis (Around.hasThis_of_isFunction ha), Or.inr (Or.inr ⟨ha, h⟩)⟩

/-- What is in a class is so further in. -/
theorem InClass.cons (h : σ.InClass) (a : Around) : InClass (a :: σ) := by
  obtain ⟨isDerived, hd⟩ := h
  exact ⟨isDerived, List.mem_cons_of_mem a hd⟩

/-- What is in the body of a class is in a class. -/
theorem inClass_classBody (isDerived : Bool) : InClass (.classBody isDerived :: σ) :=
  ⟨isDerived, List.mem_cons_self⟩

end

end Surroundings

namespace Node

/-- Whether a statement is a loop, behind the labels that it may have. -/
def isLoop {form : Form} : Node form → Bool
  | .forLoop .. | .forIn .. | .forOf .. | .whileLoop .. | .doWhile .. => true
  | .labeled _ _ body => body.isLoop
  | _ => false

/-- Whether an expression is the function of a method, given the kind of the property. -/
def isMethodOf (kind : PropertyKind) (isMethod : Bool) : Expression → Bool
  | .functionExpression _ => isMethod || kind != .init
  | _ => false

/-- What stands around the parts of a node, given their form and what stands around the node.
Where parts of one form stand differently, as in functions, the form tells them apart. -/
def within {form : Form} (x : Node form) (inner : Form) (σ : Surroundings) : Surroundings :=
  match x, inner with
  | .function _ _ _ _ isGenerator isAsync _, .block => .body isGenerator isAsync :: σ
  | .function .., .parameters => .parameters :: σ
  | .arrow _ _ _ isAsync _, .block => .arrowBody isAsync :: σ
  | .arrow .., .parameters => .arrowParameters :: σ
  | .conciseArrow _ _ _ isAsync _, .expression => .arrowBody isAsync :: σ
  | .conciseArrow .., .parameters => .arrowParameters :: σ
  | .staticBlock .., _ => .staticBlock :: σ
  | .field .., .expression => .fieldValue :: σ
  | .method _ _ kind _ _, .function => .method kind :: σ
  | .property _ _ value kind isMethod, .expression =>
    if value.isMethodOf kind isMethod then .objectMethod :: σ else σ
  | .classDefinition _ _ superClass _ _ _, .classElement => .classBody superClass.isSome :: σ
  | .forLoop .., .statement | .forIn .., .statement | .forOf .., .statement
  | .whileLoop .., .statement | .doWhile .., .statement => .loopBody :: σ
  | .switch .., .switchCase => .switch :: σ
  | .labeled _ label body, _ => .labeled label.name body.isLoop :: σ
  | _, _ => σ

/-- The value of a property that is a method stands in a member. -/
theorem within_property {span : Span} {key : Node .propertyKey} {value : Expression}
    {kind : PropertyKind} {isMethod : Bool} {σ : Surroundings} :
    (property span key value kind isMethod).within .expression σ =
      if value.isMethodOf kind isMethod then .objectMethod :: σ else σ :=
  rfl

end Node

/-- A node stands in the program, and the list tells what stands around it there. -/
inductive Program.At (program : Program) : Surroundings → Part → Prop where
  | statement {p : Part} (h : p ∈ program.parts) : program.At [] p
  | part {σ : Surroundings} {p q : Part} (hp : program.At σ p) (h : p.Holds q) :
      program.At (p.node.within q.form σ) q

/-- Every node of a program has surroundings. -/
theorem Program.exists_at {program : Program} {p q : Part} (hp : p ∈ program.parts)
    (h : p.Reaches q) : ∃ σ, program.At σ q := by
  induction h with
  | refl => exact ⟨[], .statement hp⟩
  | tail _ hq ih =>
    obtain ⟨σ, hσ⟩ := ih
    exact ⟨_, .part hσ hq⟩

end EcmaScript

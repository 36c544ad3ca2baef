import EcmaScript.Proofs.Slice.Script
import EcmaScript.Proofs.Syntax.Relocate
import EcmaScript.Proofs.Words.Operand
import EcmaScript.Proofs.Words.Precedence

/-!
# Chains of operators

Names with binary operators between them. What the parser makes of such a chain is the climbing
tree of its operators: each call of the loop takes those operators that bind more tightly than its
bound, and what it leaves over binds at most as tightly. A chain is refused only for its depth, or
because `??` comes together with `||` or `&&`.
-/

namespace EcmaScript

namespace BinaryOperator

variable {k : TokenKind} {op : BinaryOperator}

/-- Behind an operator a slash starts a regular expression. -/
theorem allowsRegexAfter_of_ofKind (h : ofKind? k = some op) : k.allowsRegexAfter = true := by
  unfold ofKind? at h
  split at h <;> first | rfl | exact nomatch h

/-- The token of an operator is read again by no other rule. -/
theorem isOrdinary_of_ofKind (h : ofKind? k = some op) : Parser.isOrdinary k = true := by
  unfold ofKind? at h
  split at h <;> first | rfl | exact nomatch h

/-- A name ends in front of an operator. -/
theorem endsName_of_ofKind (h : ofKind? k = some op) : Parser.endsName k = true := by
  unfold ofKind? at h
  split at h <;> first | rfl | exact nomatch h

end BinaryOperator

namespace OperatorTree

/-- The tree as an expression without places. -/
def toExpression : OperatorTree Name → Expression
  | operand x => .reference { span := .unset, name := x.value }
  | node operator left right => .binary .unset operator left.toExpression right.toExpression

end OperatorTree

/-- The operators of a chain with the names behind them, as they are spelled. -/
def spellLinks : List (BinaryOperator × Name) → List Char
  | [] => []
  | (op, x) :: links => ' ' :: (op.text.toList ++ ' ' :: (x.chars ++ spellLinks links))

namespace Parser

/-- The parser is at a name with some links behind it. -/
structure AtName (text : String) (s : State) (x : Name) (links : List (BinaryOperator × Name)) :
    Prop extends At text s .identifier (spellLinks links) where
  value : s.lexer.token.value = x.value

/-- The parser is at the operator of the first of some links, or behind all of them. -/
structure AtLink (text : String) (s : State) (links : List (BinaryOperator × Name)) : Prop where
  sound : s.Sound text
  size : s.size = text.utf8ByteSize
  coverInit : s.coverInit = none
  clean : s.lexer.faults = #[]
  done : links = [] → s.lexer.token.kind = .endOfFile
  isAt : ∀ op x rest, links = (op, x) :: rest →
    ∃ k, BinaryOperator.ofKind? k = some op ∧
      s.lexer.IsAt k (' ' :: (x.chars ++ spellLinks rest))

section

variable {text : String} {s : State} {x : Name} {op : BinaryOperator}
  {links : List (BinaryOperator × Name)}

/-- What is spelled behind a name starts with a blank or is nothing, so the name ends there. -/
theorem closes_spellLinks (links : List (BinaryOperator × Name)) :
    Lexer.Closes (spellLinks links) := by
  cases links with
  | nil => exact Lexer.closes_nil
  | cons link links => exact Lexer.closes_cons (by decide)

/-- Behind the name come its links. -/
theorem AtName.next (h : AtName text s x links) : AtLink text s.next links := by
  have hsound : s.next.Sound text := h.sound.next (by rw [h.isAt.kind]; decide)
  cases links with
  | nil =>
    obtain ⟨hk, hf⟩ := h.isAt.scan_end
    exact ⟨hsound, h.size, h.coverInit, hf, fun _ => hk, fun _ _ _ hl => nomatch hl⟩
  | cons link links =>
    obtain ⟨op, y⟩ := link
    obtain ⟨l, htoken, hkind⟩ := op.isToken
    have hrest : s.lexer.IsAt .identifier (' ' :: (op.text.toList ++
      (' ' :: (y.chars ++ spellLinks links)))) := h.isAt
    obtain ⟨hat, -⟩ := hrest.scan_blank rfl htoken (Lexer.closes_cons (by decide))
    refine ⟨hsound, h.size, h.coverInit, hat.faults, (nomatch ·), fun op' x' rest hl => ?_⟩
    obtain ⟨hhead, rfl⟩ := List.cons.inj hl
    obtain ⟨rfl, rfl⟩ := Prod.mk.inj hhead
    exact ⟨l.kind, hkind, hat⟩

/-- Behind the operator comes the next name. -/
theorem AtLink.next (h : AtLink text s ((op, x) :: links)) : AtName text s.next x links := by
  obtain ⟨k, hk, hat⟩ := h.isAt op x links rfl
  obtain ⟨l, htoken, hkind, hvalue⟩ := x.isToken
  rw [← BinaryOperator.allowsRegexAfter_of_ofKind hk] at htoken
  have hord := BinaryOperator.isOrdinary_of_ofKind hk
  obtain ⟨hscan, hval⟩ := hat.scan_blank hord htoken (closes_spellLinks links)
  rw [hkind] at hscan
  refine ⟨⟨h.sound.next ?_, h.size, h.coverInit, hscan⟩, hval.trans hvalue⟩
  rw [hat.kind]
  exact ne_endOfFile_of_isOrdinary hord

/-- A name ends in front of its links. -/
theorem AtLink.endsName (h : AtLink text s links) : endsName s.lexer.token.kind = true := by
  cases links with
  | nil =>
    rw [h.done rfl]
    rfl
  | cons link links =>
    obtain ⟨k, hk, hat⟩ := h.isAt link.1 link.2 links rfl
    rw [hat.kind]
    exact BinaryOperator.endsName_of_ofKind hk

/-- No colon stands behind a chain of operators, so a name in front of it is no label. -/
theorem AtLink.ne_colon (h : AtLink text s links) : s.lexer.token.kind ≠ .mark .colon := by
  intro hk
  cases links with
  | nil => exact nomatch (h.done rfl).symm.trans hk
  | cons link links =>
    obtain ⟨k, hop, hat⟩ := h.isAt link.1 link.2 links rfl
    rw [← hat.kind, hk] at hop
    exact nomatch hop

/-- The next operator is that of the first link. -/
theorem AtLink.ofKind (h : AtLink text s links) :
    BinaryOperator.ofKind? s.lexer.token.kind = links.head?.map Prod.fst := by
  cases links with
  | nil =>
    rw [h.done rfl]
    rfl
  | cons link links =>
    obtain ⟨k, hk, hat⟩ := h.isAt link.1 link.2 links rfl
    rw [hat.kind]
    exact hk

end

/-- What is made of the front of a chain: a climbing tree of operators that bind more tightly than
`min`. -/
structure Grouped (min : Precedence) (start : Nat) (x : Name)
    (links : List (BinaryOperator × Name)) (tree : OperatorTree Name)
    (left : List (BinaryOperator × Name)) (e : Expression) : Prop where
  first : tree.first = x
  links_eq : links = tree.links ++ left
  isClimbing : tree.IsClimbing
  unmixed : tree.Unmixed
  above : ∀ root ∈ tree.root?, min < root.precedence
  /-- Right of `??`, neither `||` nor `&&` can be the root. -/
  guarded : min = BinaryOperator.coalesce.precedence → ∀ root ∈ tree.root?, root.isAndOr = false
  unplaced : e.relocate (fun _ _ => .unset) = tree.toExpression
  start_eq : tree.root? ≠ none → Position.offset e.span.start = start

/-- The outcome of parsing the front of a chain that is left over at an operator that binds at most
as tightly as `min`. -/
def Climbs (text : String) (min : Precedence) (s : State) (x : Name)
    (links : List (BinaryOperator × Name)) (e : Expression) (s' : State) : Prop :=
  ∃ tree left, Grouped min s.offset x links tree left e ∧ AtLink text s' left ∧
    s.consumed < s'.consumed ∧ ∀ link ∈ left.head?, link.1.precedence ≤ min

/-- Why a chain is refused: for its depth, or because `??` is mixed with `||` or `&&`; the `??` may
be the operator to the left of the chain. -/
def Refuses (min : Precedence) (links : List (BinaryOperator × Name)) (faults : Array Fault) :
    Prop :=
  (∃ place, faults = #[⟨.nestingTooDeep, place⟩]) ∨ MixesCoalesce links ∨
    (min = BinaryOperator.coalesce.precedence ∧ ∃ link ∈ links, link.1.isAndOr = true)

section

variable {text : String} {s : State} {x : Name} {op : BinaryOperator} {min : Precedence}
  {links left : List (BinaryOperator × Name)} {tree : OperatorTree Name} {e : Expression}
  {start : Nat}

/-- What was grouped so far is no private name. -/
theorem Grouped.isPrivateName (h : Grouped min start x links tree left e) :
    isPrivateName e = false := by
  have hu := h.unplaced
  cases tree <;> cases e <;> first | rfl | exact nomatch hu

/-- The root of the tree is that of the expression. -/
theorem Grouped.isOpenLogical (h : Grouped min start x links tree left e) :
    isOpenLogical start e = tree.root?.any BinaryOperator.isAndOr := by
  have hu := h.unplaced
  cases tree with
  | operand y => cases e <;> first | rfl | exact nomatch hu
  | node operator l r =>
    have hstart := h.start_eq (by simp [OperatorTree.root?])
    cases e with
    | binary span operator' l' r' =>
      obtain rfl : operator' = operator := (Node.binary.inj hu).2.1
      simp only [Parser.isOpenLogical, OperatorTree.root?, Option.any_some]
      rw [show Position.offset span.start = start from hstart, beq_self_eq_true, Bool.and_true]
      rfl
    | _ => exact nomatch hu

/-- A tree takes the next operator with all that stands to its right. -/
theorem Grouped.extend {right : OperatorTree Name} {rest : List (BinaryOperator × Name)} {y : Name}
    {e' : Expression} {span : Span} {start' : Nat}
    (h : Grouped min start x links tree ((op, y) :: left) e)
    (hr : Grouped op.rightPrecedence start' y left right rest e')
    (hmin : min < op.precedence) (hspan : Position.offset span.start = start)
    (hnext : ∀ root ∈ tree.root?, op.precedence ≤ root.rightPrecedence)
    (hmix : mixesCoalesce op min start e = false) :
    Grouped min start x links (.node op tree right) rest (.binary span op e e') where
  first := h.first
  links_eq := by
    rw [h.links_eq, hr.links_eq, OperatorTree.links, hr.first, List.append_assoc, List.cons_append]
  isClimbing := ⟨fun root hroot => BinaryOperator.admitsLeft_of_le (hnext root hroot),
    fun root hroot => BinaryOperator.admitsRight_iff.mpr (hr.above root hroot), h.isClimbing,
    hr.isClimbing⟩
  unmixed := by
    refine ⟨?_, h.unmixed, hr.unmixed⟩
    rintro rfl
    have hopen := h.isOpenLogical
    rw [mixesCoalesce] at hmix
    rw [hmix] at hopen
    exact ⟨fun root hroot => by
      rw [hroot] at hopen
      exact hopen.symm, hr.guarded rfl⟩
  above := fun root hroot => by
    obtain rfl : op = root := Option.some.inj hroot
    exact hmin
  guarded := fun hguard root hroot => by
    obtain rfl : op = root := Option.some.inj hroot
    cases op <;> first | rfl | (rw [mixesCoalesce, hguard] at hmix; cases hmix)
  unplaced := congrArg₂ (Node.binary .unset op) h.unplaced hr.unplaced
  start_eq := fun _ => hspan

end

section

variable {text : String} {x : Name} {min : Precedence} {links left : List (BinaryOperator × Name)}
  {tree : OperatorTree Name} {e : Expression} {start : Nat} {ctx : Context}

/-- The operator of the next link, if it binds more tightly than `min`. -/
theorem AtLink.operatorAt {s : State} (h : AtLink text s left) (min : Precedence)
    (hctx : ctx.noIn = false) :
    operatorAt ctx min s.lexer.token.kind =
      (left.head?.map Prod.fst).filter fun op => min < op.precedence := by
  rw [Parser.operatorAt, h.ofKind, hctx]
  refine congrArg (Option.filter · _) (funext fun op => ?_)
  rw [Bool.and_false]
  rfl

/-- Operators that must not be mixed make the chain one that is refused. -/
theorem Grouped.refuses {y : Name} (h : Grouped min start x links tree ((op, y) :: left) e)
    (hmix : mixesCoalesce op min start e = true) (faults : Array Fault) :
    Refuses min links faults := by
  have hmem : (op, y) ∈ links := by
    rw [h.links_eq]
    exact List.mem_append_right _ List.mem_cons_self
  have hand : op.isAndOr = true → mixesCoalesce op min start e =
      (min == BinaryOperator.coalesce.precedence) := by
    cases op <;> first | exact fun _ => rfl | exact fun h => nomatch h
  cases hop : op.isAndOr with
  | true =>
    rw [hand hop, beq_iff_eq] at hmix
    exact Or.inr (Or.inr ⟨hmix, _, hmem, hop⟩)
  | false =>
    obtain rfl : op = .coalesce := by
      cases op <;> first | rfl | exact absurd hop (by decide) | exact nomatch hmix
    rw [mixesCoalesce, h.isOpenLogical] at hmix
    rw [Option.any_eq_true] at hmix
    obtain ⟨root, hroot, handOr⟩ := hmix
    obtain ⟨z, hz⟩ := tree.exists_of_root hroot
    refine Or.inr (Or.inl ⟨⟨_, hmem, rfl⟩, (root, z), ?_, handOr⟩)
    rw [h.links_eq]
    exact List.mem_append_left _ hz

/-- Why the right side of an operator is refused is why the chain is. -/
theorem Refuses.of_right {y : Name} {faults : Array Fault}
    (h : Refuses op.rightPrecedence left faults) (hmem : (op, y) ∈ links)
    (hsub : ∀ link ∈ left, link ∈ links) : Refuses min links faults := by
  rcases h with hdepth | ⟨⟨c, hc, hcop⟩, a, ha, haop⟩ | ⟨hright, a, ha, haop⟩
  · exact Or.inl hdepth
  · exact Or.inr (Or.inl ⟨⟨c, hsub c hc, hcop⟩, a, hsub a ha, haop⟩)
  · have hop : op = .coalesce := by
      revert hright
      cases op <;> decide
    exact Or.inr (Or.inl ⟨⟨_, hmem, hop⟩, a, hsub a ha, haop⟩)

/-- At one more operator the parser either takes the right operand and goes on, or refuses the chain
for mixing. -/
theorem binaryOperation_ends {g : Grammar}
    (hg : ∀ s y min links, AtName text s y links →
      Settles (g.binary ctx min) s (Climbs text min s y links) (Refuses min links))
    {s : State} {y : Name} (h : Grouped min start x links tree ((op, y) :: left) e)
    (hs : AtLink text s ((op, y) :: left)) (hmin : min < op.precedence)
    (hnext : ∀ root ∈ tree.root?, op.precedence ≤ root.rightPrecedence) :
    Settles (binaryOperation g ctx min start e op) s
      (fun e' s' => ∃ tree' rest, Grouped min start x links tree' rest e' ∧ AtLink text s' rest ∧
        s.consumed < s'.consumed ∧ rest.length < left.length + 1 ∧
        ∀ link ∈ rest.head?, ∀ root ∈ tree'.root?, link.1.precedence ≤ root.rightPrecedence)
      (Refuses min links) := by
  unfold binaryOperation
  simp only [h.isPrivateName, Bool.false_and, Bool.false_eq_true, if_false]
  cases hmix : mixesCoalesce op min start e with
  | true =>
    rw [if_pos rfl]
    exact .bind (P := fun _ _ => False) (.of_fails unexpected_fails (h.refuses hmix))
      (fun _ => id) fun _ _ h => h.elim
  | false =>
    rw [if_neg Bool.false_ne_true]
    have hname := hs.next
    refine .step advance_run ?_
    refine .step (p := token) rfl ?_
    have hmem : (op, y) ∈ links := by
      rw [h.links_eq]
      exact List.mem_append_right _ List.mem_cons_self
    have hsub : ∀ link ∈ left, link ∈ links := fun link hl => by
      rw [h.links_eq]
      exact List.mem_append_right _ (List.mem_cons_of_mem _ hl)
    refine .bind (hg s.next y op.rightPrecedence left hname)
      (fun _ hr => hr.of_right hmem hsub) ?_
    rintro right s' ⟨rightTree, rest, hr, hs', hlt, hstop⟩
    simp only [hr.isPrivateName, Bool.false_eq_true, if_false]
    have htaken : s.consumed ≤ s.next.consumed :=
      Nat.le_trans hs.sound.consumed_le hs.sound.place.offset_le_stop
    refine .step (a := Span.ofOffsets start s'.consumed) rfl (.pure ?_)
    refine ⟨_, rest, h.extend hr hmin rfl hnext hmix, hs', Nat.lt_of_le_of_lt htaken hlt, ?_, ?_⟩
    · have hlen := congrArg List.length hr.links_eq
      rw [List.length_append] at hlen
      omega
    · intro link hl root hroot
      obtain rfl : op = root := Option.some.inj hroot
      exact hstop link hl

/-- The loop goes on with a climbing tree as long as operators bind more tightly than `min`. -/
theorem binaryRounds_end {g : Grammar} (hctx : ctx.noIn = false)
    (hg : ∀ s y min links, AtName text s y links →
      Settles (g.binary ctx min) s (Climbs text min s y links) (Refuses min links))
    {s : State} (h : Grouped min start x links tree left e) (hs : AtLink text s left)
    (hnext : ∀ link ∈ left.head?, ∀ root ∈ tree.root?, link.1.precedence ≤ root.rightPrecedence) :
    Settles (iterate (binaryRound g ctx min start) e) s
      (fun e' s' => ∃ tree' left', Grouped min start x links tree' left' e' ∧
        AtLink text s' left' ∧ s.consumed ≤ s'.consumed ∧
        ∀ link ∈ left'.head?, link.1.precedence ≤ min)
      (Refuses min links) := by
  induction hn : left.length using Nat.strongRecOn generalizing left tree e s with
  | _ n ih =>
    have hop := hs.operatorAt min hctx
    refine .iterate ?_
    cases left with
    | nil =>
      exact .of_ok (binaryRound_run hop) ⟨tree, [], h, hs, Nat.le_refl _, fun _ h => nomatch h⟩
    | cons link left =>
      obtain ⟨op, y⟩ := link
      by_cases hmin : min < op.precedence
      · have hsome : operatorAt ctx min s.lexer.token.kind = some op := by
          rw [hop]
          exact if_pos (decide_eq_true hmin)
        refine .step (a := some op) (congrArg (fun o => Except.ok (o, s)) hsome) ?_
        refine .bind (binaryOperation_ends hg h hs hmin (hnext _ rfl)) (fun _ => id) ?_
        rintro e' s' ⟨tree', rest, h', hs', hlt, hless, hnext'⟩
        refine .pure ⟨remaining_lt hs'.sound hs.size hs'.size hlt, ?_⟩
        refine (ih rest.length (hn ▸ hless) h' hs' hnext' rfl).imp fun e'' s'' => ?_
        rintro ⟨tree'', left'', h'', hs'', hle, hstop⟩
        exact ⟨tree'', left'', h'', hs'', Nat.le_trans (Nat.le_of_lt hlt) hle, hstop⟩
      · have hnone : operatorAt ctx min s.lexer.token.kind = none := by
          rw [hop]
          exact if_neg (by simpa using hmin)
        refine .of_ok (binaryRound_run hnone) ⟨tree, _, h, hs, Nat.le_refl _, fun link hl => ?_⟩
        obtain rfl : (op, y) = link := Option.some.inj hl
        exact Nat.le_of_not_lt hmin

/-- A parser of binary expressions, given one that climbs to the right, climbs. -/
theorem binaryExpression_climbs {g : Grammar} (hctx : ctx.noIn = false)
    (hg : ∀ s y min links, AtName text s y links →
      Settles (g.binary ctx min) s (Climbs text min s y links) (Refuses min links))
    {s : State} (hs : AtName text s x links) :
    Settles (binaryExpression g ctx min) s (Climbs text min s x links) (Refuses min links) := by
  have hlink := hs.next
  have hone : Grouped min s.offset x links (.operand x) links
      (.reference (identifierOf s.lexer.token)) :=
    { first := rfl, links_eq := rfl, isClimbing := trivial, unmixed := trivial
      above := fun _ h => nomatch h
      guarded := fun _ _ h => nomatch h
      unplaced := congrArg (fun name => Node.reference ⟨.unset, name, 0⟩) hs.value
      start_eq := fun h => absurd rfl h }
  have htaken : s.consumed < s.next.consumed :=
    Nat.lt_of_le_of_lt hs.sound.consumed_le
      (hs.sound.place.offset_lt_stop (by
        show s.lexer.token.kind ≠ _
        rw [hs.isAt.kind]
        decide))
  refine .step (a := s.offset) rfl ?_
  refine .step (unaryExpression_name hs.isAt.kind hlink.endsName) ?_
  refine .step (a := false) rfl ?_
  refine (binaryRounds_end hctx hg hone hlink fun _ _ _ h => nomatch h).imp fun e s' => ?_
  rintro ⟨tree, left, hgroup, hleft, hle, hstop⟩
  exact ⟨tree, left, hgroup, hleft, Nat.lt_of_lt_of_le htaken hle, hstop⟩

/-- A chain is parsed to its climbing tree up to the operators that bind too loosely. -/
theorem binary_climbs (n : Nat) (hctx : ctx.noIn = false) {s : State}
    (hs : AtName text s x links) :
    Settles ((Nested.ofDepth n).grammar.binary ctx min) s (Climbs text min s x links)
      (Refuses min links) := by
  induction n generalizing s x min links with
  | zero =>
    refine .of_error (e := ⟨#[⟨.nestingTooDeep, s.offset⟩]⟩) ?_ (Or.inl ⟨_, rfl⟩)
    show Except.error (Abort.mk (s.lexer.faults.push _)) = _
    rw [hs.isAt.faults]
    rfl
  | succ n ih => exact binaryExpression_climbs hctx (fun _ _ _ _ => ih) hs

/-- Nothing is left over of a chain at the end of an expression. -/
theorem eq_nil_of_precedence (h : ∀ link ∈ left.head?, link.1.precedence ≤ 0) : left = [] := by
  cases left with
  | nil => rfl
  | cons link left => exact absurd link.1.precedence_pos (Nat.not_lt_of_le (h link rfl))

/-- The whole chain is made one tree. -/
def Whole (text : String) (s : State) (x : Name) (links : List (BinaryOperator × Name))
    (e : Expression) (s' : State) : Prop :=
  ∃ tree, Grouped 0 s.offset x links tree [] e ∧ AtLink text s' [] ∧ s.consumed < s'.consumed

/-- What was grouped so far is no arrow, so operators may follow. -/
theorem Grouped.not_isArrow (h : Grouped min start x links tree left e) (consumed : Nat) :
    completesAt consumed e = false := by
  have hu := h.unplaced
  cases tree <;> cases e <;> first | rfl | exact nomatch hu

/-- Where a conditional expression is expected, the chain is taken whole. -/
theorem conditionalExpression_chain (n : Nat) (hctx : ctx.noIn = false) {s : State}
    (hs : AtName text s x links) :
    Settles (conditionalExpression (Nested.ofDepth n).grammar ctx) s (Whole text s x links)
      (Refuses 0 links) := by
  refine .step (a := s.offset) rfl ?_
  refine .bind (binaryExpression_climbs hctx (fun _ _ _ _ => binary_climbs n hctx) hs)
    (fun _ => id) ?_
  rintro e s' ⟨tree, left, hgroup, hleft, hlt, hstop⟩
  obtain rfl := eq_nil_of_precedence hstop
  have hat : isAt (.mark .question) s' = .ok (false, s') := by
    refine (bind_run (a := TokenKind.endOfFile) (by rw [← hleft.done rfl]; rfl)).trans ?_
    rfl
  refine .step hat (.step (isCompleteArrow_completesAt e s') ?_)
  exact .pure ⟨tree, hgroup, hleft, hlt⟩

/-- Where an assignment is expected, the chain is taken whole. -/
theorem assignmentExpression_chain (n : Nat) (hctx : ctx.noIn = false) {s : State}
    (hs : AtName text s x links) :
    Settles (assignmentExpression (Nested.ofDepth n).grammar ctx) s (Whole text s x links)
      (Refuses 0 links) := by
  have hat : isAt (.word .yieldKw) s = .ok (false, s) := by
    refine (bind_run (a := TokenKind.identifier) (by rw [← hs.isAt.kind]; rfl)).trans ?_
    rfl
  refine .step hat ?_
  refine .step (a := s.offset) rfl ?_
  refine .step (takeCoverInit_run hs.coverInit) ?_
  refine .bind (conditionalExpression_chain n hctx hs) (fun _ => id) ?_
  rintro e s' ⟨tree, hgroup, hend, hlt⟩
  refine .step (a := false) (by rw [isCompleteArrow_completesAt, hgroup.not_isArrow]) ?_
  refine .step (a := TokenKind.endOfFile) (by rw [← hend.done rfl]; rfl) ?_
  exact .step (mergeCoverInit_run s') (.pure ⟨tree, hgroup, hend, hlt⟩)

/-- Where an expression is expected, the chain is taken whole. -/
theorem expression_chain (n : Nat) (hctx : ctx.noIn = false) {s : State}
    (hs : AtName text s x links) :
    Settles ((Nested.ofDepth (n + 1)).expression ctx) s (Whole text s x links)
    (Refuses 0 links) := by
  refine .step (takeCoverInit_run hs.coverInit) ?_
  refine .bind (P := Whole text s x links) (.step (a := s.offset) rfl ?_) (fun _ => id) ?_
  · refine .bind (assignmentExpression_chain n hctx hs) (fun _ => id) ?_
    rintro e s' ⟨tree, hgroup, hend, hlt⟩
    exact .step (isAt_run_of_ne (hend.done rfl) (by decide)) (.pure ⟨tree, hgroup, hend, hlt⟩)
  · rintro e s' ⟨tree, hgroup, hend, hlt⟩
    refine .step (checkCoverInit_run hend.coverInit) ?_
    exact .step (setCoverInit_run hend.coverInit) (.pure ⟨tree, hgroup, hend, hlt⟩)

/-- The statement that is a chain. -/
def WholeStatement (text : String) (s : State) (x : Name) (links : List (BinaryOperator × Name))
    (statement : Statement) (s' : State) : Prop :=
  ∃ tree : OperatorTree Name, tree.first = x ∧ tree.links = links ∧ tree.IsClimbing ∧
    tree.Unmixed ∧
    statement.relocate (fun _ _ => .unset) = .expressionStatement .unset tree.toExpression ∧
    AtLink text s' [] ∧ s.consumed < s'.consumed

/-- At the end of the text a statement ends without a semicolon. -/
theorem semicolon_end {s : State} (h : AtLink text s []) :
    ∃ s', semicolon s = .ok ((), s') ∧ AtLink text s' [] ∧ s'.consumed = s.consumed := by
  refine ⟨{ s with implied := s.consumed :: s.implied }, ?_,
    ⟨⟨h.sound.place, h.sound.isSyntactic⟩, h.size, h.coverInit, h.clean, h.done, h.isAt⟩, rfl⟩
  refine (bind_run (eat_run_of_ne (h.done rfl) (by decide))).trans ?_
  refine (bind_run (p := atImpliedEnd) (a := true) ?_).trans rfl
  refine (bind_run (p := token) (a := s.lexer.token) rfl).trans ?_
  rw [h.done rfl]
  rfl

/-- The chain is a statement up to the end of the text. -/
theorem expressionStatement_chain (n : Nat) {s : State} (hs : AtName text s x links) :
    Settles (expressionStatement (Nested.ofDepth (n + 1)) ctx) s (WholeStatement text s x links)
      (Refuses 0 links) := by
  refine .step (a := s.offset) rfl ?_
  have hctx : ctx.allowIn.noIn = false := rfl
  refine .bind (expression_chain n hctx hs) (fun _ => id) ?_
  rintro e s' ⟨tree, hgroup, hend, hlt⟩
  obtain ⟨s'', hrun, hend', hconsumed⟩ := semicolon_end hend
  refine .step hrun (.step (a := Span.ofOffsets s.offset s''.consumed) rfl (.pure ?_))
  refine ⟨tree, hgroup.first, ?_, hgroup.isClimbing, hgroup.unmixed, ?_, hend', ?_⟩
  · rw [hgroup.links_eq, List.append_nil]
  · exact congrArg (Node.expressionStatement .unset) hgroup.unplaced
  · rwa [hconsumed]

/-- A statement that starts with the first name is the chain, not a label. -/
theorem statement_chain (n : Nat) {s : State} (hs : AtName text s x links) :
    Settles ((Nested.ofDepth (n + 2)).statement ctx) s (WholeStatement text s x links)
      (Refuses 0 links) := by
  have hpeek : (s.lexer.scan.token.kind == .mark .colon) = false :=
    beq_eq_false_iff_ne.mpr hs.next.ne_colon
  show Settles (Parser.statement (Nested.ofDepth (n + 1)).grammar ctx) _ _ _
  refine .step (a := s.offset) rfl ?_
  refine .step (a := TokenKind.identifier) (by rw [← hs.isAt.kind]; rfl) ?_
  refine .step (a := TokenKind.identifier) (by rw [← hs.isAt.kind]; rfl) ?_
  refine .step (a := s.lexer.scan.token) rfl ?_
  rw [hpeek]
  exact expressionStatement_chain n hs

/-- The statements of a script that is a chain. -/
theorem script_chain {s : State} (hs : AtName text s x links) :
    Settles script s (fun body s' => ∃ tree : OperatorTree Name, tree.first = x ∧
    tree.links = links ∧
        tree.IsClimbing ∧ tree.Unmixed ∧ s'.lexer.faults = #[] ∧
        body.map (Node.relocate fun _ _ => .unset) =
          [.expressionStatement .unset tree.toExpression])
      (Refuses 0 links) := by
  refine .iterate (.bind (P := fun item s' => ∃ statement, item = some statement ∧
    WholeStatement text s x links statement s') ?_ (fun _ => id) ?_)
  · refine .step (isAt_run_of_ne hs.isAt.kind (by decide)) ?_
    refine .step (isAt_run_of_ne hs.isAt.kind (by decide)) ?_
    exact .bind (statement_chain 98 hs) (fun _ => id) fun statement s' h =>
      .pure ⟨statement, rfl, h⟩
  · rintro _ s' ⟨statement, rfl, tree, hfirst, hlinks, hclimb, hmix, hunplaced, hend, hlt⟩
    refine .pure ⟨remaining_lt hend.sound hs.size hend.size hlt, .iterate ?_⟩
    have hdone : isAt .endOfFile s' = .ok (true, s') := by
      refine (bind_run (a := TokenKind.endOfFile) (by rw [← hend.done rfl]; rfl)).trans ?_
      rfl
    refine .step (p := _) (a := none) (bind_run hdone) (.pure ?_)
    exact ⟨tree, hfirst, hlinks, hclimb, hmix, hend.clean, by
      rw [List.reverse_singleton, List.map_singleton, hunplaced]⟩

end

end Parser

/-- A chain of names as a script: the first name, and the operators with the names behind them, all
with blanks between them. -/
def spellChain (first : Name) (links : List (BinaryOperator × Name)) : String :=
  .ofList (first.chars ++ spellLinks links)

example : spellChain .letter [(.add, .letter), (.power, .letter)] = "x + x ** x" := by
  decide +kernel

/-- The script that is a tree of operators, without places. -/
def OperatorTree.toProgram (tree : OperatorTree Name) : Program :=
  ⟨.unset, [.expressionStatement .unset tree.toExpression]⟩

/-- The spelled chain is read from its first name on. -/
theorem Parser.atName_spellChain (first : Name) (links : List (BinaryOperator × Name)) :
    AtName (spellChain first links) (State.ofString (spellChain first links)) first links := by
  have hchars : (spellChain first links).toList = first.chars ++ spellLinks links :=
    String.toList_ofList
  obtain ⟨hat, hvalue⟩ := at_ofString hchars (closes_spellLinks links)
  exact ⟨hat, hvalue⟩

/-- Precedence climbing groups a chain of names as its one climbing tree. It refuses a chain that
mixes `??` with `||` or `&&`, and another one only for its depth. -/
theorem parse_climbs (first : Name) (links : List (BinaryOperator × Name)) :
    (∀ program, parse (spellChain first links) = .ok program →
      ∃ tree : OperatorTree Name, program.relocate (fun _ _ => .unset) = tree.toProgram ∧
        tree.first = first ∧ tree.links = links ∧ tree.IsClimbing ∧
        ∀ other : OperatorTree Name, other.first = first → other.links = links →
          other.IsClimbing → other = tree) ∧
    (∀ diagnostics, parse (spellChain first links) = .error diagnostics →
      MixesCoalesce links ∨ ∃ place, diagnostics =
        [Fault.diagnose (spellChain first links) ⟨.nestingTooDeep, place⟩]) ∧
    (MixesCoalesce links → ∃ diagnostics, parse (spellChain first links) = .error diagnostics) := by
  have hends := Parser.script_chain (Parser.atName_spellChain first links)
  cases hrun : Parser.script (Parser.State.ofString (spellChain first links)) with
  | ok out =>
    obtain ⟨body, last⟩ := out
    obtain ⟨tree, hfirst, hlinks, hclimb, hmix, hclean, hbody⟩ := hends.ok hrun
    have hparse : parse (spellChain first links) = .ok (.ofStatements body) := by
      rw [parse, parseFaults, hrun]
      simp only [hclean]
      rfl
    rw [hparse]
    refine ⟨fun program h => ?_, (by rintro _ ⟨⟩), fun h => ?_⟩
    · obtain rfl := Except.ok.inj h
      refine ⟨tree, ?_, hfirst, hlinks, hclimb, fun other ho hl hc => ?_⟩
      · rw [Program.relocate, Program.body_ofStatements, hbody]
        rfl
      · exact hc.eq_of_links hclimb (ho.trans hfirst.symm) (hl.trans hlinks.symm)
    · rw [← hlinks] at h
      exact absurd h (hmix.not_mixes hclimb)
  | error abort =>
    have hparse : parse (spellChain first links) =
        .error (abort.faults.toList.map (Fault.diagnose (spellChain first links))) := by
      rw [parse, parseFaults, hrun]
      rfl
    rw [hparse]
    refine ⟨(by rintro _ ⟨⟩), fun diagnostics h => ?_, fun _ => ⟨_, rfl⟩⟩
    obtain rfl := Except.error.inj h
    rcases hends.error hrun with ⟨place, hfaults⟩ | hmix | ⟨hzero, -⟩
    · refine Or.inr ⟨place, ?_⟩
      rw [hfaults]
      rfl
    · exact Or.inl hmix
    · cases hzero

/-- A chain with operators that group to the left, one that binds tighter, and two that group to the
right. -/
def sumWithPowers : Accepted (spellChain .letter [(.subtract, .letter), (.add, .letter),
    (.multiply, .letter), (.power, .letter), (.power, .letter)]) fun _ => true :=
  .ofRun (by decide +kernel)

/-- The theorem at `x - x + x * x ** x ** x`, which is grouped, and at `x ?? x || x`, which is
refused. -/
theorem parse_climbs_sumWithPowers :
    (∃ program, parse (spellChain .letter [(.subtract, .letter), (.add, .letter),
        (.multiply, .letter), (.power, .letter), (.power, .letter)]) = .ok program ∧
      program.relocate (fun _ _ => .unset) = OperatorTree.toProgram
        (.node .add (.node .subtract (.operand .letter) (.operand .letter))
          (.node .multiply (.operand .letter)
            (.node .power (.operand .letter)
              (.node .power (.operand .letter) (.operand .letter)))))) ∧
    ∃ diagnostics, parse (spellChain .letter [(.coalesce, .letter), (.or, .letter)]) =
      .error diagnostics := by
  constructor
  · obtain ⟨program, h, -⟩ := sumWithPowers
    obtain ⟨tree, htree, -, -, -, hunique⟩ := (parse_climbs _ _).1 program h
    refine ⟨program, h, ?_⟩
    rw [htree, ← hunique (.node .add (.node .subtract (.operand .letter) (.operand .letter))
      (.node .multiply (.operand .letter) (.node .power (.operand .letter)
        (.node .power (.operand .letter) (.operand .letter))))) rfl rfl ?_]
    simp [OperatorTree.IsClimbing, OperatorTree.root?, BinaryOperator.AdmitsLeft,
      BinaryOperator.AdmitsRight, BinaryOperator.precedence, BinaryOperator.IsRightAssociative]
  · refine (parse_climbs _ _).2.2 ⟨⟨_, List.mem_cons_self, rfl⟩, ?_⟩
    exact ⟨_, List.mem_cons_of_mem _ List.mem_cons_self, rfl⟩

end EcmaScript

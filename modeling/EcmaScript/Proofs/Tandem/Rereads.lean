import EcmaScript.Parser.Basic
import EcmaScript.Proofs.Tandem.Follows

/-!
# A slash where a statement starts

Where a statement starts, a slash opens a regular expression. The lexer may have read it as an
operator, if a parenthesis or a name comes before it, and then it is read again only where an
operand is asked for. But on the way from a statement down to its first operand nothing is taken and
nothing else can start with a slash, so it makes no difference if the slash is read again at once.
-/

namespace EcmaScript.Parser

open Lexer Place Relation

/-- The state with a slash read again as the start of a regular expression. -/
def State.reread (s : State) : State := { s with lexer := s.lexer.rescanSlash }

/-- It makes no difference to what the parser accepts if a slash has been read again before. -/
def Rereads {α : Type} (p : Parser α) : Prop :=
  ∀ (s : State) (out : α × State), isSlash s.lexer.token.kind = true → p s = .ok out →
    p s.reread = .ok out

/-- A slash that is read again starts where it did. -/
theorem State.offset_reread {s : State} (h : isSlash s.lexer.token.kind = true) :
    s.reread.offset = s.offset := by
  rw [offset, reread, rescanSlash_eq (isSlash_iff.mp h)]
  rfl

/-- A slash that is read again opens a regular expression. -/
theorem State.kind_reread {s : State} (h : isSlash s.lexer.token.kind = true) :
    s.reread.lexer.token.kind = .regex := by
  rw [reread, rescanSlash_eq (isSlash_iff.mp h)]
  exact kind_regexLiteral _

/-- Nothing else is read again. -/
theorem State.reread_of_isSlash {s : State} (h : isSlash s.lexer.token.kind = false) :
    s.reread = s := by
  rw [reread, rescanSlash_of_isSlash h]

/-- The state is still that of a parser of the text. -/
theorem State.Sound.reread {text : String} {s : State} (hs : s.Sound text) :
    Along text s s.reread := by
  cases hk : isSlash s.lexer.token.kind with
  | false =>
    rw [State.reread_of_isSlash hk]
    exact ⟨hs, hs, .refl⟩
  | true =>
    have hstep := Step.slash (p := s.place) (isSlash_iff.mp hk)
    exact ⟨hs, ⟨hstep.sound hs.place, hs.isSyntactic⟩, .single hstep⟩

section

variable {α β : Type} {p : Parser α}

/-- What accepts nothing is not concerned. -/
theorem Rereads.of_fails (h : ∀ s, Fails p s) : Rereads p := fun s out _ hrun =>
  absurd hrun (h s out)

/-- What comes behind a parser is not concerned. -/
theorem Rereads.bind {f : α → Parser β} (h : Rereads p) : Rereads (p >>= f) := by
  rintro s ⟨b, s'⟩ hs hrun
  obtain ⟨a, s₁, hp, hf⟩ := bind_eq_ok hrun
  exact (bind_run (h s (a, s₁) hs hp)).trans hf

/-- Looking at the offset makes no difference. -/
theorem Rereads.offset {f : Nat → Parser β} (h : ∀ start, Rereads (f start)) :
    Rereads (Parser.offset >>= f) := by
  intro s out hs hrun
  calc (Parser.offset >>= f) s.reread = f s.reread.offset s.reread := bind_run rfl
    _ = f s.offset s.reread := by rw [State.offset_reread hs]
    _ = .ok out := h s.offset s out hs ((bind_run rfl).symm.trans hrun)

/-- Taking the pending default makes no difference. -/
theorem Rereads.takeCoverInit {f : Option Nat → Parser β} (h : ∀ outer, Rereads (f outer)) :
    Rereads (Parser.takeCoverInit >>= f) := by
  intro s out hs hrun
  exact h s.coverInit { s with coverInit := none } out hs hrun

/-- Where neither a slash nor a regular expression has a meaning of its own. -/
theorem Rereads.kind {f : TokenKind → Parser β} {r : Parser β} (hslash : f (.mark .slash) = r)
    (hassign : f (.mark .slashAssign) = r) (hregex : f .regex = r) (h : Rereads r) :
    Rereads (Parser.kind >>= f) := by
  intro s out hs hrun
  have hkind : f s.lexer.token.kind = r := by
    rcases isSlash_iff.mp hs with hk | hk
    · rw [hk, hslash]
    · rw [hk, hassign]
  have hr : r s = .ok out := by
    rw [← hkind]
    exact (bind_run rfl).symm.trans hrun
  calc (Parser.kind >>= f) s.reread = f s.reread.lexer.token.kind s.reread := bind_run rfl
    _ = r s.reread := by rw [State.kind_reread hs, hregex]
    _ = .ok out := h s out hs hr

/-- Another token decides. -/
theorem Rereads.isAt {k : TokenKind} {f : Bool → Parser β} (hk : isFirm k = true ∨ k = .endOfFile)
    (h : Rereads (f false)) : Rereads (Parser.isAt k >>= f) := by
  have hne : ∀ {k' : TokenKind}, (isSlash k' = true ∨ k' = .regex) → (k' == k) = false := by
    intro k' hk'
    refine beq_eq_false_iff_ne.mpr ?_
    rintro rfl
    rcases hk with hk | rfl
    · rcases hk' with hk' | rfl
      · exact Bool.false_ne_true ((isSlash_of_isFirm hk).symm.trans hk')
      · exact Bool.false_ne_true hk
    · rcases hk' with hk' | hk'
      · exact Bool.false_ne_true hk'
      · cases hk'
  refine .kind (f := fun k' => f (k' == k)) (r := f false) ?_ ?_ ?_ h
  · rw [hne (Or.inl rfl)]
  · rw [hne (Or.inl rfl)]
  · rw [hne (Or.inr rfl)]

end

section

variable {g : Grammar} (ctx : Context)

/-- A primary expression is what reads a slash again itself. -/
theorem primary_rereads : Rereads (primary g ctx) := by
  intro s out hs hrun
  refine Eq.trans ?_ hrun
  have hregex : primary g ctx s.reread = (do return .regex (← takeRegex) : Parser _) s.reread := by
    refine (bind_run (p := offset) rfl).trans ((bind_run (p := kind) rfl).trans ?_)
    rw [State.kind_reread hs]
  rw [hregex]
  refine Eq.symm ((bind_run (p := offset) rfl).trans ((bind_run (p := kind) rfl).trans ?_))
  rcases isSlash_iff.mp hs with hk | hk
  · rw [hk]
    rfl
  · rw [hk]
    rfl

/-- The token decides what an operand starts with, and a slash starts a primary expression. -/
theorem operandBase_rereads : Rereads (operandBase g ctx) :=
  .kind rfl rfl rfl (primary_rereads ctx)

/-- An operand starts with its base. -/
theorem operand_rereads : Rereads (operand g ctx) :=
  .offset fun _ => .takeCoverInit fun _ => .bind (operandBase_rereads ctx)

/-- A slash is no prefix operator. -/
theorem unaryExpression_rereads : Rereads (unaryExpression g ctx) :=
  .kind rfl rfl rfl (.offset fun _ => .bind (operand_rereads ctx))

/-- A binary expression starts with its first operand. -/
theorem binaryExpression_rereads (min : Precedence) : Rereads (binaryExpression g ctx min) :=
  .offset fun _ => .bind (unaryExpression_rereads ctx)

/-- A conditional expression starts with its condition. -/
theorem conditionalExpression_rereads : Rereads (conditionalExpression g ctx) :=
  .offset fun _ => .bind (binaryExpression_rereads ctx 0)

/-- An assignment starts with its target, as `yield` is no slash. -/
theorem assignmentExpression_rereads : Rereads (assignmentExpression g ctx) := by
  refine .isAt (Or.inl rfl) (.offset fun _ => .takeCoverInit fun _ => ?_)
  exact .bind (conditionalExpression_rereads ctx)

/-- An expression that no pattern can claim starts as any other. -/
theorem closed_rereads {α : Type} {p : Parser α} (h : Rereads p) : Rereads (closed p) :=
  .takeCoverInit fun _ => .bind h

end

/-- It makes no difference to statements and expressions if a slash has been read again before. -/
structure Nested.Rereads (g : Nested) : Prop where
  statement : ∀ ctx, Parser.Rereads (g.statement ctx)
  assignment : ∀ ctx, Parser.Rereads (g.assignment ctx)

section

variable {g : Nested} (hg : g.Rereads) (ctx : Context)
include hg

/-- An expression statement starts with its expression. -/
theorem expressionStatement_rereads : Rereads (expressionStatement g ctx) :=
  .offset fun _ => .bind (closed_rereads (.offset fun _ => .bind (hg.assignment ctx.allowIn)))

/-- A slash starts no statement but that of an expression. -/
theorem plainStatement_rereads : Rereads (plainStatement g ctx) :=
  .kind rfl rfl rfl (expressionStatement_rereads hg ctx)

/-- A slash is no keyword, so the statement is a plain one. -/
theorem statement_rereads {heritage : Context → Parser Expression} :
    Rereads (statement ⟨g, heritage⟩ ctx) :=
  .offset fun _ => .kind rfl rfl rfl (plainStatement_rereads hg ctx)

/-- What holds one level further in holds on a level. -/
theorem Nested.Rereads.around : g.around.Rereads where
  statement ctx := statement_rereads hg ctx
  assignment ctx := assignmentExpression_rereads ctx

end

/-- Beyond the last level nothing is accepted. -/
theorem Nested.tooDeep_rereads : Nested.tooDeep.Rereads where
  statement _ := .of_fails fun _ => failHere_fails
  assignment _ := .of_fails fun _ => failHere_fails

/-- On every level a slash may have been read again. -/
theorem Nested.ofDepth_rereads (n : Nat) : (Nested.ofDepth n).Rereads := by
  induction n with
  | zero => exact tooDeep_rereads
  | succ n ih => exact ih.around

/-- Behind a statement a parser is followed that reads a slash again, if it is where the slash has
been read again. -/
theorem Tracks.of_reread {w : Tandem} {e : Mode} {K : Prop} {n : Nat} {α γ : Type}
    {stops : α → State → Prop} {φ : α → γ} {p : Parser α} {q : Parser γ} {s t : State}
    (hp : Rereads p) (h : ∀ s, Tracks w .inside e K n stops φ p q s t) :
    Tracks w .behind e K n stops φ p q s t := by
  cases hslash : isSlash s.lexer.token.kind with
  | false => exact (h s).unslashed hslash
  | true =>
    intro hs hb a s' hrun
    obtain ⟨hs', hway, hend⟩ := h s hs hb a s' hrun
    refine ⟨hs', hway, fun ha hc hk hin => ?_⟩
    cases Nearly.nigh hin with
    | near hnear => exact hend ha hc hk { Mode.level hin with near := hnear }
    | reread _ _ _ hnear =>
      have honto := hs.reread
      have hb' : Stands w s.reread := ⟨Nat.le_trans hb.base_le honto.offset_le, hb.implied_le⟩
      obtain ⟨-, hway', hend'⟩ := h s.reread honto.sound hb' a s' (hp s (a, s') hslash hrun)
      have hclean : s.reread.lexer.faults = #[] :=
        w.ahead_clean (w.ahead_of_way hway' ha (Nat.zero_le _) (Nat.zero_le _))
      exact hend' ha hc hk { Mode.level hin with near := hnear hclean }

end EcmaScript.Parser

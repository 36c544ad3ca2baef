import EcmaScript.Proofs.Build.Operand
import EcmaScript.Proofs.Tandem.Primary

/-!
# Operands in step

What is attached to an operand is announced by its first token, so an operand of the other text ends
where that of the first text does. Where nothing is attached, the stretch may end right behind the
operand.
-/

namespace EcmaScript.Parser

open Place Sketch

section

variable {w : Tandem} {K : Prop} {s t : State} {g : Nested}

/-- Whether an expression is an arrow function that ends at a given offset. -/
def completesAt (consumed : Nat) (e : Expression) : Bool :=
  e.isArrow && Position.offset e.span.stop == consumed

/-- Whether an arrow function is complete depends on its end alone. -/
theorem isCompleteArrow_completesAt (e : Expression) (s : State) :
    isCompleteArrow e s = .ok (completesAt s.consumed e, s) := isCompleteArrow_eq e s

@[simp] theorem isArrow_relocate (f : Relocation) (e : Expression) :
    (e.relocate f).isArrow = e.isArrow := by
  cases e <;> rfl

/-- An arrow function is complete in the other text if and only if it is in the first. -/
theorem InStep.completesAt_eq (hin : InStep w s t) (hb : Begun w s) (e : Expression) :
    completesAt t.consumed (e.relocate w.relocation) = completesAt s.consumed e := by
  rw [completesAt, completesAt, isArrow_relocate, Node.span_relocate_expression, hin.consumed,
    hb.reach]
  congr 1
  rw [Bool.eq_iff_iff, beq_iff_eq, beq_iff_eq]
  exact ⟨w.stop_inj hb.base_lt, congrArg w.stop⟩

/-- An arrow function is complete in both texts or in none. -/
theorem Tracks.isCompleteArrow {β δ : Type} {n : Nat} {ψ : β → δ} {Q : β → State → Prop}
    {f : Bool → Parser β} {f' : Bool → Parser δ} (e : Expression) (hb : Begun w s)
    (h : Follows w K n Q ψ (f (completesAt s.consumed e)) (f' (completesAt s.consumed e)) s t) :
    Follows w K n Q ψ (Parser.isCompleteArrow e >>= f)
      (Parser.isCompleteArrow (e.relocate w.relocation) >>= f') s t :=
  .read (isCompleteArrow_completesAt e s) (isCompleteArrow_completesAt _ t)
    (h.congr fun _ hin => by rw [InStep.completesAt_eq hin hb])

/-- Names behind a dot are read in step. -/
theorem memberName_follows (ctx : Context) :
    Follows w K 1 anywhere (MemberName.relocate w.span) (memberName (ctx.widen w.base))
      (memberName (w.context ctx)) s t := by
  refine .read rfl rfl (.alike (.branch (m := 1) (fun hk => ?_) (fun _ => ?_)
    (fun hk _ _ _ _ ha => ?_) (fun hk _ _ _ _ ha => ?_) (Nat.le_refl 1)))
  · refine .ite Iff.rfl (fun _ => ?_) fun _ => .error failHere_fails.bind
    exact .map (takePrivateName_follows (by simp [eq_of_beq hk])) (fun _ => rfl) fun _ _ => id
  · refine .orElse unexpected_fails (fun ha _ hk => ?_) fun hk => ?_
    · rwa [ha.2.twin.kind]
    · have hne := ne_endOfFile_of_isOrdinary (isOrdinary_of_isIdentifierName hk)
      exact .map (takeIdentifier_follows hne) (fun _ => rfl) fun _ _ => id
  · rwa [ha.2.twin.kind]
  · rwa [ha.2.twin.kind]

/-- Keys in brackets are read in step. -/
theorem computedMember_follows (hg : g.Keeps w) (ctx : Context) :
    Follows w K 1 anywhere (Node.relocate w.relocation) (computedMember g (ctx.widen w.base))
      (computedMember g (w.context ctx)) s t := by
  refine .expect rfl fun s₁ t₁ _ _ => .bind (hg.expression ctx.allowIn) fun e s₂ t₂ _ => ?_
  exact .expect rfl fun _ _ _ _ => .pure rfl

/-- Arguments are read in step. -/
theorem arguments_follows (hg : g.Keeps w) (ctx : Context) :
    Follows w K 1 anywhere (List.map (Node.relocate w.relocation)) (arguments g (ctx.widen w.base))
      (arguments g (w.context ctx)) s t := by
  refine .expect rfl fun s₁ t₁ _ _ => ?_
  refine .before (commaList_follows fun _ _ _ => .freely (spreadable_follows fun _ _ _ =>
    hg.value ctx.allowIn)) fun items s₂ t₂ _ => ?_
  exact .expect rfl fun _ _ _ _ => .pure rfl

/-- Optional links are read in step. -/
theorem optionalLink_follows (hg : g.Keeps w) (ctx : Context) (start : Nat) (object : Expression) :
    Follows w K 1 anywhere (Node.relocate w.relocation)
      (optionalLink g (ctx.widen w.base) start object)
      (optionalLink g (w.context ctx) (w.start start) (object.relocate w.relocation)) s t := by
  refine .kind ?_
  split
  · refine .andThen (arguments_follows hg ctx) fun items s₁ t₁ _ hb => .node hb fun span => ?_
    rw [← Node.mapExpressions_eq]
    rfl
  · exact .andThen (computedMember_follows hg ctx) fun _ _ _ _ hb => .node hb fun _ => rfl
  · exact .error failHere_fails
  · exact .error failHere_fails
  · exact .andThen (memberName_follows ctx) fun _ _ _ _ hb => .node hb fun _ => rfl

/-- An operand so many bytes further to the left, with whether an optional link was met. -/
abbrev relocateOperand (f : Relocation) (a : Expression × Bool) :
    Expression × Bool := (a.1.relocate f, a.2)

/-- Whether a token is attached to the operand before it. -/
def isAttached (behindNew : Bool) (k : TokenKind) : Bool :=
  isSubscript k && !(k == .mark .openParen && behindNew)

/-- What a token announces is attached in both texts. -/
theorem attach_follows (hg : g.Keeps w) (ctx : Context) (start : Nat) {behindNew : Bool}
    (operand : Expression) (chained : Bool)
    (hk : isAttached behindNew s.lexer.token.kind = true) :
    Follows w K 1 anywhere (Round.map (relocateOperand w.relocation) (relocateOperand w.relocation))
      (attach g (ctx.widen w.base) start behindNew operand chained s.lexer.token.kind)
      (attach g (w.context ctx) (w.start start) behindNew (operand.relocate w.relocation) chained
      s.lexer.token.kind) s t := by
  unfold attach
  split
  · rename_i hk
    refine .bind (advance_follows (by simp [hk])) fun _ s₁ t₁ _ => ?_
    exact .andThen (memberName_follows ctx) fun _ _ _ _ hb => .node hb fun _ => rfl
  · rename_i hk
    refine .refuse failHere_fails (fun _ _ => id) fun _ => ?_
    refine .bind (advance_follows (by simp [hk])) fun _ s₁ t₁ _ => ?_
    exact .map (optionalLink_follows hg ctx start operand) (fun _ => rfl) fun _ _ => id
  · exact .andThen (computedMember_follows hg ctx) fun _ _ _ _ hb => .node hb fun _ => rfl
  · rename_i hparen
    refine .ite Iff.rfl (fun hnew => ?_) fun _ => ?_
    · rw [hparen, hnew] at hk
      exact nomatch hk
    · refine .andThen (arguments_follows hg ctx) fun items s₁ t₁ _ hb => .node hb fun span => ?_
      rw [← Node.mapExpressions_eq]
      rfl
  · rename_i hk
    refine .refuse failHere_fails (fun _ _ => id) fun _ => ?_
    refine .andThen (templateLiteral_follows hg ctx true (by rw [hk]; rfl)) fun _ _ _ _ hb => ?_
    exact .node hb fun _ => rfl
  · rename_i hk
    refine .refuse failHere_fails (fun _ _ => id) fun _ => ?_
    refine .andThen (templateLiteral_follows hg ctx true (by rw [hk]; rfl)) fun _ _ _ _ hb => ?_
    exact .node hb fun _ => rfl
  · rename_i hdot hquestion hbracket hparen htemplate hhead
    have hnot : isSubscript s.lexer.token.kind = false := by
      unfold isSubscript
      split <;> first | rfl | simp_all
    rw [isAttached, hnot] at hk
    exact nomatch hk

/-- A token that attaches nothing leaves the operand as it is. -/
theorem attach_of_not_isAttached {ctx : Context} {start : Nat} {behindNew : Bool}
    {operand : Expression} {chained : Bool} {k : TokenKind} (hk : isAttached behindNew k = false) :
    attach g ctx start behindNew operand chained k = pure (.done (operand, chained)) := by
  unfold attach
  split
  · exact nomatch hk
  · exact nomatch hk
  · exact nomatch hk
  · cases behindNew with
    | true => rfl
    | false => exact nomatch hk
  · exact nomatch hk
  · exact nomatch hk
  · rfl

/-- Where nothing is attached, the operand stays as it is. -/
theorem subscript_run {ctx : Context} {start : Nat} {behindNew : Bool} (a : Expression × Bool)
    (hk : isAttached behindNew s.lexer.token.kind = false)
    (hc : isSubscript s.lexer.token.kind = true → s.coverInit = none) :
    subscript g ctx start behindNew a s = .ok (.done a, s) := by
  obtain ⟨operand, chained⟩ := a
  rw [subscript_eq]
  refine (bind_run (a := s.lexer.token.kind) rfl).trans ?_
  cases hsub : isSubscript s.lexer.token.kind with
  | false =>
    rw [if_neg Bool.false_ne_true, attach_of_not_isAttached hk]
    rfl
  | true =>
    rw [if_pos rfl, attach_of_not_isAttached hk]
    have hcheck : checkCoverInit s = .ok ((), s) := by
      refine (bind_run (a := s) rfl).trans ?_
      rw [hc hsub]
      rfl
    exact bind_run hcheck

/-- Nothing is attached to an operand with an unclaimed default. -/
theorem subscript_fails {ctx : Context} {start place : Nat} {behindNew : Bool}
    (a : Expression × Bool) (hk : isSubscript s.lexer.token.kind = true)
    (hc : s.coverInit = some place) : Fails (subscript g ctx start behindNew a) s := by
  obtain ⟨operand, chained⟩ := a
  rw [subscript_eq]
  refine .step (a := s.lexer.token.kind) rfl ?_
  rw [if_pos hk]
  refine .bind (.step (a := s) rfl ?_)
  rw [hc]
  exact fail_fails

/-- A round in which something is attached. -/
theorem subscript_follows_attached (hg : g.Keeps w) (ctx : Context) (start : Nat) {behindNew : Bool}
    (a : Expression × Bool) (hk : isAttached behindNew s.lexer.token.kind = true) :
    Follows w K 1 (Round.stops anywhere anywhere)
    (Round.map (relocateOperand w.relocation) (relocateOperand w.relocation))
      (subscript g (ctx.widen w.base) start behindNew a)
      (subscript g (w.context ctx) (w.start start) behindNew (relocateOperand w.relocation
      a)) s t := by
  obtain ⟨operand, chained⟩ := a
  rw [subscript_eq, subscript_eq]
  have hsub : isSubscript s.lexer.token.kind = true := (Bool.and_eq_true_iff.mp hk).1
  refine .kind (.ite Iff.rfl (fun _ => ?_) fun h => absurd hsub h)
  refine .bind checkCoverInit_follows fun _ s₁ t₁ h₁ => ?_
  have hlexer := ((checkCoverInit_meets h₁.before).ok h₁.run).lexer_eq
  rw [← hlexer] at hk ⊢
  exact .freely (attach_follows hg ctx start operand chained hk)

/-- A call or an access is read in step. -/
theorem subscript_follows (hg : g.Keeps w) (ctx : Context) (start : Nat) (behindNew : Bool)
    (a : Expression × Bool) (s t : State) :
    Follows w K 0 (Round.stops anywhere anywhere)
    (Round.map (relocateOperand w.relocation) (relocateOperand w.relocation))
      (subscript g (ctx.widen w.base) start behindNew a)
      (subscript g (w.context ctx) (w.start start) behindNew (relocateOperand w.relocation
      a)) s t := by
  cases hk : isAttached behindNew s.lexer.token.kind with
  | true => exact (subscript_follows_attached hg ctx start a hk).loose (Nat.zero_le 1)
  | false =>
    by_cases hc : isSubscript s.lexer.token.kind = true → s.coverInit = none
    · refine .of_base fun _ hs => .congr_run (r := pure (.done a)) (.congr (.pure rfl)
        fun _ hin => ?_)
        (subscript_run a hk hc)
      -- At the end of the stretch nothing is attached either.
      rcases InStep.cases hin hs with ha | hend
      · refine subscript_run _ (by rw [ha.twin.kind]; exact hk) fun hsub => hin.coverInit (hc ?_)
        rwa [ha.twin.kind] at hsub
      · have hnot : isSubscript t.lexer.token.kind = false :=
          hend.of_kind (motive := fun k => isSubscript k = false) rfl rfl
        refine subscript_run _ (by rw [isAttached, hnot]; rfl) fun hsub => ?_
        exact absurd hsub (Bool.eq_false_iff.mp hnot)
    · obtain ⟨hsub, hne⟩ := Classical.not_imp.mp hc
      obtain ⟨place, hplace⟩ := Option.ne_none_iff_exists'.mp hne
      exact .error (subscript_fails a hsub hplace)

/-- What is left of attaching when the loop is over. -/
theorem chain_follows (start : Nat) (a : Expression × Bool) (hb : Begun w s) :
    Follows w K 0 anywhere (Node.relocate w.relocation)
      (do if a.2 then return .optionalChain (← spanFrom start) a.1 else return a.1)
      (do
        if (relocateOperand w.relocation a).2 then
          return .optionalChain (← spanFrom (w.start start)) (relocateOperand w.relocation a).1
        else return (relocateOperand w.relocation a).1) s t :=
  .ite Iff.rfl (fun _ => .node hb fun _ => rfl) fun _ => .pure rfl

/-- Calls and accesses one behind the other are read in step. -/
theorem subscriptLoop_follows (hg : g.Keeps w) (ctx : Context) (start : Nat) (behindNew : Bool)
    (a : Expression × Bool) :
    Follows w K 0 anywhere (relocateOperand w.relocation)
      (iterate (subscript g (ctx.widen w.base) start behindNew) a)
      (iterate (subscript g (w.context ctx) (w.start start) behindNew) (relocateOperand w.relocation
      a)) s t :=
  iterate_follows (χ := relocateOperand w.relocation) (I := fun _ _ => True) (N := True)
    (fun a s t _ => subscript_follows hg ctx start behindNew a s t) (fun _ _ _ _ _ _ => trivial)
    (fun _ _ _ => Or.inl trivial) trivial

/-- All calls and accesses of an operand are read in step. -/
theorem subscripts_follows (hg : g.Keeps w) (ctx : Context) (start : Nat) (behindNew : Bool)
    (operand : Expression) (hb : Begun w s) :
    Follows w K 0 anywhere (Node.relocate w.relocation)
      (subscripts g (ctx.widen w.base) start behindNew operand)
      (subscripts g (w.context ctx) (w.start start) behindNew (operand.relocate w.relocation))
      s t :=
  .bind (subscriptLoop_follows hg ctx start behindNew (operand, false)) fun a _ _ h₁ =>
    chain_follows start a (h₁.begun hb)

/-- Attaching goes on from a first token that is attached. -/
theorem subscripts_follows_attached (hg : g.Keeps w) (ctx : Context) (start : Nat)
    {behindNew : Bool} (operand : Expression)
    (hk : isAttached behindNew s.lexer.token.kind = true) :
    Follows w K 1 anywhere (Node.relocate w.relocation)
      (subscripts g (ctx.widen w.base) start behindNew operand)
      (subscripts g (w.context ctx) (w.start start) behindNew (operand.relocate w.relocation))
      s t :=
  .andThen (iterate_follows_round (subscript_follows_attached hg ctx start (operand, false) hk)
    fun a' _ _ _ _ => Or.inr ⟨subscriptLoop_follows hg ctx start behindNew a', fun _ _ _ => id⟩)
    fun a _ _ _ hb => chain_follows start a hb

/-- Where the first token is not attached, the operand stays as it is. -/
theorem subscripts_run {ctx : Context} {start : Nat} {behindNew : Bool} {operand e : Expression}
    {s' : State} (hk : isAttached behindNew s.lexer.token.kind = false)
    (h : subscripts g ctx start behindNew operand s = .ok (e, s')) : e = operand ∧ s' = s := by
  obtain ⟨a, s₁, hloop, h⟩ := bind_eq_ok h
  by_cases hc : isSubscript s.lexer.token.kind = true → s.coverInit = none
  · rw [iterate, subscript_run _ hk hc] at hloop
    cases hloop
    cases h
    exact ⟨rfl, rfl⟩
  · obtain ⟨hsub, hne⟩ := Classical.not_imp.mp hc
    obtain ⟨place, hplace⟩ := Option.ne_none_iff_exists'.mp hne
    rw [iterate] at hloop
    cases hround : subscript g ctx start behindNew (operand, false) s with
    | error e =>
      rw [hround] at hloop
      cases hloop
    | ok out => exact absurd hround (subscript_fails _ hsub hplace out)

/-- The token behind the word `super` is attached to it, so it is in the stretch. -/
theorem superBase_run {ctx : Context} {e : Expression} {s' : State}
    (h : superBase ctx s = .ok (e, s')) :
    e.isArrow = false ∧ isSubscript s'.lexer.token.kind = true := by
  obtain ⟨start, s₁, -, h⟩ := bind_eq_ok h
  obtain ⟨_, s₂, -, h⟩ := bind_eq_ok h
  obtain ⟨k, s₃, hkind, h⟩ := bind_eq_ok h
  cases hkind
  have hclose : ∀ allowed : Bool, (do
      unless allowed do fail start .superKeyword
      return (.superBase (← spanFrom start) : Expression)) s₂ = .ok (e, s') →
      (e.isArrow = false ∧ s' = s₂) ∧ allowed = true := by
    intro allowed h
    cases allowed with
    | true => cases h; exact ⟨⟨rfl, rfl⟩, rfl⟩
    | false => exact absurd h (fail_fails.bind _)
  obtain ⟨⟨harrow, rfl⟩, hallowed⟩ := hclose _ h
  refine ⟨harrow, ?_⟩
  split at hallowed
  · rename_i hk
    rw [hk]
    rfl
  · rename_i hk
    rw [hk]
    rfl
  · rename_i hk
    rw [hk]
    rfl
  · cases hallowed

/-- The word `super` is read in step with what it needs behind it. -/
theorem superBase_follows (ctx : Context) (hk : s.lexer.token.kind ≠ .endOfFile) :
    Follows w K 1 (ends (continues ctx)) (Node.relocate w.relocation) (superBase (ctx.widen w.base))
      (superBase (w.context ctx)) s t := by
  refine .imp_passed (P := nowhere) ?_ fun e s' hpass hends => ?_
  · refine .offset fun start _ => .andThen (advance_follows hk) fun _ s₁ t₁ _ hb =>
      .kind_nowhere ?_
    refine .require fail_fails (fun _ _ => id) fun _ => .node hb fun _ => rfl
  · obtain ⟨harrow, hsub⟩ := superBase_run hpass.run
    rcases hends with h | h
    · rw [harrow] at h
      cases h
    · rw [continues, hsub] at h
      cases h

/-- The property of `new` is read in step. -/
theorem newTarget_follows (ctx : Context) (start : Nat) (hb : Begun w s)
    (hk : s.lexer.token.kind ≠ .endOfFile) :
    Follows w K 1 anywhere (Node.relocate w.relocation) (newTarget (ctx.widen w.base) start)
      (newTarget (w.context ctx) (w.start start)) s t := by
  refine .span hb (.bind (advance_follows hk) fun _ s₁ t₁ _ => .isAt_taken (fun hk => ?_) fun _ =>
    .error unexpected_fails.bind)
  refine .require fail_fails (fun _ _ => id) fun _ => ?_
  exact .andThen (takeIdentifier_follows (by simp [hk])) fun _ _ _ _ hb => .node hb fun _ => rfl

end

/-- The arguments behind `new` and its callee, which may be missing. -/
def constructItems (g : Nested) (ctx : Context) (start : Nat) (callee : Expression) :
    Parser Expression := do
  let items ← if ← isAt (.mark .openParen) then arguments g ctx else pure []
  return .construct (← spanFrom start) callee items

section

variable {w : Tandem} {K : Prop} {s t : State} {g : Nested}

/-- Arguments of a construction that are there are read in step. -/
theorem constructItems_follows_taken (hg : g.Keeps w) (ctx : Context) (start : Nat)
    (callee : Expression) (hk : s.lexer.token.kind = .mark .openParen) :
    Follows w K 1 anywhere (Node.relocate w.relocation)
      (constructItems g (ctx.widen w.base) start callee)
      (constructItems g (w.context ctx) (w.start start) (callee.relocate w.relocation)) s t := by
  refine .isAt_taken (fun _ => ?_) fun hne => absurd hk hne
  refine .andThen (arguments_follows hg ctx) fun items s₁ t₁ _ hb => .node hb fun span => ?_
  rw [← Node.mapExpressions_eq]
  rfl

/-- Arguments of a construction are read in step, and are missing in both texts or in none. -/
theorem constructItems_follows (hg : g.Keeps w) (ctx : Context) (start : Nat)
    (callee : Expression) (hb : Begun w s) :
    Follows w K 0 anywhere (Node.relocate w.relocation)
      (constructItems g (ctx.widen w.base) start callee)
      (constructItems g (w.context ctx) (w.start start) (callee.relocate w.relocation)) s t := by
  by_cases hk : s.lexer.token.kind = .mark .openParen
  · exact (constructItems_follows_taken hg ctx start callee hk).loose (Nat.zero_le 1)
  · refine .isAt rfl (fun h => absurd h hk) fun _ => ?_
    exact .read (a := []) (c := []) rfl rfl (.node hb fun _ => rfl)

/-- Something follows the callee of `new`, or the stretch may end behind it. -/
theorem constructFrom_goesOn (hg : g.Keeps w) (ctx : Context) (start calleeStart : Nat)
    (callee : Expression) (s t : State) (hb : Begun w s) :
    GoesOn w .inside K (ends (continues ctx) callee s) (ends (continues ctx))
      (Node.relocate w.relocation)
      (subscripts g (ctx.widen w.base) calleeStart true callee >>=
        constructItems g (ctx.widen w.base) start)
      (subscripts g (w.context ctx) (w.start calleeStart) true (callee.relocate w.relocation) >>=
      constructItems g (w.context ctx) (w.start start)) s t := by
  cases hatt : isAttached true s.lexer.token.kind with
  | true =>
    refine Or.inl (.freely (.first (subscripts_follows_attached hg ctx calleeStart callee hatt) ?_))
    exact fun callee s₁ t₁ h₁ => constructItems_follows hg ctx start callee (h₁.begun hb)
  | false =>
    by_cases hk : s.lexer.token.kind = .mark .openParen
    · refine Or.inl (.freely (.bind (subscripts_follows hg ctx calleeStart true callee hb) ?_))
      intro callee s₁ t₁ h₁
      obtain ⟨rfl, rfl⟩ := subscripts_run hatt h₁.run
      exact constructItems_follows_taken hg ctx start callee hk
    · refine Or.inr ⟨.freely (.bind (subscripts_follows hg ctx calleeStart true callee hb)
        fun callee s₁ t₁ h₁ => constructItems_follows hg ctx start callee (h₁.begun hb)),
          fun e s' hrun hends => ?_⟩
      obtain ⟨callee', s₁, hsubscripts, hitems⟩ := bind_eq_ok hrun
      obtain ⟨rfl, rfl⟩ := subscripts_run hatt hsubscripts
      obtain ⟨isParen, s₂, hparen, hitems⟩ := bind_eq_ok hitems
      cases hparen
      rw [beq_eq_false_iff_ne.mpr hk] at hitems
      cases hitems
      exact Or.inr (hends.resolve_left Bool.false_ne_true)

end

section

variable {w : Tandem} {K K₀ : Prop} {s t : State} {g g' : Grammar}

/-- Constructions are read in step. -/
theorem construct_follows (hg : g.Keeps w K₀ g') (ctx : Context)
    (hk : s.lexer.token.kind ≠ .endOfFile) :
    Follows w K 1 (ends (continues ctx)) (Node.relocate w.relocation)
    (construct g (ctx.widen w.base))
      (construct g' (w.context ctx)) s t := by
  unfold construct
  rw [hg.toNested_eq]
  refine .offset fun start _ => .bind (advance_follows hk) fun _ s₁ t₁ h₁ => ?_
  have hb := (advance_follows (K := True) (t := t) hk).begun h₁
  refine .isAt_taken (fun hdot => .freely (newTarget_follows ctx start hb (by simp [hdot])))
    fun _ => .offset fun calleeStart _ => ?_
  exact .bind_or (hg.nested.newCallee ctx s₁ t₁) fun callee s₂ t₂ h₂ =>
    constructFrom_goesOn hg.nested ctx start calleeStart callee s₂ t₂ (h₂.begun hb)

/-- What an operand begins with is read in step. -/
theorem operandBase_follows (hg : g.Keeps w K₀ g') (hK : K → K₀) (ctx : Context) :
    Follows w K 1 (ends (continues ctx)) (Node.relocate w.relocation)
    (operandBase g (ctx.widen w.base))
      (operandBase g' (w.context ctx)) s t := by
  refine .kind ?_
  split
  · rename_i hk
    exact construct_follows hg ctx (by simp [hk])
  · rename_i hk
    exact superBase_follows ctx (by simp [hk])
  · exact primary_follows hg hK ctx

/-- All that is attached to an operand, unless it is a complete arrow function. -/
def attachAll (g : Nested) (ctx : Context) (start : Nat) (base : Expression) :
    Parser Expression := do
  if ← isCompleteArrow base then pure base else subscripts g ctx start false base

/-- An operand is its base with all that is attached to it. -/
theorem operand_eq (g : Grammar) (ctx : Context) :
    operand g ctx = (do
      let start ← offset
      let outer ← takeCoverInit
      let expression ← operandBase g ctx >>= attachAll g.toNested ctx start
      mergeCoverInit outer
      return expression) := by
  unfold operand attachAll
  simp only [bind_assoc, ite_bind]

/-- Something is attached to an operand, or the stretch may end behind it. -/
theorem attachAll_goesOn {g : Nested} (hg : g.Keeps w) (ctx : Context) (start : Nat)
    (base : Expression) (s t : State) (hb : Begun w s) :
    GoesOn w .inside K (ends (continues ctx) base s) (ends (isInOperator ctx))
      (Node.relocate w.relocation)
      (attachAll g (ctx.widen w.base) start base)
      (attachAll g (w.context ctx) (w.start start) (base.relocate w.relocation)) s t := by
  have hloose : Follows w K 0 (ends (isInOperator ctx)) (Node.relocate w.relocation)
      (attachAll g (ctx.widen w.base) start base)
      (attachAll g (w.context ctx) (w.start start) (base.relocate w.relocation)) s t :=
    .freely (.isCompleteArrow base hb (.ite Iff.rfl (fun _ => .pure rfl) fun _ =>
      subscripts_follows hg ctx start false base hb))
  cases hcomplete : completesAt s.consumed base with
  | true => exact Or.inr ⟨hloose, fun _ _ _ _ => Or.inl (Bool.and_eq_true_iff.mp hcomplete).1⟩
  | false =>
    cases hatt : isAttached false s.lexer.token.kind with
    | true =>
      refine Or.inl (.freely (.isCompleteArrow base hb ?_))
      rw [hcomplete]
      exact subscripts_follows_attached hg ctx start base hatt
    | false =>
      refine Or.inr ⟨hloose, fun e s' hrun hends => ?_⟩
      rw [attachAll, bind_run (isCompleteArrow_completesAt base s), hcomplete] at hrun
      obtain ⟨rfl, rfl⟩ := subscripts_run hatt hrun
      refine hends.imp_right fun hin => ?_
      have hsub : isSubscript s'.lexer.token.kind = false := by simpa [isAttached] using hatt
      rw [continues, hsub, hin]
      rfl

/-- Operands are read in step. -/
theorem operand_follows (hg : g.Keeps w K₀ g') (hK : K → K₀) (ctx : Context) :
    Follows w K 1 (ends (isInOperator ctx)) (Node.relocate w.relocation)
    (operand g (ctx.widen w.base))
      (operand g' (w.context ctx)) s t := by
  rw [operand_eq, operand_eq, hg.toNested_eq]
  refine .offset fun start _ => .setCoverInit rfl rfl (fun _ _ _ => rfl) ?_
  refine .bind_of (n := 0) (.bind_or (operandBase_follows hg (fun hk => hK hk.1) ctx)
    fun base s₁ t₁ h₁ => attachAll_goesOn hg.nested ctx start base s₁ t₁ ?_)
    (fun e s₁ t₁ _ => .mergeCoverInit (fun hk => hk.1.2.coverInit) fun _ _ _ _ => .pure rfl)
    (fun e s₁ e' s₂ _ hpass _ _ hc => ?_) (Nat.le_refl 1) (Nat.le_refl _)
    (Mode.lead_le_add _ 1) (Nat.le_refl _)
  · exact (operandBase_follows (t := t₁) hg hK ctx).begun h₁
  · cases hpass.run
    exact hc

end

/-- The parsers of a level are followed if those of the levels further in are. -/
theorem Nested.Keeps.grammar {w : Tandem} {g : Nested} (hg : g.Keeps w) :
    Grammar.Keeps w True g.grammar g.grammar where
  nested := hg
  toNested_eq := rfl
  heritage ctx s t _ _ := by
    refine recursive_follows (ω := Context.widen w.base) (P := fun ctx => ends (isInOperator ctx))
      (fun K₀ again again' hagain K ctx s t hK => ?_) ctx
    have hgrammar : Grammar.Keeps w K₀ { g with heritage := again } { g with heritage := again' } :=
      ⟨hg, rfl, fun ctx s t hK hb => hagain _ ctx s t hK hb.base_lt⟩
    exact operand_follows hgrammar hK ctx

end EcmaScript.Parser

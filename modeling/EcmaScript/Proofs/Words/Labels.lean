import EcmaScript.Proofs.Words.Chain

/-!
# Chains of labels

A loop with several labels, one in front of the other, and a jump in its body to one of them. The
parser notes for each label whether it is that of a loop. When it comes to a label it looks at the
token behind it, and tells the label right before it what it finds there, but none further out. So
only the last two labels of a chain count as labels of the loop, and a jump to an earlier one is
refused.
-/

namespace EcmaScript

open Lexer

/-- A jump to a label, up to the end of the block that it stands in. -/
def spellJump (target : Name) : List Char :=
  "continue".toList ++ ' ' :: (target.chars ++ ([';'] ++ ' ' :: ['\x7d']))

/-- The loop behind the labels, with a jump to one of them in its body. -/
def spellLoop (target : Name) : List Char :=
  "while".toList ++ ' ' :: '(' ::
    (Name.letter.chars ++ ([')'] ++ ' ' :: (['\x7b'] ++ ' ' :: spellJump target)))

/-- Labels in front of the loop, as they are spelled. -/
def spellLabels (target : Name) : List Name → List Char
  | [] => spellLoop target
  | label :: labels => label.chars ++ ([':'] ++ ' ' :: spellLabels target labels)

/-- A loop with labels, in whose body one of them is continued, as a script. -/
def spellLabeled (labels : List Name) (target : Name) : String :=
  .ofList (labels.flatMap (fun label => label.chars ++ [':', ' ']) ++
    "while (x) \x7b continue ".toList ++ target.chars ++ "; \x7d".toList)

/-- The characters of a labeled loop. -/
theorem toList_spellLabeled (labels : List Name) (target : Name) :
    (spellLabeled labels target).toList = spellLabels target labels := by
  rw [spellLabeled, String.toList_ofList]
  induction labels with
  | nil =>
    rw [List.flatMap_nil, List.nil_append, List.append_assoc]
    rfl
  | cons label labels ih =>
    simp only [List.append_assoc] at ih ⊢
    rw [List.flatMap_cons, List.append_assoc, ih, spellLabels, List.append_assoc]
    rfl

namespace Parser

/-- The end of the nesting that is allowed. -/
def IsTooDeep (faults : Array Fault) : Prop := ∃ place, faults = #[⟨.nestingTooDeep, place⟩]

/-- Why a jump to a label is refused: for its depth, or because the label is not that of a loop. -/
def RefusesJump (isLoop : Bool) (faults : Array Fault) : Prop :=
  IsTooDeep faults ∨ isLoop = false ∧ ∃ place, faults = #[⟨.illegalContinue, place⟩]

section

variable {text : String} {s : State} {k : TokenKind} {rest : List Char} {target : Name}
  {ctx : Context} {label : Label}

/-- A parser that aborts for the depth only. -/
theorem tooDeep_ends {α : Type} {Q : α → State → Prop} (h : At text s k rest) :
    Settles (failHere .nestingTooDeep) s Q IsTooDeep := by
  refine .of_error (e := ⟨#[⟨.nestingTooDeep, s.offset⟩]⟩) ?_ ⟨_, rfl⟩
  show Except.error (Abort.mk (s.lexer.faults.push _)) = _
  rw [h.isAt.faults]
  rfl

/-- A jump to a label of the context ends when the label is that of a loop, and is refused else. -/
theorem continueStatement_ends
    (h : At text s (.word .continueKw) (' ' :: (target.chars ++ ([';'] ++ ' ' :: ['\x7d']))))
    (hlabel : ctx.label? target.value = some label) :
    Settles (continueStatement ctx) s
      (fun _ s' => label.isLoop = true ∧ At text s' (.mark .closeBrace) [] ∧
        s.consumed < s'.consumed)
      (RefusesJump label.isLoop) := by
  obtain ⟨hname, hvalue⟩ := h.next_name_blank rfl rfl (closes_cons (by decide))
  have hmark := hname.next (.mark .semicolon) rfl rfl
    (closes_cons (by decide))
  have hlast : At text s.next.next (.mark .semicolon) (' ' :: (['\x7d'] ++ [])) := hmark
  have hclose := hlast.next_blank (.mark .closeBrace) rfl rfl closes_nil
  have hlt := Nat.lt_trans (h.consumed_lt rfl)
    (Nat.lt_trans (hname.consumed_lt rfl) (hmark.consumed_lt rfl))
  have hjump : jumpLabel ctx s.next =
      .ok (some (identifierOf s.next.lexer.token), s.next.next) := by
    refine (bind_run (a := false) (by rw [← hname.isAt.lineBreak]; rfl)).trans ?_
    refine (bind_run (a := TokenKind.identifier) (by rw [← hname.kind]; rfl)).trans ?_
    exact bind_run (identifier_run hname.kind)
  refine .step (a := s.offset) rfl (.step advance_run (.step hjump ?_))
  have hid : (identifierOf s.next.lexer.token).name = target.value := hvalue
  simp only [hid, hlabel]
  cases hloop : label.isLoop with
  | true =>
    have hsemicolon : semicolon s.next.next = .ok ((), s.next.next.next) :=
      bind_run (eat_run hmark.kind)
    refine .step hsemicolon ?_
    exact .step (a := Span.ofOffsets s.offset s.next.next.next.consumed) rfl
      (.pure ⟨rfl, hclose, hlt⟩)
  | false =>
    refine .bind (P := fun _ _ => False) (.fail (Or.inr ⟨rfl, s.offset, ?_⟩)) (fun _ => id)
      fun _ _ h => h.elim
    rw [hmark.isAt.faults]
    rfl

/-- The block with the jump, and the end of the text behind it. -/
theorem block_ends (n : Nat) (h : At text s (.mark .openBrace) (' ' :: spellJump target))
    (hlabel : ctx.label? target.value = some label) :
    Settles ((Nested.ofDepth n).block ctx) s
      (fun _ s' => label.isLoop = true ∧ AtLink text s' [] ∧ s.consumed < s'.consumed)
      (RefusesJump label.isLoop) := by
  have hjump := h.next_blank (.word .continueKw) rfl rfl
    (closes_cons (by decide))
  refine .step (a := s.offset) rfl (.step (expect_run h.kind) ?_)
  refine .bind (P := fun _ s' => label.isLoop = true ∧ At text s' (.mark .closeBrace) [] ∧
    s.consumed < s'.consumed) (.iterate ?_) (fun _ => id) ?_
  · refine .bind (P := fun item s' => (∃ statement, item = some statement) ∧
      label.isLoop = true ∧ At text s' (.mark .closeBrace) [] ∧ s.next.consumed < s'.consumed)
      ?_ (fun _ => id) ?_
    · refine .step (isAt_run_of_ne hjump.kind (by decide)) ?_
      refine .step (isAt_run_of_ne hjump.kind (by decide)) ?_
      cases n with
      | zero => exact .bind (tooDeep_ends hjump) (fun _ => Or.inl) fun _ _ h => .pure ⟨⟨_, rfl⟩, h⟩
      | succ n =>
        refine .bind (.step (a := s.next.offset) rfl (.step (a := TokenKind.word .continueKw)
          (by rw [← hjump.kind]; rfl) (continueStatement_ends hjump hlabel))) (fun _ => id) ?_
        exact fun statement _ h => .pure ⟨⟨statement, rfl⟩, h⟩
    · rintro _ s' ⟨⟨statement, rfl⟩, hloop, hclose, hlt⟩
      refine .pure ⟨remaining_lt hclose.sound hjump.size hclose.size hlt, .iterate ?_⟩
      refine .step (a := none) (bind_run (isAt_run hclose.kind)) (.pure ?_)
      exact ⟨hloop, hclose, Nat.lt_trans (h.consumed_lt rfl) hlt⟩
  · rintro body s' ⟨hloop, hclose, hlt⟩
    obtain ⟨hend, hclean⟩ := hclose.isAt.scan_end
    refine .step (expect_run hclose.kind) ?_
    refine .step (a := Span.ofOffsets s.offset s'.next.consumed) rfl (.pure ⟨hloop, ?_, ?_⟩)
    · exact ⟨hclose.sound_next rfl, hclose.size, hclose.coverInit, hclean, fun _ => hend,
        fun _ _ _ h => nomatch h⟩
    · exact Nat.lt_trans hlt (hclose.consumed_lt rfl)

/-- A name in front of what ends an expression is the whole expression, but for the depth. -/
theorem expression_ends (n : Nat) (h : At text s .identifier rest)
    (hnext : endsExpression s.next.lexer.token.kind = true) :
    Settles ((Nested.ofDepth n).expression ctx) s (fun _ s' => s' = s.next) IsTooDeep := by
  cases n with
  | zero =>
    have hdeep : Settles ((Nested.ofDepth 0).expressionOrCover ctx) s (fun _ _ => False)
      IsTooDeep :=
      .step (a := s.offset) rfl
        (.bind (P := fun _ _ => False) (tooDeep_ends h) (fun _ => id) fun _ _ h => h.elim)
    refine .step (takeCoverInit_run h.coverInit) ?_
    exact .bind hdeep (fun _ => id) fun _ _ h => h.elim
  | succ n => exact .of_ok (expression_name n h.coverInit h.kind hnext) rfl

/-- The loop, and the end of the text behind it. -/
theorem while_ends (n : Nat)
    (h : At text s (.word .whileKw) (' ' :: '(' ::
      (Name.letter.chars ++ ([')'] ++ ' ' :: (['\x7b'] ++ ' ' :: spellJump target)))))
    (hlabel : ctx.label? target.value = some label) :
    Settles ((Nested.ofDepth n).statement ctx) s
      (fun _ s' => label.isLoop = true ∧ AtLink text s' [] ∧ s.consumed < s'.consumed)
      (RefusesJump label.isLoop) := by
  have hopen := h.next_openParen rfl
  obtain ⟨hname, -⟩ := hopen.next_name rfl rfl (closes_cons (by decide))
  have hclose := hname.next (.mark .closeParen) rfl rfl
    (closes_cons (by decide))
  have hbrace := hclose.next_blank (.mark .openBrace) rfl rfl
    (closes_cons (by decide))
  have hlt := Nat.lt_trans (h.consumed_lt rfl) (Nat.lt_trans (hopen.consumed_lt rfl)
    (Nat.lt_trans (hname.consumed_lt rfl) (hclose.consumed_lt rfl)))
  cases n with
  | zero => exact Settles.weaken (tooDeep_ends h) fun _ => Or.inl
  | succ n =>
    refine .step (a := s.offset) rfl (.step (a := TokenKind.word .whileKw)
      (by rw [← h.kind]; rfl) (.step (a := s.offset) rfl ?_))
    refine .step advance_run ?_
    refine .bind (P := fun _ s' => s' = s.next.next.next.next) ?_ (fun _ => Or.inl) ?_
    · refine .step (expect_run hopen.kind) ?_
      refine .bind (expression_ends n hname (by rw [hclose.kind]; rfl)) (fun _ => id) ?_
      rintro test _ rfl
      exact .step (expect_run hclose.kind) (.pure rfl)
    · rintro test _ rfl
      refine .bind (P := fun _ s' => label.isLoop = true ∧ AtLink text s' [] ∧
        s.consumed < s'.consumed) ?_ (fun _ => id) ?_
      · refine .step (a := TokenKind.mark .openBrace) (by rw [← hbrace.kind]; rfl) ?_
        cases n with
        | zero => exact Settles.weaken (tooDeep_ends hbrace) fun _ => Or.inl
        | succ n =>
          refine .step (a := s.next.next.next.next.offset) rfl ?_
          refine .step (a := TokenKind.mark .openBrace) (by rw [← hbrace.kind]; rfl) ?_
          have hinner : ctx.loop.label? target.value = some label := hlabel
          refine .bind (block_ends n hbrace hinner) (fun _ => id) ?_
          rintro body s' ⟨hloop, hend, hbody⟩
          exact .pure ⟨hloop, hend, Nat.lt_trans hlt hbody⟩
      · rintro body s' hs'
        exact .step (a := Span.ofOffsets s.offset s'.consumed) rfl (.pure hs')

end

/-- The parser is at the first of some labels, or at the loop behind them. -/
def AtLabels (text : String) (s : State) (target : Name) : List Name → Prop
  | [] => At text s (.word .whileKw) (' ' :: '(' ::
      (Name.letter.chars ++ ([')'] ++ ' ' :: (['\x7b'] ++ ' ' :: spellJump target))))
  | label :: labels => At text s .identifier ([':'] ++ ' ' :: spellLabels target labels) ∧
      s.lexer.token.value = label.value

/-- The first label of a function is the only one in scope. -/
theorem Context.labels_labeled_nil {ctx : Context} {start : Nat} {label : Label}
    (h : ctx.labels = []) : (ctx.labeled start label).labels = [label] := by
  rw [Context.labeled, h]
  rfl

/-- A new label tells only the one right before it what it is a label of. -/
theorem Context.labels_labeled_cons {ctx : Context} {start : Nat} {label first : Label}
    {more : List Label} (h : ctx.labels = first :: more) (hfirst : first.bodyStart = start)
    (hmore : ∀ other ∈ more, other.bodyStart < start) :
    (ctx.labeled start label).labels =
      label :: { first with isLoop := label.isLoop } :: more := by
  have htake : more.takeWhile (·.bodyStart == start) = [] := by
    cases more with
    | nil => rfl
    | cons other more =>
      have hlt := hmore other List.mem_cons_self
      rw [List.takeWhile_cons, if_neg (by simpa using Nat.ne_of_lt hlt)]
  have hdrop : more.dropWhile (·.bodyStart == start) = more := by
    cases more with
    | nil => rfl
    | cons other more =>
      have hlt := hmore other List.mem_cons_self
      rw [List.dropWhile_cons, if_neg (by simpa using Nat.ne_of_lt hlt)]
  have hyes : (first.bodyStart == start) = true := beq_iff_eq.mpr hfirst
  simp only [Context.labeled, h, List.takeWhile_cons, List.dropWhile_cons, hyes, if_true, htake,
    hdrop, List.map_cons, List.map_nil, List.cons_append, List.nil_append]

/-- The last two of some names. -/
def lastTwo (names : List String) : List String := names.drop (names.length - 2)

/-- The last two of a list. -/
theorem lastTwo_append (names : List String) (a b : String) : lastTwo (names ++ [a, b]) = [a, b] :=
  List.drop_left' (by simp)

section

variable {text : String} {s : State} {k : TokenKind} {target : Name} {ctx : Context}
  {labels : List Name}

/-- Behind a token come the labels of the loop. -/
theorem At.next_labels (h : At text s k (' ' :: spellLabels target labels))
    (hk : isOrdinary k = true) (hr : k.allowsRegexAfter = true) :
    AtLabels text s.next target labels := by
  cases labels with
  | nil =>
    exact h.next_blank (.word .whileKw) hk (by rw [hr]; rfl)
      (closes_cons (by decide))
  | cons label labels => exact h.next_name_blank hk hr (closes_cons (by decide))

/-- What the labels in front of a statement are known for: none is that of a loop yet, and the
statement of the last one starts here. -/
structure Pending (s : State) (ctx : Context) : Prop where
  plain : ∀ label ∈ ctx.labels, label.isLoop = false
  last : ∀ label ∈ ctx.labels.head?, label.bodyStart = s.offset
  before : ∀ label ∈ ctx.labels.tail, label.bodyStart < s.offset

/-- The names of all labels of a chain, those that the parser has come by and those that follow. -/
def Context.namesWith (ctx : Context) (labels : List Name) : List String :=
  (ctx.labels.map (·.name)).reverse ++ labels.map Name.value

/-- At the loop, the labels that count as labels of a loop are the last two. -/
theorem Pending.isLoop {x : Name} {name : String} (h : Pending s ctx) (label : Label)
    (hname : label.name = x.value) (hloop : label.isLoop = true)
    (hnodup : (ctx.namesWith [x]).Nodup) (hmem : name ∈ ctx.namesWith [x]) :
    ∃ found, (ctx.labeled s.offset label).label? name = some found ∧
      found.isLoop = decide (name ∈ lastTwo (ctx.namesWith [x])) := by
  unfold Context.namesWith at hnodup hmem ⊢
  cases hl : ctx.labels with
  | nil =>
    rw [hl] at hmem
    obtain rfl : name = x.value := by simpa using hmem
    refine ⟨label, ?_, ?_⟩
    · rw [Context.label?, Context.labels_labeled_nil hl, List.find?_cons_of_pos (by simp [hname])]
    · rw [hloop]
      simp [lastTwo]
  | cons first more =>
    have hfirst : first.bodyStart = s.offset := h.last first (by rw [hl]; rfl)
    have hmore : ∀ other ∈ more, other.bodyStart < s.offset := fun other ho =>
      h.before other (by rw [hl]; exact ho)
    have hplain : ∀ other ∈ more, other.isLoop = false := fun other ho =>
      h.plain other (by rw [hl]; exact List.mem_cons_of_mem _ ho)
    have hnames : ((first :: more).map (·.name)).reverse ++ [x].map Name.value =
        (more.map (·.name)).reverse ++ [first.name, x.value] := by simp
    rw [hl, hnames] at hnodup hmem
    rw [hnames, lastTwo_append, Context.label?, Context.labels_labeled_cons hl hfirst hmore]
    obtain ⟨-, hpair, hdisjoint⟩ := List.nodup_append.mp hnodup
    have hne : first.name ≠ x.value := by simpa using hpair
    by_cases hx : name = x.value
    · refine ⟨label, by rw [List.find?_cons_of_pos (by simp [hname, hx])], ?_⟩
      rw [hloop, hx]
      simp
    rw [List.find?_cons_of_neg (by simpa [hname] using Ne.symm hx)]
    by_cases hf : name = first.name
    · refine ⟨_, by rw [List.find?_cons_of_pos (by simp [hf])], ?_⟩
      rw [hloop, hf]
      simp
    rw [List.find?_cons_of_neg (by simpa using Ne.symm hf)]
    have hin : name ∈ more.map (·.name) := by
      simpa [hx, hf] using hmem
    obtain ⟨other, ho, rfl⟩ := List.mem_map.mp hin
    cases hfound : more.find? (·.name == other.name) with
    | none => exact absurd (List.find?_eq_none.mp hfound other ho) (by simp)
    | some found =>
      refine ⟨found, rfl, ?_⟩
      rw [hplain found (List.mem_of_find?_eq_some hfound)]
      simp [hx, hf]

/-- A label that is followed by another one is not known to be that of a loop. -/
theorem Pending.labeled {s' : State} (h : Pending s ctx) (label : Label)
    (hloop : label.isLoop = false) (hstart : label.bodyStart = s'.offset)
    (hlt : s.offset < s'.offset) :
    Pending s' (ctx.labeled s.offset label) ∧
      (ctx.labeled s.offset label).labels = label :: ctx.labels := by
  have hlabels : (ctx.labeled s.offset label).labels = label :: ctx.labels := by
    cases hl : ctx.labels with
    | nil => exact Context.labels_labeled_nil hl
    | cons first more =>
      have hfirst : first.isLoop = false := h.plain first (by rw [hl]; exact List.mem_cons_self)
      rw [Context.labels_labeled_cons hl (h.last first (by rw [hl]; rfl)) fun other ho =>
        h.before other (by rw [hl]; exact ho), hloop, ← hfirst]
  refine ⟨⟨?_, ?_, ?_⟩, hlabels⟩
  · rw [hlabels]
    exact List.forall_mem_cons.mpr ⟨hloop, h.plain⟩
  · rw [hlabels]
    rintro other ho
    rwa [← Option.some.inj ho]
  · rw [hlabels]
    intro other ho
    cases hl : ctx.labels with
    | nil =>
      rw [hl] at ho
      exact nomatch ho
    | cons first more =>
      rw [hl] at ho
      rcases List.mem_cons.mp ho with rfl | ho
      · rw [h.last other (by rw [hl]; rfl)]
        exact hlt
      · exact Nat.lt_trans (h.before other (by rw [hl]; exact ho)) hlt

/-- The statement with its labels, and the end of the text behind it. -/
theorem labels_end (n : Nat) (h : AtLabels text s target labels) (hne : labels ≠ [])
    (hctx : Pending s ctx) (hnodup : (ctx.namesWith labels).Nodup)
    (hmem : target.value ∈ ctx.namesWith labels) :
    Settles ((Nested.ofDepth n).statement ctx) s
      (fun _ s' => target.value ∈ lastTwo (ctx.namesWith labels) ∧ AtLink text s' [] ∧
        s.consumed < s'.consumed)
      (RefusesJump (decide (target.value ∈ lastTwo (ctx.namesWith labels)))) := by
  induction labels generalizing n s ctx with
  | nil => exact absurd rfl hne
  | cons x labels ih =>
    obtain ⟨hname, hvalue⟩ := h
    cases n with
    | zero => exact Settles.weaken (tooDeep_ends hname) fun _ => Or.inl
    | succ n =>
      have hcolon := hname.next (.mark .colon) rfl rfl
        (closes_cons (by decide))
      have hlabels := hcolon.next_labels rfl rfl
      have hlt := Nat.lt_trans (hname.consumed_lt rfl) (hcolon.consumed_lt rfl)
      refine .step (a := s.offset) rfl (.step (a := TokenKind.identifier)
        (by rw [← hname.kind]; rfl) (.step (a := TokenKind.identifier)
        (by rw [← hname.kind]; rfl) (.step (a := s.lexer.scan.token) rfl ?_)))
      have hpeek : (s.lexer.scan.token.kind == .mark .colon) = true := beq_iff_eq.mpr hcolon.kind
      rw [hpeek]
      show Settles (labeledStatement (Nested.ofDepth n) ctx) s _ _
      refine .step (a := s.offset) rfl (.step (identifier_run hname.kind) ?_)
      refine .step (expect_run hcolon.kind) ?_
      have hnew : ctx.label? x.value = none := by
        refine List.find?_eq_none.mpr fun other ho heq => ?_
        have hdisjoint := (List.nodup_append.mp hnodup).2.2
        refine hdisjoint other.name ?_ x.value (by simp) (eq_of_beq heq)
        exact List.mem_reverse.mpr (List.mem_map_of_mem ho)
      have hid : (identifierOf s.lexer.token).name = x.value := hvalue
      simp only [hid, hnew]
      refine .step (a := s.next.next.lexer.token) rfl ?_
      refine .bind (P := fun _ s' => target.value ∈ lastTwo (ctx.namesWith (x :: labels)) ∧
        AtLink text s' [] ∧ s.consumed < s'.consumed) ?_ (fun _ => id) fun body s' h =>
          .step (a := Span.ofOffsets s.offset s'.consumed) rfl (.pure h)
      cases labels with
      | nil =>
        have hkind : s.next.next.lexer.token.kind = .word .whileKw := hlabels.kind
        obtain ⟨found, hfound, hloop⟩ :=
          hctx.isLoop ⟨x.value, true, s.next.next.offset⟩ rfl rfl hnodup hmem
        rw [hkind]
        refine .step (a := TokenKind.word .whileKw) (by rw [← hkind]; rfl) ?_
        rw [← hloop]
        refine Settles.imp (while_ends n hlabels hfound) fun _ s' h => ?_
        rw [hloop, decide_eq_true_eq] at h
        exact ⟨h.1, h.2.1, Nat.lt_trans hlt h.2.2⟩
      | cons y labels =>
        have hkind : s.next.next.lexer.token.kind = .identifier := hlabels.1.kind
        rw [hkind]
        refine .step (a := TokenKind.identifier) (by rw [← hkind]; rfl) ?_
        obtain ⟨hctx', heq⟩ := hctx.labeled ⟨x.value, false, s.next.next.offset⟩ rfl rfl
          (Nat.lt_trans (hname.offset_lt rfl) (hcolon.offset_lt rfl))
        have hnames : (ctx.labeled s.offset ⟨x.value, false, s.next.next.offset⟩).namesWith
            (y :: labels) = ctx.namesWith (x :: y :: labels) := by
          simp [Context.namesWith, heq]
        rw [← hnames] at hnodup hmem ⊢
        refine Settles.imp (ih n hlabels (by simp) hctx' hnodup hmem) fun _ s' h => ?_
        exact ⟨h.1, h.2.1, Nat.lt_trans hlt h.2.2⟩

/-- A labeled loop is taken when its jump names one of the last two labels, and refused for the jump
or the depth else. -/
theorem script_labels (h : AtLabels text s target labels) (hne : labels ≠ [])
    (hnodup : (labels.map Name.value).Nodup) (hmem : target ∈ labels) :
    Settles script s
      (fun _ s' => target.value ∈ lastTwo (labels.map Name.value) ∧ s'.lexer.faults = #[])
      (RefusesJump (decide (target.value ∈ lastTwo (labels.map Name.value)))) := by
  obtain ⟨rest, hat⟩ : ∃ rest, At text s .identifier rest := by
    cases labels with
    | nil => exact absurd rfl hne
    | cons x labels => exact ⟨_, h.1⟩
  have hctx : Pending s {} :=
    ⟨(fun _ h => nomatch h), (fun _ h => nomatch h), fun _ h => nomatch h⟩
  refine .iterate (.bind (P := fun item s' => (∃ statement, item = some statement) ∧
    target.value ∈ lastTwo (labels.map Name.value) ∧ AtLink text s' [] ∧
    s.consumed < s'.consumed) ?_ (fun _ => id) ?_)
  · refine .step (isAt_run_of_ne hat.kind (by decide)) ?_
    refine .step (isAt_run_of_ne hat.kind (by decide)) ?_
    refine .bind (labels_end 100 h hne hctx hnodup (List.mem_map_of_mem hmem))
      (fun _ => id) ?_
    exact fun statement s' h => .pure ⟨⟨statement, rfl⟩, h⟩
  · rintro _ s' ⟨⟨statement, rfl⟩, hloop, hend, hlt⟩
    refine .pure ⟨remaining_lt hend.sound hat.size hend.size hlt, .iterate ?_⟩
    refine .step (a := none) (bind_run (isAt_run (hend.done rfl))) (.pure ?_)
    exact ⟨hloop, hend.clean⟩

end

end Parser

/-- A loop with several labels may be continued only by one of its last two labels. Such a text is
otherwise refused only for its depth. -/
theorem parse_continues {labels : List Name} (hnodup : (labels.map Name.value).Nodup)
    {target : Name} (hmem : target ∈ labels) :
    (∀ program, parse (spellLabeled labels target) = .ok program →
      target.value ∈ Parser.lastTwo (labels.map Name.value)) ∧
    ∀ diagnostics, parse (spellLabeled labels target) = .error diagnostics →
      (∃ place, diagnostics = [Fault.diagnose (spellLabeled labels target)
        ⟨.nestingTooDeep, place⟩]) ∨
      target.value ∉ Parser.lastTwo (labels.map Name.value) ∧ ∃ place, diagnostics =
        [Fault.diagnose (spellLabeled labels target) ⟨.illegalContinue, place⟩] := by
  have hat : Parser.AtLabels (spellLabeled labels target)
      (Parser.State.ofString (spellLabeled labels target)) target labels := by
    cases labels with
    | nil => cases hmem
    | cons x labels => exact Parser.at_ofString (toList_spellLabeled ..) (closes_cons (by decide))
  have hends := Parser.script_labels hat (List.ne_nil_of_mem hmem) hnodup hmem
  cases hrun : Parser.script (Parser.State.ofString (spellLabeled labels target)) with
  | ok out =>
    obtain ⟨body, last⟩ := out
    obtain ⟨hlast, hclean⟩ := hends.ok hrun
    have hparse : parse (spellLabeled labels target) = .ok (.ofStatements body) := by
      rw [parse, parseFaults, hrun]
      simp only [hclean]
      rfl
    rw [hparse]
    exact ⟨fun _ _ => hlast, (by rintro _ ⟨⟩)⟩
  | error abort =>
    have hparse : parse (spellLabeled labels target) =
        .error (abort.faults.toList.map (Fault.diagnose (spellLabeled labels target))) := by
      rw [parse, parseFaults, hrun]
      rfl
    rw [hparse]
    refine ⟨(by rintro _ ⟨⟩), fun diagnostics h => ?_⟩
    obtain rfl := Except.error.inj h
    rcases hends.error hrun with ⟨place, hfaults⟩ | ⟨hloop, place, hfaults⟩
    · refine Or.inl ⟨place, ?_⟩
      rw [hfaults]
      rfl
    · refine Or.inr ⟨of_decide_eq_false hloop, place, ?_⟩
      rw [hfaults]
      rfl

/-- The first of three labels of a loop is refused. -/
theorem parse_continues_first : ∃ a b c : Name,
    spellLabeled [a, b, c] a = "a: b: c: while (x) \x7b continue a; \x7d" ∧
    ([a, b, c].map Name.value).Nodup ∧ a ∈ [a, b, c] ∧
    (∀ program, parse (spellLabeled [a, b, c] a) ≠ .ok program) := by
  let a : Name := ⟨"a", by decide +kernel, by decide +kernel, by decide +kernel⟩
  let b : Name := ⟨"b", by decide +kernel, by decide +kernel, by decide +kernel⟩
  let c : Name := ⟨"c", by decide +kernel, by decide +kernel, by decide +kernel⟩
  have hnames : spellLabeled [a, b, c] a = "a: b: c: while (x) \x7b continue a; \x7d" ∧
      ([a, b, c].map Name.value).Nodup ∧ a.value ∉ Parser.lastTwo ([a, b, c].map Name.value) := by
    decide +kernel
  obtain ⟨hspell, hnodup, hearly⟩ := hnames
  refine ⟨a, b, c, hspell, hnodup, List.mem_cons_self, fun program h => hearly ?_⟩
  exact (parse_continues hnodup List.mem_cons_self).1 program h

end EcmaScript

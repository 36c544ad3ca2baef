import EcmaScript.Proofs.Machine.Agrees

/-!
# Nested constructs on a machine

What a machine for the constructs one level further in has to do: it runs as the parsers do, and
puts back the registers that it finds. From this it follows for patterns, declarations, functions
and classes, one part after the other.

A statement may change the registers in one way: where it has a label itself, the labels in front
of it become labels of a loop or not, as it does. Only labels whose statement starts there are
changed, so behind the first token of a statement nothing is.
-/

namespace EcmaScript

open EcmaScript.Parser

/-- The statements with the labels start before an offset. -/
def Registers.LabelsBelow (r : Registers) (n : Nat) : Prop :=
  ∀ l ∈ r.facts.labels, l.bodyStart < n

/-- The registers when a label is met at the offset `start`. -/
def Registers.mark (r : Registers) (start : Nat) (isLoop : Bool) : Registers :=
  { r with facts := { r.facts with labels := Machine.markLabels start isLoop r.facts.labels } }

/-- The registers are the same, unless a label has been met at the offset `start`. -/
def Registers.Marked (r : Registers) (start : Nat) (r' : Registers) : Prop :=
  r' = r ∨ ∃ isLoop, r' = r.mark start isLoop

section

variable {r r' : Registers} {n n' start : Nat}

/-- Only labels of statements that start at the offset are marked. -/
theorem Machine.markLabels_of_lt {isLoop : Bool} {labels : List Label}
    (h : ∀ l ∈ labels, l.bodyStart < start) : markLabels start isLoop labels = labels := by
  cases labels with
  | nil => rfl
  | cons l labels =>
    have hne : (l.bodyStart == start) = false :=
      beq_eq_false_iff_ne.mpr (Nat.ne_of_lt (h l List.mem_cons_self))
    simp only [markLabels, List.takeWhile_cons, List.dropWhile_cons, hne]
    rfl

/-- The statements of the labels start where they did. -/
theorem Machine.bodyStart_of_mem_markLabels {isLoop : Bool} {labels : List Label} {l : Label}
    (h : l ∈ markLabels start isLoop labels) : ∃ l' ∈ labels, l'.bodyStart = l.bodyStart := by
  rcases List.mem_append.mp h with h | h
  · obtain ⟨l', hl', rfl⟩ := List.mem_map.mp h
    exact ⟨l', (List.takeWhile_prefix _).subset hl', rfl⟩
  · exact ⟨l, (List.dropWhile_suffix _).subset h, rfl⟩

/-- The label of a statement and those of the statements around it. -/
theorem Machine.markLabels_cons {isLoop : Bool} {l : Label} {labels : List Label}
    (hl : l.bodyStart = start) (h : ∀ l ∈ labels, l.bodyStart < start) :
    markLabels start isLoop (l :: labels) = { l with isLoop } :: labels := by
  have heq : (l.bodyStart == start) = true := beq_iff_eq.mpr hl
  have hrest : markLabels start isLoop labels = labels := markLabels_of_lt h
  simp only [markLabels, List.takeWhile_cons, List.dropWhile_cons, heq, if_true, List.map_cons,
    List.cons_append] at hrest ⊢
  rw [hrest]

/-- The labels around a statement, behind it. -/
theorem Registers.Marked.tail_labels {l : Label} {labels : List Label}
    (hm : r.Marked start r') (hr : r.facts.labels = l :: labels) (hl : l.bodyStart = start)
    (h : ∀ l ∈ labels, l.bodyStart < start) :
    { r' with facts := { r'.facts with labels := r'.facts.labels.tail } } =
      { r with facts := { r.facts with labels } } := by
  rcases hm with rfl | ⟨isLoop, rfl⟩
  · rw [hr, List.tail_cons]
  · rw [mark, hr, Machine.markLabels_cons hl h, List.tail_cons]

/-- Labels that lie in front of one place lie in front of each later one. -/
theorem Registers.LabelsBelow.mono (h : r.LabelsBelow n) (hn : n ≤ n') : r.LabelsBelow n' :=
  fun l hl => Nat.lt_of_lt_of_le (h l hl) hn

/-- Without labels there are none behind any place. -/
theorem Registers.LabelsBelow.nil (h : r.facts.labels = []) : r.LabelsBelow n := by
  simp only [LabelsBelow, h, List.not_mem_nil, false_implies, implies_true]

/-- Marking at a place behind all labels marks none. -/
theorem Registers.LabelsBelow.mark_eq (h : r.LabelsBelow start) (isLoop : Bool) :
    r.mark start isLoop = r := by
  rw [mark, Machine.markLabels_of_lt h]

/-- What may have been marked at a place behind all labels is unchanged. -/
theorem Registers.Marked.eq (hm : r.Marked start r') (h : r.LabelsBelow start) : r' = r := by
  rcases hm with rfl | ⟨isLoop, rfl⟩
  · rfl
  · exact h.mark_eq isLoop

end

namespace Machine

/-- The nested constructs run as parsers do and restore the registers. Only a statement may mark
the labels in front of it. -/
structure Nested.RunsAs (text : String) (d : Nat) (g : Nested) (g' : Parser.Nested) : Prop where
  sound : g'.Sound text
  statement : ∀ {r s}, r.depth = d → s.Proper text → r.LabelsBelow (s.offset + 1) →
    RunsAt d r s g.statement (g'.statement r.context) fun _ r' s' =>
      r.Marked s.offset r' ∧ Later text s s'
  expressionStatement : ∀ {n r}, r.depth = d →
    Runs text d n r r g.expressionStatement (g'.expressionStatement r.context)
  bindingTarget : ∀ {n r}, r.depth = d →
    Runs text d n r r g.bindingTarget (g'.bindingTarget r.context)
  assignment : ∀ {n r}, r.depth = d → Runs text d n r r g.assignment (g'.assignment r.context)
  binary : ∀ {n r min}, r.depth = d → Runs text d n r r (g.binary min) (g'.binary r.context min)
  unary : ∀ {n r}, r.depth = d → Runs text d n r r g.unary (g'.unary r.context)
  newCallee : ∀ {n r}, r.depth = d → Runs text d n r r g.newCallee (g'.newCallee r.context)

/-- Besides, the heritage of a class runs as a parser does where a token more has been taken. -/
structure Grammar.RunsAs (text : String) (d n : Nat) (g : Grammar) (g' : Parser.Grammar) : Prop
    extends Nested.RunsAs text d g.toNested g'.toNested where
  heritage : ∀ {r}, r.depth = d → Runs text d (n + 1) r r g.heritage (g'.heritage r.context)

section

variable {text : String} {α : Type} {d n : Nat} {r r' : Registers} {s s' : State} {g : Nested}
  {g' : Parser.Nested}

/-- A run from one place on is a run from each later one on. -/
theorem Runs.mono {n' : Nat} {m : Machine α} {p : Parser α} (h : Runs text d n r r' m p)
    (hn : n ≤ n') : Runs text d n' r r' m p := fun s hs hn' => h s hs (Nat.le_trans hn hn')

/-- A run can start at a later state too. -/
theorem Runs.after {m : Machine α} {p : Parser α} (h : Runs text d n r r' m p)
    (hs : s.Proper text) (hn : n ≤ s.consumed) (hl : Later text s s') :
    RunsAt d r s' m p (Restored text r' s) :=
  (h s' (hl.proper hs) (Nat.le_trans hn hl.consumed_le)).imp fun _ _ _ h => ⟨h.1, hl.trans h.2⟩

/-- Behind a first token more has been taken than up to its start. -/
theorem RunsAt.first {p : Parser α} [hp : Keeps text p] (hs : s.Sound text)
    (hlt : Meets text p s fun _ s' => s.offset < s'.consumed) :
    RunsAt d r s (liftM p) p fun _ r₁ s₁ => r₁ = r ∧ Later text s s₁ ∧ s.offset < s₁.consumed :=
  .ofParser fun _ _ ha => ⟨rfl, hp.later hs ha, hlt.ok ha⟩

/-- Behind the first token a machine runs as it does wherever so much has been taken. -/
theorem RunsAt.behind {β : Type} {p : Parser β} [Keeps text p] {f : β → Machine α}
    {f' : β → Parser α} (hs : s.Proper text)
    (hlt : Meets text p s fun _ s' => s.offset < s'.consumed)
    (h : ∀ b, Runs text d (s.offset + 1) r r' (f b) (f' b)) :
    RunsAt d r s (liftM p >>= f) (p >>= f') (Restored text r' s) := by
  refine .bind (.first hs.sound hlt) ?_
  rintro b r s₁ ⟨rfl, h₁, hn⟩
  exact (h b s₁ (h₁.proper hs) hn).imp fun _ _ _ h => ⟨h.1, h₁.trans h.2⟩

/-- What gives back its registers has marked no label besides. -/
theorem RunsAt.marked {m : Machine α} {p : Parser α} (h : RunsAt d r s m p (Restored text r s)) :
    RunsAt d r s m p fun _ r' s' => r.Marked s.offset r' ∧ Later text s s' :=
  h.imp fun _ _ _ h => ⟨.inl h.1, h.2⟩

/-- The same for runs from the last token on. -/
theorem Runs.marked {m : Machine α} {p : Parser α} (h : Runs text d s.consumed r r m p)
    (hs : s.Proper text) :
    RunsAt d r s m p fun _ r' s' => r.Marked s.offset r' ∧ Later text s s' :=
  (h s hs (Nat.le_refl _)).marked

/-- Behind a token that has been taken no label is in the way. -/
theorem RunsAt.advance {f : Unit → Machine α} {f' : Unit → Parser α} (hs : s.Proper text)
    (hk : s.lexer.token.kind ≠ .endOfFile)
    (h : Runs text d (s.offset + 1) r r' (f ()) (f' ())) :
    RunsAt d r s (liftM Parser.advance >>= f) (Parser.advance >>= f') (Restored text r' s) :=
  .behind hs ((advance_onto hs.sound hk).imp fun _ _ h => h.2) fun _ => h

/-- Behind a mark that has been found no label is in the way. -/
theorem RunsAt.expect {k : TokenKind} {f : Unit → Machine α} {f' : Unit → Parser α}
    (hs : s.Proper text) (hk : isOrdinary k = true)
    (h : Runs text d (s.offset + 1) r r' (f ()) (f' ())) :
    RunsAt d r s (liftM (Parser.expect k) >>= f) (Parser.expect k >>= f') (Restored text r' s) := by
  have hlt : Meets text (Parser.expect k >>= Pure.pure) s fun _ s' => s.offset < s'.consumed :=
    .expect hs.sound hk fun _ h => .pure h.lt
  rw [bind_pure] at hlt
  exact .behind hs hlt fun _ => h

/-- Behind a token that must be there, one more has been taken. -/
theorem Runs.expect {k : TokenKind} {f : Unit → Machine α} {f' : Unit → Parser α}
    (hk : isOrdinary k = true) (h : Runs text d (n + 1) r r' (f ()) (f' ())) :
    Runs text d n r r' (liftM (Parser.expect k) >>= f) (Parser.expect k >>= f') := fun _ hs hn =>
  .expect hs hk (h.mono (Nat.succ_le_succ (Nat.le_trans hn hs.sound.consumed_le)))

/-- A branch by the kind of the token that comes next. -/
theorem Runs.kind {f : TokenKind → Machine α} {f' : TokenKind → Parser α}
    (h : ∀ k s, s.Proper text → n ≤ s.consumed → s.lexer.token.kind = k →
      RunsAt d r s (f k) (f' k) (Restored text r' s)) :
    Runs text d n r r' (liftM Parser.kind >>= f) (Parser.kind >>= f') := fun s hs hn =>
  .step rfl (h _ s hs hn rfl)

/-- A branch by the kind of the token that comes next makes progress if all its branches do. -/
theorem Progresses.kind {c : α → Bool} {f : TokenKind → Parser α}
    (h : ∀ k s a s', s.Sound text → s.lexer.token.kind = k → f k s = .ok (a, s') → c a = true →
      s.consumed < s'.consumed) : Progresses text c (Parser.kind >>= f) :=
  ⟨fun hs hp => h _ _ _ _ hs rfl hp⟩

/-- What a first step has taken is not given back. -/
theorem consumed_lt_of_first {β : Type} {p : Parser β} {f : β → Parser α}
    [hf : ∀ b, Keeps text (f b)] {a : α} (hs : s.Sound text)
    (hp : Meets text p s fun _ s₁ => s₁.Sound text ∧ s.offset < s₁.consumed)
    (h : (p >>= f) s = .ok (a, s')) : s.consumed < s'.consumed := by
  obtain ⟨b, s₁, hb, h⟩ := bind_ok h
  have h₁ := hp.ok hb
  have h₂ := (hf b).later h₁.1 h
  exact Nat.lt_of_le_of_lt hs.consumed_le (Nat.lt_of_lt_of_le h₁.2 h₂.consumed_le)

/-- Whoever advances first has consumed more in the end. -/
theorem consumed_lt_of_advance {f : Unit → Parser α} [∀ u, Keeps text (f u)] {a : α}
    (hs : s.Sound text) (hk : s.lexer.token.kind ≠ .endOfFile)
    (h : (advance >>= f) s = .ok (a, s')) : s.consumed < s'.consumed :=
  consumed_lt_of_first hs ((advance_onto hs hk).imp fun _ _ h => ⟨h.1.sound, h.2⟩) h

/-- Taking a token makes progress. -/
theorem Progresses.eat {c : α → Bool} {k : TokenKind} {p q : Parser α} [hp : Keeps text p]
    (hk : isOrdinary k = true) (hq : Progresses text c q) :
    Progresses text c (do if ← Parser.eat k then p else q) where
  lt {s a s'} hs h hc := by
    have hlt : Meets text (Parser.eat k >>= Pure.pure) s fun b s₁ =>
        b = true → s.offset < s₁.consumed :=
      .eat hs hk (fun _ ht _ => .pure fun _ => ht.lt) (.pure fun h => absurd h Bool.false_ne_true)
    rw [bind_pure] at hlt
    have hkeeps : Keeps text (Parser.eat k) := inferInstance
    obtain ⟨taken, s₁, he, h⟩ := bind_ok h
    have h₁ := hkeeps.later hs he
    cases taken with
    | true =>
      have h₂ := hp.later h₁.sound h
      exact Nat.lt_of_le_of_lt hs.consumed_le (Nat.lt_of_lt_of_le (hlt.ok he rfl) h₂.consumed_le)
    | false => exact Nat.lt_of_le_of_lt h₁.consumed_le (hq.lt h₁.sound h hc)

/-- Reading a closing brace as a piece of a template is a step to a later state. -/
theorem Later.rescanTemplate (hs : s.Sound text) (hk : s.lexer.token.kind = .mark .closeBrace) :
    Later text s { s with lexer := s.lexer.rescanTemplate } :=
  have h := (rescanTemplate_onto hs hk).1
  ⟨h.sound, rfl, Nat.le_refl _, h.offset_le⟩

/-- Reading a slash as a regular expression is a step to a later state. -/
theorem Later.rescanSlash (hs : s.Sound text)
    (hk : s.lexer.token.kind = .mark .slash ∨ s.lexer.token.kind = .mark .slashAssign) :
    Later text s { s with lexer := s.lexer.rescanSlash } :=
  have h := (rescanSlash_onto hs hk).1
  ⟨h.sound, rfl, Nat.le_refl _, h.offset_le⟩

/-- A closing brace that must be there is read again as a piece of a template. -/
theorem keeps_rescanTemplate (text : String) {p : Parser α} [hp : Keeps text p] : Keeps text (do
    unless ← isAt (.mark .closeBrace) do unexpected
    modify fun s => { s with lexer := s.lexer.rescanTemplate }
    p) where
  later {s _ _} hs h := by
    obtain ⟨hk, h⟩ := refuseNot_ok (fun _ _ h => (unexpected_ok h).elim)
      (read_ok (a := s.lexer.token.kind == .mark .closeBrace) rfl h)
    have h₁ := Later.rescanTemplate hs (eq_of_beq hk)
    exact h₁.trans (hp.later h₁.sound h)

/-- A machine reads a closing brace again as the parser does. -/
theorem Runs.rescanTemplate {m : Machine α} {p : Parser α} (h : Runs text d n r r' m p) :
    Runs text d n r r' (do
      unless ← isAt (.mark .closeBrace) do (unexpected : Parser Unit)
      (modify fun s => { s with lexer := s.lexer.rescanTemplate } : Parser Unit)
      m) (do
      unless ← isAt (.mark .closeBrace) do unexpected
      modify fun s => { s with lexer := s.lexer.rescanTemplate }
      p) := by
  refine fun s hs hn => .step rfl (.ite (fun hk => .step rfl ?_) fun _ => ?_)
  · exact h.after hs hn (.rescanTemplate hs.sound (eq_of_beq hk))
  · exact .cut fun _ _ h => (unexpected_ok h).elim

/-- With `in` allowed again a machine runs as the parser does, and then forgets that. -/
theorem Runs.allowIn {m : Machine α} {p : Parser α}
    (h : Runs text d n { r with flags := { r.flags with noIn := false } }
      { r with flags := { r.flags with noIn := false } } m p) :
    Runs text d n r r (Machine.allowIn m) p := .withFlags h

/-- With `in` disallowed a machine runs as the parser does, and then forgets that. -/
theorem Runs.disallowIn {m : Machine α} {p : Parser α}
    (h : Runs text d n { r with flags := { r.flags with noIn := true } }
      { r with flags := { r.flags with noIn := true } } m p) :
    Runs text d n r r (Machine.disallowIn m) p := .withFlags h

/-- Defaults that cannot be claimed are refused by machine and parser alike. -/
theorem Runs.closed {m : Machine α} {p : Parser α} (h : Runs text d n r r m p) :
    Runs text d n r r (Machine.closed m) (Parser.closed p) :=
  .step fun _ => .bind h fun _ => .step fun _ => .step fun _ => .pure

/-- An item behind a comma is progress. -/
theorem progresses_commaItem {f : α → List Sketch} {p : Parser α} (hp : Makes text f p) :
    Progresses text Option.isSome
      (do if ← eat (.mark .comma) then return some (← p) else return none) :=
  .step fun _ => .ite (Goes.of_makes hp).bind.progresses (.pure rfl)

/-- A list whose items stand behind commas runs as the one of the parser. -/
theorem Runs.commaItems {f : α → List Sketch} {m : Machine α} {p : Parser α}
    (h : Runs text d n r r m p) (hp : Makes text f p) :
    Runs text d n r r
      (Machine.many do if ← eat (.mark .comma) then return some (← m) else return none)
      (Parser.many do if ← eat (.mark .comma) then return some (← p) else return none) :=
  .many (.step fun _ => .ite (fun _ => .bind h fun _ => .pure) fun _ => .pure)
    (progresses_commaItem hp)

/-- A list with commas between its items runs as the one of the parser. -/
theorem Runs.commaList {f : α → List Sketch} {close : TokenKind} {m : Machine α} {p : Parser α}
    (h : Runs text d n r r m p) (hp : Makes text f p) :
    Runs text d n r r (Machine.commaList close m) (Parser.commaList close p) := by
  refine .many ?_ ?_
  · refine .step fun _ => .ite (fun _ => .pure) fun _ => .bind h fun _ => .step fun _ => ?_
    exact .require .pure
  · exact .step fun _ => .ite (.pure rfl) (Goes.of_makes hp).bind.progresses

/-- The items in front of a rest run as those of the parser. -/
theorem Runs.itemsBeforeRest {f : α → List Sketch} {close : TokenKind} {m : Machine α}
    {p : Parser α} (h : Runs text d n r r m p) (hp : Makes text f p) :
    Runs text d n r r (Machine.itemsBeforeRest close m) (Parser.itemsBeforeRest close p) := by
  refine .many ?_ ?_
  · refine .step fun _ => .step fun _ => .ite (fun _ => .pure) fun _ => .bind h fun _ => ?_
    exact .step fun _ => .require .pure
  · exact .step fun _ => .step fun _ => .ite (.pure rfl) (Goes.of_makes hp).bind.progresses

/-- A value runs in the machine as in the parser. -/
theorem Nested.RunsAs.value (hg : g.RunsAs text d g') (hr : r.depth = d) :
    Runs text d n r r g.value (g'.value r.context) := .closed (hg.assignment hr)

/-- An expression that may become a pattern runs as in the parser. -/
theorem Nested.RunsAs.expressionOrCover (hg : g.RunsAs text d g') (hr : r.depth = d) :
    Runs text d n r r g.expressionOrCover (g'.expressionOrCover r.context) := by
  refine .step fun _ => .bind (hg.assignment hr) fun _ => .step fun _ =>
    .ite (fun _ => ?_) fun _ => .pure
  refine .bind (.commaItems (hg.assignment hr) (hg.sound.assignment _)) fun _ => ?_
  exact .step fun _ => .pure

/-- An expression runs in the machine as in the parser. -/
theorem Nested.RunsAs.expression (hg : g.RunsAs text d g') (hr : r.depth = d) :
    Runs text d n r r g.expression (g'.expression r.context) := .closed (hg.expressionOrCover hr)

/-- Behind the start of its labels' statements, a statement restores the registers. -/
theorem Nested.RunsAs.inner (hg : g.RunsAs text d g') (hr : r.depth = d) (hl : r.LabelsBelow n) :
    Runs text d n r r g.statement (g'.statement r.context) := by
  intro s hs hn
  have hbelow := hl.mono (Nat.le_trans hn hs.sound.consumed_le)
  exact (hg.statement hr hs (hbelow.mono (Nat.le_succ _))).imp fun _ _ _ h => ⟨h.1.eq hbelow, h.2⟩

/-- Statements up to a closing token run as in the parser, if no label is in the way. -/
theorem Nested.RunsAs.statementsUntil {close : TokenKind} (hg : g.RunsAs text d g')
    (hr : r.depth = d) (hl : r.LabelsBelow n) :
    Runs text d n r r (g.statementsUntil close) (g'.statementsUntil r.context close) := by
  refine .many ?_ ?_
  · refine .step fun _ => .ite (fun _ => .pure) fun _ => .step fun _ => .refuse ?_
    exact .bind (hg.inner hr hl) fun _ => .pure
  · refine .step fun _ => .ite (.pure rfl) (.step fun _ => .ite (.step fun _ => ?_) ?_)
    · exact (Goes.of_makes (hg.sound.statement _)).bind.progresses
    · exact (Goes.of_makes (hg.sound.statement _)).bind.progresses

/-- Nothing in a block marks the labels in front of it. -/
theorem Nested.RunsAs.block (hg : g.RunsAs text d g') (hr : r.depth = d) (hs : s.Proper text)
    (hl : r.LabelsBelow (s.offset + 1)) :
    RunsAt d r s g.block (g'.block r.context) (Restored text r s) := by
  refine .step rfl (.expect hs rfl ?_)
  exact .bind (hg.statementsUntil hr hl) fun _ => .step fun _ => .step fun _ => .pure

/-- A block runs as in the parser, if no label is in the way. -/
theorem Nested.RunsAs.innerBlock (hg : g.RunsAs text d g') (hr : r.depth = d)
    (hl : r.LabelsBelow n) : Runs text d n r r g.block (g'.block r.context) := fun _ hs hn =>
  hg.block hr hs (hl.mono (Nat.le_trans hn (Nat.le_succ_of_le hs.sound.consumed_le)))

/-- The key of a property runs in the machine as in the parser. -/
theorem propertyKey_runs {allowPrivate : Bool} (hg : g.RunsAs text d g') (hr : r.depth = d) :
    Runs text d n r r (propertyKey g allowPrivate)
      (Parser.propertyKey g' r.context allowPrivate) := by
  refine .step fun k => ?_
  cases k with
  | string => exact .step fun _ => .pure
  | number => exact .step fun _ => .pure
  | bigInt => exact .step fun _ => .pure
  | privateName => exact .ite (fun _ => .step fun _ => .pure) fun _ => .lift
  | mark p =>
    cases p with
    | openBracket =>
      exact .step fun _ => .bind (.allowIn (hg.value hr)) fun _ => .step fun _ => .pure
    | _ => exact .ite (fun _ => .step fun _ => .pure) fun _ => .lift
  | _ => exact .ite (fun _ => .step fun _ => .pure) fun _ => .lift

/-- An initializer runs as in the parser if its value does. -/
theorem optionalInitializer_runs {ctx : Context} {m : Machine Expression}
    (h : Runs text d n r r m (g'.value ctx)) :
    Runs text d n r r (optionalInitializer m) (Parser.optionalInitializer g' ctx) :=
  .step fun _ => .ite (fun _ => .bind h fun _ => .pure) fun _ => .pure

/-- An element of a pattern runs in the machine as in the parser. -/
theorem bindingElement_runs (hg : g.RunsAs text d g') (hr : r.depth = d) :
    Runs text d n r r (bindingElement g) (Parser.bindingElement g' r.context) :=
  .step fun _ => .bind (hg.bindingTarget hr) fun _ =>
    .bind (optionalInitializer_runs (.allowIn (hg.value hr))) fun _ => .step fun _ => .pure

/-- The rest of a pattern runs as in the parser if its target does. -/
theorem bindingRest_runs {close : TokenKind} {m : Machine Pattern} {p : Parser Pattern}
    (h : Runs text d n r r m p) :
    Runs text d n r r (bindingRest m close) (Parser.bindingRest p close) :=
  .step fun _ => .step fun _ => .bind h fun _ => .step fun _ => .step fun _ => .require .pure

/-- A rest that may be missing runs as in the parser if a rest does. -/
theorem optionalRest_runs {m : Machine (Node .rest)} {p : Parser (Node .rest)}
    (h : Runs text d n r r m p) :
    Runs text d n r r (optionalRest m) (Parser.optionalRest p) :=
  .step fun _ => .ite (fun _ => .bind h fun _ => .pure) fun _ => .pure

/-- The elements of a pattern run in the machine as in the parser. -/
theorem bindingElements_runs (hg : g.RunsAs text d g') (hr : r.depth = d) :
    Runs text d n r r (bindingElements g) (Parser.bindingElements g' r.context) := by
  have helement := Goes.of_makes (bindingElement_makes hg.sound r.context)
  refine .many (.step fun k => ?_) (.kind fun k s a s' hs hk h hc => ?_)
  · cases k with
    | mark p =>
      cases p with
      | closeBracket => exact .pure
      | ellipsis => exact .pure
      | comma => exact .step fun _ => .pure
      | _ => exact .bind (bindingElement_runs hg hr) fun _ => .step fun _ => .require .pure
    | _ => exact .bind (bindingElement_runs hg hr) fun _ => .step fun _ => .require .pure
  · cases k with
    | mark p =>
      cases p with
      | closeBracket => exact (Progresses.pure rfl).lt hs h hc
      | ellipsis => exact (Progresses.pure rfl).lt hs h hc
      | comma => exact consumed_lt_of_advance hs (by simp [hk]) h
      | _ => exact helement.bind.progresses.lt hs h hc
    | _ => exact helement.bind.progresses.lt hs h hc

/-- A pattern for an array runs in the machine as in the parser. -/
theorem arrayBinding_runs (hg : g.RunsAs text d g') (hr : r.depth = d) :
    Runs text d n r r (arrayBinding g) (Parser.arrayBinding g' r.context) :=
  .step fun _ => .step fun _ => .bind (bindingElements_runs hg hr) fun _ =>
    .bind (optionalRest_runs (bindingRest_runs (hg.bindingTarget hr))) fun _ =>
      .step fun _ => .step fun _ => .pure

/-- A property of a pattern runs in the machine as in the parser. -/
theorem bindingProperty_runs (hg : g.RunsAs text d g') (hr : r.depth = d) :
    Runs text d n r r (bindingProperty g) (Parser.bindingProperty g' r.context) := by
  refine .step fun _ => .bind (propertyKey_runs hg hr) fun _ =>
    .step fun _ => .ite (fun _ => ?_) fun _ => ?_
  · exact .bind (bindingElement_runs hg hr) fun _ => .step fun _ => .pure
  · exact .bind .reading fun _ =>
      .bind (optionalInitializer_runs (.allowIn (hg.value hr))) fun _ => .step fun _ => .pure

/-- A pattern for an object runs in the machine as in the parser. -/
theorem objectBinding_runs (hg : g.RunsAs text d g') (hr : r.depth = d) :
    Runs text d n r r (objectBinding g) (Parser.objectBinding g' r.context) := by
  refine .step fun _ => .step fun _ => .bind (.itemsBeforeRest (bindingProperty_runs hg hr)
    (bindingProperty_makes hg.sound _)) fun _ => ?_
  refine .bind (optionalRest_runs (bindingRest_runs (.bind .reading fun _ => .pure))) fun _ => ?_
  exact .step fun _ => .step fun _ => .pure

/-- A name or a pattern runs in the machine as in the parser. -/
theorem bindingTarget_runs (hg : g.RunsAs text d g') (hr : r.depth = d) :
    Runs text d n r r (bindingTarget g) (Parser.bindingTarget g' r.context) := by
  refine .step fun k => ?_
  cases k with
  | mark p =>
    cases p with
    | openBracket => exact arrayBinding_runs hg hr
    | openBrace => exact objectBinding_runs hg hr
    | _ => exact .bind .reading fun _ => .pure
  | _ => exact .bind .reading fun _ => .pure

/-- A rest parameter runs in the machine as in the parser. -/
theorem restParameter_runs (hg : g.RunsAs text d g') (hr : r.depth = d) :
    Runs text d n r r (restParameter g) (Parser.restParameter g' r.context) := by
  refine .step fun _ => .step fun _ => .bind (hg.bindingTarget hr) fun _ => .step fun k => ?_
  cases k with
  | mark p =>
    cases p with
    | closeParen => exact .step fun _ => .pure
    | assign => exact .lift
    | comma => exact .lift
    | _ => exact .lift
  | _ => exact .lift

/-- A list of parameters runs in the machine as in the parser. -/
theorem formalParameters_runs (hg : g.RunsAs text d g') (hr : r.depth = d) :
    Runs text d n r r (formalParameters g) (Parser.formalParameters g' r.context) := by
  refine .step fun _ => .step fun _ => .registers (.setFlags ?_)
  refine .bind (.itemsBeforeRest (bindingElement_runs hg hr) (bindingElement_makes hg.sound _))
    fun _ => .bind (optionalRest_runs (restParameter_runs hg hr)) fun _ => ?_
  exact .step fun _ => .setFlags (.step fun _ => .pure)

/-- A declared variable runs in the machine as in the parser. -/
theorem declarator_runs {variableKind : VariableKind} (hg : g.RunsAs text d g') (hr : r.depth = d) :
    Runs text d n r r (declarator g variableKind)
      (Parser.declarator g' r.context variableKind) := by
  rw [declarator_eq]
  exact .step fun _ => .bind (hg.bindingTarget hr) fun _ => .step fun _ =>
    .bind (optionalInitializer_runs (hg.value hr)) fun _ => .step fun _ => .pure

/-- A list of declared variables runs as in the parser if the checks keep the state. -/
theorem declarators_runs {variableKind : VariableKind} {check : Node .declarator → Parser Unit}
    (hg : g.RunsAs text d g') (hr : r.depth = d) (hcheck : ∀ x, Keeps text (check x)) :
    Runs text d n r r (declarators g variableKind check)
      (Parser.declarators g' r.context variableKind check) := by
  have hchecked : Runs text d n r r (do
      let x ← declarator g variableKind
      check x
      return x) (do
      let x ← Parser.declarator g' r.context variableKind
      check x
      return x) :=
    .bind (declarator_runs hg hr) fun _ => .step fun _ => .pure
  have hgoes : Goes text (do
      let x ← Parser.declarator g' r.context variableKind
      check x
      return x) := (Goes.of_makes (declarator_makes hg.sound _ variableKind)).bind
  refine .step fun _ => .bind hchecked fun _ => .bind (.many ?_ ?_) fun _ => .pure
  · exact .step fun _ => .ite (fun _ => .bind hchecked fun _ => .pure) fun _ => .pure
  · exact .step fun _ => .ite hgoes.bind.progresses (.pure rfl)

/-- A declaration of variables runs in the machine as in the parser. -/
theorem variableStatement_runs {variableKind : VariableKind} (hg : g.RunsAs text d g')
    (hr : r.depth = d) :
    Runs text d n r r (variableStatement g variableKind)
      (Parser.variableStatement g' r.context variableKind) := by
  refine .step fun _ => .bind (.allowIn ?_) fun _ => .step fun _ => .step fun _ => .pure
  exact declarators_runs hg hr fun _ => inferInstance

/-- A declaration in the head of a loop runs in the machine as in the parser. -/
theorem headDeclaration_runs {variableKind : VariableKind} (hg : g.RunsAs text d g')
    (hr : r.depth = d) :
    Runs text d n r r (headDeclaration g variableKind)
      (Parser.headDeclaration g' r.context variableKind) := by
  refine .step fun _ => .bind (.disallowIn ?_) fun _ => .step fun _ => .pure
  exact declarators_runs hg hr fun _ => inferInstance

/-- Parameters and body run under registers of their own, which are given back. -/
theorem parametersAndBody_runs {flags : Flags} {accessor : PropertyKind} (hg : g.RunsAs text d g')
    (hr : r.depth = d) :
    Runs text d n r r (parametersAndBody g flags accessor) (Parser.parametersAndBody g'
      { r with flags, facts := { canReturn := true } : Registers}.context accessor) := by
  refine .inFunction (.bind (formalParameters_runs hg hr) fun _ => .step fun _ => ?_)
  exact .bind (hg.innerBlock hr (.nil rfl)) fun _ => .pure

/-- The name of a function runs in the machine as in the parser. -/
theorem functionName_runs {isAsync isGenerator isDeclaration : Bool} :
    Runs text d n r r (functionName isAsync isGenerator isDeclaration)
      (Parser.functionName r.context isAsync isGenerator isDeclaration) := by
  refine .step fun _ => .ite (fun _ => .bind .reading fun _ => .pure) fun _ =>
    .ite (fun _ => .pure) fun _ => ?_
  exact .bind (.withFlags .reading) fun _ => .pure

/-- A function gives back the registers that it replaced for its own. -/
theorem functionDefinition_runs {start : Nat} {isAsync isDeclaration : Bool}
    (hg : g.RunsAs text d g') (hr : r.depth = d) :
    Runs text d n r r (functionDefinition g start isAsync isDeclaration)
      (Parser.functionDefinition g' r.context start isAsync isDeclaration) := by
  rw [functionDefinition_eq]
  refine .step fun _ => .step fun isGenerator => .bind functionName_runs fun _ => ?_
  refine .registers (.bind ?_ fun _ => .step fun _ => .pure)
  exact parametersAndBody_runs hg hr

/-- A method gives back the registers that it replaced for its own. -/
theorem methodFunction_runs {isAsync isGenerator : Bool} {accessor : PropertyKind}
    {superCall : Bool} (hg : g.RunsAs text d g') (hr : r.depth = d) :
    Runs text d n r r (methodFunction g isAsync isGenerator accessor superCall)
      (Parser.methodFunction g' r.context isAsync isGenerator accessor superCall) := by
  refine .step fun _ => .registers (.bind ?_ fun _ => .step fun _ => .pure)
  exact parametersAndBody_runs hg hr

/-- An arrow function gives back the registers that it replaced for its own. -/
theorem arrowFunction_runs {start : Nat} {params : Node .parameters} {isAsync : Bool}
    (hg : g.RunsAs text d g') (hr : r.depth = d) :
    Runs text d n r r (arrowFunction g start params isAsync)
      (Parser.arrowFunction g' r.context start params isAsync) := by
  refine .step fun _ => .registers (.step fun _ => .ite (fun _ => ?_) fun _ => ?_)
  · exact .bind (.inFunction (hg.innerBlock hr (.nil rfl))) fun _ =>
      .step fun _ => .pure
  · exact .bind (.inFunction (hg.value hr)) fun _ => .step fun _ => .pure

/-- The value of a field gives back the registers that it replaced. -/
theorem fieldInitializer_runs (hg : g.RunsAs text d g') (hr : r.depth = d) :
    Runs text d n r r (fieldInitializer g) (Parser.fieldInitializer g' r.context) :=
  .registers (.inFunction (hg.value hr))

/-- A static block gives back the registers that it replaced. -/
theorem staticBlock_runs (hg : g.RunsAs text d g') (hr : r.depth = d) :
    Runs text d n r r (staticBlock g) (Parser.staticBlock g' r.context) := by
  refine .step fun _ => .step fun _ => .step fun _ => .registers (.bind (.inFunction ?_)
    fun _ => .step fun _ => .pure)
  exact .bind (hg.statementsUntil hr (.nil rfl)) fun _ => .step fun _ => .pure

/-- A method of a class runs in the machine as in the parser. -/
theorem methodMember_runs {start : Nat} {derived isStatic : Bool} {m : Modifiers}
    {key : Node .propertyKey} {isConstructor : Bool} (hg : g.RunsAs text d g') (hr : r.depth = d) :
    Runs text d n r r (methodMember g start derived isStatic m key isConstructor)
      (Parser.methodMember g' r.context start derived isStatic m key isConstructor) :=
  .bind (methodFunction_runs hg hr) fun _ => .step fun _ => .pure

/-- A field of a class runs in the machine as in the parser. -/
theorem fieldMember_runs {start : Nat} {isStatic : Bool} {key : Node .propertyKey}
    (hg : g.RunsAs text d g') (hr : r.depth = d) :
    Runs text d n r r (fieldMember g start isStatic key)
      (Parser.fieldMember g' r.context start isStatic key) := by
  refine .step fun _ => .ite (fun _ => .bind (fieldInitializer_runs hg hr) fun _ => ?_) fun _ => ?_
  · exact .step fun _ => .step fun _ => .pure
  · exact .step fun _ => .step fun _ => .pure

/-- A method or a field runs in the machine as in the parser. -/
theorem methodOrField_runs {start : Nat} {derived isStatic hasConstructor : Bool}
    (hg : g.RunsAs text d g') (hr : r.depth = d) :
    Runs text d n r r (methodOrField g start derived isStatic hasConstructor)
      (Parser.methodOrField g' r.context start derived isStatic hasConstructor) := by
  rw [methodOrField_eq]
  refine .step fun _ => .step fun _ => .bind (propertyKey_runs hg hr) fun _ =>
    .step fun _ => .step fun _ => .ite (fun _ => .step fun _ => ?_) fun _ => .step fun _ => ?_
  · exact methodMember_runs hg hr
  · exact fieldMember_runs hg hr

/-- An element of a class runs in the machine as in the parser. -/
theorem classElement_runs {derived hasConstructor : Bool} (hg : g.RunsAs text d g')
    (hr : r.depth = d) :
    Runs text d n r r (classElement g derived hasConstructor)
      (Parser.classElement g' r.context derived hasConstructor) := by
  refine .step fun _ => .step fun _ => .step fun _ => .ite (fun _ => ?_) fun _ => ?_
  · exact .bind (staticBlock_runs hg hr) fun _ => .pure
  · exact .step fun _ => methodOrField_runs hg hr

/-- The elements of a class run in the machine as in the parser. -/
theorem classElements_runs {derived : Bool} (hg : g.RunsAs text d g') (hr : r.depth = d) :
    Runs text d n r r (classElements g derived)
      (Parser.classElements g' r.context derived) := by
  refine .iterate (fun a => ?_) (fun a => ?_) _
  · obtain ⟨found, hasConstructor⟩ := a
    refine .step fun _ => .ite (fun _ => .pure) fun _ =>
      .step fun _ => .ite (fun _ => .pure) fun _ => ?_
    exact .bind (classElement_runs hg hr) fun _ => .pure
  · obtain ⟨found, hasConstructor⟩ := a
    have helement := Goes.of_makes (classElement_makes hg.sound r.context derived hasConstructor)
    exact .step fun _ => .ite (.pure rfl) (.eat rfl helement.bind.progresses)

end

section

variable {text : String} {d n : Nat} {r : Registers} {g : Grammar} {g' : Parser.Grammar}

/-- A heritage runs as in the parser, one level of the grammar further down. -/
theorem superClass_runs (hg : g.RunsAs text d n g') (hr : r.depth = d) :
    Runs text d (n + 1) r r (superClass g) (Parser.superClass g' r.context) :=
  .step fun _ => .ite (fun _ => .bind (hg.heritage hr) fun _ => .pure) fun _ => .pure

/-- A token stands before the heritage of a class. -/
theorem classDefinition_runs {isDeclaration : Bool} (hg : g.RunsAs text d n g') (hr : r.depth = d) :
    Runs text d n r r (classDefinition g isDeclaration)
      (Parser.classDefinition g' r.context isDeclaration) := by
  rw [classDefinition_eq]
  refine .step fun _ => .expect rfl (.bind .reading fun _ =>
    .bind (superClass_runs hg hr) fun _ => ?_)
  refine .step fun _ => .step fun _ => .registers (.setFlags ?_)
  refine .bind ?_ fun _ => .step fun _ => ?_
  · exact classElements_runs hg.toRunsAs hr
  exact .setFlags (.step fun _ => .step fun _ => .pure)

end

end Machine

end EcmaScript

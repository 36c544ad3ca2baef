import EcmaScript.Proofs.Parser.Meets

/-!
# Parsers that make nodes

A parser makes nodes when it takes tokens and the sketch of its result lies between the
start of the first of these tokens and the end of the last. The loops of the parser keep
such facts: a loop by an invariant of its rounds, a list by what holds of its items, which
come out in the order of the text.
-/

namespace EcmaScript.Parser

open Sketch

/-- Tokens have been taken, and the result lies between their ends. -/
def Made (text : String) {α : Type} (f : α → List Sketch) (s : State) (a : α) (s' : State) :
    Prop :=
  Took text s s' ∧ AllPlaced text s.offset s'.front (f a)

/-- The parser takes tokens, and gives a result that lies between their ends. -/
def Makes (text : String) {α : Type} (f : α → List Sketch) (p : Parser α) : Prop :=
  ∀ s, s.Sound text → Meets text p s (Made text f s)

/-- The parser takes tokens, and gives a result that is all that they are. -/
def MakesWhole (text : String) {α : Type} (f : α → List Sketch) (span : α → Span)
    (p : Parser α) : Prop :=
  ∀ s, s.Sound text → Meets text p s fun a s' =>
    Made text f s a s' ∧ span a = .ofOffsets s.offset s'.consumed

/-- Items that lie between two offsets, one behind the other. -/
inductive InOrder (text : String) {α : Type} (f : α → List Sketch) :
    Nat → Front → List α → Prop where
  | nil {lo : Nat} {hi : Front} : InOrder text f lo hi []
  | cons {lo mid : Nat} {hi : Front} {a : α} {as : List α} :
      AllPlaced text lo (hi.upTo mid) (f a) → lo ≤ mid → mid ≤ hi.stop →
      InOrder text f mid hi as → InOrder text f lo hi (a :: as)

section

variable {text : String} {α β : Type} {s s₁ s₂ : State}

/-- What is placed behind a later state is placed behind an earlier one. -/
theorem placed_from {hi : Front} {sketches : List Sketch} (h : Onto text s s₁)
    (hp : AllPlaced text s₁.offset hi sketches) : AllPlaced text s.offset hi sketches :=
  hp.mono h.offset_le (.refl _)

/-- What is placed before an earlier state is placed before a later one. -/
theorem placed_upTo {lo : Nat} {sketches : List Sketch} (h : Onto text s₁ s₂)
    (hp : AllPlaced text lo s₁.front sketches) : AllPlaced text lo s₂.front sketches :=
  hp.mono (Nat.le_refl _) h.upto

/-- What is placed before a state with what is placed behind it. -/
theorem placed_append {lo : Nat} {xs ys : List Sketch} (hl : lo ≤ s₁.offset)
    (h : Onto text s₁ s₂) (hx : AllPlaced text lo s₁.front xs)
    (hy : AllPlaced text s₁.offset s₂.front ys) : AllPlaced text lo s₂.front (xs ++ ys) :=
  hx.append hy hl h.before.consumed_le h.upto

/-- A node from the first of the tokens to the last. -/
theorem Took.spanning {debt : Debt} {row : List Span} {parts : List Sketch} (h : Took text s s₁)
    (hd : debt.Paid s₁.consumed s₁.front) (hr : row.Pairwise Span.Precedes)
    (hp : EachPlaced text s.offset s₁.front parts) : AllPlaced text s.offset s₁.front
      [.mk (.ofOffsets s.offset s₁.consumed) true debt row parts] :=
  allPlaced_mk (Nat.le_refl _) h.lt (Nat.le_refl _) h.before.place.isBoundary_offset
    h.sound.place.isBoundary hd hr hp

/-- A node with parts one behind the other that owes something. -/
theorem Took.owing {debt : Debt} {parts : List Sketch} (h : Took text s s₁)
    (hd : debt.Paid s₁.consumed s₁.front) (hp : AllPlaced text s.offset s₁.front parts) :
    AllPlaced text s.offset s₁.front (owing (.ofOffsets s.offset s₁.consumed) debt parts) :=
  h.spanning hd hp.inRow hp.each

/-- A node with parts one behind the other that owes nothing. -/
theorem Took.node {parts : List Sketch} (h : Took text s s₁)
    (hp : AllPlaced text s.offset s₁.front parts) :
    AllPlaced text s.offset s₁.front (node (.ofOffsets s.offset s₁.consumed) parts) :=
  h.owing trivial hp

/-- What is all of its tokens lies between their ends. -/
theorem MakesWhole.makes {f : α → List Sketch} {span : α → Span} {p : Parser α}
    (h : MakesWhole text f span p) : Makes text f p :=
  fun s hs => (h s hs).imp fun _ _ h => h.1

/-- What is made goes on lying between the ends when more tokens are taken around it. -/
theorem Made.from {f : α → List Sketch} {a : α} (h : Onto text s s₁)
    (hm : Made text f s₁ a s₂) : Made text f s a s₂ :=
  ⟨h.took hm.1, placed_from h hm.2⟩

/-- What has been made goes on lying between the ends when more is taken behind it. -/
theorem Made.upTo {f : α → List Sketch} {a : α} (hm : Made text f s a s₁)
    (h : Kept text s₁ s₂) : Made text f s a s₂ :=
  ⟨hm.1.trans h, placed_upTo h.toOnto hm.2⟩

/-- A node from the first of the tokens to the end of a statement. -/
theorem Took.ended {parts : List Sketch} (h : Took text s s₁) (he : Ended text s₁ s₂)
    (hp : AllPlaced text s.offset s₁.front parts) :
    Took text s s₂ ∧ AllPlaced text s.offset s₂.front
      (Sketch.owing (.ofOffsets s.offset s₂.consumed) .ending parts) := by
  have ht := h.trans he.1
  have hd : Debt.ending.Paid s₂.consumed s₂.front := he.2
  exact ⟨ht, ht.owing hd (placed_upTo he.1.toOnto hp)⟩

/-- Defaults that cannot be claimed do not change what is made. -/
theorem closed_makes {f : α → List Sketch} {p : Parser α} (hp : Makes text f p) :
    Makes text f (closed p) := by
  intro s hs
  refine .bind (takeCoverInit_meets hs) fun outer s₁ h₁ => ?_
  refine .bind (hp s₁ h₁.sound) fun a s₂ h₂ => ?_
  refine .bind (checkCoverInit_meets h₂.1.sound) fun _ s₃ h₃ => ?_
  refine .bind (setCoverInit_meets outer h₃.sound) fun _ s₄ h₄ => .pure ?_
  exact (h₂.from h₁.kept.toOnto).upTo (h₃.kept.trans h₄.kept)

/-- Suspensions of a function of its own are forgotten behind it. -/
theorem ownSuspensions_meets {p : Parser α} {Q : α → State → Prop} (hs : s.Sound text)
    (hp : ∀ s₁, Same text s s₁ → Meets text p s₁ fun a s₂ =>
      s₂.Sound text ∧ ∀ s₃, Same text s₂ s₃ → Q a s₃) :
    Meets text (ownSuspensions p) s Q := by
  refine .step rfl (.step rfl ?_)
  have h₁ : Same text s { s with suspension := none } :=
    hs.same rfl rfl rfl List.suffix_rfl fun fault hf => absurd hf (by simp)
  refine .bind (hp _ h₁) fun a s₂ h₂ => .step rfl (.pure ?_)
  exact h₂.2 _ (h₂.1.same rfl rfl rfl List.suffix_rfl hs.isSyntactic)

/-- Suspensions of its own do not change what is made. -/
theorem ownSuspensions_makes {f : α → List Sketch} {p : Parser α} (hp : Makes text f p) :
    Makes text f (ownSuspensions p) := fun _ hs =>
  ownSuspensions_meets hs fun s₁ h₁ => (hp s₁ h₁.sound).imp fun _ _ h₂ =>
    ⟨h₂.1.sound, fun _ h₃ => (h₂.from h₁.kept.toOnto).upTo h₃.kept⟩

/-- What a round of a loop leaves: an invariant if more rounds follow, else a result. -/
abbrev AfterRound {σ : Type} (I : σ → State → Prop) (Q : β → State → Prop) (r : Round σ β)
    (s : State) : Prop :=
  match r with
  | .next a => I a s
  | .done b => Q b s

/-- A loop whose rounds keep an invariant. -/
theorem iterate_meets {σ : Type} {step : σ → Parser (Round σ β)} {I : σ → State → Prop}
    {Q : β → State → Prop} (hI : ∀ a s, I a s → s.Sound text)
    (hstep : ∀ a s, I a s → Meets text (step a) s (AfterRound I Q)) {a : σ} (h : I a s) :
    Meets text (iterate step a) s Q := by
  induction hn : s.remaining using Nat.strongRecOn generalizing a s with
  | _ n ih =>
    have hr := hstep a s h
    cases hrun : step a s with
    | error e =>
      have he := hr.error hrun
      unfold Meets
      rw [iterate, hrun]
      exact he
    | ok out =>
      obtain ⟨r, s'⟩ := out
      have hq := hr.ok hrun
      cases r with
      | done b =>
        refine .of_ok ?_ hq
        rw [iterate, hrun]
      | next a' =>
        unfold Meets
        rw [iterate, hrun]
        by_cases hlt : s'.remaining < s.remaining
        · simp only [if_pos hlt]
          exact ih _ (hn ▸ hlt) hq rfl
        · simp only [if_neg hlt]
          exact unexpected_meets (hI _ _ hq)

/-- A loop through recursion. -/
theorem recursive_meets {ι : Type} {body : (ι → Parser α) → ι → Parser α}
    {Q : State → α → State → Prop}
    (hbody : ∀ again : ι → Parser α, (∀ i s, s.Sound text → Meets text (again i) s (Q s)) →
      ∀ i s, s.Sound text → Meets text (body again i) s (Q s)) (i : ι) (hs : s.Sound text) :
    Meets text (recursive body i) s (Q s) := by
  induction hn : s.remaining using Nat.strongRecOn generalizing i s with
  | _ n ih =>
    refine .congr (by rw [recursive]) (hbody _ (fun i' s' hs' => ?_) i s hs)
    by_cases hlt : s'.remaining < s.remaining
    · exact .congr (if_pos hlt) (ih _ (hn ▸ hlt) i' hs' rfl)
    · exact .congr (if_neg hlt) (unexpected_meets hs')

/-- Items in order stay in order when more is taken behind them. -/
theorem InOrder.mono {f : α → List Sketch} {lo : Nat} {hi hi' : Front} {as : List α}
    (h : InOrder text f lo hi as) (hh : hi.Upto hi') : InOrder text f lo hi' as := by
  induction h with
  | nil => exact .nil
  | cons ha hl hm _ ih =>
    exact .cons (ha.mono (Nat.le_refl _) (hh.upTo _)) hl (Nat.le_trans hm hh.stop) (ih hh)

/-- One more item behind those in order. -/
theorem InOrder.append_singleton {f : α → List Sketch} {lo mid : Nat} {hi : Front} {as : List α}
    {a : α} (h : InOrder text f lo (hi.upTo mid) as) (hl : lo ≤ mid)
    (ha : AllPlaced text mid hi (f a)) (hm : mid ≤ hi.stop) : InOrder text f lo hi (as ++ [a]) := by
  induction as generalizing lo with
  | nil => exact .cons (ha.mono hl (.refl _)) (Nat.le_trans hl hm) (Nat.le_refl _) .nil
  | cons b bs ih =>
    cases h with
    | cons hb hl' hm' hbs => exact .cons hb hl' (Nat.le_trans hm' hm) (ih hbs hm')

/-- One more item is made behind the others. -/
theorem InOrder.append_made {f : α → List Sketch} {lo : Nat} {as : List α} {a : α}
    (h : InOrder text f lo s₁.front as) (hl : lo ≤ s₁.offset) (ha : Made text f s₁ a s₂) :
    InOrder text f lo s₂.front (as ++ [a]) := by
  have hu := ha.1.toOnto.upto
  have hb : s₁.front.Upto (s₂.front.upTo s₁.offset) :=
    ⟨ha.1.before.consumed_le, hu.taken, hu.implied⟩
  exact (h.mono hb).append_singleton hl ha.2 (Nat.le_of_lt ha.1.lt)

/-- Items in order behind a place are in order behind all places before it. -/
theorem InOrder.lower {f : α → List Sketch} {lo lo' : Nat} {hi : Front} {as : List α}
    (h : InOrder text f lo hi as) (hl : lo' ≤ lo) : InOrder text f lo' hi as := by
  cases h with
  | nil => exact .nil
  | cons ha hl' hm hrest =>
    exact .cons (ha.mono hl (.refl _)) (Nat.le_trans hl hl') hm hrest

/-- The items lie between the two offsets, one behind the other. -/
theorem InOrder.placed {f : α → List Sketch} {lo : Nat} {hi : Front} {as : List α}
    (h : InOrder text f lo hi as) : AllPlaced text lo hi (as.flatMap f) := by
  induction h with
  | nil => exact allPlaced_nil
  | cons ha hl hm _ ih => exact ha.append ih hl (Nat.le_refl _) (Front.upto_of_le _ hm)

/-- Each of the items lies between the two offsets. -/
theorem InOrder.placed_of_mem {f : α → List Sketch} {lo : Nat} {hi : Front} {as : List α} {a : α}
    (h : InOrder text f lo hi as) (ha : a ∈ as) : AllPlaced text lo hi (f a) := by
  induction h with
  | nil => exact absurd ha List.not_mem_nil
  | cons hfirst hl hm _ ih =>
    rcases List.mem_cons.mp ha with rfl | ha
    · exact hfirst.mono (Nat.le_refl _) (Front.upto_of_le _ hm)
    · exact (ih ha).mono hl (.refl _)

/-- The span from the first of some nodes through the last holds all of them. -/
theorem InOrder.covered {f : α → List Sketch} {span : α → Span}
    (hf : ∀ a, ∃ debt row parts, f a = [.mk (span a) true debt row parts]) {lo : Nat} {hi : Front}
    {a : α} {as : List α} (h : InOrder text f lo hi (a :: as)) :
    ∃ start stop : Nat, (span a).start = start + 1 ∧
      (span ((a :: as).getLast (List.cons_ne_nil a as))).stop = stop + 1 ∧ lo ≤ start ∧
      start < stop ∧ stop ≤ hi.stop ∧ IsBoundary text start ∧ IsBoundary text stop ∧
      AllPlaced text start (hi.upTo stop) ((a :: as).flatMap f) := by
  induction as generalizing a lo with
  | nil =>
    cases h with
    | cons ha hl hm _ =>
      obtain ⟨debt, row, parts, hp⟩ := hf a
      rw [hp] at ha
      obtain ⟨start, stop, hs, h1, h2, h3, h4, h5, h6, h7, h8⟩ := ha.each.of_mk
      refine ⟨start, stop, by rw [hs]; rfl, ?_, h1, h2, Nat.le_trans h3 hm, h4, h5, ?_⟩
      · rw [List.getLast_singleton, hs]
        rfl
      · rw [List.flatMap_singleton, hp, hs]
        exact allPlaced_mk (Nat.le_refl _) h2 (Nat.le_refl _) h4 h5 h6 h7 h8
  | cons c cs ih =>
    cases h with
    | @cons _ between _ _ _ ha hl hm hrest =>
      obtain ⟨start', stop, hs', he, h1', h2', h3', h4', h5', h6'⟩ := ih hrest
      obtain ⟨debt, row, parts, hp⟩ := hf a
      rw [hp] at ha
      obtain ⟨start, mid, hs, h1, h2, h3, h4, h5, h6, h7, h8⟩ := ha.each.of_mk
      have hle : mid ≤ between := h3
      have hlt : mid ≤ stop := by omega
      have hfirst : AllPlaced text start (hi.upTo mid) (f a) := by
        rw [hp, hs]
        exact allPlaced_mk (Nat.le_refl _) h2 (Nat.le_refl _) h4 h5 h6 h7 h8
      refine ⟨start, stop, by rw [hs]; rfl, ?_, h1, by omega, h3', h4, h5', ?_⟩
      · rw [List.getLast_cons (List.cons_ne_nil c cs)]
        exact he
      · rw [List.flatMap_cons]
        exact hfirst.append h6' (by omega) (Nat.le_trans hle h1')
          (Front.upto_of_le (hi.upTo stop) hlt)

/-- What a parser gives that may end a list: an item or nothing. -/
def GivesItem (text : String) {α : Type} (f : α → List Sketch) (s : State) (item : Option α)
    (s' : State) : Prop :=
  match item with
  | some a => Made text f s a s'
  | none => Kept text s s'

/-- A list of items lies between the ends of the tokens, in the order of the text, and ends
where there is no further item. -/
theorem many_meets_until {f : α → List Sketch} {N : State → Prop} {p : Parser (Option α)}
    (hp : ∀ s, s.Sound text → Meets text p s fun item s' =>
      GivesItem text f s item s' ∧ (item = none → N s')) (hs : s.Sound text) :
    Meets text (many p) s fun as s' =>
      (Kept text s s' ∧ InOrder text f s.offset s'.front as) ∧ N s' := by
  refine iterate_meets (I := fun found s₁ =>
    Kept text s s₁ ∧ InOrder text f s.offset s₁.front found.reverse)
    (fun _ _ h => h.1.sound) ?_ ⟨.refl hs, .nil⟩
  intro found s₁ ⟨hk, ho⟩
  refine .bind (hp s₁ hk.sound) fun item s₂ hi => ?_
  cases item with
  | none =>
    have hk₂ : Kept text s₁ s₂ := hi.1
    exact .pure ⟨⟨hk.trans hk₂, ho.mono hk₂.toOnto.upto⟩, hi.2 rfl⟩
  | some a =>
    have ha : Made text f s₁ a s₂ := hi.1
    refine .pure ⟨hk.trans ha.1.kept, ?_⟩
    rw [List.reverse_cons]
    exact ho.append_made hk.toOnto.offset_le ha

/-- Items are made one behind the other. -/
theorem many_meets {f : α → List Sketch} {p : Parser (Option α)}
    (hp : ∀ s, s.Sound text → Meets text p s (GivesItem text f s)) (hs : s.Sound text) :
    Meets text (many p) s fun as s' =>
      Kept text s s' ∧ InOrder text f s.offset s'.front as := by
  have h := many_meets_until (N := fun _ => True)
    (fun s hs => (hp s hs).imp fun _ _ h => ⟨h, fun _ => trivial⟩) hs
  exact h.imp fun _ _ h => h.1

/-- One more item, if a comma announces it. -/
theorem commaItem_meets {f : α → List Sketch} {item : Parser α} (hp : Makes text f item)
    (s : State) (hs : s.Sound text) :
    Meets text (do if ← eat (.mark .comma) then return some (← item) else return none) s
      (GivesItem text f s) := by
  refine .eat hs rfl (fun s₁ h₁ _ => ?_) (.pure (.refl hs))
  exact .bind (hp s₁ h₁.sound) fun e s₂ h₂ => .pure (h₂.from h₁.toOnto)

/-- A parser of items is one of a list of them with commas up to a closing token. -/
theorem commaList_meets {f : α → List Sketch} {item : Parser α} (close : TokenKind)
    (hp : Makes text f item) (hs : s.Sound text) :
    Meets text (commaList close item) s fun as s' =>
      Kept text s s' ∧ InOrder text f s.offset s'.front as := by
  refine many_meets (fun s₁ h₁ => .step rfl ?_) hs
  split
  · exact .pure (.refl h₁)
  · refine .bind (hp s₁ h₁) fun a s₂ h₂ => .step rfl ?_
    split
    · exact .pure h₂
    · exact .expect h₂.1.sound rfl fun s₃ h₃ => .pure (h₂.upTo h₃.kept)

end

end EcmaScript.Parser

import EcmaScript.Proofs.Parser.Spans
import EcmaScript.Proofs.Slice.Extent
import EcmaScript.Proofs.Slice.Tandem
import EcmaScript.Proofs.Syntax.Relocate
import EcmaScript.Proofs.Tandem.Loop

/-!
# Statements alone

Every statement of an accepted script is a script of its own: the stretch of the text that the
statement stands on is accepted, and gives this statement and no other one. So neither what
comes before a statement nor what comes behind it has a part in how it is read.
-/

namespace EcmaScript

/-- The stretch of the text that the statement stands on is a script with only this
statement. -/
def StandsAlone (text : String) (statement : Statement) : Prop :=
  ∃ part alone, statement.span.slice? text = some part ∧ parse part = .ok alone ∧
    alone.body = [statement.back (Position.offset statement.span.start)]

namespace Parser

open Place

section

variable {α : Type} {text : String} {s s₁ s₂ : State}

/-- Between two boundaries of a text there is a window. -/
theorem exists_window {start stop : Nat} (hs : IsBoundary text start) (he : IsBoundary text stop)
    (hle : start ≤ stop) : ∃ w : Window, w.text = text ∧ w.base = start ∧ w.cut = stop := by
  obtain ⟨before, middle, behind, ht, hstart, hstop⟩ := hs.between he hle
  refine ⟨⟨before, middle, behind⟩, ?_, hstart, hstop⟩
  rw [Window.text, ← ht, String.ofList_toList]

/-- The stretch is what the whole text has between the two ends of the window. -/
theorem slice?_window (w : Window) : (Span.ofOffsets w.base w.cut).slice? w.text = some w.part :=
  Span.slice?_ofOffsets w.toList_text

/-- A list ends behind its only item. -/
theorem many_singleton {p : Parser (Option α)} {a : α} (hfirst : p s = .ok (some a, s₁))
    (hlt : s₁.remaining < s.remaining) (hdone : p s₁ = .ok (none, s₂)) :
    many p s = .ok ([a], s₂) := by
  rw [many, iterate, bind_run hfirst]
  show (if s₁.remaining < s.remaining then _ else _) = _
  rw [if_pos hlt, iterate, bind_run hdone]
  rfl

/-- A text whose one statement ends at the end of the text is a script of this statement. -/
theorem script_singleton {statement : Statement} (hk : s.lexer.token.kind ≠ .endOfFile)
    (hrun : (Nested.ofDepth maxDepth).statement {} s = .ok (statement, s₁))
    (hlt : s₁.remaining < s.remaining) (hend : s₁.lexer.token.kind = .endOfFile) :
    script s = .ok ([statement], s₁) := by
  have hne : (s.lexer.token.kind == .endOfFile) = false := beq_eq_false_iff_ne.mpr hk
  refine many_singleton ?_ hlt ?_
  · refine (bind_run (p := isAt .endOfFile) rfl).trans ?_
    rw [hne]
    refine (bind_run (p := isAt .endOfFile) rfl).trans ?_
    rw [hne]
    exact bind_run hrun
  · refine (bind_run (p := isAt .endOfFile) rfl).trans ?_
    rw [hend]
    rfl

/-- A script that is read to the end without a fault is accepted. -/
theorem parse_eq_ok {body : List Statement} (hrun : script (State.ofString text) = .ok (body, s))
    (hclean : s.lexer.faults = #[]) : parse text = .ok (.ofStatements body) := by
  rw [parse, parseFaults, hrun]
  show Except.mapError _ (if s.lexer.faults.isEmpty then _ else _) = _
  rw [hclean]
  rfl

end

/-- A statement that is accepted is so too with the slash in front of it read again. -/
theorem statement_reread {s : State} {out : Statement × State}
    (h : (Nested.ofDepth maxDepth).statement {} s = .ok out) :
    (Nested.ofDepth maxDepth).statement {} s.reread = .ok out := by
  cases hk : Lexer.isSlash s.lexer.token.kind with
  | true => exact (Nested.ofDepth_rereads maxDepth).statement {} s out hk h
  | false => rwa [State.reread_of_isSlash hk]

/-- A statement is read from its start on, where all semicolons so far are implied before. -/
structure Begins (text : String) (s : State) : Prop where
  sound : s.Sound text
  plain : s.Plain
  implied_le : ∀ offset ∈ s.implied, offset ≤ s.consumed

/-- All spans are moved alike. -/
theorem relocation_tandem (w : Window) : w.tandem.relocation = fun _ => Span.back w.base := by
  funext form
  cases form <;> rfl

/-- A statement that fills the window without a fault is what the stretch alone is parsed to. -/
theorem parse_part {w : Window} {s s' : State} {statement : Statement} (hs : Begins w.text s)
    (hsize : s.size = w.text.utf8ByteSize) (hbase : s.offset = w.base)
    (hcut : s'.consumed = w.cut) (hclean : s'.lexer.faults = #[])
    (hrun : (Nested.ofDepth maxDepth).statement {} s = .ok (statement, s')) :
    parse w.part = .ok (.ofStatements [statement.back w.base]) ∧
      s'.size = w.text.utf8ByteSize ∧ ∀ offset ∈ s'.implied, offset ≤ s'.consumed := by
  have honto := hs.sound.reread
  have hle : w.base ≤ s.reread.offset := hbase ▸ honto.offset_le
  have hstands : Stands w.tandem s.reread := ⟨hle, hs.implied_le⟩
  obtain ⟨-, hway, hend⟩ := (Nested.ofDepth_keeps w.tandem maxDepth).statement (K := True) {}
    s.reread (State.ofString w.part) honto.sound hstands statement s'
    (statement_reread hrun)
  have hlast : Ahead w 0 s'.place := ⟨s'.place, .path .refl, hcut, hclean⟩
  have hahead : Ahead w 1 s.reread.place := hlast.of_takes hway.takes
  have hin := InStep.first hs.sound hs.plain hbase hsize hahead
  obtain ⟨t', hrun', hin'⟩ := hend hlast (Or.inr trivial) trivial hin
  have hkind : (State.ofString w.part).lexer.token.kind ≠ .endOfFile := by
    rw [(hin.alike honto.sound hahead).twin.kind]
    exact (hahead.inside honto.sound.place).1
  have hlt : t'.remaining < (State.ofString w.part).remaining := by
    have hpart : w.part.utf8ByteSize = byteLength w.inside :=
      (byteLength_eq_utf8ByteSize w.inside).symm
    have hfilled : w.base < w.cut :=
      hcut ▸ Nat.lt_of_le_of_lt hle (hway.takes.lt honto.sound.place)
    have hconsumed : t'.consumed = s'.consumed - w.base :=
      (Nearly.toLevel hin').consumed.trans (ite_self _)
    rw [hcut, Window.cut, Nat.add_sub_cancel_left] at hconsumed
    rw [Window.cut] at hfilled
    have hsize' : t'.size = w.part.utf8ByteSize := (Nearly.toLevel hin').sizeOther
    rw [State.remaining, State.remaining, hsize', hconsumed, hpart]
    show _ < w.part.utf8ByteSize - 0
    omega
  have hnear : w.Near s'.place t'.place := by
    cases Nearly.nigh hin' with
    | near hnear => exact hnear
    | reread hopen _ _ _ => exact absurd hopen (Nat.not_lt.mpr (Nat.le_of_eq hcut.symm))
  have hended := hnear.ended (Nat.le_of_eq hcut.symm)
  rw [relocation_tandem] at hrun'
  exact ⟨parse_eq_ok (script_singleton hkind hrun' hlt hended.1) hnear.clean,
    (Nearly.toLevel hin').size, (hstands.along honto.sound hway).implied_le⟩

/-- A statement that is parsed without a fault stands alone, whatever comes before and behind. -/
theorem statement_standsAlone {text : String} {s s' : State} {statement : Statement}
    (hs : Begins text s) (hsize : s.size = text.utf8ByteSize)
    (hclean : s'.lexer.faults = #[]) (ht : Took text s s')
    (hrun : (Nested.ofDepth maxDepth).statement {} s = .ok (statement, s')) :
    StandsAlone text statement ∧ s'.size = text.utf8ByteSize ∧
      ∀ offset ∈ s'.implied, offset ≤ s'.consumed := by
  have hspan : statement.span = .ofOffsets s.offset s'.consumed :=
    statement_extends {} statement s' hrun
  obtain ⟨w, rfl, hbase, hcut⟩ : ∃ w : Window, w.text = text ∧ w.base = s.offset ∧
      w.cut = s'.consumed :=
    exists_window hs.sound.place.isBoundary_offset ht.sound.place.isBoundary (Nat.le_of_lt ht.lt)
  obtain ⟨hparse, hsize'⟩ := parse_part hs hsize hbase.symm hcut.symm hclean hrun
  rw [← hbase, ← hcut] at hspan
  refine ⟨⟨w.part, _, ?_, hparse, ?_⟩, hsize'⟩
  · rw [hspan, slice?_window]
  · rw [Program.body_ofStatements, hspan]
    rfl

theorem State.plain_ofString (text : String) : (State.ofString text).Plain := by
  refine ⟨(Lexer.ofString text).skipHashbang, ?_, rfl⟩
  unfold Lexer.skipHashbang
  split
  · rfl
  · rfl

/-- What is known of the outcome may be told of the run that led to it. -/
theorem Meets.and_run {α : Type} {text : String} {p : Parser α} {s : State} {Q : α → State → Prop}
    (h : Meets text p s Q) : Meets text p s fun a s' => Q a s' ∧ p s = .ok (a, s') := by
  cases hrun : p s with
  | ok out => exact .of_ok hrun ⟨h.ok hrun, rfl⟩
  | error e =>
    have he := h.error hrun
    unfold Meets
    rw [hrun]
    exact he

/-- What is known before each statement of a script, and behind the last one: if no fault has
been met so far, the statements up to there stand alone. -/
structure Separate (text : String) (statements : List Statement) (s : State) : Prop
    extends Kept text (State.ofString text) s where
  size : s.lexer.faults = #[] → s.size = text.utf8ByteSize
  implied_le : s.lexer.faults = #[] → ∀ offset ∈ s.implied, offset ≤ s.consumed
  standsAlone : s.lexer.faults = #[] → ∀ statement ∈ statements, StandsAlone text statement

/-- One more statement that stands alone. -/
theorem Separate.snoc {text : String} {statements : List Statement} {statement : Statement}
    {s s' : State} (h : Separate text statements s) (ht : Took text s s')
    (hrun : (Nested.ofDepth maxDepth).statement {} s = .ok (statement, s')) :
    Separate text (statement :: statements) s' := by
  have hbefore : s'.lexer.faults = #[] → s.lexer.faults = #[] := ht.path.clean
  have hnext := fun hclean => statement_standsAlone
    ⟨h.sound, h.plain (State.plain_ofString text), h.implied_le (hbefore hclean)⟩
    (h.size (hbefore hclean)) hclean ht hrun
  refine { h.toKept.trans ht.kept with
    size := fun hclean => (hnext hclean).2.1
    implied_le := fun hclean => (hnext hclean).2.2
    standsAlone := fun hclean => ?_ }
  exact List.forall_mem_cons.mpr ⟨(hnext hclean).1, h.standsAlone (hbefore hclean)⟩

/-- While a script is read, the statements so far stand alone. -/
theorem script_separate (text : String) :
    Meets text script (State.ofString text) (Separate text) := by
  refine iterate_meets (I := Separate text) (fun _ _ h => h.sound) (fun found s h => ?_)
    { Kept.refl (State.sound_ofString text) with
      size := fun _ => rfl
      implied_le := fun _ _ ho => (List.not_mem_nil ho).elim
      standsAlone := fun _ _ hm => (List.not_mem_nil hm).elim }
  refine .bind (P := fun item s' => match item with
    | some statement => Took text s s' ∧
        (Nested.ofDepth maxDepth).statement {} s = .ok (statement, s')
    | none => s' = s) ?_ fun item s' hitem => ?_
  · refine .step rfl (.ite (fun _ => .pure rfl) fun _ => ?_)
    refine .step rfl (.refuse (unexpected_meets h.sound) fun _ => ?_)
    refine .bind ((Nested.ofDepth_sound maxDepth).statement {} s h.sound).and_run fun _ s' h' => ?_
    exact .pure ⟨h'.1.1, h'.2⟩
  · cases item with
    | some statement => exact .pure (h.snoc hitem.1 hitem.2)
    | none =>
      obtain rfl : s' = s := hitem
      refine .pure { h with standsAlone := fun hclean statement hm => ?_ }
      exact h.standsAlone hclean statement (List.mem_reverse.mp hm)

end Parser

/-- Every statement of an accepted script, cut out of the text by its span, is accepted on its
own, and the script that it makes consists of this statement alone, with all its spans moved to
the left by where the statement starts. -/
theorem parse_slice {text : String} {program : Program} (h : parse text = .ok program) :
    ∀ statement ∈ program.body, ∃ part alone, statement.span.slice? text = some part ∧
      parse part = .ok alone ∧
      alone.body = [statement.back (Position.offset statement.span.start)] := by
  obtain ⟨body, last, hrun, hclean, rfl⟩ := parse_ok_inv h
  rw [Program.body_ofStatements]
  exact ((Parser.script_separate text).ok hrun).standsAlone hclean

/-- A script whose second statement starts with a slash. -/
def slashBehindLoop : Accepted "do;while(a)/b/" fun program =>
    (program.body.map fun statement => statement.span.slice? "do;while(a)/b/") ==
      [some "do;while(a)", some "/b/"] :=
  .ofRun (by decide +kernel)

/-- The theorem at a script whose second statement starts with a slash, which is an operator to
the lexer of the whole text and starts a regular expression in the stretch alone. -/
theorem parse_slice_regex : ∃ program statement alone,
    parse "do;while(a)/b/" = .ok program ∧ statement ∈ program.body ∧
      statement.span.slice? "do;while(a)/b/" = some "/b/" ∧ parse "/b/" = .ok alone ∧
      alone.body = [statement.back (Position.offset statement.span.start)] := by
  obtain ⟨program, h, hok⟩ := slashBehindLoop
  obtain ⟨statement, hm, hslice⟩ : ∃ statement ∈ program.body,
      statement.span.slice? "do;while(a)/b/" = some "/b/" :=
    List.mem_map.mp (eq_of_beq hok ▸ List.mem_cons_of_mem _ List.mem_cons_self)
  obtain ⟨part, alone, hpart, hparse, hbody⟩ := parse_slice h statement hm
  obtain rfl : part = "/b/" := Option.some.inj (hpart.symm.trans hslice)
  exact ⟨program, statement, alone, h, hm, hslice, hparse, hbody⟩

end EcmaScript

import EcmaScript.Proofs.Lexer.Alone
import EcmaScript.Proofs.Lexer.Sources
import EcmaScript.Proofs.Lexer.Spelling

/-!
# Templates read from their raw text

What a piece of a template means hangs on its raw text alone: when its content is written with
uniform line ends and put between backquotes, it is read as one template with the same raw text
and the same value. The two contents differ in their line ends only, and an escape takes the whole
of a line end or nothing of it, so both are read in step.
-/

namespace EcmaScript

namespace Lexer

open Character Cursor

/-- Line ends that are uniform stay. -/
theorem uniformLineEnds_idem (cs : List Char) :
    uniformLineEnds (uniformLineEnds cs) = uniformLineEnds cs := by
  have hfeed : ∀ ds, uniformLineEnds ('\n' :: ds) = '\n' :: uniformLineEnds ds := fun ds =>
    uniformLineEnds.eq_4 '\n' ds (fun _ h _ => absurd h (by decide)) (by decide)
  fun_induction uniformLineEnds cs with
  | case1 => rfl
  | case2 cs ih => rw [hfeed, ih]
  | case3 cs hne ih => rw [hfeed, ih]
  | case4 ch cs h1 h2 ih =>
    have hch : ch ≠ '\r' := h2
    rw [uniformLineEnds.eq_4 ch _ (fun _ h _ => hch h) hch, ih]

/-- What a chunk ends with, as it is spelled. -/
def ChunkEnd.chars : ChunkEnd → List Char
  | .closed => ['\x60']
  | .substitution => ['$', '\x7b']
  | .missing => []

/-- A text that goes on with the mark of a template. -/
def StartsMark (mark : List Char) : Prop :=
  ∃ ending : ChunkEnd, ending ≠ .missing ∧ ∃ cs, mark = ending.chars ++ cs

/-- The mark of a template starts with a backquote or a dollar sign. -/
theorem StartsMark.head {mark : List Char} (h : StartsMark mark) :
    ∃ ch cs, mark = ch :: cs ∧ (ch = '\x60' ∨ ch = '$') := by
  obtain ⟨ending, he, cs, rfl⟩ := h
  cases ending with
  | closed => exact ⟨_, cs, rfl, Or.inl rfl⟩
  | substitution => exact ⟨_, '\x7b' :: cs, rfl, Or.inr rfl⟩
  | missing => exact absurd rfl he

/-- `Evens mark behind cs ds` says that `cs` and `ds` are the same content, in `ds` with uniform
line ends, with `mark` behind it in `cs` and a backquote and `behind` in `ds`. -/
inductive Evens (mark behind : List Char) : List Char → List Char → Prop where
  | done : Evens mark behind mark ('\x60' :: behind)
  | same {ch : Char} {cs ds : List Char} :
      ch ≠ '\r' → Evens mark behind cs ds → Evens mark behind (ch :: cs) (ch :: ds)
  | pair {cs ds : List Char} :
      Evens mark behind cs ds → Evens mark behind ('\r' :: '\n' :: cs) ('\n' :: ds)
  | lone {cs ds : List Char} :
      (∀ es, cs ≠ '\n' :: es) → Evens mark behind cs ds →
      Evens mark behind ('\r' :: cs) ('\n' :: ds)

variable {mark behind cs ds : List Char}

/-- A content and the same with uniform line ends. -/
theorem evens_uniformLineEnds (hm : StartsMark mark) (behind content : List Char) :
    Evens mark behind (content ++ mark) (uniformLineEnds content ++ '\x60' :: behind) := by
  fun_induction uniformLineEnds content with
  | case1 => exact .done
  | case2 cs ih => exact .pair ih
  | case3 cs hne ih =>
    refine .lone (fun es he => ?_) ih
    cases cs with
    | nil =>
      obtain ⟨ch, xs, rfl, hch⟩ := hm.head
      obtain rfl := (List.cons.inj he).1
      rcases hch with h | h <;> exact absurd h (by decide)
    | cons ch cs => exact hne cs (by rw [(List.cons.inj he).1])
  | case4 ch cs h1 h2 ih => exact .same h2 ih

namespace Evens

/-- The mark is left at least. -/
theorem length_le (h : Evens mark behind cs ds) : mark.length ≤ cs.length := by
  induction h with
  | done => exact Nat.le_refl _
  | same _ _ ih => exact Nat.le_succ_of_le ih
  | pair _ ih => exact Nat.le_succ_of_le (Nat.le_succ_of_le ih)
  | lone _ _ ih => exact Nat.le_succ_of_le ih

/-- The mark stands where the content ends. -/
theorem eq_of_length_le (h : Evens mark behind cs ds) (hl : cs.length ≤ mark.length) :
    cs = mark ∧ ds = '\x60' :: behind := by
  cases h with
  | done => exact ⟨rfl, rfl⟩
  | same _ h => exact absurd (Nat.le_trans hl h.length_le) (Nat.not_succ_le_self _)
  | pair h =>
    exact absurd (Nat.le_of_succ_le (Nat.le_trans hl h.length_le)) (Nat.not_succ_le_self _)
  | lone _ h => exact absurd (Nat.le_trans hl h.length_le) (Nat.not_succ_le_self _)

end Evens

/-- In front of the mark the contents go on with the same character, or one of them with a line end
that is made uniform in the other. -/
theorem Evens.uncons {ch : Char} (h : Evens mark behind (ch :: cs) ds)
    (hl : mark.length ≤ cs.length) :
    (ch ≠ '\r' ∧ ∃ es, ds = ch :: es ∧ Evens mark behind cs es) ∨
      (ch = '\r' ∧ ∃ es, ds = '\n' :: es ∧
        ((∃ xs, cs = '\n' :: xs ∧ Evens mark behind xs es) ∨
          ((∀ xs, cs ≠ '\n' :: xs) ∧ Evens mark behind cs es))) := by
  generalize hcs : ch :: cs = all at h
  cases h with
  | done =>
    rw [← hcs] at hl
    exact absurd hl (Nat.not_succ_le_self _)
  | same hch h =>
    obtain ⟨rfl, rfl⟩ := List.cons.inj hcs
    exact Or.inl ⟨hch, _, rfl, h⟩
  | pair h =>
    obtain ⟨rfl, rfl⟩ := List.cons.inj hcs
    exact Or.inr ⟨rfl, _, rfl, Or.inl ⟨_, rfl, h⟩⟩
  | lone hne h =>
    obtain ⟨rfl, rfl⟩ := List.cons.inj hcs
    exact Or.inr ⟨rfl, _, rfl, Or.inr ⟨hne, h⟩⟩

/-- The character neither ends a chunk nor is part of a line end. -/
def IsInner (ch : Char) : Prop := ch ∉ ['\x60', '$', '\r', '\n']

instance : DecidablePred IsInner := fun ch =>
  inferInstanceAs (Decidable (ch ∉ ['\x60', '$', '\r', '\n']))

/-- An inner character stands in both contents. -/
theorem Evens.cons_right {x : Char} {ys : List Char} (h : Evens mark behind cs (x :: ys))
    (hx : IsInner x) : ∃ xs, cs = x :: xs ∧ Evens mark behind xs ys := by
  generalize hds : x :: ys = ds at h
  cases h with
  | done => exact absurd (List.cons.inj hds).1 fun he => hx (by simp [he])
  | same _ h =>
    obtain ⟨rfl, rfl⟩ := List.cons.inj hds
    exact ⟨_, rfl, h⟩
  | pair => exact absurd (List.cons.inj hds).1 fun he => hx (by simp [he])
  | lone => exact absurd (List.cons.inj hds).1 fun he => hx (by simp [he])

/-- Two escapes mean the same, and behind them the contents are the same. -/
def SameEscape (mark behind : List Char) (a b : Escape) : Prop :=
  b.meaning = a.meaning ∧ Evens mark behind a.stop.rest b.stop.rest

section

variable (hm : StartsMark mark)
include hm

/-- No mark starts with a character from inside a chunk. -/
theorem StartsMark.ne_cons {x : Char} (hx : IsInner x) (xs : List Char) : mark ≠ x :: xs := by
  obtain ⟨ch, cs, rfl, hch⟩ := hm.head
  intro he
  rw [(List.cons.inj he).1] at hch
  rcases hch with rfl | rfl <;> exact hx (by simp)

namespace Evens

/-- A character from inside a chunk comes next in both. -/
theorem cons_left {x : Char} {xs : List Char} (h : Evens mark behind (x :: xs) ds)
    (hx : IsInner x) : ∃ ys, ds = x :: ys ∧ Evens mark behind xs ys := by
  generalize hcs : x :: xs = cs at h
  cases h with
  | done => exact absurd hcs.symm (hm.ne_cons hx xs)
  | same _ h =>
    obtain ⟨rfl, rfl⟩ := List.cons.inj hcs
    exact ⟨_, rfl, h⟩
  | pair => exact absurd (List.cons.inj hcs).1 fun he => hx (by simp [he])
  | lone => exact absurd (List.cons.inj hcs).1 fun he => hx (by simp [he])

/-- What inner characters alone can have is had by the next character of both contents or of
neither. -/
theorem any_head {p : Char → Bool} (hp : ∀ ch, p ch = true → IsInner ch)
    (h : Evens mark behind cs ds) : ds.head?.any p = cs.head?.any p := by
  have hno : ∀ {ch : Char}, ¬ IsInner ch → p ch = false := fun hch =>
    Bool.eq_false_iff.mpr fun h => hch (hp _ h)
  cases h with
  | done =>
    obtain ⟨ch, cs, rfl, hch⟩ := hm.head
    have hc : ¬ IsInner ch := by rcases hch with rfl | rfl <;> decide
    exact (hno (by decide)).trans (hno hc).symm
  | same => rfl
  | pair => exact (hno (by decide)).trans (hno (by decide)).symm
  | lone => exact (hno (by decide)).trans (hno (by decide)).symm

/-- Both have the same run of hexadecimal digits. -/
theorem hexRun (h : Evens mark behind cs ds) (value count o p : Nat) :
    (hexRun value count p ds).value = (hexRun value count o cs).value ∧
      (hexRun value count p ds).count = (hexRun value count o cs).count ∧
      Evens mark behind (hexRun value count o cs).stop.rest
        (hexRun value count p ds).stop.rest := by
  have hstay : ∀ {ch : Char} {es : List Char} (value count o : Nat), hexValue? ch = none →
      Lexer.hexRun value count o (ch :: es) = ⟨value, count, ⟨o, ch :: es⟩⟩ := by
    intro ch es value count o hch
    rw [Lexer.hexRun, hch]
  induction h generalizing value count o p with
  | done =>
    obtain ⟨ch, cs, rfl, hch⟩ := hm.head
    rw [hstay _ _ p (by decide), hstay _ _ o (by rcases hch with rfl | rfl <;> decide)]
    exact ⟨rfl, rfl, .done⟩
  | @same ch cs ds hch h ih =>
    cases hd : hexValue? ch with
    | none =>
      rw [hstay _ _ p hd, hstay _ _ o hd]
      exact ⟨rfl, rfl, .same hch h⟩
    | some d =>
      simp only [Lexer.hexRun, hd]
      exact ih ..
  | pair h =>
    rw [hstay _ _ p (by decide), hstay _ _ o (by decide)]
    exact ⟨rfl, rfl, .pair h⟩
  | lone hne h =>
    rw [hstay _ _ p (by decide), hstay _ _ o (by decide)]
    exact ⟨rfl, rfl, .lone hne h⟩

/-- Both have the same hexadecimal digits of an escape. -/
theorem hexDigits (h : Evens mark behind cs ds) (value n : Nat) :
    hexDigits? value n ds = hexDigits? value n cs ∧
      ∀ r o p, hexDigits? value n cs = some r →
        Evens mark behind (Cursor.advance n ⟨o, cs⟩).rest (Cursor.advance n ⟨p, ds⟩).rest := by
  induction n generalizing value cs ds with
  | zero => exact ⟨rfl, fun _ _ _ _ => h⟩
  | succ n ih =>
    have hnone : ∀ {ch : Char} {es : List Char}, hexValue? ch = none →
        hexDigits? value (n + 1) (ch :: es) = none := by
      intro ch es hch
      rw [hexDigits?, hch]
    cases h with
    | done =>
      obtain ⟨ch, cs, rfl, hch⟩ := hm.head
      rw [hnone (by decide), hnone (by rcases hch with rfl | rfl <;> decide)]
      exact ⟨rfl, by simp⟩
    | @same ch cs ds hch h =>
      cases hd : hexValue? ch with
      | none =>
        rw [hnone hd, hnone hd]
        exact ⟨rfl, by simp⟩
      | some d =>
        simp only [hexDigits?, hd]
        obtain ⟨heq, hstop⟩ := ih h (value * 16 + d)
        exact ⟨heq, fun r o p hr => hstop r _ _ hr⟩
    | pair h =>
      rw [hnone (by decide), hnone (by decide)]
      exact ⟨rfl, by simp⟩
    | lone hne h =>
      rw [hnone (by decide), hnone (by decide)]
      exact ⟨rfl, by simp⟩

/-- Both have the same code point in an escape. -/
theorem codePoint {c d : Cursor} (h : Evens mark behind c.rest d.rest) :
    (codePoint d).1 = (codePoint c).1 ∧
      Evens mark behind (codePoint c).2.rest (codePoint d).2.rest := by
  by_cases hb : ∃ cs, c.rest = '\x7b' :: cs
  · obtain ⟨cs, hc⟩ := hb
    rw [hc] at h
    obtain ⟨ds, hd, h⟩ := h.cons_left hm (by decide)
    rw [codePoint_brace hc, codePoint_brace hd]
    obtain ⟨hvalue, hcount, hstop⟩ := h.hexRun hm 0 0 (c.offset + 1) (d.offset + 1)
    generalize Lexer.hexRun 0 0 (c.offset + 1) cs = run at hvalue hcount hstop
    generalize Lexer.hexRun 0 0 (d.offset + 1) ds = even at hvalue hcount hstop
    by_cases hclose : ∃ xs, run.stop.rest = '\x7d' :: xs
    · obtain ⟨xs, hxs⟩ := hclose
      have hnext := hstop
      rw [hxs] at hnext
      obtain ⟨ys, hys, hnext⟩ := hnext.cons_left hm (by decide)
      unfold braced
      rw [hcount, hvalue, hxs, hys]
      cases run.count with
      | zero => exact ⟨rfl, hstop⟩
      | succ =>
        refine ⟨rfl, ?_⟩
        rw [Cursor.next_eq hxs, Cursor.next_eq hys]
        exact hnext
    · have hopen : ∀ ys, even.stop.rest ≠ '\x7d' :: ys := by
        intro ys hys
        rw [hys] at hstop
        obtain ⟨xs, hxs, -⟩ := hstop.cons_right (by decide)
        exact hclose ⟨xs, hxs⟩
      rw [braced_of_ne hopen, braced_of_ne fun xs hxs => hclose ⟨xs, hxs⟩]
      exact ⟨rfl, hstop⟩
  · have hd : ∀ ds, d.rest ≠ '\x7b' :: ds := by
      intro ds hd
      rw [hd] at h
      obtain ⟨cs, hc, -⟩ := h.cons_right (by decide)
      exact hb ⟨cs, hc⟩
    obtain ⟨heq, hstop⟩ := h.hexDigits hm 0 4
    rw [codePoint_plain fun cs hc => hb ⟨cs, hc⟩, codePoint_plain hd, heq]
    cases hv : hexDigits? 0 4 c.rest with
    | none => exact ⟨rfl, h⟩
    | some v => exact ⟨rfl, hstop v _ _ hv⟩

/-- Both have the same second half of a surrogate pair. -/
theorem joinedChar {c d : Cursor} (h : Evens mark behind c.rest d.rest) (code : Nat) :
    (joinedChar code d).1 = (joinedChar code c).1 ∧
      Evens mark behind (joinedChar code c).2.rest (joinedChar code d).2.rest := by
  rw [joinedChar_eq, joinedChar_eq]
  cases hj : joined? code c with
  | none =>
    cases hk : joined? code d with
    | none => exact ⟨rfl, h⟩
    | some r =>
      obtain ⟨ds, low, hd, hh, hp, hl, -⟩ := joined_eq_some hk
      rw [hd] at h
      obtain ⟨_, hc, hu⟩ := h.cons_right (by decide)
      obtain ⟨cs, rfl, hcode⟩ := hu.cons_right (by decide)
      obtain ⟨heq, -⟩ := codePoint hm (c := ⟨c.offset + 2, cs⟩) (d := ⟨d.offset + 2, ds⟩) hcode
      have hcode : (Lexer.codePoint ⟨c.offset + 2, cs⟩).1 = .ok low := by rw [← heq, hp]
      rw [joined_of hc hh (Prod.ext hcode rfl) hl] at hj
      exact nomatch hj
  | some r =>
    obtain ⟨cs, low, hc, hh, hp, hl, hr⟩ := joined_eq_some hj
    rw [hc] at h
    obtain ⟨_, hd, hu⟩ := h.cons_left hm (by decide)
    obtain ⟨ds, rfl, hcode⟩ := hu.cons_left hm (by decide)
    obtain ⟨heq, hstop⟩ := codePoint hm (c := ⟨c.offset + 2, cs⟩) (d := ⟨d.offset + 2, ds⟩) hcode
    rw [hp] at hstop
    have hcode : (Lexer.codePoint ⟨d.offset + 2, ds⟩).1 = .ok low := by rw [heq, hp]
    rw [joined_of hd hh (Prod.ext hcode rfl) hl, hr]
    exact ⟨rfl, hstop⟩

/-- Behind a backslash both contents have the same escape, if it does not take the mark. -/
theorem escape {c d : Cursor} (h : Evens mark behind c.rest d.rest)
    (hl : mark.length ≤ (escape true c).stop.rest.length) :
    SameEscape mark behind (escape true c) (escape true d) := by
  generalize hcs : c.rest = cs at h
  generalize hds : d.rest = ds at h
  cases h with
  | done =>
    obtain ⟨ch, cs, rfl, -⟩ := hm.head
    obtain ⟨front, hr, -⟩ := reaches_escape_cons true hcs
    rw [Cursor.next_eq hcs] at hr
    have hlong : cs.length = _ := congrArg List.length hr
    rw [List.length_append] at hlong
    rw [List.length_cons] at hl
    omega
  | @same ch cs ds hch h =>
    have hc : c.next.rest = cs := by rw [Cursor.next_eq hcs]
    have hd : d.next.rest = ds := by rw [Cursor.next_eq hds]
    have hnext : Evens mark behind c.next.rest d.next.rest := by rw [hc, hd]; exact h
    have hdigit : ds.head?.any isDigit = cs.head?.any isDigit :=
      h.any_head hm fun ch hp hmem => by
        simp only [List.mem_cons, List.not_mem_nil, or_false] at hmem
        rcases hmem with rfl | rfl | rfl | rfl <;> exact absurd hp (by decide)
    simp only [Lexer.escape, hcs, hds, hdigit]
    cases letterEscape? ch with
    | some plain => exact ⟨rfl, hnext⟩
    | none =>
      refine ite_rel (fun _ => ⟨rfl, hnext⟩) fun _ => ?_
      refine ite_rel (fun _ => ⟨rfl, hnext⟩) fun _ => ?_
      refine ite_rel (fun _ => ⟨rfl, hnext⟩) fun _ => ?_
      refine ite_rel (fun _ => ?_) fun _ => ?_
      · obtain ⟨heq, hstop⟩ := h.hexDigits hm 0 2
        rw [heq]
        cases hv : hexDigits? 0 2 cs with
        | none => exact ⟨rfl, hnext⟩
        | some v =>
          refine ⟨rfl, ?_⟩
          rw [Cursor.next_eq hcs, Cursor.next_eq hds]
          exact hstop v _ _ hv
      refine ite_rel (fun _ => ?_) fun _ => ?_
      · obtain ⟨heq, hstop⟩ := codePoint hm hnext
        cases hv : Lexer.codePoint c.next with
        | mk code stop =>
          cases hw : Lexer.codePoint d.next with
          | mk even evenStop =>
            rw [hv, hw] at heq hstop
            obtain rfl : even = code := heq
            cases even with
            | error problem => exact ⟨rfl, hstop⟩
            | ok code =>
              obtain ⟨hjoin, hjoined⟩ := joinedChar hm hstop code
              exact ⟨congrArg (fun ch => Except.ok [ch]) hjoin, hjoined⟩
      have hreturn : ¬(ch == '\r') = true := by simpa using hch
      rw [if_neg hreturn, if_neg hreturn]
      exact ite_rel (fun _ => ⟨rfl, hnext⟩) fun _ => ⟨rfl, hnext⟩
  | @pair cs ds h =>
    have hc : c.next.next.rest = cs := by
      rw [Cursor.next_eq (c := c.next) (by rw [Cursor.next_eq hcs])]
    have hd : d.next.rest = ds := by rw [Cursor.next_eq hds]
    simp [SameEscape, Lexer.escape, hcs, hds, hc, hd, letterEscape?, isOctalDigit, isLineBreak, h]
  | @lone cs ds hne h =>
    have hhead : cs.head? ≠ some '\n' := by
      cases cs with
      | nil => simp
      | cons ch cs => exact fun he => hne cs (by rw [Option.some.inj he])
    have hc : c.next.rest = cs := by rw [Cursor.next_eq hcs]
    have hd : d.next.rest = ds := by rw [Cursor.next_eq hds]
    simp [SameEscape, Lexer.escape, hcs, hds, hc, hd, letterEscape?, isOctalDigit, isLineBreak,
      hhead, h]

end Evens

omit hm in
/-- Behind a chunk stands what it ends with. -/
theorem templateChunk_ends (cooked raw : List Char) (valid : Bool) (c : Cursor) :
    (templateChunk cooked raw valid c).ending.chars ++
      (templateChunk cooked raw valid c).stop.rest <:+ c.rest := by
  have hescape : ∀ {c : Cursor} {cs : List Char}, c.rest = '\\' :: cs →
      (escape true ⟨c.offset + 1, cs⟩).stop.rest <:+ c.rest := by
    intro c cs hc
    obtain ⟨front, hr, -⟩ := reaches_escape true ⟨c.offset + 1, cs⟩
    rw [hc]
    exact ⟨'\\' :: front, congrArg (List.cons '\\') hr.symm⟩
  fun_induction templateChunk cooked raw valid c with
  | case1 cooked raw valid c h => exact List.suffix_rfl
  | case2 cooked raw valid c cs h => rw [h]; exact List.suffix_rfl
  | case3 cooked raw valid c cs h => rw [h]; exact List.suffix_rfl
  | case4 cooked raw valid c cs h esc spelling chars hm ih => exact ih.trans (hescape h)
  | case5 cooked raw valid c cs h esc spelling problem hm ih => exact ih.trans (hescape h)
  | case6 cooked raw valid c cs h ih =>
    rw [h]
    exact (ih.trans (List.suffix_cons _ _)).trans (List.suffix_cons _ _)
  | case7 cooked raw valid c cs hne h ih => rw [h]; exact ih.trans (List.suffix_cons _ _)
  | case8 cooked raw valid c ch cs _ _ _ _ _ h ih => rw [h]; exact ih.trans (List.suffix_cons _ _)

/-- The chunk means the same as another one and is closed right before a text. -/
structure TemplateChunk.ClosesAs (chunk other : TemplateChunk) (behind : List Char) : Prop where
  cooked : chunk.cooked = other.cooked
  valid : chunk.valid = other.valid
  ending : chunk.ending = .closed
  stop : chunk.stop.rest = behind

/-- A chunk that ends at the mark is read from the other content too, up to the backquote. -/
theorem templateChunk_evens {cooked raw even : List Char} {valid : Bool} {c d : Cursor}
    (hmark : (templateChunk cooked raw valid c).ending.chars ++
      (templateChunk cooked raw valid c).stop.rest = mark)
    (h : Evens mark behind c.rest d.rest) :
    (templateChunk cooked even valid d).ClosesAs (templateChunk cooked raw valid c) behind := by
  -- What is read again starts in front of the mark.
  have hends : ∀ {cooked raw : List Char} {valid : Bool} {c : Cursor},
      (templateChunk cooked raw valid c).ending.chars ++
        (templateChunk cooked raw valid c).stop.rest = mark → mark.length ≤ c.rest.length :=
    fun he => he ▸ (templateChunk_ends _ _ _ _).length_le
  fun_induction templateChunk cooked raw valid c generalizing even d with
  | case1 cooked raw valid c hc =>
    obtain ⟨ch, cs, he, -⟩ := hm.head
    rw [← hmark, hc] at he
    cases he
  | case2 cooked raw valid c cs hc =>
    obtain ⟨-, hd⟩ := h.eq_of_length_le (by rw [hc, ← hmark]; exact Nat.le_refl _)
    rw [templateChunk_quote hd]
    exact ⟨rfl, rfl, rfl, rfl⟩
  | case3 cooked raw valid c cs hc =>
    obtain ⟨-, hd⟩ := h.eq_of_length_le (by rw [hc, ← hmark]; exact Nat.le_refl _)
    rw [templateChunk_quote hd]
    exact ⟨rfl, rfl, rfl, rfl⟩
  | case4 cooked raw valid c cs hc esc spelling chars =>
    rename_i hok ih
    rw [hc] at h
    obtain ⟨ds, hd, h⟩ := h.cons_left hm (by decide)
    obtain ⟨hmeaning, hstop⟩ :=
      Evens.escape hm (c := ⟨c.offset + 1, cs⟩) (d := ⟨d.offset + 1, ds⟩) h (hends hmark)
    rw [templateChunk_escape hd, behindEscape, hmeaning.trans hok]
    exact ih hmark hstop
  | case5 cooked raw valid c cs hc esc spelling problem =>
    rename_i herror ih
    rw [hc] at h
    obtain ⟨ds, hd, h⟩ := h.cons_left hm (by decide)
    obtain ⟨hmeaning, hstop⟩ :=
      Evens.escape hm (c := ⟨c.offset + 1, cs⟩) (d := ⟨d.offset + 1, ds⟩) h (hends hmark)
    rw [templateChunk_escape hd, behindEscape, hmeaning.trans herror]
    exact ih hmark hstop
  | case6 cooked raw valid c cs hc ih =>
    rw [hc] at h
    rcases h.uncons (Nat.le_succ_of_le (hends hmark)) with
      ⟨hch, -⟩ | ⟨-, es, hd, ⟨xs, hxs, h⟩ | ⟨hne, -⟩⟩
    · exact absurd rfl hch
    · obtain rfl := (List.cons.inj hxs).2
      rw [templateChunk_char hd (by decide) (fun _ he => absurd he (by decide)) (by decide)
        (by decide)]
      exact ih hmark h
    · exact absurd rfl (hne cs)
  | case7 cooked raw valid c cs hne hc ih =>
    rw [hc] at h
    rcases h.uncons (hends hmark) with ⟨hch, -⟩ | ⟨-, es, hd, ⟨xs, hxs, -⟩ | ⟨-, h⟩⟩
    · exact absurd rfl hch
    · exact absurd hxs (hne xs)
    · rw [templateChunk_char hd (by decide) (fun _ he => absurd he (by decide)) (by decide)
        (by decide)]
      exact ih hmark h
  | case8 cooked raw valid c ch cs hquote hopen hback hpair hreturn hc ih =>
    rw [hc] at h
    rcases h.uncons (hends hmark) with ⟨-, es, hd, h⟩ | ⟨hch, -⟩
    · have hsub : ∀ ds, ch = '$' → es ≠ '\x7b' :: ds := by
        rintro ds rfl rfl
        obtain ⟨xs, hxs, -⟩ := h.cons_right (by decide)
        exact hopen xs rfl hxs
      rw [templateChunk_char hd hquote hsub hback hreturn]
      exact ih hmark h
    · exact absurd hch hreturn

end

/-- A chunk is its content and what it ends with, and the content with uniform line ends is its raw
text. -/
theorem templateChunk_content (c : Cursor) :
    ∃ content, c.rest = content ++ ((templateChunk [] [] true c).ending.chars ++
        (templateChunk [] [] true c).stop.rest) ∧
      (templateChunk [] [] true c).raw = uniformLineEnds content := by
  obtain ⟨content, e, hr, ho, hstop, hraw⟩ := templateChunk_spells [] [] true c
  obtain ⟨front, hfront⟩ := templateChunk_ends [] [] true c
  obtain ⟨all, kr, ko⟩ := reaches_templateChunk [] [] true c
  have hwidth : byteLength (templateChunk [] [] true c).ending.chars =
      (templateChunk [] [] true c).ending.width := by
    cases (templateChunk [] [] true c).ending <;> rfl
  generalize templateChunk [] [] true c = chunk at *
  have hall : all = front ++ chunk.ending.chars := by
    rw [← hfront, ← List.append_assoc] at kr
    exact (List.append_cancel_right kr).symm
  -- Both ways to the end of the content have the same length.
  have hlength : e.offset = c.offset + byteLength front := by
    rw [hall, byteLength_append, hwidth] at ko
    omega
  have hsame : content = front := by
    have hcontent := charsUntil_eq hr ho
    have hreach := charsUntil_eq (d := ⟨e.offset, chunk.ending.chars ++ chunk.stop.rest⟩)
      hfront.symm hlength
    exact hcontent.symm.trans hreach
  exact ⟨content, by rw [hsame, hfront], hraw⟩

/-- The raw text of a chunk in front of a backquote is a chunk that means the same and has the same
raw text. -/
theorem templateChunk_raw {c d : Cursor} (he : (templateChunk [] [] true c).ending ≠ .missing)
    (hd : d.rest = (templateChunk [] [] true c).raw ++ ['\x60']) :
    (templateChunk [] [] true d).ClosesAs (templateChunk [] [] true c) [] ∧
      (templateChunk [] [] true d).raw = (templateChunk [] [] true c).raw := by
  obtain ⟨content, hc, hraw⟩ := templateChunk_content c
  have hm : StartsMark ((templateChunk [] [] true c).ending.chars ++
    (templateChunk [] [] true c).stop.rest) := ⟨_, he, _, rfl⟩
  have heven := evens_uniformLineEnds hm [] content
  rw [← hc, ← hraw, ← hd] at heven
  have hclose : (templateChunk [] [] true d).ClosesAs (templateChunk [] [] true c) [] :=
    templateChunk_evens hm rfl heven
  refine ⟨hclose, ?_⟩
  obtain ⟨again, hagain, hsame⟩ := templateChunk_content d
  rw [hclose.ending, hclose.stop, hd] at hagain
  rw [hsame, ← List.append_cancel_right hagain, hraw, uniformLineEnds_idem]

/-- What stands before and behind the content of a piece of a template. -/
def templateMarks? : TokenKind → Option (String × String)
  | .template => some ("\x60", "\x60")
  | .templateHead => some ("\x60", "$\x7b")
  | .templateMiddle => some ("\x7d", "$\x7b")
  | .templateTail => some ("\x7d", "\x60")
  | _ => none

theorem templateMarks_of_isWhole {k : TokenKind} (h : isWhole k = true) :
    templateMarks? k = none := by
  cases k <;> first | rfl | exact nomatch h

/-- A token has the meaning of a chunk and ends where it ends. -/
structure IsChunk (t : Token) (chunk : TemplateChunk) : Prop where
  value : t.value = if chunk.valid then String.ofList chunk.cooked else ""
  raw : t.raw = String.ofList chunk.raw
  invalidEscape : t.flags.invalidEscape = !chunk.valid
  unterminated : t.flags.unterminated = decide (chunk.ending = .missing)
  stop : t.stop = chunk.stop

/-- A token that was read again has the meaning of its chunk. -/
theorem isChunk_of_again {t : Token} {chunk : TemplateChunk} {whole opening : TokenKind}
    {start : Nat} (h : again t (chunk.toLexeme whole opening start) = t) : IsChunk t chunk where
  value := (congrArg Token.value h).symm
  raw := (congrArg Token.raw h).symm
  invalidEscape := (congrArg (fun t : Token => t.flags.invalidEscape) h).symm
  unterminated := (congrArg (fun t : Token => t.flags.unterminated) h).symm
  stop := (congrArg Token.stop h).symm

/-- The marks of a piece of a template follow from the way its chunk ends. -/
theorem marks_of_ending {chunk : TemplateChunk} {whole head : TokenKind}
    {first opening closing : String}
    (hwhole : templateMarks? whole = some (first, "\x60"))
    (hhead : templateMarks? head = some (first, "$\x7b")) (he : chunk.ending ≠ .missing)
    (hk : templateMarks? (if chunk.ending = .substitution then head else whole) =
      some (opening, closing)) :
    opening = first ∧ closing = String.ofList chunk.ending.chars := by
  cases hending : chunk.ending with
  | closed =>
    rw [hending, if_neg (by simp), hwhole] at hk
    obtain ⟨rfl, rfl⟩ := Prod.mk.inj (Option.some.inj hk)
    exact ⟨rfl, rfl⟩
  | substitution =>
    rw [hending, if_pos rfl, hhead] at hk
    obtain ⟨rfl, rfl⟩ := Prod.mk.inj (Option.some.inj hk)
    exact ⟨rfl, rfl⟩
  | missing => exact absurd hending he

/-- A piece of a template that is terminated was read as a chunk behind its opening. -/
theorem Source.chunk {t : Token} (h : Source t) {opening closing : String}
    (hk : templateMarks? t.kind = some (opening, closing)) (hu : t.flags.unterminated = false) :
    ∃ ch cs, t.start.rest = ch :: cs ∧ ch.utf8Size = 1 ∧ opening = String.ofList [ch] ∧
      IsChunk t (templateChunk [] [] true t.start.next) ∧
      (templateChunk [] [] true t.start.next).ending ≠ .missing ∧
      closing = String.ofList (templateChunk [] [] true t.start.next).ending.chars := by
  have hended : ∀ {chunk}, IsChunk t chunk → chunk.ending ≠ .missing := by
    intro chunk hchunk he
    rw [hchunk.unterminated, he] at hu
    exact nomatch hu
  cases h with
  | unread hn => rw [hn] at hk; exact nomatch hk
  | ended hn => rw [hn] at hk; exact nomatch hk
  | read hl ht =>
    rw [kind_of_again ht] at hk
    rcases lexeme_cases hl with hw | ⟨⟨cs, hc⟩, rfl⟩ | ⟨p, hp, -⟩
    · rw [templateMarks_of_isWhole hw.isWhole] at hk
      exact nomatch hk
    · have hchunk := isChunk_of_again ht
      have he := hended hchunk
      obtain ⟨hopening, hclosing⟩ := marks_of_ending rfl rfl he hk
      exact ⟨_, cs, hc, rfl, hopening, hchunk, he, hclosing⟩
    · rw [hp] at hk
      exact nomatch hk
  | regex _ ht =>
    rw [kind_of_again ht, kind_regexLiteral] at hk
    exact nomatch hk
  | @resumed cs hc ht =>
    rw [kind_of_again ht] at hk
    have hchunk := isChunk_of_again ht
    have he := hended hchunk
    obtain ⟨hopening, hclosing⟩ := marks_of_ending rfl rfl he hk
    exact ⟨_, cs, hc, rfl, hopening, hchunk, he, hclosing⟩

end Lexer

/-- What a piece of a template means hangs on its raw text alone. Whatever is done in a session
with a text, a piece of a template that is terminated has for its raw text what stands between its
marks, with uniform line ends, and the raw text between backquotes is one template with the same
raw text, the same value and the same validity of its escapes, without faults. -/
theorem template_of_raw (text : String) {steps : List Lexer.Step} {s : Lexer.Session}
    (hs : (Lexer.Session.ofString text).run? steps = some s) {opening closing : String}
    (hk : Lexer.templateMarks? s.lexer.token.kind = some (opening, closing))
    (hu : s.lexer.token.flags.unterminated = false) :
    ∃ content : List Char,
      s.lexer.token.span.slice? text = some (opening ++ String.ofList content ++ closing) ∧
      s.lexer.token.raw = String.ofList (Lexer.uniformLineEnds content) ∧
      ∃ t : Token, tokenize ("\x60" ++ s.lexer.token.raw ++ "\x60") = ([t], []) ∧
        t.kind = .template ∧ t.raw = s.lexer.token.raw ∧ t.value = s.lexer.token.value ∧
        t.flags.invalidEscape = s.lexer.token.flags.invalidEscape := by
  have hstands := (Lexer.Session.allStand hs).1
  obtain ⟨ch, cs, hc, hsize, rfl, hchunk, hended, rfl⟩ := hstands.source.chunk hk hu
  generalize s.lexer.token = t at *
  obtain ⟨content, hcontent, hraw⟩ := Lexer.templateChunk_content t.start.next
  refine ⟨content, ?_, by rw [hchunk.raw, hraw], ?_⟩
  · rw [← String.ofList_append, ← String.ofList_append]
    refine hstands.slice_span ?_
    rw [hchunk.stop, hc, List.append_assoc, List.append_assoc, ← hcontent, Cursor.next_eq hc]
    rfl
  have htext : ("\x60" ++ t.raw ++ "\x60").toList =
      '\x60' :: ((Lexer.templateChunk [] [] true t.start.next).raw ++ ['\x60']) := by
    rw [hchunk.raw]
    simp
  generalize "\x60" ++ t.raw ++ "\x60" = again at htext
  have hrest : (Cursor.ofString again).next.rest =
      (Lexer.templateChunk [] [] true t.start.next).raw ++ ['\x60'] := by
    rw [Cursor.next_eq (c := .ofString again) htext]
  obtain ⟨hclose, hsame⟩ := Lexer.templateChunk_raw hended hrest
  have hread : Lexer.lexeme? true (.ofString again) =
      some (Lexer.templateStart (.ofString again)) := by
    have hstart : (Cursor.ofString again).rest = _ := htext
    simp only [Lexer.lexeme?, hstart]
    rfl
  have hfaults : (Lexer.templateStart (.ofString again)).faults = [] :=
    if_neg (by rw [hclose.ending]; simp)
  refine ⟨(Lexer.templateStart (.ofString again)).alone again, ?_, ?_, ?_, ?_, ?_⟩
  · rw [← hfaults]
    refine Lexer.tokenize_of_lexeme ?_ ?_ hread hclose.stop
    · intro cs hcs
      rw [htext] at hcs
      exact absurd (List.cons.inj hcs).1 (by decide)
    · exact Lexer.trivia_stay false htext (by decide) (by decide) (by decide)
  · exact if_neg (by rw [hclose.ending]; simp)
  · exact (congrArg String.ofList hsame).trans hchunk.raw.symm
  · rw [hchunk.value, ← hclose.valid, ← hclose.cooked]
    rfl
  · rw [hchunk.invalidEscape, ← hclose.valid]
    rfl

/-- The theorem at a piece between two substitutions that has an escape without a meaning, a line
end that is made uniform and a dollar sign that opens nothing. -/
theorem template_of_raw_middle : ∃ s : Lexer.Session,
    (Lexer.Session.ofString "\x60$\x7ba\x7d\\x4\r\n$1$\x7bb\x7d\x60").run?
        [.scan, .scan, .scan, .rescanTemplate] = some s ∧
      s.lexer.token.kind = .templateMiddle ∧ s.lexer.token.flags.unterminated = false ∧
      s.lexer.token.raw = "\\x4\n$1" ∧
      ∃ t : Token, tokenize "\x60\\x4\n$1\x60" = ([t], []) ∧ t.flags.invalidEscape = true := by
  have hrun : ((Lexer.Session.ofString "\x60$\x7ba\x7d\\x4\r\n$1$\x7bb\x7d\x60").run?
        [.scan, .scan, .scan, .rescanTemplate]).map (fun s =>
          (s.lexer.token.kind, s.lexer.token.raw, s.lexer.token.flags.unterminated,
            s.lexer.token.flags.invalidEscape)) =
      some (.templateMiddle, "\\x4\n$1", false, true) := by decide +kernel
  obtain ⟨s, hs, hread⟩ := Option.map_eq_some_iff.mp hrun
  simp only [Prod.mk.injEq] at hread
  obtain ⟨hk, hraw, hu, hinvalid⟩ := hread
  obtain ⟨_, -, -, t, ht, -, -, -, hflag⟩ :=
    template_of_raw _ hs (by rw [hk]; rfl :
      Lexer.templateMarks? s.lexer.token.kind = some ("\x7d", "$\x7b")) hu
  rw [hraw] at ht
  exact ⟨s, hs, hk, hu, hraw, t, ht, hflag.trans hinvalid⟩

end EcmaScript

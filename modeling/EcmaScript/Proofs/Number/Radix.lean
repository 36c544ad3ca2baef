import EcmaScript.Proofs.Lexer.Spelling
import EcmaScript.Proofs.Number.Exact

/-!
# Values of number tokens

The radix of a number is decided twice: by the lexer while it reads the characters, and again from
the text of the token, without its separators, when the value is worked out. A number that the lexer
accepts always has a value, and both decisions agree, but for one spelling: a separator behind a
leading zero hides from the lexer that the digits look octal.
-/

namespace EcmaScript

namespace Cursor

/-- The second cursor is the first one moved over the given characters. -/
def Over (c : Cursor) (front : List Char) (d : Cursor) : Prop :=
  c.rest = front ++ d.rest ∧ d.offset = c.offset + byteLength front

/-- No characters lead from a cursor to itself. -/
theorem Over.refl (c : Cursor) : c.Over [] c := ⟨rfl, rfl⟩

/-- Characters one behind the other lead further. -/
theorem Over.trans {c d e : Cursor} {xs ys : List Char} (h : c.Over xs d) (k : d.Over ys e) :
    c.Over (xs ++ ys) e := by
  constructor
  · rw [h.1, k.1, List.append_assoc]
  · rw [k.2, h.2, byteLength_append, Nat.add_assoc]

/-- A character leads to the next cursor. -/
theorem over_next {c : Cursor} {ch : Char} {cs : List Char} (h : c.rest = ch :: cs) :
    c.Over [ch] c.next := by
  rw [next_eq h]
  exact ⟨h, rfl⟩

/-- The text between two cursors is what leads from one to the other. -/
theorem Over.toList_textUntil {c d : Cursor} {front : List Char} (h : c.Over front d) :
    (c.textUntil d).toList = front :=
  Lexer.toList_textUntil h.1 h.2

end Cursor

namespace Numeral

open Character

/-- The characters without separators. -/
def unseparated (cs : List Char) : List Char := cs.filter (· != '_')

/-- Separators are left out of both parts. -/
theorem unseparated_append (xs ys : List Char) :
    unseparated (xs ++ ys) = unseparated xs ++ unseparated ys := List.filter_append ..

/-- What is no separator stays. -/
theorem unseparated_cons {ch : Char} (h : ch ≠ '_') (cs : List Char) :
    unseparated (ch :: cs) = ch :: unseparated cs :=
  List.filter_cons_of_pos (bne_iff_ne.mpr h)

/-- The character is a digit of a radix. -/
def IsDigitOf (radix : Nat) (ch : Char) : Prop :=
  ∃ value, Lexer.IsHexDigit ch value ∧ value < radix

/-- Digits of a radix denote some number. -/
theorem exists_denotes {radix : Nat} {cs : List Char} (h : ∀ ch ∈ cs, IsDigitOf radix ch) :
    ∃ n, Denotes radix cs n := by
  have hvalues : ∃ values, List.Forall₂
      (fun ch value => Lexer.IsHexDigit ch value ∧ value < radix) cs values := by
    induction cs with
    | nil => exact ⟨[], .nil⟩
    | cons ch cs ih =>
      obtain ⟨hch, hcs⟩ := List.forall_mem_cons.mp h
      obtain ⟨value, hvalue⟩ := hch
      obtain ⟨values, hvalues⟩ := ih hcs
      exact ⟨value :: values, .cons hvalue hvalues⟩
  obtain ⟨values, hvalues⟩ := hvalues
  exact ⟨_, values, hvalues, rfl⟩

/-- Digits denote one number only. -/
theorem Denotes.unique {radix m n : Nat} {cs : List Char} (h : Denotes radix cs m)
    (k : Denotes radix cs n) : m = n := by
  obtain ⟨xs, hxs, rfl⟩ := h
  obtain ⟨ys, hys, rfl⟩ := k
  rw [← filterMap_digitValue hxs, filterMap_digitValue hys]

/-- A range of characters holds the digits of a radix, if its finitely many members do. -/
theorem isDigitOf_between {first last ch : Char} {radix : Nat} (hlow : first ≤ ch)
    (hhigh : ch ≤ last)
    (h : ∀ i : Fin (last.toNat + 1 - first.toNat), ∃ value : Fin 16,
      ("0123456789abcdef".toList[value.val]? = some (Char.ofNat (first.toNat + i)) ∨
        "0123456789ABCDEF".toList[value.val]? = some (Char.ofNat (first.toNat + i))) ∧
      value.val < radix) : IsDigitOf radix ch := by
  have hl : first.toNat ≤ ch.toNat := hlow
  have hh : ch.toNat ≤ last.toNat := hhigh
  obtain ⟨value, hvalue, hlt⟩ := h ⟨ch.toNat - first.toNat, by omega⟩
  rw [Nat.add_sub_cancel' hl, Char.ofNat_toNat] at hvalue
  exact ⟨value, hvalue, hlt⟩

/-- A decimal digit is one of ten. -/
theorem isDigitOf_digit {ch : Char} (h : isDigit ch = true) : IsDigitOf 10 ch := by
  simp only [isDigit, Bool.and_eq_true, decide_eq_true_eq] at h
  exact isDigitOf_between h.1 h.2 (by decide)

/-- An octal digit is one of eight. -/
theorem isDigitOf_octal {ch : Char} (h : isOctalDigit ch = true) : IsDigitOf 8 ch := by
  simp only [isOctalDigit, Bool.and_eq_true, decide_eq_true_eq] at h
  exact isDigitOf_between h.1 h.2 (by decide)

/-- A binary digit is one of two. -/
theorem isDigitOf_binary {ch : Char} (h : isBinaryDigit ch = true) : IsDigitOf 2 ch := by
  simp only [isBinaryDigit, Bool.or_eq_true, beq_iff_eq] at h
  rcases h with rfl | rfl
  · exact ⟨0, Or.inl rfl, by decide⟩
  · exact ⟨1, Or.inl rfl, by decide⟩

/-- A hexadecimal digit is one of sixteen. -/
theorem isDigitOf_hex {ch : Char} (h : isHexDigit ch = true) : IsDigitOf 16 ch := by
  unfold isHexDigit hexValue? at h
  split at h
  · rename_i hd
    simp only [Bool.and_eq_true, decide_eq_true_eq] at hd
    exact isDigitOf_between hd.1 hd.2 (by decide)
  split at h
  · rename_i hd
    simp only [Bool.and_eq_true, decide_eq_true_eq] at hd
    exact isDigitOf_between hd.1 hd.2 (by decide)
  split at h
  · rename_i hd
    simp only [Bool.and_eq_true, decide_eq_true_eq] at hd
    exact isDigitOf_between hd.1 hd.2 (by decide)
  · exact nomatch h

end Numeral

namespace Lexer

open Character Cursor Numeral Decimal

/-- A run of digits leads over digits and separators. -/
theorem over_digitRun (valid : Char → Bool) (count : Nat) (separated dangling : Bool)
    (faults : List Fault) (offset : Nat) (cs : List Char) :
    ∃ front, Over ⟨offset, cs⟩ front
        (digitRun valid count separated dangling faults offset cs).stop ∧
      ∀ ch ∈ unseparated front, valid ch = true := by
  induction cs generalizing count separated dangling faults offset with
  | nil => exact ⟨[], .refl _, nofun⟩
  | cons ch cs ih =>
    rw [digitRun]
    split
    · rename_i hs
      obtain rfl := eq_of_beq hs
      obtain ⟨front, hover, hvalid⟩ := ih count true true
        (if count == 0 || dangling then ⟨.misplacedSeparator, offset⟩ :: faults else faults)
        (offset + 1)
      have hfirst : Over ⟨offset, '_' :: cs⟩ ['_'] ⟨offset + 1, cs⟩ := ⟨rfl, rfl⟩
      exact ⟨'_' :: front, hfirst.trans hover, hvalid⟩
    · rename_i hs
      split
      · rename_i hv
        obtain ⟨front, hover, hvalid⟩ :=
          ih (count + 1) separated false faults (offset + ch.utf8Size)
        have hfirst : Over ⟨offset, ch :: cs⟩ [ch] ⟨offset + ch.utf8Size, cs⟩ := ⟨rfl, rfl⟩
        refine ⟨ch :: front, hfirst.trans hover, ?_⟩
        rw [unseparated_cons (by simpa using hs)]
        exact List.forall_mem_cons.mpr ⟨hv, hvalid⟩
      · exact ⟨[], .refl _, nofun⟩

/-- Digits are read with the separators between them. -/
theorem over_digits (valid : Char → Bool) (c : Cursor) :
    ∃ front, c.Over front (digits valid c).stop ∧ ∀ ch ∈ unseparated front, valid ch = true :=
  over_digitRun valid 0 false false [] c.offset c.rest

/-- Where digits start there is a first one. -/
theorem over_digits_cons {valid : Char → Bool} {c : Cursor} {ch : Char} {cs : List Char}
    (hc : c.rest = ch :: cs) (hv : valid ch = true) :
    ∃ front, c.Over (ch :: front) (digits valid c).stop ∧
      ∀ x ∈ unseparated (ch :: front), valid x = true := by
  obtain ⟨front, hover, hvalid⟩ := over_digits valid c
  have hlt := length_digits_lt hc hv
  cases front with
  | nil =>
    rw [hover.1, List.nil_append] at hlt
    exact absurd hlt (Nat.lt_irrefl _)
  | cons x front =>
    obtain ⟨rfl, -⟩ := List.cons.inj (hc.symm.trans hover.1)
    exact ⟨front, hover, hvalid⟩

namespace NumberScan

/-- The flags but for the one that tells of separators. -/
def SameFlags (a b : TokenFlags) : Prop := a = { b with separated := a.separated }

/-- A fraction is read behind a number, with its dot. -/
theorem over_fraction (scan : NumberScan) :
    ∃ front, scan.stop.Over front scan.fraction.stop ∧ IsFraction (unseparated front) ∧
      (front = [] ∨ '.' ∈ front) ∧ SameFlags scan.fraction.flags scan.flags := by
  by_cases hdot : ∃ cs, scan.stop.rest = '.' :: cs
  · obtain ⟨cs, hc⟩ := hdot
    have hnext := over_next hc
    rw [fraction_dot hc]
    split
    · obtain ⟨front, hover, hvalid⟩ := over_digits isDigit scan.stop.next
      refine ⟨'.' :: front, hnext.trans hover, Or.inr ⟨unseparated front, ?_, hvalid⟩,
        Or.inr List.mem_cons_self, rfl⟩
      exact unseparated_cons (by decide) front
    · exact ⟨['.'], hnext, Or.inr ⟨[], rfl, nofun⟩, Or.inr List.mem_cons_self, rfl⟩
  · rw [fraction_plain fun cs hc => hdot ⟨cs, hc⟩]
    exact ⟨[], .refl _, Or.inl rfl, Or.inl rfl, rfl⟩

/-- A number that starts with its dot has a digit behind it. -/
theorem over_fraction_digit (scan : NumberScan) {d : Char} {cs : List Char}
    (hc : scan.stop.rest = '.' :: d :: cs) (hd : isDigit d = true) :
    ∃ front, scan.stop.Over ('.' :: d :: front) scan.fraction.stop ∧
      IsFraction (unseparated ('.' :: d :: front)) ∧ SameFlags scan.fraction.flags scan.flags := by
  have hnext := over_next hc
  have hdigit : (isDigit d || d == '_') = true := by rw [hd, Bool.true_or]
  rw [fraction_dot hc, List.head?_cons, Option.any_some, if_pos hdigit]
  obtain ⟨front, hover, hvalid⟩ :=
    over_digits_cons (c := scan.stop.next) (by rw [next_eq hc]) hd
  refine ⟨front, hnext.trans hover, Or.inr ⟨unseparated (d :: front), ?_, hvalid⟩, rfl⟩
  exact unseparated_cons (by decide) (d :: front)

/-- The letter of an exponent and its sign come before its digits. -/
theorem over_exponentStart {c start : Cursor} (h : exponentStart? c = some start) :
    ∃ letter sign, c.Over (letter :: sign) start ∧ (letter = 'e' ∨ letter = 'E') ∧
      (sign = [] ∨ sign = ['+'] ∨ sign = ['-']) := by
  unfold exponentStart? at h
  split at h
  · rename_i ch cs hc
    split at h
    · rename_i hletter
      rw [Bool.or_eq_true, beq_iff_eq, beq_iff_eq] at hletter
      have hnext := over_next hc
      extract_lets behind far at h
      split at h
      · obtain rfl := Option.some.inj h
        by_cases hsign : (behind.rest.head?.any fun s => s == '+' || s == '-') = true
        · obtain ⟨s, hs, hmark⟩ := Option.any_eq_true _ _ |>.mp hsign
          obtain ⟨more, hmore⟩ : ∃ more, behind.rest = s :: more := List.head?_eq_some_iff.mp hs
          rw [Bool.or_eq_true, beq_iff_eq, beq_iff_eq] at hmark
          have hfar : far = behind.next := if_pos hsign
          refine ⟨ch, [s], ?_, hletter, ?_⟩
          · rw [hfar]
            exact hnext.trans (over_next hmore)
          · rcases hmark with rfl | rfl
            · exact Or.inr (Or.inl rfl)
            · exact Or.inr (Or.inr rfl)
        · have hfar : far = behind := if_neg hsign
          refine ⟨ch, [], ?_, hletter, Or.inl rfl⟩
          rw [hfar]
          exact hnext
      · exact nomatch h
    · exact nomatch h
  · exact nomatch h

/-- An exponent is read behind a number, and noted. -/
theorem over_exponent (scan : NumberScan) :
    ∃ front, scan.stop.Over front scan.exponent.stop ∧ IsExponent (unseparated front) ∧
      SameFlags scan.exponent.flags
        { scan.flags with scientific := scan.flags.scientific || !front.isEmpty } := by
  unfold exponent
  split
  · rename_i start h
    obtain ⟨letter, sign, hstart, hletter, hsign⟩ := over_exponentStart h
    obtain ⟨d, ds, hds, hd⟩ := exponentStart_digit h
    obtain ⟨front, hover, hvalid⟩ := over_digits_cons hds hd
    have hplain : unseparated (letter :: (sign ++ d :: front)) =
        letter :: (sign ++ unseparated (d :: front)) := by
      have hl : letter ≠ '_' := by rcases hletter with rfl | rfl <;> decide
      have hs : unseparated sign = sign := by rcases hsign with rfl | rfl | rfl <;> rfl
      rw [unseparated_cons hl, unseparated_append, hs]
    have hne : unseparated (d :: front) ≠ [] := by
      have hd' : d ≠ '_' := isDigit_ne hd (by decide)
      rw [unseparated_cons hd']
      exact List.cons_ne_nil _ _
    refine ⟨letter :: (sign ++ d :: front), hstart.trans hover, Or.inr ?_, ?_⟩
    · exact ⟨letter, sign, _, hplain, hletter, hsign, hne, hvalid⟩
    · rw [SameFlags, List.isEmpty_cons, Bool.not_false, Bool.or_true]
      rfl
  · refine ⟨[], .refl _, Or.inl rfl, ?_⟩
    rw [SameFlags, List.isEmpty_nil, Bool.not_true, Bool.or_false]

/-- What ends as a number has been read before. -/
theorem finish_number {scan : NumberScan} {start : Cursor} {bigIntAllowed : Bool}
    (h : (scan.finish start bigIntAllowed).kind = .number) :
    (scan.finish start bigIntAllowed).stop = scan.stop ∧
      (scan.finish start bigIntAllowed).flags = scan.flags := by
  rw [finish_eq] at h ⊢
  split at h
  · unfold close at h
    split at h <;> exact nomatch h
  · rename_i hbig
    rw [if_neg hbig]
    unfold close at h ⊢
    split at h
    · exact nomatch h
    · rename_i hplain
      rw [if_neg hplain]
      exact ⟨rfl, rfl⟩

end NumberScan

/-- The radix that a marker behind a zero stands for, and the flag that tells of it. -/
inductive Marks : Char → Nat → TokenFlags → Prop where
  | hexadecimal {ch : Char} : ch = 'x' ∨ ch = 'X' → Marks ch 16 { hexadecimal := true }
  | octal {ch : Char} : ch = 'o' ∨ ch = 'O' → Marks ch 8 { octal := true }
  | binary {ch : Char} : ch = 'b' ∨ ch = 'B' → Marks ch 2 { binary := true }

/-- Digits look octal when there is a zero in front of others and all of them are octal. -/
def LooksOctal (cs : List Char) : Prop :=
  2 ≤ cs.length ∧ cs.head? = some '0' ∧ cs.all isOctalDigit = true

instance (cs : List Char) : Decidable (LooksOctal cs) := inferInstanceAs (Decidable (_ ∧ _ ∧ _))

/-- The text of a number and the flags that it is read with. -/
inductive NumberForm : List Char → TokenFlags → Prop where
  | marked {marker : Char} {digits : List Char} {radix : Nat} {marks flags : TokenFlags} :
      Marks marker radix marks → (∀ ch ∈ unseparated digits, IsDigitOf radix ch) →
      NumberScan.SameFlags flags marks → NumberForm ('0' :: marker :: digits) flags
  | legacyOctal {ch : Char} {digits : List Char} :
      (∀ x ∈ ch :: digits, isOctalDigit x = true) →
      NumberForm ('0' :: ch :: digits) { legacyOctal := true }
  /-- A decimal number whose digits look octal has a separator behind its leading zero. -/
  | decimal {whole tail : List Char} {flags : TokenFlags} :
      IsDecimal (unseparated (whole ++ tail)) → (∀ ch ∈ unseparated whole, isDigit ch = true) →
      (tail = [] ∨ '.' ∈ tail ∨ flags.scientific = true) →
      (LooksOctal (unseparated whole) → ['0', '_'] <+: whole) →
      NumberScan.SameFlags flags { scientific := flags.scientific } →
      NumberForm (whole ++ tail) flags

/-- The number that is read at a cursor, if it is one, is in one of the forms. -/
def ReadsForm (l : Lexeme) (c : Cursor) : Prop :=
  l.kind = .number → ∃ text, c.Over text l.stop ∧ NumberForm text l.flags

/-- A number with a marked radix has that form. -/
theorem radixNumber_form {c : Cursor} {marker : Char} {cs : List Char} {radix : Nat}
    {valid : Char → Bool} {marks : TokenFlags} (hc : c.rest = '0' :: marker :: cs)
    (hm : Marks marker radix marks) (hv : ∀ ch, valid ch = true → IsDigitOf radix ch) :
    ReadsForm (radixNumber c valid marks) c := by
  intro h
  have hbehind : c.next.rest = marker :: cs := by rw [next_eq hc]
  have hnext : c.Over ['0', marker] (c.advance 2) := (over_next hc).trans (over_next hbehind)
  obtain ⟨front, hover, hvalid⟩ := over_digits valid (c.advance 2)
  rw [radixNumber_eq, Lexer.radix] at h ⊢
  split at h
  · exact nomatch h
  · rename_i hcount
    obtain ⟨hstop, hflags⟩ := NumberScan.finish_number h
    rw [if_neg hcount, hstop, hflags]
    exact ⟨_, hnext.trans hover, .marked hm (fun ch hch => hv ch (hvalid ch hch)) rfl⟩

/-- An exponent may follow the digits of a number and its fraction. -/
theorem exponent_form {c : Cursor} {dotted : List Char} {scan : NumberScan} (whole : List Char)
    {bigIntAllowed : Bool} (ho : c.Over (whole ++ dotted) scan.stop)
    (hflags : NumberScan.SameFlags scan.flags {})
    (hwhole : ∀ ch ∈ unseparated whole, isDigit ch = true)
    (hfraction : IsFraction (unseparated dotted)) (hdot : dotted = [] ∨ '.' ∈ dotted)
    (hne : unseparated whole = [] → ∃ d ds, unseparated dotted = '.' :: d :: ds)
    (hzero : LooksOctal (unseparated whole) → ['0', '_'] <+: whole) :
    ReadsForm (scan.exponent.finish c bigIntAllowed) c := by
  intro h
  obtain ⟨hstop, hsame⟩ := NumberScan.finish_number h
  obtain ⟨lettered, hlettered, hexponent, hmore⟩ := scan.over_exponent
  rw [NumberScan.SameFlags, hflags] at hmore
  rw [hstop, hsame]
  refine ⟨whole ++ (dotted ++ lettered), ?_, .decimal ?_ hwhole ?_ hzero ?_⟩
  · rw [← List.append_assoc]
    exact ho.trans hlettered
  · rw [unseparated_append, unseparated_append]
    exact ⟨_, _, _, rfl, hwhole, hfraction, hexponent, hne⟩
  · cases lettered with
    | nil =>
      rw [List.append_nil]
      exact hdot.imp_right Or.inl
    | cons x xs =>
      rw [hmore]
      exact Or.inr (Or.inr rfl)
  · rw [NumberScan.SameFlags, hmore]

/-- A fraction and an exponent may follow the digits of a number. -/
theorem decimals_form (scan : NumberScan) {c : Cursor} {whole : List Char} {bigIntAllowed : Bool}
    (ho : c.Over whole scan.stop) (hflags : NumberScan.SameFlags scan.flags {})
    (hwhole : ∀ ch ∈ unseparated whole, isDigit ch = true) (hne : unseparated whole ≠ [])
    (hzero : LooksOctal (unseparated whole) → ['0', '_'] <+: whole) :
    ReadsForm (scan.fraction.exponent.finish c bigIntAllowed) c := by
  obtain ⟨dotted, hdotted, hfraction, hdot, hmore⟩ := scan.over_fraction
  rw [NumberScan.SameFlags, hflags] at hmore
  exact exponent_form whole (ho.trans hdotted) hmore hwhole hfraction hdot (fun h =>
    absurd h hne) hzero

/-- A number with a zero in front has that form. -/
theorem leadingZeroNumber_form {c : Cursor} {ch : Char} {cs : List Char}
    (hc : c.rest = '0' :: ch :: cs) (hd : isDigit ch = true) :
    ReadsForm (leadingZeroNumber c) c := by
  have hrun : ∃ more, c.Over ('0' :: ch :: more) (c.skipWhile isDigit) ∧
      ∀ x ∈ '0' :: ch :: more, isDigit x = true := by
    refine ⟨cs.takeWhile isDigit, ?_, ?_⟩
    · rw [skipWhile_eq, hc, List.takeWhile_cons_of_pos (by decide), List.takeWhile_cons_of_pos hd,
        List.dropWhile_cons_of_pos (by decide), List.dropWhile_cons_of_pos hd]
      constructor
      · rw [hc, List.cons_append, List.cons_append, List.takeWhile_append_dropWhile]
      · rfl
    · intro x hx
      rcases List.mem_cons.mp hx with rfl | hx
      · decide
      rcases List.mem_cons.mp hx with rfl | hx
      · exact hd
      · exact List.all_eq_true.mp List.all_takeWhile x hx
  obtain ⟨more, hover, hdigits⟩ := hrun
  have hplain : unseparated ('0' :: ch :: more) = '0' :: ch :: more := by
    apply List.filter_eq_self.mpr
    intro x hx
    exact bne_iff_ne.mpr (isDigit_ne (hdigits x hx) (by decide))
  rw [leadingZeroNumber_eq, charsUntil_eq hover.1 hover.2]
  split
  · rename_i hoctal
    intro h
    obtain ⟨hstop, hflags⟩ := NumberScan.finish_number h
    rw [hstop, hflags]
    rw [List.all_eq_true] at hoctal
    exact ⟨_, hover, .legacyOctal fun x hx => hoctal x (List.mem_cons_of_mem _ hx)⟩
  · rename_i hoctal
    apply decimals_form { stop := c.skipWhile isDigit } hover rfl
    · rwa [hplain]
    · rw [hplain]
      exact List.cons_ne_nil _ _
    · rw [hplain]
      exact fun h => absurd h.2.2 hoctal

/-- A decimal number has that form. -/
theorem decimalNumber_form {c : Cursor} {ch : Char} {cs : List Char} (hc : c.rest = ch :: cs)
    (hd : isDigit ch = true ∨ (ch = '.' ∧ cs.head?.any isDigit = true))
    (hz : ∀ x xs, c.rest = '0' :: x :: xs → isDigit x = false) :
    ReadsForm (decimalNumber c) c := by
  by_cases hdot : (c.peek? == some '.') = true
  · have hch : ch = '.' := by
      rw [peek?, hc, beq_iff_eq] at hdot
      exact Option.some.inj hdot
    subst hch
    obtain ⟨d, hhead, hdigit⟩ := (Option.any_eq_true _ _).mp (hd.resolve_left (by decide)).2
    obtain ⟨more, rfl⟩ := List.head?_eq_some_iff.mp hhead
    obtain ⟨front, hover, hfraction, hflags⟩ :=
      NumberScan.over_fraction_digit { stop := c } hc hdigit
    rw [decimalNumber_dot hdot]
    refine exponent_form [] hover hflags (List.forall_mem_nil _) hfraction
      (Or.inr List.mem_cons_self)
      (fun _ => ⟨d, unseparated front, ?_⟩) fun h => absurd h.1 (by decide)
    rw [unseparated_cons (by decide), unseparated_cons (isDigit_ne hdigit (by decide))]
  · have hdigit : isDigit ch = true := by
      rcases hd with hd | ⟨rfl, -⟩
      · exact hd
      · rw [peek?, hc] at hdot
        exact absurd rfl hdot
    obtain ⟨front, hover, hvalid⟩ := over_digits_cons hc hdigit
    rw [decimalNumber_digit hdot]
    apply decimals_form (.withDigits { stop := c } (digits isDigit c)) hover rfl hvalid
    · rw [unseparated_cons (isDigit_ne hdigit (by decide))]
      exact List.cons_ne_nil _ _
    · rw [unseparated_cons (isDigit_ne hdigit (by decide))] at hvalid ⊢
      rintro ⟨hlength, hhead, -⟩
      obtain rfl : ch = '0' := Option.some.inj hhead
      cases front with
      | nil => exact absurd hlength (by decide)
      | cons x xs =>
        have hx : x = '_' := by
          by_contra hne
          have hrest : c.rest = '0' :: x :: (xs ++ (digits isDigit c).stop.rest) := hover.1
          have hxdigit := hvalid x (List.mem_cons_of_mem _ (by
            rw [unseparated_cons hne]
            exact List.mem_cons_self))
          cases (hz x _ hrest).symm.trans hxdigit
        rw [hx]
        exact ⟨xs, rfl⟩

/-- Every number is in one of the forms. -/
theorem numberLiteral_form {c : Cursor} {ch : Char} {cs : List Char} (hc : c.rest = ch :: cs)
    (hd : isDigit ch = true ∨ (ch = '.' ∧ cs.head?.any isDigit = true)) :
    ReadsForm (numberLiteral c) c := by
  by_cases hzero : ∃ x xs, c.rest = '0' :: x :: xs
  · obtain ⟨x, xs, hx⟩ := hzero
    rw [numberLiteral_zero hx]
    split
    · rename_i hm
      rw [Bool.or_eq_true, beq_iff_eq, beq_iff_eq] at hm
      exact radixNumber_form hx (.hexadecimal hm) fun _ => isDigitOf_hex
    split
    · rename_i hm
      rw [Bool.or_eq_true, beq_iff_eq, beq_iff_eq] at hm
      exact radixNumber_form hx (.octal hm) fun _ => isDigitOf_octal
    split
    · rename_i hm
      rw [Bool.or_eq_true, beq_iff_eq, beq_iff_eq] at hm
      exact radixNumber_form hx (.binary hm) fun _ => isDigitOf_binary
    split
    · rename_i hdigit
      exact leadingZeroNumber_form hx hdigit
    · rename_i hdigit
      apply decimalNumber_form hc hd
      intro y ys hy
      rw [hx] at hy
      obtain ⟨rfl, -⟩ := List.cons.inj (List.cons.inj hy).2
      exact Bool.eq_false_iff.mpr hdigit
  · rw [numberLiteral_plain fun x xs hx => hzero ⟨x, xs, hx⟩]
    exact decimalNumber_form hc hd fun x xs hx => absurd ⟨x, xs, hx⟩ hzero

/-- The radix that a number is marked with, ten if it has no mark. -/
def notedRadix (flags : TokenFlags) : Nat :=
  if flags.hexadecimal then 16
  else if flags.octal || flags.legacyOctal then 8
  else if flags.binary then 2
  else 10

/-- The digits of a number, without the marker of a radix and without separators. -/
def bareDigits (flags : TokenFlags) (text : List Char) : List Char :=
  if flags.hexadecimal || flags.octal || flags.binary then (unseparated text).drop 2
  else unseparated text

/-- A number without a mark whose leading zero has a separator behind it looks octal without its
separators, if all of its digits are. -/
def seemsOctal (text : List Char) : Bool :=
  ['0', '_'].isPrefixOf text && (unseparated text).all isOctalDigit

/-- The value of a number with a marked radix is that of its digits. -/
theorem value_marked {raw : String} {marker : Char} {digits : List Char} {radix : Nat}
    {marks : TokenFlags} (hraw : raw.toList = '0' :: marker :: digits)
    (hm : Marks marker radix marks) :
    Numeral.value raw = radixValue radix (unseparated digits) := by
  have hmarker : marker ≠ '_' := by
    rcases hm with (rfl | rfl) | (rfl | rfl) | (rfl | rfl) <;> decide
  have hplain : raw.toList.filter (· != '_') = '0' :: marker :: unseparated digits := by
    rw [hraw]
    show unseparated _ = _
    rw [unseparated_cons (by decide), unseparated_cons hmarker]
  simp only [Numeral.value, hplain]
  rcases hm with (rfl | rfl) | (rfl | rfl) | (rfl | rfl) <;> rfl

/-- Without a marker the value is octal where the digits look so, and decimal otherwise. -/
theorem value_plain {raw : String} {cs : List Char} (hraw : unseparated raw.toList = cs)
    (hm : ∀ ch ∈ cs, ∀ radix marks, ¬ Marks ch radix marks) :
    Numeral.value raw =
      if LooksOctal cs then radixValue 8 cs.tail else (parse? cs).getD .nan := by
  have hplain : raw.toList.filter (· != '_') = cs := hraw
  simp only [Numeral.value, hplain]
  split
  · rename_i marker ds
    have hmarker : ∀ x, (∃ radix marks, Marks x radix marks) → (marker == x) = false := by
      rintro x ⟨radix, marks, hx⟩
      rw [beq_eq_false_iff_ne]
      rintro rfl
      exact hm marker (List.mem_cons_of_mem _ List.mem_cons_self) radix marks hx
    rw [hmarker 'x' ⟨_, _, .hexadecimal (Or.inl rfl)⟩,
      hmarker 'X' ⟨_, _, .hexadecimal (Or.inr rfl)⟩, hmarker 'o' ⟨_, _, .octal (Or.inl rfl)⟩,
      hmarker 'O' ⟨_, _, .octal (Or.inr rfl)⟩, hmarker 'b' ⟨_, _, .binary (Or.inl rfl)⟩,
      hmarker 'B' ⟨_, _, .binary (Or.inr rfl)⟩]
    simp only [LooksOctal, Bool.or_self, Bool.false_eq_true, if_false, List.length_cons,
      List.head?_cons, List.tail_cons, Nat.le_add_left, true_and]
  · rename_i hne
    rw [if_neg]
    rintro ⟨hl, hhead, -⟩
    obtain ⟨more, rfl⟩ := List.head?_eq_some_iff.mp hhead
    cases more with
    | nil => exact absurd hl (by decide)
    | cons marker ds => exact hne marker ds rfl

/-- A decimal number has no marker. -/
theorem not_marks_of_isDecimal {cs : List Char} (h : IsDecimal cs) :
    ∀ ch ∈ cs, ∀ radix marks, ¬ Marks ch radix marks := by
  obtain ⟨whole, fraction, exponent, rfl, hwhole, hfraction, hexponent, -⟩ := h
  have hdigits : ∀ ds : List Char, (∀ d ∈ ds, isDigit d = true) → ∀ ch ∈ ds, ∀ radix marks,
      ¬ Marks ch radix marks := by
    intro ds hds ch hch radix marks hm
    have hd := hds ch hch
    rcases hm with (rfl | rfl) | (rfl | rfl) | (rfl | rfl) <;> exact absurd hd (by decide)
  have hsigns : ∀ ch ∈ ['.', 'e', 'E', '+', '-'], ∀ radix marks, ¬ Marks ch radix marks := by
    intro ch hch radix marks hm
    rcases hm with (rfl | rfl) | (rfl | rfl) | (rfl | rfl) <;> exact absurd hch (by decide)
  intro ch hch
  rcases List.mem_append.mp hch with hch | hch
  · exact hdigits whole hwhole ch hch
  rcases List.mem_append.mp hch with hch | hch
  · rcases hfraction with rfl | ⟨ds, rfl, hds⟩
    · exact nomatch hch
    · rcases List.mem_cons.mp hch with rfl | hch
      · exact hsigns _ (by decide)
      · exact hdigits ds hds ch hch
  · rcases hexponent with rfl | ⟨letter, sign, ds, rfl, hletter, hsign, -, hds⟩
    · exact nomatch hch
    · rcases List.mem_cons.mp hch with rfl | hch
      · rcases hletter with rfl | rfl <;> exact hsigns _ (by decide)
      rcases List.mem_append.mp hch with hch | hch
      · rcases hsign with rfl | rfl | rfl
        · exact nomatch hch
        · rw [List.mem_singleton.mp hch]
          exact hsigns _ (by decide)
        · rw [List.mem_singleton.mp hch]
          exact hsigns _ (by decide)
      · exact hdigits ds hds ch hch

/-- Digits alone are a decimal number. -/
theorem isDecimal_of_digits {cs : List Char} (hne : cs ≠ []) (h : ∀ ch ∈ cs, isDigit ch = true) :
    IsDecimal cs :=
  ⟨cs, [], [], by rw [List.append_nil, List.append_nil], h, Or.inl rfl, Or.inl rfl,
    fun he => absurd he hne⟩

/-- A decimal number has characters. -/
theorem ne_nil_of_isDecimal {cs : List Char} (h : IsDecimal cs) : cs ≠ [] := by
  obtain ⟨whole, fraction, exponent, rfl, -, -, -, hne⟩ := h
  intro hnil
  obtain ⟨hw, hf⟩ := List.append_eq_nil_iff.mp hnil
  obtain ⟨d, ds, rfl⟩ := hne hw
  exact nomatch hf

/-- An octal digit is a digit. -/
theorem isDigit_of_isOctalDigit {ch : Char} (h : isOctalDigit ch = true) : isDigit ch = true := by
  simp only [isOctalDigit, isDigit, Bool.and_eq_true, decide_eq_true_eq] at h ⊢
  exact ⟨h.1, Nat.le_trans h.2 (by decide)⟩

/-- Octal digits are digits. -/
theorem isDigit_of_octal {ch : Char} {digits : List Char}
    (h : ∀ x ∈ ch :: digits, isOctalDigit x = true) : ∀ x ∈ '0' :: ch :: digits, isDigit x =
    true := by
  intro x hx
  rcases List.mem_cons.mp hx with rfl | hx
  · decide
  · exact isDigit_of_isOctalDigit (h x hx)

/-- Digits have no separators between them. -/
theorem unseparated_of_digits {cs : List Char} (h : ∀ ch ∈ cs, isDigit ch = true) :
    unseparated cs = cs :=
  List.filter_eq_self.mpr fun ch hch => bne_iff_ne.mpr (isDigit_ne (h ch hch) (by decide))

/-- A zero in front does not change a number. -/
theorem denotes_zero {radix n : Nat} {cs : List Char} (hr : 0 < radix) (h : Denotes radix cs n) :
    Denotes radix ('0' :: cs) n := by
  obtain ⟨values, hvalues, hsum⟩ := h
  refine ⟨0 :: values, .cons ⟨Or.inl rfl, hr⟩ hvalues, ?_⟩
  rw [← hsum, digitSum, List.foldl_cons, Nat.zero_mul]
  rfl

namespace NumberForm

variable {text : List Char} {flags : TokenFlags} {raw : String}

/-- A number has a value. -/
theorem value_ne_nan (h : NumberForm text flags) (hraw : raw.toList = text) :
    Numeral.value raw ≠ .nan := by
  have hplain : IsDecimal (unseparated text) → Numeral.value raw ≠ .nan := by
    intro hdecimal
    rw [value_plain (congrArg unseparated hraw) (not_marks_of_isDecimal hdecimal)]
    split
    · exact radixValue_ne_nan _ _
    · exact hdecimal.parse_ne_nan
  cases h with
  | marked hm =>
    rw [value_marked hraw hm]
    exact radixValue_ne_nan _ _
  | legacyOctal hoctal =>
    have hdigits := isDigit_of_octal hoctal
    apply hplain
    rw [unseparated_of_digits hdigits]
    exact isDecimal_of_digits (List.cons_ne_nil _ _) hdigits
  | decimal hdecimal => exact hplain hdecimal

/-- A whole number that is not too large has its digits for its value. -/
theorem value_exact (h : NumberForm text flags) (hraw : raw.toList = text) (hdot : '.' ∉ text)
    (hs : flags.scientific = false) :
    ∃ n, Denotes (if seemsOctal text then 8 else notedRadix flags) (bareDigits flags text) n ∧
      (n ≤ Double.twoPow 53 → (Numeral.value raw).IsNat n) := by
  cases h with
  | @marked marker digits radix marks _ hm hdigits hflags =>
    have hmarker : marker ≠ '_' := by
      rcases hm with (rfl | rfl) | (rfl | rfl) | (rfl | rfl) <;> decide
    have hseems : seemsOctal ('0' :: marker :: digits) = false := by
      simp only [seemsOctal, List.isPrefixOf, beq_eq_false_iff_ne.mpr hmarker.symm, Bool.false_and,
        Bool.and_false]
    have hradix : notedRadix flags = radix ∧ 0 < radix := by
      rw [hflags]
      rcases hm with _ | _ | _ <;> exact ⟨rfl, by decide⟩
    have hbare : bareDigits flags ('0' :: marker :: digits) = unseparated digits := by
      rw [bareDigits, unseparated_cons (by decide), unseparated_cons hmarker, hflags]
      rcases hm with _ | _ | _ <;> rfl
    obtain ⟨n, hn⟩ := exists_denotes hdigits
    rw [hseems, if_neg Bool.false_ne_true, hradix.1, hbare, value_marked hraw hm]
    exact ⟨n, hn, isNat_radixValue hradix.2 hn⟩
  | @legacyOctal ch digits hoctal =>
    have hdigits := isDigit_of_octal hoctal
    have hplain := unseparated_of_digits hdigits
    have hlooks : LooksOctal ('0' :: ch :: digits) := by
      refine ⟨by simp, rfl, ?_⟩
      rw [List.all_cons, List.all_eq_true.mpr hoctal]
      decide
    have hbare : bareDigits { legacyOctal := true } ('0' :: ch :: digits) = '0' :: ch :: digits :=
      hplain
    have hradix : (if seemsOctal ('0' :: ch :: digits) = true then 8
        else notedRadix { legacyOctal := true }) = 8 := ite_self 8
    obtain ⟨n, hn⟩ := exists_denotes fun x hx => isDigitOf_octal (hoctal x hx)
    rw [hradix, hbare, value_plain (congrArg unseparated hraw), hplain, if_pos hlooks,
      List.tail_cons]
    · exact ⟨n, denotes_zero (by decide) hn, isNat_radixValue (by decide) hn⟩
    · rw [hplain]
      exact not_marks_of_isDecimal (isDecimal_of_digits (List.cons_ne_nil _ _) hdigits)
  | @decimal whole tail _ hdecimal hdigits htail hzero hflags =>
    obtain rfl : tail = [] := by
      rcases htail with rfl | hmem | hexp
      · rfl
      · exact absurd (List.mem_append_right whole hmem) hdot
      · cases hs.symm.trans hexp
    rw [List.append_nil] at hraw hdecimal ⊢
    have hne := ne_nil_of_isDecimal hdecimal
    have hbare : bareDigits flags whole = unseparated whole := by
      rw [bareDigits, hflags]
      rfl
    have hradix : notedRadix flags = 10 := by
      rw [hflags]
      rfl
    rw [hbare, hradix, value_plain (congrArg unseparated hraw) (not_marks_of_isDecimal hdecimal)]
    by_cases hlooks : LooksOctal (unseparated whole)
    · have hseems : seemsOctal whole = true := by
        rw [seemsOctal, List.isPrefixOf_iff_prefix.mpr (hzero hlooks), hlooks.2.2]
        rfl
      obtain ⟨more, hmore⟩ := List.head?_eq_some_iff.mp hlooks.2.1
      have hoctal := List.all_eq_true.mp hlooks.2.2
      rw [hmore] at hoctal hlooks ⊢
      obtain ⟨n, hn⟩ := exists_denotes fun x hx =>
        isDigitOf_octal (hoctal x (List.mem_cons_of_mem _ hx))
      rw [hseems, if_pos rfl, if_pos hlooks, List.tail_cons]
      exact ⟨n, denotes_zero (by decide) hn, isNat_radixValue (by decide) hn⟩
    · rw [if_neg hlooks]
      by_cases hseems : seemsOctal whole = true
      · -- The only octal digit is the leading zero.
        obtain ⟨hlead, hoctal⟩ := Bool.and_eq_true_iff.mp hseems
        obtain ⟨more, hmore⟩ := List.isPrefixOf_iff_prefix.mp hlead
        have hzero : unseparated whole = '0' :: unseparated more := by
          rw [← hmore]
          rfl
        have hlone : unseparated more = [] := by
          by_contra hmany
          obtain ⟨x, xs, hxs⟩ := List.exists_cons_of_ne_nil hmany
          refine hlooks ⟨?_, ?_, hoctal⟩
          · rw [hzero, hxs]
            simp
          · rw [hzero]
            rfl
        have hdenotes : ∀ radix, 0 < radix → Denotes radix ['0'] 0 := fun radix hr =>
          denotes_zero hr ⟨[], .nil, rfl⟩
        rw [hseems, if_pos rfl, hzero, hlone]
        exact ⟨0, hdenotes 8 (by decide),
          isNat_parse (List.cons_ne_nil _ _) (hdenotes 10 (by decide))⟩
      · obtain ⟨n, hn⟩ := exists_denotes fun x hx => isDigitOf_digit (hdigits x hx)
        rw [if_neg hseems]
        exact ⟨n, hn, isNat_parse hne hn⟩

end NumberForm

/-- A word is no number. -/
theorem kind_word_ne_number (c : Cursor) : (word c).kind ≠ .number := by
  have hplain : ∀ text, plainWordKind text ≠ .number := by
    intro text
    unfold plainWordKind
    split <;> exact nofun
  have hescaped : ∀ text, escapedWordKind text ≠ .number := by
    intro text
    unfold escapedWordKind
    split
    · split <;> exact nofun
    · exact nofun
  unfold word
  extract_lets plain
  split
  · split
    · exact hescaped _
    · exact nofun
  · exact hplain _

/-- A private name is no number. -/
theorem kind_privateWord_ne_number (c : Cursor) : (privateWord c).kind ≠ .number := by
  unfold privateWord
  extract_lets behind
  split
  · split
    · simp only
      split <;> exact nofun
    · exact nofun
  · exact nofun

/-- Only a number is read as one. -/
theorem lexeme_number {regexAllowed : Bool} {c : Cursor} {l : Lexeme}
    (h : lexeme? regexAllowed c = some l) (hk : l.kind = .number) :
    ∃ text, c.Over text l.stop ∧ NumberForm text l.flags := by
  revert hk
  refine lexeme_induction h (fun _ => nofun) (fun _ hk => ?_) numberLiteral_form
    (fun _ hk => absurd hk (kind_privateWord_ne_number c))
    (fun hk => absurd hk (kind_word_ne_number c)) (fun _ hk => ?_) (fun _ => nofun)
    (fun _ => nofun) fun _ => nofun
  · unfold templateStart TemplateChunk.toLexeme at hk
    simp only at hk
    split at hk <;> cases hk
  · rw [kind_regexLiteral] at hk
    cases hk

/-- A number that is the next token is in one of the forms. -/
theorem scan_number {lexer : Lexer} (h : lexer.scan.token.kind = .number) :
    ∃ text flags, lexer.scan.token.text.toList = text ∧ NumberForm text flags ∧
      lexer.scan.token.flags =
        { flags with afterLineBreak := lexer.scan.token.flags.afterLineBreak } := by
  cases hl : lexeme? lexer.regexAllowed (trivia false lexer.token.stop).stop with
  | none =>
    rw [scan_of_none hl] at h
    exact nomatch h
  | some l =>
    rw [scan_of_some hl] at h ⊢
    obtain ⟨text, hover, hform⟩ := lexeme_number hl h
    exact ⟨text, l.flags, hover.toList_textUntil, hform, rfl⟩

/-- Every number that the lexer reads has a value. If it has neither fraction nor exponent, its
digits denote a number in the radix that the lexer has noted, and this number is the value, exactly,
up to `2 ^ 53`. One spelling is an exception: a number with a separator behind its leading zero has
not been noted as octal, and yet its value is octal if all of its digits are. -/
theorem value_number {lexer : Lexer} (h : lexer.scan.token.kind = .number) :
    Numeral.value lexer.scan.token.text ≠ .nan ∧
      ('.' ∉ lexer.scan.token.text.toList → lexer.scan.token.flags.scientific = false →
        ∃ n : Nat,
          Denotes
              (if seemsOctal lexer.scan.token.text.toList then 8
              else notedRadix lexer.scan.token.flags)
              (bareDigits lexer.scan.token.flags lexer.scan.token.text.toList) n ∧
            (n ≤ 2 ^ 53 → (Numeral.value lexer.scan.token.text).toInt? = some (n : Int))) := by
  obtain ⟨text, flags, htext, hform, hflags⟩ := scan_number h
  constructor
  · exact hform.value_ne_nan htext
  · intro hdot hs
    have hradix : notedRadix lexer.scan.token.flags = notedRadix flags := by
      rw [hflags]
      rfl
    have hbare : bareDigits lexer.scan.token.flags text = bareDigits flags text := by
      rw [hflags]
      rfl
    rw [htext] at hdot ⊢
    rw [hflags] at hs
    obtain ⟨n, hn, hvalue⟩ := hform.value_exact htext hdot hs
    rw [hradix, hbare]
    exact ⟨n, hn, fun hle => (hvalue hle).toInt?⟩

/-- The theorem at a hexadecimal number with a separator. -/
theorem value_number_hexadecimal :
    (Lexer.ofString "0x1_F;").scan.token.kind = .number ∧
      (Numeral.value (Lexer.ofString "0x1_F;").scan.token.text).toInt? = some 31 := by
  have hkind : (Lexer.ofString "0x1_F;").scan.token.kind = .number := by decide +kernel
  have htext : (Lexer.ofString "0x1_F;").scan.token.text.toList = ['0', 'x', '1', '_', 'F'] := by
    decide +kernel
  have hflags : (Lexer.ofString "0x1_F;").scan.token.flags =
      { hexadecimal := true, separated := true } := by decide +kernel
  obtain ⟨-, hexact⟩ := value_number hkind
  rw [htext, hflags] at hexact
  obtain ⟨n, hn, hvalue⟩ := hexact (by decide) rfl
  obtain rfl : n = 31 :=
    hn.unique ⟨[1, 15], .cons ⟨Or.inl rfl, by decide⟩ (.cons ⟨Or.inr rfl, by decide⟩ .nil), rfl⟩
  exact ⟨hkind, hvalue (by decide)⟩

/-- A number that has been read without faults and noted as decimal may have an octal value. -/
theorem value_hidden_octal :
    (Lexer.ofString "0_10").scan.token.kind = .number ∧
      (Lexer.ofString "0_10").scan.faults = #[] ∧
      notedRadix (Lexer.ofString "0_10").scan.token.flags = 10 ∧
      Denotes 10 (bareDigits (Lexer.ofString "0_10").scan.token.flags "0_10".toList) 10 ∧
      (Lexer.ofString "0_10").scan.token.text = "0_10" ∧
      (Numeral.value "0_10").toInt? = some 8 := by
  have hflags : (Lexer.ofString "0_10").scan.token.flags = { separated := true } := by
    decide +kernel
  have hdigits : bareDigits { separated := true } "0_10".toList = ['0', '1', '0'] := by
    decide +kernel
  rw [hflags, hdigits]
  refine ⟨by decide +kernel, by decide +kernel, rfl, ?_, by decide +kernel, by decide +kernel⟩
  exact ⟨[0, 1, 0], .cons ⟨Or.inl rfl, by decide⟩ (.cons ⟨Or.inl rfl, by decide⟩
    (.cons ⟨Or.inl rfl, by decide⟩ .nil)), rfl⟩

end Lexer

end EcmaScript

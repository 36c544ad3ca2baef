import EcmaScript.Number.Numeral
import EcmaScript.Proofs.Lexer.StringForms
import Mathlib.Data.Nat.Digits.Defs

/-!
# Exact values

A double-precision number has 53 significant bits, so every natural number up to `2 ^ 53` is one,
and a quotient that is such a number is not rounded at all. Summing up digits from the front never
passes the number that they denote, so it is exact as long as that number is.
-/

namespace EcmaScript

namespace Double

/-- The value is a natural number. -/
def IsNat (x : Double) (n : Nat) : Prop :=
  ∃ mantissa scale, x = .finite false mantissa scale ∧ mantissa * twoPow scale = n * unitsPerOne

/-- A power of two is positive. -/
theorem twoPow_pos (n : Nat) : 0 < twoPow n := Nat.pow_pos (by decide)

/-- The power of a sum is the product of the powers. -/
theorem twoPow_add (m n : Nat) : twoPow (m + n) = twoPow m * twoPow n := Nat.pow_add 2 m n

/-- There are smallest units in one. -/
theorem unitsPerOne_pos : 0 < unitsPerOne := twoPow_pos 1074

/-- Zero is a natural number. -/
theorem isNat_zero : IsNat (.finite false 0 0) 0 := ⟨0, 0, rfl, by rw [Nat.zero_mul, Nat.zero_mul]⟩

/-- What is a natural number is that integer. -/
theorem IsNat.toInt? {x : Double} {n : Nat} (h : x.IsNat n) : x.toInt? = some (n : Int) := by
  obtain ⟨mantissa, scale, rfl, hm⟩ := h
  rw [Double.toInt?]
  simp only [hm, Nat.mul_mod_left, if_true, Nat.mul_div_cancel n unitsPerOne_pos]
  rfl

/-- A quotient without a remainder is not rounded. -/
theorem roundDiv_mul (q : Nat) {den : Nat} (h : 0 < den) : roundDiv (q * den) den = q := by
  have hzero : (2 * 0 == den) = false := by
    rw [beq_eq_false_iff_ne]
    omega
  have hlow : ¬ den < 2 * 0 := by omega
  simp only [roundDiv, Nat.mul_div_cancel q h, Nat.mul_mod_left, hzero, hlow, Bool.false_and,
    decide_false, Bool.or_self, Bool.false_eq_true, if_false]

/-- A number of at most 53 bits, and the next one, keep all their bits when they are cut to 53. -/
theorem exists_mantissa {n : Nat} (hn : n ≤ twoPow 53) (k : Nat) :
    ∃ q, n * twoPow k = q * twoPow (Nat.log2 (n * twoPow k) - 52) ∧
      Nat.log2 (n * twoPow k) - 52 ≤ k + 1 := by
  rcases Nat.lt_or_eq_of_le hn with hlt | rfl
  · have hscale : Nat.log2 (n * twoPow k) - 52 ≤ k := by
      by_cases hz : n * twoPow k = 0
      · rw [hz, Nat.log2_zero]
        omega
      · have hbits : n * twoPow k < 2 ^ (53 + k) :=
          calc n * twoPow k < twoPow 53 * twoPow k := Nat.mul_lt_mul_of_pos_right hlt (twoPow_pos k)
            _ = 2 ^ (53 + k) := (twoPow_add 53 k).symm
        have hlog := (Nat.log2_lt hz).mpr hbits
        omega
    refine ⟨n * twoPow (k - (Nat.log2 (n * twoPow k) - 52)), ?_, Nat.le_succ_of_le hscale⟩
    rw [Nat.mul_assoc, ← twoPow_add, Nat.sub_add_cancel hscale]
  · have hpow : twoPow 53 * twoPow k = 2 ^ (53 + k) := (twoPow_add 53 k).symm
    have hscale : Nat.log2 (twoPow 53 * twoPow k) - 52 = k + 1 := by
      rw [hpow, Nat.log2_two_pow]
      omega
    rw [hscale]
    refine ⟨twoPow 52, ?_, Nat.le_refl _⟩
    rw [← twoPow_add, ← twoPow_add]
    exact congrArg twoPow (by omega)

/-- The number nearest to a quotient, with any number of units for one. -/
def ofRatioAt (unit : Nat) (negative : Bool) (num den : Nat) : Double :=
  let units := num * unit
  let scale := Nat.log2 (units / den) - 52
  let mantissa := roundDiv units (den * twoPow scale)
  let (mantissa, scale) :=
    if mantissa = twoPow 53 then (twoPow 52, scale + 1) else (mantissa, scale)
  if scale ≤ 2045 then finite negative mantissa scale else infinite negative

-- The number of units is never worked out: it has more than a thousand bits.
attribute [local irreducible] unitsPerOne in
/-- A ratio is rounded with as many units in one as there are. -/
theorem ofRatio_eq (negative : Bool) (num den : Nat) :
    ofRatio negative num den = ofRatioAt unitsPerOne negative num den := rfl

/-- The units in one are a power of two. -/
theorem exists_unit : ∃ k, k ≤ 1074 ∧ unitsPerOne = twoPow k := ⟨1074, Nat.le_refl _, rfl⟩

/-- A ratio that is a small natural number is rounded to that number. -/
theorem ofRatioAt_exact {n num den k : Nat} (hd : 0 < den) (hnum : num = n * den)
    (hn : n ≤ twoPow 53) (hk : k ≤ 1074) :
    ∃ mantissa scale, ofRatioAt (twoPow k) false num den = .finite false mantissa scale ∧
      mantissa * twoPow scale = n * twoPow k := by
  obtain ⟨q, hq, hscale⟩ := exists_mantissa hn k
  have hunits : num * twoPow k / den = n * twoPow k := by
    rw [hnum, Nat.mul_right_comm, Nat.mul_div_cancel _ hd]
  have hmul : num * twoPow k = q * (den * twoPow (Nat.log2 (n * twoPow k) - 52)) :=
    calc num * twoPow k = den * (n * twoPow k) := by
          rw [hnum, Nat.mul_right_comm, Nat.mul_comm]
      _ = den * (q * twoPow (Nat.log2 (n * twoPow k) - 52)) := congrArg (den * ·) hq
      _ = q * (den * twoPow (Nat.log2 (n * twoPow k) - 52)) := Nat.mul_left_comm ..
  have hround := roundDiv_mul q (Nat.mul_pos hd (twoPow_pos (Nat.log2 (n * twoPow k) - 52)))
  rw [← hmul] at hround
  unfold ofRatioAt
  simp only [hunits]
  generalize Nat.log2 (n * twoPow k) - 52 = scale at *
  simp only [hround]
  by_cases hcarry : q = twoPow 53
  · have hcarried : twoPow 52 * twoPow (scale + 1) = n * twoPow k :=
      calc twoPow 52 * twoPow (scale + 1) = twoPow 53 * twoPow scale := by
            rw [← twoPow_add, ← twoPow_add]
            exact congrArg twoPow (by omega)
        _ = n * twoPow k := by rw [← hcarry, hq]
    rw [if_pos hcarry]
    simp only
    rw [if_pos (by omega)]
    exact ⟨_, _, rfl, hcarried⟩
  · rw [if_neg hcarry]
    simp only
    rw [if_pos (by omega)]
    exact ⟨_, _, rfl, hq.symm⟩

/-- A quotient that is a natural number up to `2 ^ 53` is exact. -/
theorem isNat_ofRatio {n num den : Nat} (hd : 0 < den) (hnum : num = n * den)
    (hn : n ≤ twoPow 53) : IsNat (ofRatio false num den) n := by
  obtain ⟨k, hk, hunit⟩ := exists_unit
  rw [IsNat, ofRatio_eq, hunit]
  exact ofRatioAt_exact hd hnum hn hk

/-- A product with a natural number is a ratio that is rounded. -/
theorem mulNat_finite (negative : Bool) (mantissa scale n : Nat) :
    mulNat (.finite negative mantissa scale) n =
      ofRatio negative (mantissa * twoPow scale * n) unitsPerOne := rfl

/-- A sum with a natural number is a ratio that is rounded. -/
theorem addNat_finite (negative : Bool) (mantissa scale n : Nat) :
    addNat (.finite negative mantissa scale) n =
      ofRatio negative (mantissa * twoPow scale + n * unitsPerOne) unitsPerOne := rfl

/-- A product of natural numbers is exact as long as it is small. -/
theorem IsNat.mulNat {x : Double} {n : Nat} (h : x.IsNat n) {m : Nat} (hm : n * m ≤ twoPow 53) :
    (x.mulNat m).IsNat (n * m) := by
  obtain ⟨mantissa, scale, rfl, hv⟩ := h
  rw [mulNat_finite]
  apply isNat_ofRatio unitsPerOne_pos _ hm
  rw [hv, Nat.mul_right_comm]

/-- A sum of natural numbers is exact as long as it is small. -/
theorem IsNat.addNat {x : Double} {n : Nat} (h : x.IsNat n) {m : Nat} (hm : n + m ≤ twoPow 53) :
    (x.addNat m).IsNat (n + m) := by
  obtain ⟨mantissa, scale, rfl, hv⟩ := h
  rw [addNat_finite]
  apply isNat_ofRatio unitsPerOne_pos _ hm
  rw [hv, Nat.add_mul]

/-- A ratio is a number. -/
theorem ofRatioAt_ne_nan (unit : Nat) (negative : Bool) (num den : Nat) :
    ofRatioAt unit negative num den ≠ .nan := by
  unfold ofRatioAt
  extract_lets units scale mantissa
  split
  split <;> exact nofun

/-- A rounded ratio is a number. -/
theorem ofRatio_ne_nan (negative : Bool) (num den : Nat) : ofRatio negative num den ≠ .nan := by
  rw [ofRatio_eq]
  exact ofRatioAt_ne_nan _ negative num den

/-- A product of numbers is a number. -/
theorem mulNat_ne_nan {x : Double} (h : x ≠ .nan) (n : Nat) : x.mulNat n ≠ .nan := by
  cases x with
  | nan => exact absurd rfl h
  | infinite => exact nofun
  | finite =>
    rw [mulNat_finite]
    exact ofRatio_ne_nan _ _ _

/-- A sum of numbers is a number. -/
theorem addNat_ne_nan {x : Double} (h : x ≠ .nan) (n : Nat) : x.addNat n ≠ .nan := by
  cases x with
  | nan => exact absurd rfl h
  | infinite => exact nofun
  | finite =>
    rw [addNat_finite]
    exact ofRatio_ne_nan _ _ _

end Double

namespace Numeral

open Character Double

/-- The number that the values of digits denote behind those that denote `n`. -/
def digitSum (radix n : Nat) (values : List Nat) : Nat :=
  values.foldl (fun n value => n * radix + value) n

/-- More digits do not make a number smaller. -/
theorem le_digitSum {radix : Nat} (hr : 0 < radix) (n : Nat) (values : List Nat) :
    n ≤ digitSum radix n values := by
  induction values generalizing n with
  | nil => exact Nat.le_refl n
  | cons value values ih =>
    calc n ≤ n * radix := Nat.le_mul_of_pos_right n hr
      _ ≤ n * radix + value := Nat.le_add_right _ _
      _ ≤ digitSum radix (n * radix + value) values := ih _

/-- The characters are the digits of a number in a radix of at most 16. -/
def Denotes (radix : Nat) (cs : List Char) (n : Nat) : Prop :=
  ∃ values, List.Forall₂ (fun ch value => Lexer.IsHexDigit ch value ∧ value < radix) cs values ∧
    digitSum radix 0 values = n

/-- The values of digits are read off them one by one. -/
theorem filterMap_digitValue {radix : Nat} {cs : List Char} {values : List Nat}
    (h : List.Forall₂ (fun ch value => Lexer.IsHexDigit ch value ∧ value < radix) cs values) :
    cs.filterMap (digitValue? radix) = values := by
  induction h with
  | nil => rfl
  | @cons ch value cs values hd _ ih =>
    have hvalue : digitValue? radix ch = some value := by
      rw [digitValue?, Lexer.hexValue?_of_isHexDigit hd.1, Option.filter_some,
        if_pos (decide_eq_true hd.2)]
    rw [List.filterMap_cons_some hvalue, ih]

/-- No digit takes the sum to what is no number. -/
theorem radixValue_ne_nan (radix : Nat) (cs : List Char) : radixValue radix cs ≠ .nan := by
  have hsum : ∀ (values : List Nat) (x : Double), x ≠ .nan →
      values.foldl (fun acc d => (acc.mulNat radix).addNat d) x ≠ .nan := by
    intro values
    induction values with
    | nil => exact fun _ h => h
    | cons value values ih => exact fun x h => ih _ (addNat_ne_nan (mulNat_ne_nan h radix) value)
  exact hsum _ _ nofun

/-- Digits of a radix are summed up without rounding. -/
theorem isNat_radixValue {radix n : Nat} {cs : List Char} (hr : 0 < radix)
    (h : Denotes radix cs n) (hn : n ≤ twoPow 53) : (radixValue radix cs).IsNat n := by
  obtain ⟨values, hv, rfl⟩ := h
  rw [radixValue, filterMap_digitValue hv]
  have hsum : ∀ (values : List Nat) (n : Nat) (x : Double), x.IsNat n →
      digitSum radix n values ≤ twoPow 53 →
      (values.foldl (fun acc d => (acc.mulNat radix).addNat d) x).IsNat
        (digitSum radix n values) := by
    intro values
    induction values with
    | nil => exact fun n x h _ => h
    | cons value values ih =>
      intro n x hx hle
      have hstep : n * radix + value ≤ twoPow 53 :=
        (le_digitSum hr (n * radix + value) values).trans hle
      have hmul : n * radix ≤ twoPow 53 := (Nat.le_add_right _ _).trans hstep
      exact ih _ _ ((hx.mulNat hmul).addNat hstep) hle
  exact hsum values 0 _ isNat_zero hn

end Numeral

namespace Decimal

open Character Double

/-- What is written in decimals is a number. -/
theorem toDouble_ne_nan (n : Scientific) (negative : Bool) : n.toDouble negative ≠ .nan := by
  unfold Scientific.toDouble
  extract_lets digitCount
  split
  · exact nofun
  split
  · exact nofun
  split
  · exact nofun
  split
  · exact ofRatio_ne_nan negative _ _
  · exact ofRatio_ne_nan negative _ _

/-- A natural number up to `2 ^ 53` is read exactly. -/
theorem isNat_toDouble {n : Nat} (hn : n ≤ twoPow 53) :
    (Scientific.toDouble ⟨n, 0⟩ false).IsNat n := by
  have hlength : (Nat.toDigits 10 n).length ≤ 16 :=
    Nat.toDigits_length 10 n 16 (by decide) (Nat.lt_of_le_of_lt hn (by decide))
  rw [Scientific.toDouble]
  simp only [Int.add_zero]
  by_cases hz : n = 0
  · rw [if_pos hz, hz]
    exact isNat_zero
  · rw [if_neg hz, if_neg (by omega), if_neg (by omega), if_pos (by omega)]
    exact isNat_ofRatio (by decide) (congrArg (n * ·) (Nat.pow_zero 10)) hn

/-- A decimal digit is a hexadecimal digit with a value below ten. -/
theorem isDigit_of_lt {ch : Char} {value : Nat} (h : Lexer.IsHexDigit ch value) (hv : value < 10) :
    isDigit ch = true ∧ ch.toNat - '0'.toNat = value := by
  have hlower : ∀ i : Fin 10, isDigit ("0123456789abcdef".toList[i]) = true ∧
      ("0123456789abcdef".toList[i]).toNat - '0'.toNat = i.val := by decide
  have hupper : ∀ i : Fin 10, isDigit ("0123456789ABCDEF".toList[i]) = true ∧
      ("0123456789ABCDEF".toList[i]).toNat - '0'.toNat = i.val := by decide
  rcases h with h | h
  · obtain ⟨hi, rfl⟩ := List.getElem?_eq_some_iff.mp h
    exact hlower ⟨value, hv⟩
  · obtain ⟨hi, rfl⟩ := List.getElem?_eq_some_iff.mp h
    exact hupper ⟨value, hv⟩

/-- A number of digits has digits only, and they are summed up from the front. -/
theorem digits_of_denotes {cs : List Char} {n : Nat} (h : Numeral.Denotes 10 cs n) :
    (∀ ch ∈ cs, isDigit ch = true) ∧ digitsValue 0 cs = n := by
  obtain ⟨values, hv, rfl⟩ := h
  generalize 0 = start
  induction hv generalizing start with
  | nil => exact ⟨nofun, rfl⟩
  | @cons ch value cs values hd _ ih =>
    obtain ⟨hhex, hlt⟩ := hd
    obtain ⟨hdigit, hvalue⟩ := isDigit_of_lt hhex hlt
    obtain ⟨hdigits, hsum⟩ := ih (start * 10 + value)
    have hstep : digitsValue start (ch :: cs) = digitsValue (start * 10 + value) cs :=
      congrArg (fun d => digitsValue (start * 10 + d) cs) hvalue
    exact ⟨List.forall_mem_cons.mpr ⟨hdigit, hdigits⟩, hstep.trans hsum⟩

/-- The characters are the digits behind a dot with the dot, or nothing. -/
def IsFraction (cs : List Char) : Prop :=
  cs = [] ∨ ∃ ds, cs = '.' :: ds ∧ ∀ d ∈ ds, isDigit d = true

/-- The characters are an exponent, or nothing. -/
def IsExponent (cs : List Char) : Prop :=
  cs = [] ∨ ∃ letter sign ds, cs = letter :: (sign ++ ds) ∧ (letter = 'e' ∨ letter = 'E') ∧
    (sign = [] ∨ sign = ['+'] ∨ sign = ['-']) ∧ ds ≠ [] ∧ ∀ d ∈ ds, isDigit d = true

/-- The characters are an unsigned decimal number with a digit before or behind the dot. -/
def IsDecimal (cs : List Char) : Prop :=
  ∃ whole fraction exponent, cs = whole ++ (fraction ++ exponent) ∧
    (∀ d ∈ whole, isDigit d = true) ∧ IsFraction fraction ∧ IsExponent exponent ∧
    (whole = [] → ∃ d ds, fraction = '.' :: d :: ds)

/-- A digit is no other character. -/
theorem isDigit_ne {ch : Char} (h : isDigit ch = true) {x : Char} (hx : isDigit x = false) :
    ch ≠ x := by
  rintro rfl
  cases hx.symm.trans h

/-- A text that does not start with a sign has none. -/
theorem splitSign_of_ne {cs : List Char} (hm : cs.head? ≠ some '-') (hp : cs.head? ≠ some '+') :
    splitSign cs = (false, cs) := by
  unfold splitSign
  split
  · exact absurd rfl hm
  · exact absurd rfl hp
  · rfl

/-- An exponent starts with its letter. -/
theorem IsExponent.head {cs : List Char} (h : IsExponent cs) :
    ∀ ch ∈ cs.head?, ch = 'e' ∨ ch = 'E' := by
  rcases h with rfl | ⟨letter, sign, ds, rfl, hletter, -⟩
  · exact nofun
  · intro ch hch
    rwa [← Option.some.inj hch]

/-- What is an exponent is read as one. -/
theorem exponent_isSome {cs : List Char} (h : IsExponent cs) : (exponent? cs).isSome := by
  rcases h with rfl | ⟨letter, sign, ds, rfl, hletter, hsign, hne, hdigits⟩
  · rfl
  · have hplain : splitSign ds = (false, ds) := by
      obtain ⟨d, ds, rfl⟩ := List.exists_cons_of_ne_nil hne
      have hd := hdigits d List.mem_cons_self
      apply splitSign_of_ne
      · intro hm
        exact isDigit_ne hd (by decide) (Option.some.inj hm)
      · intro hp
        exact isDigit_ne hd (by decide) (Option.some.inj hp)
    have hsplit : (splitSign (sign ++ ds)).2 = ds := by
      rcases hsign with rfl | rfl | rfl
      · exact congrArg Prod.snd hplain
      · rfl
      · rfl
    have hvalid : (ds.isEmpty || !ds.all isDigit) = false := by
      rw [Bool.or_eq_false_iff, List.isEmpty_eq_false_iff, Bool.not_eq_false', List.all_eq_true]
      exact ⟨hne, hdigits⟩
    have hmark : (letter == 'e' || letter == 'E') = true := by
      rcases hletter with rfl | rfl <;> rfl
    simp only [exponent?, hmark, hsplit, hvalid, if_true, Bool.false_eq_true, if_false,
      Option.isSome_some]

/-- A decimal number is read as one. -/
theorem IsDecimal.parse_ne_nan {cs : List Char} (h : IsDecimal cs) :
    (parse? cs).getD .nan ≠ .nan := by
  obtain ⟨whole, fraction, exponent, rfl, hwhole, hfraction, hexponent, hne⟩ := h
  have hmarks : isDigit 'e' = false ∧ isDigit 'E' = false ∧ isDigit '.' = false := by decide
  have hend : ∀ ch ∈ exponent.head?, isDigit ch = false := by
    intro ch hch
    rcases hexponent.head ch hch with rfl | rfl
    · exact hmarks.1
    · exact hmarks.2.1
  have hsome : (scientific? (whole ++ (fraction ++ exponent))).isSome := by
    have hbehind : ∀ ch ∈ (fraction ++ exponent).head?, isDigit ch = false := by
      rcases hfraction with rfl | ⟨ds, rfl, -⟩
      · exact hend
      · intro ch hch
        rw [← Option.some.inj hch]
        exact hmarks.2.2
    obtain ⟨htake, hdrop⟩ := Cursor.span_front hwhole hbehind
    unfold scientific?
    rw [htake, hdrop]
    rcases hfraction with rfl | ⟨ds, rfl, hds⟩
    · have hwne : whole ≠ [] := by
        intro hw
        obtain ⟨d, ds, hd⟩ := hne hw
        exact nomatch hd
      have hdot : ∀ more, exponent ≠ '.' :: more := by
        rintro more rfl
        exact absurd (hexponent.head '.' rfl) (by decide)
      have hwhole' : (whole.isEmpty && ([] : List Char).isEmpty) = false := by
        rw [List.isEmpty_eq_false_iff.mpr hwne, Bool.false_and]
      simp only [List.nil_append, hwhole', Bool.false_eq_true, if_false, Option.isSome_map]
      exact exponent_isSome hexponent
    · obtain ⟨hfront, hback⟩ := Cursor.span_front hds hend
      have hwne : ¬ (whole.isEmpty && ds.isEmpty) = true := by
        rw [Bool.and_eq_true, List.isEmpty_iff, List.isEmpty_iff]
        rintro ⟨hw, rfl⟩
        obtain ⟨d, ds, hd⟩ := hne hw
        exact nomatch hd
      simp only [List.cons_append, hfront, hback]
      rw [if_neg hwne, Option.isSome_map]
      exact exponent_isSome hexponent
  have hsign : splitSign (whole ++ (fraction ++ exponent)) =
      (false, whole ++ (fraction ++ exponent)) := by
    have hhead : ∀ x, isDigit x = false → x ≠ '.' →
        (whole ++ (fraction ++ exponent)).head? ≠ some x := by
      intro x hx hdot hhead
      cases whole with
      | nil =>
        obtain ⟨d, ds, rfl⟩ := hne rfl
        exact hdot (Option.some.inj hhead).symm
      | cons d whole =>
        exact isDigit_ne (hwhole d List.mem_cons_self) hx (Option.some.inj hhead)
    exact splitSign_of_ne (hhead _ (by decide) (by decide)) (hhead _ (by decide) (by decide))
  obtain ⟨n, hn⟩ := Option.isSome_iff_exists.mp hsome
  simp only [parse?, hsign, hn, Option.getD_some]
  exact toDouble_ne_nan n false

/-- Decimal digits alone are read as the number that they denote. -/
theorem isNat_parse {cs : List Char} {n : Nat} (hne : cs ≠ []) (h : Numeral.Denotes 10 cs n)
    (hn : n ≤ twoPow 53) : ((parse? cs).getD .nan).IsNat n := by
  obtain ⟨hdigits, hsum⟩ := digits_of_denotes h
  have hspan := Cursor.span_front hdigits (fun ch h => nomatch h : ∀ ch ∈ [].head?,
    isDigit ch = false)
  rw [List.append_nil] at hspan
  obtain ⟨htake, hdrop⟩ := hspan
  have hread : scientific? cs = some ⟨n, 0⟩ := by
    unfold scientific?
    rw [htake, hdrop]
    simp only [List.append_nil, hsum, List.isEmpty_nil, Bool.and_true, List.isEmpty_iff, hne,
      if_false]
    rfl
  have hsign : splitSign cs = (false, cs) := by
    obtain ⟨d, ds, rfl⟩ := List.exists_cons_of_ne_nil hne
    have hd := hdigits d List.mem_cons_self
    apply splitSign_of_ne
    · intro hm
      exact isDigit_ne hd (by decide) (Option.some.inj hm)
    · intro hp
      exact isDigit_ne hd (by decide) (Option.some.inj hp)
  simp only [parse?, hsign, hread, Option.getD_some]
  exact isNat_toDouble hn

end Decimal

end EcmaScript

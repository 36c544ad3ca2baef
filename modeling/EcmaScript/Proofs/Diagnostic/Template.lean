import EcmaScript.Diagnostic.Template
import Mathlib.Data.List.Basic

/-!
# Arguments as data

A template should be filled in one go: every marker that it holds gives way to its argument, and
what an argument brings in is copied like all other text. Putting the arguments in one after the
other comes to the same if there is at most one of them. With more, it comes to the same if no
argument holds a brace and no brace of the template opens inside braces. Otherwise a marker can
come about that the template does not hold, and is filled too.
-/

namespace EcmaScript.Template

/-- The marker of an argument, by its number. -/
def marker (index : Nat) : List Char := '\x7b' :: ((toString index).toList ++ ['\x7d'])

/-- The argument whose marker the text starts with, with the text behind the marker. The first
argument has the number `index`. -/
def argumentAt? (index : Nat) (text : List Char) : List String → Option (List Char × List Char)
  | [] => none
  | arg :: args =>
    match stripLead (marker index) text with
    | some rest => some (arg.toList, rest)
    | none => argumentAt? (index + 1) text args

/-- An argument is found only where a marker is taken off. -/
theorem length_of_argumentAt? {index : Nat} {text found rest : List Char} {args : List String}
    (h : argumentAt? index text args = some (found, rest)) : rest.length < text.length := by
  induction args generalizing index with
  | nil => exact absurd h.symm (Option.some_ne_none _)
  | cons arg args ih =>
    rw [argumentAt?] at h
    split at h
    · rename_i behind hstrip
      have hlen := length_of_stripLead hstrip
      obtain ⟨-, rfl⟩ := Prod.mk.inj (Option.some.inj h)
      simp only [marker, List.length_cons, List.length_append] at hlen
      omega
    · exact ih h

/-- The text with every marker in it replaced by its argument, all else copied. -/
def fillOnceFrom (index : Nat) (text : List Char) (args : List String) : List Char :=
  match text with
  | [] => []
  | c :: cs =>
    match _h : argumentAt? index (c :: cs) args with
    | some (arg, rest) => arg ++ fillOnceFrom index rest args
    | none => c :: fillOnceFrom index cs args
termination_by text.length
decreasing_by
  · exact length_of_argumentAt? _h
  · simp

/-- A template in which every marker is replaced by its argument in one go. -/
def fillOnce (template : String) (args : List String) : String :=
  String.ofList (fillOnceFrom 0 template.toList args)

/-- Whether a brace is open behind a character; `inside` tells whether one is before it. -/
def isOpenBehind (inside : Bool) (c : Char) : Bool := c == '\x7b' || inside && c != '\x7d'

/-- Whether no brace opens between an opening brace and the next closing one. -/
def isFlat (inside : Bool) : List Char → Bool
  | [] => true
  | c :: cs => !(c == '\x7b' && inside) && isFlat (isOpenBehind inside c) cs

/-- No brace opens in the text, and none closes. -/
def BraceFree (text : List Char) : Prop := '\x7b' ∉ text ∧ '\x7d' ∉ text

section

variable {index : Nat} {arg : String} {args : List String}
  {mark by_ lead rest text cs : List Char} {m c : Char}

/-- A lead is taken off exactly when the text starts with it. -/
theorem stripLead_eq_some_iff : stripLead lead text = some rest ↔ text = lead ++ rest := by
  induction lead generalizing text with
  | nil => simp [stripLead]
  | cons p lead ih =>
    cases text with
    | nil => simp [stripLead]
    | cons c text =>
      rw [stripLead]
      split
      · rename_i hpc
        rw [ih, hpc, List.cons_append, List.cons.injEq]
        simp
      · rename_i hpc
        simp [Ne.symm hpc]

/-- The lead comes off what was put behind it. -/
theorem stripLead_append : stripLead lead (lead ++ rest) = some rest :=
  stripLead_eq_some_iff.mpr rfl

/-- A marker starts with a brace. -/
theorem stripLead_marker_of_ne (h : c ≠ '\x7b') : stripLead (marker index) (c :: cs) = none := by
  rw [marker, stripLead, if_neg (Ne.symm h)]

/-- The number in a marker is written in digits. -/
theorem braceFree_toString (index : Nat) : BraceFree (toString index).toList := by
  have hdigits : ∀ ch ∈ (toString index).toList, ch.isDigit = true := by
    intro ch hch
    rw [Nat.toString_eq_repr, Nat.toList_repr] at hch
    exact Nat.isDigit_of_mem_toDigits (by decide) (by decide) hch
  exact ⟨fun h => absurd (hdigits _ h) (by decide), fun h => absurd (hdigits _ h) (by decide)⟩

/-- No argument is found but at a brace. -/
theorem argumentAt?_of_ne (h : c ≠ '\x7b') : argumentAt? index (c :: cs) args = none := by
  induction args generalizing index with
  | nil => rfl
  | cons arg args ih => rw [argumentAt?, stripLead_marker_of_ne h, ih]

theorem fillOnceFrom_nil : fillOnceFrom index [] args = [] := by
  rw [fillOnceFrom]

/-- A character at which no marker starts stays. -/
theorem fillOnceFrom_of_none (h : argumentAt? index (c :: cs) args = none) :
    fillOnceFrom index (c :: cs) args = c :: fillOnceFrom index cs args := by
  rw [fillOnceFrom]
  split
  · rename_i hsome
    cases h.symm.trans hsome
  · rfl

/-- A marker that names an argument gives way to it. -/
theorem fillOnceFrom_of_some {found : List Char}
    (h : argumentAt? index text args = some (found, rest)) :
    fillOnceFrom index text args = found ++ fillOnceFrom index rest args := by
  cases text with
  | nil => exact absurd (length_of_argumentAt? h) (Nat.not_lt_zero _)
  | cons c cs =>
    rw [fillOnceFrom]
    split
    · rename_i hsome
      obtain ⟨rfl, rfl⟩ := Prod.mk.inj (Option.some.inj (h.symm.trans hsome))
      rfl
    · rename_i hnone
      cases h.symm.trans hnone

/-- The marker of the first argument gives way to it. -/
theorem fillOnceFrom_marker :
    fillOnceFrom index (marker index ++ rest) (arg :: args) =
      arg.toList ++ fillOnceFrom index rest (arg :: args) :=
  fillOnceFrom_of_some (by rw [argumentAt?, stripLead_append])

/-- Text in which no brace opens is copied. -/
theorem fillOnceFrom_append (h : '\x7b' ∉ lead) :
    fillOnceFrom index (lead ++ text) args = lead ++ fillOnceFrom index text args := by
  induction lead with
  | nil => rfl
  | cons c lead ih =>
    obtain ⟨hc, hlead⟩ := not_or.mp (mt List.mem_cons.mpr h)
    rw [List.cons_append, fillOnceFrom_of_none (argumentAt?_of_ne (Ne.symm hc)), ih hlead,
      List.cons_append]

/-- Without arguments every marker stays. -/
theorem fillOnceFrom_no_args : fillOnceFrom index text [] = text := by
  induction text with
  | nil => exact fillOnceFrom_nil
  | cons c cs ih => rw [fillOnceFrom_of_none rfl, ih]

theorem replaceAll_nil : replaceAll m mark by_ [] = [] := by
  rw [replaceAll]

/-- A character at which the mark does not start stays. -/
theorem replaceAll_of_none (h : stripLead (m :: mark) (c :: cs) = none) :
    replaceAll m mark by_ (c :: cs) = c :: replaceAll m mark by_ cs := by
  rw [replaceAll]
  split
  · rename_i hsome
    cases h.symm.trans hsome
  · rfl

/-- The mark gives way to the other text. -/
theorem replaceAll_lead :
    replaceAll m mark by_ ((m :: mark) ++ rest) = by_ ++ replaceAll m mark by_ rest := by
  rw [List.cons_append, replaceAll]
  split
  · rename_i behind hsome
    rw [← List.cons_append, stripLead_append] at hsome
    rw [Option.some.inj hsome]
  · rename_i hnone
    rw [← List.cons_append, stripLead_append] at hnone
    cases hnone

/-- Text that the mark does not start in stays as it is. -/
theorem replaceAll_append (h : m ∉ lead) :
    replaceAll m mark by_ (lead ++ text) = lead ++ replaceAll m mark by_ text := by
  induction lead with
  | nil => rfl
  | cons c lead ih =>
    obtain ⟨hc, hlead⟩ := not_or.mp (mt List.mem_cons.mpr h)
    have hnone : stripLead (m :: mark) (c :: (lead ++ text)) = none := by
      rw [stripLead, if_neg hc]
    rw [List.cons_append, replaceAll_of_none hnone, ih hlead, List.cons_append]

/-- The text with the marker of one argument replaced. -/
def replaceMarker (index : Nat) (arg : String) (text : List Char) : List Char :=
  replaceAll '\x7b' ((toString index).toList ++ ['\x7d']) arg.toList text

/-- Arguments are put in one after the other, over the whole text. -/
theorem fillFrom_cons :
    fillFrom index text (arg :: args) = fillFrom (index + 1) (replaceMarker index arg text) args :=
  rfl

theorem replaceMarker_nil : replaceMarker index arg [] = [] := replaceAll_nil

/-- A character at which the marker does not start stays. -/
theorem replaceMarker_of_none (h : stripLead (marker index) (c :: cs) = none) :
    replaceMarker index arg (c :: cs) = c :: replaceMarker index arg cs := replaceAll_of_none h

/-- The marker gives way to the argument. -/
theorem replaceMarker_marker :
    replaceMarker index arg (marker index ++ rest) = arg.toList ++ replaceMarker index arg rest :=
  replaceAll_lead

/-- A lead without an opening brace stays. -/
theorem replaceMarker_append (h : '\x7b' ∉ lead) :
    replaceMarker index arg (lead ++ text) = lead ++ replaceMarker index arg text :=
  replaceAll_append h

/-- A text without an opening brace stays. -/
theorem replaceMarker_of_notMem (h : '\x7b' ∉ text) : replaceMarker index arg text = text := by
  have happend : replaceMarker index arg (text ++ []) = text ++ replaceMarker index arg [] :=
    replaceMarker_append h
  rwa [replaceMarker_nil, List.append_nil] at happend

/-- With one argument, replacing its marker is filling in one go. -/
theorem replaceMarker_eq : replaceMarker index arg text = fillOnceFrom index text [arg] := by
  induction hn : text.length using Nat.strongRecOn generalizing text with
  | _ n ih =>
    cases text with
    | nil => rw [replaceMarker_nil, fillOnceFrom_nil]
    | cons c cs =>
      cases hstrip : stripLead (marker index) (c :: cs) with
      | some rest =>
        have hlen := length_of_stripLead hstrip
        have hpos : 0 < (marker index).length := by simp [marker]
        rw [stripLead_eq_some_iff.mp hstrip, fillOnceFrom_marker, replaceMarker_marker,
          ih rest.length (by omega) rfl]
      | none =>
        have hnone : argumentAt? index (c :: cs) [arg] = none := by
          rw [argumentAt?, hstrip]
          rfl
        rw [replaceMarker_of_none hstrip, fillOnceFrom_of_none hnone,
          ih cs.length (by rw [← hn]; exact Nat.lt_succ_self _) rfl]

/-- One more character that is no brace. -/
theorem BraceFree.cons (h : BraceFree cs) (hopen : c ≠ '\x7b') (hclose : c ≠ '\x7d') :
    BraceFree (c :: cs) :=
  ⟨mt List.mem_cons.mp (not_or.mpr ⟨Ne.symm hopen, h.1⟩),
    mt List.mem_cons.mp (not_or.mpr ⟨Ne.symm hclose, h.2⟩)⟩

/-- A flat text opens no brace inside braces. -/
theorem isFlat_cons_iff {inside : Bool} :
    isFlat inside (c :: cs) = true ↔
      (c = '\x7b' → inside = false) ∧ isFlat (isOpenBehind inside c) cs = true := by
  rw [isFlat, Bool.and_eq_true_iff, imp_iff_not_or]
  simp

/-- Only a brace changes whether one is open. -/
theorem isOpenBehind_of_ne {inside : Bool} (hopen : c ≠ '\x7b') (hclose : c ≠ '\x7d') :
    isOpenBehind inside c = inside := by
  rw [isOpenBehind, beq_eq_false_iff_ne.mpr hopen, bne_iff_ne.mpr hclose, Bool.and_true,
    Bool.false_or]

/-- Text without braces in front does not change whether the rest is flat. -/
theorem isFlat_append {inside : Bool} (h : BraceFree lead) :
    isFlat inside (lead ++ text) = isFlat inside text := by
  induction lead with
  | nil => rfl
  | cons c lead ih =>
    obtain ⟨hopen, hleadOpen⟩ := not_or.mp (mt List.mem_cons.mpr h.1)
    obtain ⟨hclose, hleadClose⟩ := not_or.mp (mt List.mem_cons.mpr h.2)
    rw [List.cons_append, isFlat, isOpenBehind_of_ne (Ne.symm hopen) (Ne.symm hclose),
      beq_eq_false_iff_ne.mpr (Ne.symm hopen), ih ⟨hleadOpen, hleadClose⟩]
    rfl

/-- Behind a marker a flat text is flat, and no brace is open before the marker. -/
theorem isFlat_of_marker {inside : Bool} (h : isFlat inside (marker index ++ rest) = true) :
    inside = false ∧ isFlat false rest = true := by
  rw [marker, List.cons_append, List.append_assoc, isFlat_cons_iff,
    isFlat_append (braceFree_toString index)] at h
  exact ⟨h.1 rfl, (isFlat_cons_iff.mp h.2).2⟩

/-- In a flat text, what follows an opening brace has no brace before the next closing one. -/
theorem isFlat_true_cases (h : isFlat true cs = true) :
    BraceFree cs ∨ ∃ lead rest, cs = lead ++ '\x7d' :: rest ∧ BraceFree lead ∧
      isFlat false rest = true := by
  induction cs with
  | nil => exact Or.inl ⟨List.not_mem_nil, List.not_mem_nil⟩
  | cons c cs ih =>
    obtain ⟨hopen, hcs⟩ := isFlat_cons_iff.mp h
    have hopen : c ≠ '\x7b' := fun hc => absurd (hopen hc) (by decide)
    by_cases hclose : c = '\x7d'
    · subst hclose
      exact Or.inr ⟨[], cs, rfl, ⟨List.not_mem_nil, List.not_mem_nil⟩, hcs⟩
    · rw [isOpenBehind_of_ne hopen hclose] at hcs
      rcases ih hcs with hcs | ⟨lead, rest, rfl, hlead, hrest⟩
      · exact Or.inl (hcs.cons hopen hclose)
      · exact Or.inr ⟨c :: lead, rest, rfl, hlead.cons hopen hclose, hrest⟩

/-- The argument whose number is written so. The first argument has the number `index`. -/
def argumentOf? (index : Nat) (digits : List Char) : List String → Option (List Char)
  | [] => none
  | arg :: args =>
    if (toString index).toList = digits then some arg.toList
    else argumentOf? (index + 1) digits args

/-- At an opening brace the marker comes off exactly when its number stands between the braces. -/
theorem stripLead_marker (h : '\x7d' ∉ lead) :
    stripLead (marker index) ('\x7b' :: (lead ++ '\x7d' :: text)) =
      if (toString index).toList = lead then some text else none := by
  split
  · rename_i hlead
    rw [← hlead, stripLead_eq_some_iff, marker]
    simp
  · rename_i hlead
    refine Option.eq_none_iff_forall_ne_some.mpr fun rest hrest => hlead ?_
    have heq : lead ++ '\x7d' :: text = (toString index).toList ++ '\x7d' :: rest := by
      simpa [marker] using stripLead_eq_some_iff.mp hrest
    have hlen := congrArg (List.idxOf '\x7d') heq
    rw [List.idxOf_append_of_notMem h, List.idxOf_append_of_notMem (braceFree_toString index).2,
      List.idxOf_cons_self, List.idxOf_cons_self] at hlen
    exact (List.append_inj_left heq hlen).symm

/-- Between two braces without further ones between them, only what stands there decides which
marker they make. -/
theorem argumentAt?_braces (h : '\x7d' ∉ lead) :
    argumentAt? index ('\x7b' :: (lead ++ '\x7d' :: text)) args =
      (argumentOf? index lead args).map fun arg => (arg, text) := by
  induction args generalizing index with
  | nil => rfl
  | cons arg args ih =>
    rw [argumentAt?, stripLead_marker h, argumentOf?]
    by_cases hlead : (toString index).toList = lead
    · rw [if_pos hlead, if_pos hlead]
      rfl
    · rw [if_neg hlead, if_neg hlead]
      exact ih

/-- What stands between two braces gives way to the argument of that number, if there is one. -/
theorem fillOnceFrom_braces (h : BraceFree lead) :
    fillOnceFrom index ('\x7b' :: (lead ++ '\x7d' :: text)) args =
      (argumentOf? index lead args).getD ('\x7b' :: (lead ++ ['\x7d'])) ++
        fillOnceFrom index text args := by
  have hat : argumentAt? index ('\x7b' :: (lead ++ '\x7d' :: text)) args =
      (argumentOf? index lead args).map fun arg => (arg, text) := argumentAt?_braces h.2
  cases hof : argumentOf? index lead args with
  | some found => exact fillOnceFrom_of_some (by rw [hat, hof]; rfl)
  | none =>
    have hclose : '\x7b' ∉ lead ++ ['\x7d'] := by simp [h.1]
    rw [fillOnceFrom_of_none (by rw [hat, hof]; rfl), List.append_cons,
      fillOnceFrom_append hclose]
    rfl

/-- A brace that is never closed starts no marker. -/
theorem fillOnceFrom_open (h : BraceFree cs) :
    fillOnceFrom index ('\x7b' :: cs) args = '\x7b' :: cs := by
  have hstrip (j : Nat) : stripLead (marker j) ('\x7b' :: cs) = none := by
    refine Option.eq_none_iff_forall_ne_some.mpr fun rest hrest => h.2 ?_
    rw [(List.cons.inj (stripLead_eq_some_iff.mp hrest)).2]
    simp
  have hnone : argumentAt? index ('\x7b' :: cs) args = none := by
    induction args generalizing index with
    | nil => rfl
    | cons arg args ih => rw [argumentAt?, hstrip, ih]
  have happend : fillOnceFrom index (cs ++ []) args = cs ++ fillOnceFrom index [] args :=
    fillOnceFrom_append h.1
  rw [fillOnceFrom_nil, List.append_nil] at happend
  rw [fillOnceFrom_of_none hnone, happend]

/-- Digits that are not those of the first argument name one of the others. -/
theorem argumentOf?_cons_of_none {digits : List Char}
    (h : stripLead (marker index) ('\x7b' :: (digits ++ '\x7d' :: text)) = none)
    (hdigits : '\x7d' ∉ digits) :
    argumentOf? index digits (arg :: args) = argumentOf? (index + 1) digits args := by
  rw [stripLead_marker hdigits] at h
  rw [argumentOf?, if_neg]
  intro heq
  rw [if_pos heq] at h
  cases h

/-- One argument put in before the others is as good as all of them in one go: the text that it
brings in makes no marker, alone or with what stands around it. -/
theorem fillOnceFrom_replaceMarker (harg : BraceFree arg.toList)
    (hflat : isFlat false text = true) :
    fillOnceFrom (index + 1) (replaceMarker index arg text) args =
      fillOnceFrom index text (arg :: args) := by
  induction hn : text.length using Nat.strongRecOn generalizing text with
  | _ n ih =>
    cases text with
    | nil => rw [replaceMarker_nil, fillOnceFrom_nil, fillOnceFrom_nil]
    | cons c cs =>
      cases hstrip : stripLead (marker index) (c :: cs) with
      | some rest =>
        have hlen := length_of_stripLead hstrip
        have hpos : 0 < (marker index).length := by simp [marker]
        have htext := stripLead_eq_some_iff.mp hstrip
        rw [htext] at hflat ⊢
        rw [replaceMarker_marker, fillOnceFrom_append harg.1, fillOnceFrom_marker,
          ih rest.length (by omega) (isFlat_of_marker hflat).2 rfl]
      | none =>
        rw [replaceMarker_of_none hstrip]
        by_cases hc : c = '\x7b'
        · subst hc
          obtain hcs | ⟨lead, rest, rfl, hlead, hrest⟩ :=
            isFlat_true_cases (isFlat_cons_iff.mp hflat).2
          · rw [replaceMarker_of_notMem hcs.1, fillOnceFrom_open hcs, fillOnceFrom_open hcs]
          · have hclose : '\x7b' ∉ lead ++ ['\x7d'] := by simp [hlead.1]
            have hlt : rest.length < n := by
              rw [← hn]
              simp only [List.length_cons, List.length_append]
              omega
            rw [fillOnceFrom_braces hlead, argumentOf?_cons_of_none hstrip hlead.2,
              List.append_cons, replaceMarker_append hclose, ← List.append_cons,
              fillOnceFrom_braces hlead, ih rest.length hlt hrest rfl]
        · have hcs : isFlat false cs = true := by
            have htail := (isFlat_cons_iff.mp hflat).2
            rwa [isOpenBehind, beq_eq_false_iff_ne.mpr hc] at htail
          rw [fillOnceFrom_of_none (argumentAt?_of_ne hc),
            fillOnceFrom_of_none (argumentAt?_of_ne hc),
            ih cs.length (by rw [← hn]; exact Nat.lt_succ_self _) hcs rfl]

/-- Replacing a marker by text without braces leaves a flat text flat. -/
theorem isFlat_replaceMarker (harg : BraceFree arg.toList) {inside : Bool}
    (hflat : isFlat inside text = true) : isFlat inside (replaceMarker index arg text) = true := by
  induction hn : text.length using Nat.strongRecOn generalizing text inside with
  | _ n ih =>
    cases text with
    | nil => rw [replaceMarker_nil, isFlat]
    | cons c cs =>
      cases hstrip : stripLead (marker index) (c :: cs) with
      | some rest =>
        have hlen := length_of_stripLead hstrip
        have hpos : 0 < (marker index).length := by simp [marker]
        have htext := stripLead_eq_some_iff.mp hstrip
        rw [htext] at hflat ⊢
        obtain ⟨rfl, hrest⟩ := isFlat_of_marker hflat
        rw [replaceMarker_marker, isFlat_append harg]
        exact ih rest.length (by omega) hrest rfl
      | none =>
        obtain ⟨hopen, hcs⟩ := isFlat_cons_iff.mp hflat
        rw [replaceMarker_of_none hstrip, isFlat_cons_iff]
        exact ⟨hopen, ih cs.length (by rw [← hn]; exact Nat.lt_succ_self _) hcs rfl⟩

/-- What all arguments put in one after the other come to, for flat text and arguments without
braces. -/
theorem fillFrom_eq (hargs : ∀ arg ∈ args, BraceFree arg.toList)
    (hflat : isFlat false text = true) :
    fillFrom index text args = fillOnceFrom index text args := by
  induction args generalizing index text with
  | nil => rw [fillOnceFrom_no_args, fillFrom]
  | cons arg args ih =>
    obtain ⟨harg, hargs⟩ := List.forall_mem_cons.mp hargs
    rw [fillFrom_cons, ih hargs (isFlat_replaceMarker harg hflat),
      fillOnceFrom_replaceMarker harg hflat]

/-- Filling a template treats the arguments as data if there is at most one, or if no argument
holds a brace and the braces of the template are not nested: the result is the template with the
marker of each argument replaced by it and all else copied. -/
theorem fill_eq_fillOnce {template : String} {args : List String}
    (h : args.length ≤ 1 ∨
      isFlat false template.toList = true ∧ ∀ arg ∈ args, BraceFree arg.toList) :
    fill template args = fillOnce template args := by
  refine congrArg String.ofList ?_
  rcases h with hlen | ⟨hflat, hargs⟩
  · cases args with
    | nil => rw [fillOnceFrom_no_args, fillFrom]
    | cons arg args =>
      obtain rfl : args = [] := List.eq_nil_of_length_eq_zero (by simpa using hlen)
      rw [fillFrom_cons, fillFrom, replaceMarker_eq]
  · exact fillFrom_eq hargs hflat

/-- Two arguments change places. -/
theorem fill_eq_fillOnce_swapped :
    (["b", "a"].length ≤ 1 ∨ isFlat false "\x7b1\x7d, \x7b0\x7d".toList = true ∧
      ∀ arg ∈ ["b", "a"], BraceFree arg.toList) ∧
    fill "\x7b1\x7d, \x7b0\x7d" ["b", "a"] = fillOnce "\x7b1\x7d, \x7b0\x7d" ["b", "a"] := by
  have h : ["b", "a"].length ≤ 1 ∨ isFlat false "\x7b1\x7d, \x7b0\x7d".toList = true ∧
      ∀ arg ∈ ["b", "a"], BraceFree arg.toList := by
    refine Or.inr ⟨by decide, ?_⟩
    simp [BraceFree]
  exact ⟨h, fill_eq_fillOnce h⟩

/-- A marker that comes in with the first argument is filled by the second. -/
theorem fill_arguments_again :
    fill "\x7b0\x7d \x7b1\x7d" ["\x7b1\x7d", "x"] = "x x" ∧
      fillOnce "\x7b0\x7d \x7b1\x7d" ["\x7b1\x7d", "x"] = "\x7b1\x7d x" := by
  cbv

end

end EcmaScript.Template

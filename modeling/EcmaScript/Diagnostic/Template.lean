/-!
# Message templates

A template marks the place of its `i`-th argument by the number `i` between braces. The
arguments are put in one after the other, each into the text that the earlier ones left,
so a marker that comes in with an argument is filled by a later one.
-/

namespace EcmaScript.Template

/-- The rest of a text behind `lead`, if it starts with it. -/
def stripLead : List Char → List Char → Option (List Char)
  | [], text => some text
  | _ :: _, [] => none
  | p :: lead, c :: text => if p = c then stripLead lead text else none

/-- What is behind a lead is shorter by the lead. -/
theorem length_of_stripLead {lead text rest : List Char} (h : stripLead lead text = some rest) :
    rest.length + lead.length = text.length := by
  induction lead generalizing text with
  | nil => simp_all [stripLead]
  | cons p lead ih =>
    cases text with
    | nil => simp [stripLead] at h
    | cons c text =>
      simp only [stripLead] at h
      split at h
      · have := ih h
        simp
        omega
      · simp at h

/-- Replaces every occurrence of the mark `m :: mark`, read from left to right, by `by_`. -/
def replaceAll (m : Char) (mark by_ : List Char) (text : List Char) : List Char :=
  match text with
  | [] => []
  | c :: cs =>
    match _h : stripLead (m :: mark) (c :: cs) with
    | some rest => by_ ++ replaceAll m mark by_ rest
    | none => c :: replaceAll m mark by_ cs
termination_by text.length
decreasing_by
  · have := length_of_stripLead _h
    simp at this ⊢
    omega
  · simp

/-- Puts the arguments in, the first of them for the marker number `index`. -/
def fillFrom (index : Nat) (text : List Char) : List String → List Char
  | [] => text
  | arg :: args =>
    fillFrom (index + 1)
      (replaceAll '\x7b' ((toString index).toList ++ ['\x7d']) arg.toList text) args

/-- A template with its arguments put in. -/
def fill (template : String) (args : List String) : String :=
  String.ofList (fillFrom 0 template.toList args)

end EcmaScript.Template

import EcmaScript.Syntax.Operator

/-!
# Trees of operators

Operands with binary operators between them can be grouped in many ways. The grammar allows one
of them: below an operator stand only operators that bind more tightly, or as tightly on the side
to which the operator associates. Such a climbing tree is determined by the sequence that is left
when the grouping is forgotten. In it, `??` and one of `||` and `&&` never meet unless one of them
is right below the other.
-/

namespace EcmaScript

namespace BinaryOperator

/-- Whether equal operators group to the right. -/
def IsRightAssociative (op : BinaryOperator) : Prop := op = power

instance (op : BinaryOperator) : Decidable op.IsRightAssociative :=
  inferInstanceAs (Decidable (op = power))

/-- Whether an operator may stand below this one on the left. -/
def AdmitsLeft (op below : BinaryOperator) : Prop :=
  if op.IsRightAssociative then op.precedence < below.precedence
  else op.precedence ≤ below.precedence

/-- Whether an operator may stand below this one on the right. -/
def AdmitsRight (op below : BinaryOperator) : Prop :=
  if op.IsRightAssociative then op.precedence ≤ below.precedence
  else op.precedence < below.precedence

/-- Whether this is one of the operators that `??` must not be mixed with. -/
def isAndOr (op : BinaryOperator) : Bool := op == or || op == and

variable {a b c : BinaryOperator}

/-- The operators that group to the right bind tightest. -/
theorem IsRightAssociative.precedence_eq (h : a.IsRightAssociative) : a.precedence = 16 := by
  rw [show a = power from h]
  rfl

/-- The other operators bind less tightly. -/
theorem precedence_lt (h : ¬ a.IsRightAssociative) : a.precedence < 16 := by
  revert h
  cases a <;> decide

/-- No operator binds tighter than the power. -/
theorem precedence_le (a : BinaryOperator) : a.precedence ≤ 16 := by cases a <;> decide

/-- Each operator binds tighter than the start of an expression. -/
theorem precedence_pos (a : BinaryOperator) : 0 < a.precedence := by cases a <;> decide

/-- What may stand on the right of an operator, in the numbers that the parser compares. -/
theorem admitsRight_iff : a.AdmitsRight b ↔ a.rightPrecedence < b.precedence := by
  unfold AdmitsRight rightPrecedence
  by_cases h : a.IsRightAssociative
  · rw [if_pos h, if_pos (show a = power from h), h.precedence_eq]
    exact Iff.rfl
  · rw [if_neg h, if_neg (show ¬ a = power from h)]

/-- An operator that the right side of another one leaves over takes that one on its left. -/
theorem admitsLeft_of_le (h : a.precedence ≤ b.rightPrecedence) : a.AdmitsLeft b := by
  unfold AdmitsLeft
  unfold rightPrecedence at h
  by_cases hb : b.IsRightAssociative
  · rw [if_pos (show b = power from hb)] at h
    have ha : ¬ a.IsRightAssociative := by
      intro ha
      rw [ha.precedence_eq] at h
      exact absurd h (by decide)
    rw [if_neg ha, hb.precedence_eq]
    exact a.precedence_le
  · rw [if_neg (show ¬ b = power from hb)] at h
    have ha : ¬ a.IsRightAssociative := by
      intro ha
      rw [ha.precedence_eq] at h
      exact Nat.not_le_of_lt (precedence_lt hb) h
    rwa [if_neg ha]

/-- What stands on the left does not bind less tightly. -/
theorem AdmitsLeft.le (h : a.AdmitsLeft b) : a.precedence ≤ b.precedence := by
  unfold AdmitsLeft at h
  split at h
  · exact Nat.le_of_lt h
  · exact h

/-- What stands on the right does not bind less tightly. -/
theorem AdmitsRight.le (h : a.AdmitsRight b) : a.precedence ≤ b.precedence := by
  unfold AdmitsRight at h
  split at h
  · exact h
  · exact Nat.le_of_lt h

/-- What binds tighter still may stand on the left as well. -/
theorem AdmitsLeft.trans (h : a.AdmitsLeft b) (k : b.precedence ≤ c.precedence) :
    a.AdmitsLeft c := by
  unfold AdmitsLeft at h ⊢
  split at h
  · rename_i ha
    rw [if_pos ha]
    exact Nat.lt_of_lt_of_le h k
  · rename_i ha
    rw [if_neg ha]
    exact Nat.le_trans h k

/-- What binds tighter still may stand on the right as well. -/
theorem AdmitsRight.trans (h : a.AdmitsRight b) (k : b.precedence ≤ c.precedence) :
    a.AdmitsRight c := by
  unfold AdmitsRight at h ⊢
  split at h
  · rename_i ha
    rw [if_pos ha]
    exact Nat.le_trans h k
  · rename_i ha
    rw [if_neg ha]
    exact Nat.lt_of_lt_of_le h k

/-- Of two operators, not each can stand below the other on opposite sides. -/
theorem AdmitsRight.not_admitsLeft (h : a.AdmitsRight b) : ¬ b.AdmitsLeft a := by
  intro k
  have hle := k.le
  unfold AdmitsRight at h
  split at h
  · rename_i ha
    have heq := ha.precedence_eq
    have hb : b.IsRightAssociative := Decidable.byContradiction fun hb =>
      absurd (Nat.le_trans (Nat.le_of_eq heq.symm) h) (Nat.not_le_of_lt (precedence_lt hb))
    rw [AdmitsLeft, if_pos hb, hb.precedence_eq, heq] at k
    exact Nat.lt_irrefl _ k
  · exact Nat.not_lt_of_le hle h

end BinaryOperator

/-- Operands with binary operators between them, grouped. -/
inductive OperatorTree (α : Type) where
  /-- A single operand. -/
  | operand (x : α)
  /-- An operator with what stands on its two sides. -/
  | node (operator : BinaryOperator) (left right : OperatorTree α)

namespace OperatorTree

variable {α : Type}

/-- The first operand. -/
def first : OperatorTree α → α
  | operand x => x
  | node _ left _ => left.first

/-- The operators in their order, each with the operand behind it. -/
def links : OperatorTree α → List (BinaryOperator × α)
  | operand _ => []
  | node operator left right => left.links ++ (operator, right.first) :: right.links

/-- The operator at the root. -/
def root? : OperatorTree α → Option BinaryOperator
  | operand _ => none
  | node operator _ _ => some operator

/-- Below every operator stand only operators that it admits there. -/
def IsClimbing : OperatorTree α → Prop
  | operand _ => True
  | node operator left right =>
    (∀ below ∈ left.root?, operator.AdmitsLeft below) ∧
      (∀ below ∈ right.root?, operator.AdmitsRight below) ∧ left.IsClimbing ∧ right.IsClimbing

/-- Right below `??` stands neither `||` nor `&&`. -/
def Unmixed : OperatorTree α → Prop
  | operand _ => True
  | node operator left right =>
    (operator = .coalesce → (∀ below ∈ left.root?, below.isAndOr = false) ∧
      ∀ below ∈ right.root?, below.isAndOr = false) ∧ left.Unmixed ∧ right.Unmixed

/-- The operator at the root is one of the chain's. -/
theorem exists_of_root {tree : OperatorTree α} {root : BinaryOperator}
    (h : tree.root? = some root) : ∃ x, (root, x) ∈ tree.links := by
  cases tree with
  | operand x => exact nomatch h
  | node operator left right =>
    obtain rfl : operator = root := Option.some.inj h
    exact ⟨right.first, List.mem_append_right _ List.mem_cons_self⟩

/-- The operator at the root binds least tightly. -/
theorem IsClimbing.le {tree : OperatorTree α} (h : tree.IsClimbing) {root : BinaryOperator}
    (hr : tree.root? = some root) {link : BinaryOperator × α} (hl : link ∈ tree.links) :
    root.precedence ≤ link.1.precedence := by
  induction tree generalizing root with
  | operand x => exact nomatch hr
  | node operator left right ihl ihr =>
    obtain ⟨hleft, hright, hcl, hcr⟩ := h
    obtain rfl : operator = root := Option.some.inj hr
    rcases List.mem_append.mp hl with hl | hl
    · cases hb : left.root? with
      | none => cases left with
        | operand x => exact nomatch hl
        | node _ _ _ => exact nomatch hb
      | some below => exact Nat.le_trans (hleft below hb).le (ihl hcl hb hl)
    · rcases List.mem_cons.mp hl with rfl | hl
      · exact Nat.le_refl _
      · cases hb : right.root? with
        | none => cases right with
          | operand x => exact nomatch hl
          | node _ _ _ => exact nomatch hb
        | some below => exact Nat.le_trans (hright below hb).le (ihr hcr hb hl)

/-- What holds of the operator at the root of one side, and of all that bind more tightly, holds
of all operators there. -/
theorem IsClimbing.forall_links {tree : OperatorTree α} (h : tree.IsClimbing)
    {P : BinaryOperator → Prop} (hroot : ∀ root ∈ tree.root?, P root)
    (hup : ∀ a b : BinaryOperator, P a → a.precedence ≤ b.precedence → P b) :
    ∀ link ∈ tree.links, P link.1 := by
  intro link hl
  cases hr : tree.root? with
  | none => cases tree with
    | operand x => exact nomatch hl
    | node _ _ _ => exact nomatch hr
  | some root => exact hup root _ (hroot root hr) (h.le hr hl)

/-- A sequence is that of one climbing tree at most. -/
theorem IsClimbing.eq_of_links {a b : OperatorTree α} (ha : a.IsClimbing) (hb : b.IsClimbing)
    (hfirst : a.first = b.first) (hlinks : a.links = b.links) : a = b := by
  induction a generalizing b with
  | operand x =>
    cases b with
    | operand y => exact congrArg operand hfirst
    | node _ _ _ => exact absurd hlinks.symm (by simp [links])
  | node op left right ihl ihr =>
    cases b with
    | operand y => exact absurd hlinks (by simp [links])
    | node op' left' right' =>
      obtain ⟨hl, hr, hcl, hcr⟩ := ha
      obtain ⟨hl', hr', hcl', hcr'⟩ := hb
      have hleft := hcl.forall_links hl fun _ _ h => h.trans
      have hright := hcr.forall_links hr fun _ _ h => h.trans
      have hleft' := hcl'.forall_links hl' fun _ _ h => h.trans
      have hright' := hcr'.forall_links hr' fun _ _ h => h.trans
      rcases List.append_eq_append_iff.mp hlinks with ⟨links, hl₁, hl₂⟩ | ⟨links, hl₁, hl₂⟩
      · cases links with
        | nil =>
          obtain ⟨hhead, htail⟩ := List.cons.inj hl₂
          obtain ⟨rfl, hmid⟩ := Prod.mk.inj hhead
          rw [ihl hcl hcl' hfirst (by simpa using hl₁.symm), ihr hcr hcr' hmid htail]
        | cons link links =>
          -- The root of one tree would stand on the left of the other root, and that one on its
          -- right.
          obtain ⟨rfl, htail⟩ := List.cons.inj hl₂
          have h₁ : op'.AdmitsLeft op := hleft' (op, right.first) (by rw [hl₁]; simp)
          have h₂ : op.AdmitsRight op' := hright (op', right'.first) (by rw [htail]; simp)
          exact absurd h₁ h₂.not_admitsLeft
      · cases links with
        | nil =>
          obtain ⟨hhead, htail⟩ := List.cons.inj hl₂
          obtain ⟨rfl, hmid⟩ := Prod.mk.inj hhead
          rw [ihl hcl hcl' hfirst (by simpa using hl₁), ihr hcr hcr' hmid.symm htail.symm]
        | cons link links =>
          obtain ⟨rfl, htail⟩ := List.cons.inj hl₂
          have h₁ : op.AdmitsLeft op' := hleft (op', right'.first) (by rw [hl₁]; simp)
          have h₂ : op'.AdmitsRight op := hright' (op, right.first) (by rw [htail]; simp)
          exact absurd h₁ h₂.not_admitsLeft

end OperatorTree

/-- Whether `??` comes together with `||` or `&&`. -/
def MixesCoalesce {α : Type} (links : List (BinaryOperator × α)) : Prop :=
  (∃ link ∈ links, link.1 = .coalesce) ∧ ∃ link ∈ links, link.1.isAndOr = true

namespace OperatorTree

variable {α : Type}

/-- Below an operator that is neither `||` nor `&&`, and not below such a one, stands none. -/
theorem Unmixed.forall_links {tree : OperatorTree α} (h : tree.Unmixed) (hc : tree.IsClimbing)
    (hroot : ∀ root ∈ tree.root?, root.isAndOr = false) :
    ∀ link ∈ tree.links, link.1.isAndOr = false := by
  have hhigh : ∀ op : BinaryOperator, 8 ≤ op.precedence → op.isAndOr = false := by
    intro op hop
    revert hop
    cases op <;> decide
  have hup : ∀ a b : BinaryOperator, 8 ≤ a.precedence → a.precedence ≤ b.precedence →
      8 ≤ b.precedence := fun _ _ => Nat.le_trans
  have hcases : ∀ op : BinaryOperator, op.isAndOr = false → op = .coalesce ∨ 8 ≤ op.precedence := by
    intro op hop
    revert hop
    cases op <;> decide
  induction tree with
  | operand x => exact fun _ hl => nomatch hl
  | node operator left right ihl ihr =>
    obtain ⟨hmix, hul, hur⟩ := h
    rcases hcases operator (hroot operator rfl) with rfl | hop
    · obtain ⟨hl, hr⟩ := hmix rfl
      have hleft := ihl hul hc.2.2.1 hl
      have hright := ihr hur hc.2.2.2 hr
      intro link hlink
      rcases List.mem_append.mp hlink with hlink | hlink
      · exact hleft link hlink
      · rcases List.mem_cons.mp hlink with rfl | hlink
        · rfl
        · exact hright link hlink
    · intro link hlink
      exact hhigh _ (Nat.le_trans hop (hc.le rfl hlink))

/-- A climbing tree without `||` and `&&` right below `??` does not mix them at all. -/
theorem Unmixed.not_mixes {tree : OperatorTree α} (h : tree.Unmixed) (hc : tree.IsClimbing) :
    ¬ MixesCoalesce tree.links := by
  rintro ⟨⟨coalesce, hcoalesce, hlow⟩, ⟨andOr, handOr, hmixed⟩⟩
  cases hr : tree.root? with
  | none => cases tree with
    | operand x => exact nomatch hcoalesce
    | node _ _ _ => exact nomatch hr
  | some root =>
    have hle := hc.le hr hcoalesce
    rw [hlow] at hle
    have hroot : root.isAndOr = false := by
      revert hle
      cases root <;> decide
    have hnone := h.forall_links hc (fun op hop => by
      rw [hr] at hop
      rwa [← Option.some.inj hop]) andOr handOr
    rw [hmixed] at hnone
    exact nomatch hnone

end OperatorTree

end EcmaScript

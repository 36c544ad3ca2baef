import EcmaScript.Proofs.Syntax.Parts
import Mathlib.Order.Nat

/-!
# What parsers build

Three things are settled while a tree is built, and all three are passed down from a node to
its parts: how many constructs of each kind may still be nested in it, whether all defaults
of object literals in it have been claimed by patterns, and whether it stands behind `new`,
where a property can be attached to an arrow function without parentheses.

What a single node must satisfy is said once, by `Built`. What follows for all the nodes
below, and for the ways down to them, is derived from that.
-/

namespace EcmaScript

open Relation

/-- How many constructs of each kind may be nested. -/
abbrev Budget := Kind → Nat

namespace Budget

/-- As many of each kind as there are levels. -/
def level (n : Nat) : Budget := fun _ => n

/-- What is left inside of a construct. -/
def spend (b : Budget) (kind? : Option Kind) : Budget := fun k =>
  if kind? = some k then b k - 1 else b k

@[simp] theorem level_apply (n : Nat) (k : Kind) : level n k = n := rfl

@[simp] theorem spend_none (b : Budget) : b.spend none = b := by
  funext k
  simp [spend]

/-- What a construct takes of its own kind leaves the other kinds. -/
theorem spend_of_ne (b : Budget) {j k : Kind} (h : j ≠ k) : b.spend (some j) k = b k := by
  simp [spend, h]

/-- More is left of more. -/
theorem spend_mono {b c : Budget} (h : b ≤ c) (kind? : Option Kind) :
    b.spend kind? ≤ c.spend kind? := by
  intro k
  have hk := h k
  simp only [spend]
  split
  · exact Nat.sub_le_sub_right hk 1
  · exact hk

/-- What has more than a level for a kind still has the level inside of a construct of it. -/
theorem level_le_spend {n : Nat} {b : Budget} (hb : level n ≤ b) {kind? : Option Kind}
    (hk : ∀ k, kind? = some k → n < b k) : level n ≤ b.spend kind? := by
  intro k
  simp only [spend, level_apply]
  split
  · rename_i h
    exact Nat.le_sub_one_of_lt (hk k h)
  · exact hb k

/-- What an expression without a conditional can hold: it stands in a statement and has none
of its own level in it. -/
def simple (n : Nat) : Budget := fun k => if k = .conditional ∨ k = .statement then n else n + 1

/-- What is a level further in has less than an expression. -/
theorem level_le_simple (n : Nat) : level n ≤ simple n := by
  intro k
  simp only [simple, level_apply]
  split <;> omega

/-- An expression has less than the statement around it. -/
theorem simple_le_level (n : Nat) : simple n ≤ level (n + 1) := by
  intro k
  simp only [simple, level_apply]
  split <;> omega

/-- An expression has more of all kinds but conditionals and statements. -/
theorem lt_simple (n : Nat) {k : Kind} (hc : k ≠ .conditional) (hs : k ≠ .statement) :
    n < simple n k := by
  simp [simple, hc, hs]

/-- More levels are more of each kind. -/
theorem level_mono {m n : Nat} (h : m ≤ n) : level m ≤ level n := fun _ => h

end Budget

namespace Role

/-- What is left for a part in this role. Only the heritage of a class does not count as
nested in it. -/
@[simp] def budget (b : Budget) (kind? : Option Kind) : Role → Budget
  | heritage => b
  | _ => b.spend kind?

/-- Whether all defaults must have been claimed in a part in this role. -/
@[simp] def tidy (t : Bool) : Role → Bool
  | complete | base => true
  | cover | callee | heritage => t
  | declared => false

/-- Whether a part in this role stands behind `new`. -/
@[simp] def behindNew (r : Bool) : Role → Bool
  | base => r
  | callee => true
  | _ => false

end Role

/-- `Built b t r node` says that the node can have been built with the budget `b`. If `t`
holds, all defaults of object literals in it have been claimed; otherwise some may be left
that are not within complete parts. If `r` holds, the node stands behind `new`. -/
inductive Built : Budget → Bool → Bool → {form : Form} → Node form → Prop where
  | node {b : Budget} {t r : Bool} {form : Form} {x : Node form} :
      (∀ k, x.kind? = some k → 0 < b k) →
      (x.isUnclaimed = true → t = false) →
      (x.OpensArrow → r = true ∧ x.isAccess = true) →
      (∀ p ∈ x.parts, Built (p.role.budget b x.kind?) (p.role.tidy t) (p.role.behindNew r) p.node) →
      Built b t r x

namespace Built

section

variable {b c : Budget} {t u r q : Bool} {form : Form} {x : Node form} {n : Nat}

/-- The parts of what is built are built with what is left for them. -/
theorem parts (h : Built b t r x) : ∀ p ∈ x.parts,
    Built (p.role.budget b x.kind?) (p.role.tidy t) (p.role.behindNew r) p.node := by
  cases h with
  | node _ _ _ hp => exact hp

/-- The node itself is paid for if it is of a limited kind. -/
theorem kind_pos (h : Built b t r x) : ∀ k, x.kind? = some k → 0 < b k := by
  cases h with
  | node hk _ _ _ => exact hk

/-- What can be built can be built with more, and with less to be settled. -/
theorem mono (h : Built b t r x) (hb : b ≤ c) (ht : u = true → t = true)
    (hr : r = true → q = true) : Built c u q x := by
  induction h generalizing c u q with
  | @node b t r form x hk hd ho hp ih =>
    refine .node (fun k hx => Nat.lt_of_lt_of_le (hk k hx) (hb k)) (fun hx => ?_)
      (fun hx => ⟨hr (ho hx).1, (ho hx).2⟩) fun p hm => ih p hm ?_ ?_ ?_
    · have := hd hx
      cases u with
      | false => rfl
      | true => rw [ht rfl] at this; cases this
    · cases hrole : p.role with
      | heritage => exact hb
      | _ => exact Budget.spend_mono hb _
    · cases hrole : p.role with
      | complete | base => exact fun _ => rfl
      | declared => exact fun h => nomatch h
      | cover | callee | heritage => exact ht
    · cases hrole : p.role with
      | base => exact hr
      | callee => exact fun _ => rfl
      | _ => exact fun h => nomatch h

/-- What can be built can be built with more. -/
theorem le (h : Built b t r x) (hb : b ≤ c) : Built c t r x := h.mono hb id id

/-- What is built anywhere is built behind `new`. -/
theorem behind (h : Built b t false x) : Built b t r x := h.mono le_rfl id fun h => nomatch h

/-- A node with nothing unsettled about it, from its parts. -/
theorem of_plain (hx : x.isPlain = true) (hk : ∀ k, x.kind? = some k → 0 < b k)
    (hp : ∀ p ∈ x.parts,
      Built (p.role.budget b x.kind?) (p.role.tidy t) (p.role.behindNew r) p.node) :
    Built b t r x := by
  rw [Node.isPlain, Bool.and_eq_true, Bool.not_eq_true', Option.isNone_iff_eq_none] at hx
  refine .node hk (fun hd => ?_) (fun ho => ?_) hp
  · rw [hx.1] at hd
    cases hd
  · obtain ⟨e, he, _⟩ := ho
    rw [hx.2] at he
    cases he

/-- A node whose parts are all built one level further in. -/
theorem nested (hx : x.isPlain = true) (hb : Budget.level n ≤ b)
    (hk : ∀ k, x.kind? = some k → n < b k)
    (hp : ∀ p ∈ x.parts, Built (.level n) (p.role.tidy t) false p.node) : Built b t r x := by
  refine of_plain hx (fun k hx => Nat.zero_lt_of_lt (hk k hx)) fun p hm => ?_
  refine (hp p hm).mono ?_ id fun h => nomatch h
  cases hrole : p.role with
  | heritage => exact hb
  | _ => exact Budget.level_le_spend hb hk

/-- A node of no limited kind whose parts are all settled. -/
theorem wrapped (hx : x.isPlain = true) (hk : x.kind? = none)
    (hp : ∀ p ∈ x.parts, Built b true false p.node) : Built b t r x := by
  refine of_plain hx (by simp [hk]) fun p hm => ?_
  refine (hp p hm).mono ?_ (fun _ => rfl) fun h => nomatch h
  rw [hk]
  cases hrole : p.role with
  | heritage => exact le_rfl
  | _ => exact (Budget.spend_none b).ge

end

/-- Only a class has a heritage. -/
theorem kind?_of_heritage {form : Form} {x : Node form} {p : Part} (hp : p ∈ x.parts)
    (hr : p.role = .heritage) : x.kind? = some .classDefinition := by
  cases x with
  | classDefinition => rfl
  | _ =>
    refine absurd hr ((?_ : ∀ q ∈ Node.parts _, q.role ≠ .heritage) p hp)
    simp only [Node.parts, List.forall_mem_cons, List.forall_mem_append, List.forall_mem_map,
      List.not_mem_nil, ne_eq, reduceCtorEq, not_false_eq_true, false_implies, implies_true,
      and_self]

/-- A declared class is no default, and has a heritage and complete parts. -/
theorem role_of_declared {form : Form} {x : Node form} {p : Part} (hp : p ∈ x.parts)
    (hr : p.role = .declared) : p.node.isUnclaimed = false ∧
      ∀ q ∈ p.node.parts, q.role = .heritage ∨ q.role = .complete := by
  cases x with
  | classDeclaration definition =>
    rw [Node.parts, List.mem_singleton] at hp
    subst hp
    cases definition
    exact ⟨rfl, by simp [Node.parts, or_imp, forall_and]⟩
  | _ =>
    refine absurd hr ((?_ : ∀ q ∈ Node.parts _, q.role ≠ .declared) p hp)
    simp only [Node.parts, List.forall_mem_cons, List.forall_mem_append, List.forall_mem_map,
      List.not_mem_nil, ne_eq, reduceCtorEq, not_false_eq_true, false_implies, implies_true,
      and_self]

/-- The node itself is paid for. -/
theorem own_le {b : Budget} {t r : Bool} {form : Form} {x : Node form} (h : Built b t r x)
    (k : Kind) : (if x.kind? = some k then 1 else 0) ≤ b k := by
  cases h with
  | node hk _ _ _ =>
    split
    · rename_i hx
      exact hk k hx
    · exact Nat.zero_le _

/-- A step down leaves what the node itself does not take. A step into the heritage of a class
leaves the class as well. -/
theorem step_le {b : Budget} {t r : Bool} {p q : Part} (h : Built b t r p.node)
    (hq : p.Holds q) (k : Kind) :
    (if p.node.kind? = some k then 1 else 0) + q.role.budget b p.node.kind? k ≤
      b k + if k = .classDefinition ∧ q.role = .heritage then 1 else 0 := by
  by_cases hr : q.role = .heritage
  · have hclass := kind?_of_heritage hq hr
    simp only [hr, hclass, Role.budget, Option.some.injEq, and_true, eq_comm]
    omega
  · have hbudget : q.role.budget b p.node.kind? = b.spend p.node.kind? := by
      cases hrole : q.role with
      | heritage => exact absurd hrole hr
      | _ => rfl
    have hown := h.own_le k
    simp only [hbudget, Budget.spend, hr, and_false, if_false]
    split at hown
    · rename_i hk
      rw [if_pos hk, if_pos hk]
      omega
    · rename_i hk
      rw [if_neg hk, if_neg hk]
      omega

/-- On a way down from a node there are no more constructs of a kind than the node was built
with, but for classes: one more with each step into the heritage of a class. -/
theorem nesting_le {b : Budget} {t r : Bool} {p : Part} {path : List Part}
    (h : Built b t r p.node) (hpath : (p :: path).IsChain Part.Holds) (k : Kind) :
    Part.nesting k (p :: path) ≤ b k + Part.extensions k path := by
  induction path generalizing b t r p with
  | nil => simpa [Part.nesting, List.countP_cons] using Nat.le_add_right_of_le (h.own_le k)
  | cons q path ih =>
    obtain ⟨hq, hrest⟩ := List.isChain_cons_cons.mp hpath
    have hbelow := ih (h.parts q hq) hrest
    have hstep := h.step_le hq k
    rw [Part.nesting_cons, Part.extensions_cons]
    omega

/-- A default that no pattern has claimed stands in the heritage of a declared class. -/
theorem inHeritage {b : Budget} {r : Bool} {p q : Part} (h : Built b true r p.node)
    (hq : p.Reaches q) (hu : q.node.isUnclaimed = true) : p.InHeritage q := by
  -- For the class of a declaration this holds too, though defaults may be left in it: they can
  -- only be in its heritage.
  suffices hboth : ∀ t, Built b t r p.node → (t = true → p.InHeritage q) ∧
      ∀ x : Part, x.Holds p → p.role = .declared → p.InHeritage q from (hboth true h).1 rfl
  clear h
  induction hq using ReflTransGen.head_induction_on generalizing b r with
  | refl =>
    intro t h
    refine ⟨?_, fun x hx hrole => ?_⟩
    · rintro rfl
      cases h with
      | node _ hd _ _ => exact nomatch hd hu
    · rw [(role_of_declared hx hrole).1] at hu
      exact nomatch hu
  | @head p p' hpp hrest ih =>
    intro t h
    obtain ⟨htidy, hdeclared⟩ := ih _ (h.parts p' hpp)
    refine ⟨?_, fun x hx hrole => ?_⟩
    · rintro rfl
      cases hrole : p'.role with
      | declared => exact (hdeclared p hpp hrole).head hpp
      | _ => exact (htidy (by rw [hrole]; rfl)).head hpp
    · rcases (role_of_declared hx hrole).2 p' hpp with hr | hr
      · exact ⟨p, p', .refl, hrole, hpp, hr, hrest⟩
      · exact (htidy (by rw [hr]; rfl)).head hpp

/-- What is attached to an arrow function without parentheses stands behind `new`. -/
theorem spine_of_opensArrow {b : Budget} {t r : Bool} {p q : Part} (h : Built b t r p.node)
    (hq : p.Reaches q) (ho : q.node.OpensArrow) :
    q.node.isAccess = true ∧
      (r = true ∧ p.Spine q ∨ ∃ c, p.Reaches c ∧ c.role = .callee ∧ c.Spine q) := by
  induction hq using ReflTransGen.head_induction_on generalizing b t r with
  | refl =>
    cases h with
    | node _ _ hop _ => exact ⟨(hop ho).2, Or.inl ⟨(hop ho).1, .refl⟩⟩
  | @head p p' hpp _ ih =>
    obtain ⟨hacc, hcase⟩ := ih (h.parts p' hpp)
    refine ⟨hacc, ?_⟩
    rcases hcase with ⟨hr, hspine⟩ | ⟨c, hc, hrole, hspine⟩
    · cases hrole : p'.role with
      | base =>
        rw [hrole] at hr
        exact Or.inl ⟨hr, .head ⟨hpp, hrole⟩ hspine⟩
      | callee => exact Or.inr ⟨p', .single hpp, hrole, hspine⟩
      | _ => rw [hrole] at hr; exact nomatch hr
    · exact Or.inr ⟨c, .head hpp hc, hrole, hspine⟩

end Built

end EcmaScript

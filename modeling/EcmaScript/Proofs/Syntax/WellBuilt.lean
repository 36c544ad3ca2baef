import EcmaScript.Proofs.Syntax.Built
import EcmaScript.Proofs.Syntax.Regular

/-!
# What is well built

What parsers give is built with a budget and can stand anywhere in a regular tree. A node gets
both from its parts in the same way, if it is in order itself: the rules of the grammar ask
nothing else of most nodes, and of the others what the parsers check.
-/

namespace EcmaScript

/-- What makes a node proper as soon as all its parts are. -/
structure Node.Orderly {form : Form} (x : Node form) : Prop where
  alike : x.treatsAlike = true
  rules : x.FollowsRules
  fresh : ∀ scope ∈ x.stamps, scope = 0
  free : x.isFree = true

/-- A node that is built with a budget, not behind `new`, and that can stand anywhere. -/
structure WellBuilt (b : Budget) (t : Bool) {form : Form} (x : Node form) : Prop where
  built : Built b t false x
  proper : Proper x

/-- Nothing is unsettled about the node, and its parts are well built with so many levels. -/
structure Encloses (n : Nat) {form : Form} (x : Node form) : Prop where
  plain : x.isPlain = true
  orderly : x.Orderly
  parts : ∀ p ∈ x.parts, WellBuilt (.level n) true p.node

section

variable {b c : Budget} {t u : Bool} {form : Form} {x : Node form} {n : Nat}

namespace Node.Orderly

/-- Most nodes are in order whatever they are made of. -/
theorem unruled (h : x.isUnruled = true) : x.Orderly where
  alike := by cases x <;> first | rfl | exact nomatch h
  rules := by cases x <;> trivial
  fresh := by
    have hstamps : x.stamps = [] := by cases x <;> first | rfl | exact nomatch h
    simp [hstamps]
  free := by cases x <;> first | rfl | exact nomatch h

/-- A node in order is proper if its parts are. -/
theorem proper (h : x.Orderly) (hparts : ∀ p ∈ x.parts, Proper p.node) : Proper x :=
  ⟨.of_parts h.alike h.rules h.fresh hparts, h.free⟩

/-- A name that refers to something is in order before it is resolved. -/
theorem reference {id : Identifier} (h : id.scope = 0) : Orderly (.reference id) :=
  ⟨rfl, trivial, List.forall_mem_singleton.mpr h, rfl⟩

/-- A name that is declared is in order before it is resolved. -/
theorem binding {id : Identifier} (h : id.scope = 0) : Orderly (.binding id) :=
  ⟨rfl, trivial, List.forall_mem_singleton.mpr h, rfl⟩

/-- A name as a key is in order before it is resolved. -/
theorem identifierKey {id : Identifier} (h : id.scope = 0) : Orderly (.identifierKey id) :=
  ⟨rfl, trivial, List.forall_mem_singleton.mpr h, rfl⟩

end Node.Orderly

/-- Only what is constructed is a callee, and that is not treated like the arguments. -/
theorem role_ne_callee (halike : x.treatsAlike = true) : ∀ p ∈ x.parts, p.role ≠ .callee := by
  cases x with
  | construct => exact nomatch halike
  | _ =>
    simp only [Node.parts, List.forall_mem_cons, List.forall_mem_append, List.forall_mem_map,
      List.not_mem_nil, ne_eq, reduceCtorEq, not_false_eq_true, false_implies, implies_true,
      and_self]

namespace WellBuilt

/-- What is well built is so with more, and with less to be settled. -/
theorem mono (h : WellBuilt b t x) (hb : b ≤ c) (ht : u = true → t = true) : WellBuilt c u x :=
  ⟨h.built.mono hb ht id, h.proper⟩

/-- What is well built is so with more. -/
theorem le (h : WellBuilt b t x) (hb : b ≤ c) : WellBuilt c t x := h.mono hb id

/-- What is settled is so where less is asked for. -/
theorem loosen (h : WellBuilt b true x) : WellBuilt b t x := h.mono le_rfl fun _ => rfl

/-- The parts of a node that treats them alike. -/
theorem parts (h : WellBuilt b t x) (halike : x.treatsAlike = true) :
    ∀ p ∈ x.parts, WellBuilt (p.role.budget b x.kind?) (p.role.tidy t) p.node := by
  intro p hp
  refine ⟨(h.built.parts p hp).mono le_rfl id fun hbehind => ?_, h.proper.parts halike p hp⟩
  cases hrole : p.role with
  | callee => exact absurd hrole (role_ne_callee halike p hp)
  | _ => simp [hrole] at hbehind

/-- A node with nothing unsettled about it, from its parts. -/
theorem of_plain (hx : x.isPlain = true) (ho : x.Orderly) (hk : ∀ k, x.kind? = some k → 0 < b k)
    (hp : ∀ p ∈ x.parts, WellBuilt (p.role.budget b x.kind?) (p.role.tidy t) p.node) :
    WellBuilt b t x :=
  ⟨.of_plain hx hk fun p hm => (hp p hm).built.behind, ho.proper fun p hm => (hp p hm).proper⟩

/-- A node whose parts are all well built one level further in. -/
theorem nested (hx : x.isPlain = true) (ho : x.Orderly) (hb : Budget.level n ≤ b)
    (hk : ∀ k, x.kind? = some k → n < b k)
    (hp : ∀ p ∈ x.parts, WellBuilt (.level n) (p.role.tidy t) p.node) : WellBuilt b t x :=
  ⟨.nested hx hb hk fun p hm => (hp p hm).built, ho.proper fun p hm => (hp p hm).proper⟩

/-- A node whose parts are all settled a level further in can be nested where that level is
left. -/
theorem enclosing (h : Encloses n x) (hb : Budget.level n ≤ b)
    (hk : ∀ k, x.kind? = some k → n < b k) : WellBuilt b t x :=
  nested h.plain h.orderly hb hk fun p hm => (h.parts p hm).loosen

/-- A node of no limited kind whose parts are all settled. -/
theorem wrapped (hx : x.isPlain = true) (ho : x.Orderly) (hk : x.kind? = none)
    (hp : ∀ p ∈ x.parts, WellBuilt b true p.node) : WellBuilt b t x :=
  ⟨.wrapped hx hk fun p hm => (hp p hm).built, ho.proper fun p hm => (hp p hm).proper⟩

/-- A node of which the rules ask nothing and whose parts are all settled. -/
theorem unruled (hx : (x.isPlain && x.isUnruled && x.kind?.isNone) = true)
    (hp : ∀ p ∈ x.parts, WellBuilt b true p.node) : WellBuilt b t x := by
  rw [Bool.and_eq_true, Bool.and_eq_true, Option.isNone_iff_eq_none] at hx
  exact wrapped hx.1.1 (.unruled hx.1.2) hx.2 hp

/-- A name that is declared. -/
theorem binding {id : Identifier} (h : id.scope = 0) : WellBuilt b t (.binding id) :=
  wrapped rfl (.binding h) rfl (by simp [Node.parts])

/-- A name that refers to something. -/
theorem reference {id : Identifier} (h : id.scope = 0) : WellBuilt b t (.reference id) :=
  wrapped rfl (.reference h) rfl (by simp [Node.parts])

/-- A name has no scope as long as nothing has been resolved. -/
theorem scope_eq {id : Identifier} (h : WellBuilt b t x) (hid : id.scope ∈ x.stamps) :
    id.scope = 0 := h.proper.regular.conforms.fresh id.scope hid

end WellBuilt

end

end EcmaScript

import EcmaScript.Proofs.Syntax.Regular

/-!
# Optional chains

A call or a property may be optional: then it is skipped, with all that is attached to it, if
there is nothing that it could be attached to. How far this goes is marked by the node of a whole
chain. So the whole chain of an optional link is found by going up from the link as long as each
node is attached to the one below it. In a regular tree this way ends at a whole chain.
-/

namespace EcmaScript

open Relation

namespace Node

/-- What a call, a property or a template is attached to. -/
def attachedTo? {form : Form} : Node form → Option Expression
  | .call _ callee _ _ => some callee
  | .member _ base _ _ | .index _ base _ _ => some base
  | .taggedTemplate _ tag _ => some tag
  | _ => none

/-- Whether a node is an optional call or property. -/
def isOptionalLink {form : Form} : Node form → Bool
  | .call _ _ _ optional | .member _ _ _ optional | .index _ _ _ optional => optional
  | _ => false

/-- The second expression is on the spine of the first: it is the first, or what something on
the spine is attached to. -/
abbrev Spine : Expression → Expression → Prop :=
  ReflTransGen fun e base => e.attachedTo? = some base

/-- A whole chain has an optional link on its spine. What a template is attached to has none,
nor has what stands behind `new`; and nothing is assigned to a whole chain. -/
def KeepsChains {form : Form} (x : Node form) : Prop :=
  match x with
  | .optionalChain _ e => ∃ l, e.Spine l ∧ l.isOptionalLink = true
  | .taggedTemplate _ tag _ => ∀ l, tag.Spine l → l.isOptionalLink = false
  | .construct _ callee _ => ∀ l, callee.Spine l → l.isOptionalLink = false
  | .update _ _ _ argument => argument.isOptionalChain = false
  | .memberTarget e => e.isOptionalChain = false
  | _ => True

/-- What something is attached to is its first part. -/
theorem getElem_zero_parts {form : Form} {x : Node form} {e : Expression}
    (h : x.attachedTo? = some e) : ∃ role, x.parts[0]? = some ⟨role, e⟩ := by
  cases x with
  | call | member | index | taggedTemplate =>
    obtain rfl := Option.some.inj h
    exact ⟨_, rfl⟩
  | _ => exact nomatch h

/-- A property is no whole chain. -/
theorem isOptionalChain_of_isPlainMember {e : Expression} (h : e.isPlainMember = true) :
    e.isOptionalChain = false := by
  cases e with
  | optionalChain => exact nomatch h
  | _ => rfl

/-- A target is no whole chain. -/
theorem isOptionalChain_of_isPlainTarget {e : Expression} (h : e.isPlainTarget = true) :
    e.isOptionalChain = false := by
  cases e with
  | optionalChain => exact nomatch h
  | _ => rfl

/-- An optional link makes a chain that is not whole. -/
theorem isLinked_of_isOptionalLink {form : Form} {x : Node form} (h : x.isOptionalLink = true) :
    x.isLinked = true := by
  cases x with
  | call | member | index =>
    simp only [isOptionalLink] at h
    simp [isLinked, h]
  | _ => exact nomatch h

/-- A chain that has a link where it starts is itself one that is not whole. -/
theorem isLinked_of_attachedTo {e base : Expression} (h : e.attachedTo? = some base)
    (hbase : base.isLinked = true) (htag : e.PlacesLinks) : e.isLinked = true := by
  cases e with
  | call | member | index =>
    obtain rfl := Option.some.inj h
    simp [isLinked, hbase]
  | taggedTemplate span tag quasi =>
    obtain rfl := Option.some.inj h
    have hunlinked := htag ⟨.base, tag⟩ List.mem_cons_self
    rw [hbase] at hunlinked
    exact nomatch hunlinked
  | _ => exact nomatch h

/-- A chain that is not whole has an optional link on its spine. -/
theorem exists_link (e : Expression) (h : e.isLinked = true) :
    ∃ l, e.Spine l ∧ l.isOptionalLink = true := by
  -- Either the last link is optional, or one is on the spine of what it is attached to.
  have hnext : ∀ base : Expression, e.attachedTo? = some base →
      (∃ l, base.Spine l ∧ l.isOptionalLink = true) → ∃ l, e.Spine l ∧ l.isOptionalLink = true := by
    rintro base hbase ⟨l, hl, hoptional⟩
    exact ⟨l, .head hbase hl, hoptional⟩
  cases e with
  | call span base arguments optional | member span base name optional
  | index span base key optional =>
    cases optional with
    | true => exact ⟨_, .refl, rfl⟩
    | false => exact hnext base rfl (exists_link base h)
  | _ => cases h

end Node

/-- In a regular tree the chains that are not whole are those with an optional link on their
spine. -/
theorem Regular.isLinked_iff {e : Expression} (h : Regular e) :
    e.isLinked = true ↔ ∃ l, e.Spine l ∧ l.isOptionalLink = true := by
  constructor
  · exact e.exists_link
  · rintro ⟨l, hl, hoptional⟩
    induction hl using ReflTransGen.head_induction_on with
    | refl => exact Node.isLinked_of_isOptionalLink hoptional
    | head hbase _ ih =>
      obtain ⟨role, hpart⟩ := Node.getElem_zero_parts hbase
      have hregular := h.of_mem_parts _ (List.mem_of_getElem? hpart)
      exact Node.isLinked_of_attachedTo hbase (ih hregular) h.conforms.links

/-- What is no chain has no optional link on its spine. -/
theorem Regular.isOptionalLink_eq {e : Expression} (h : Regular e) (hlinked : e.isLinked = false) :
    ∀ l, e.Spine l → l.isOptionalLink = false := by
  intro l hl
  cases hoptional : l.isOptionalLink with
  | false => rfl
  | true =>
    have hlink := h.isLinked_iff.mpr ⟨l, hl, hoptional⟩
    exact absurd (hlinked.symm.trans hlink) Bool.false_ne_true

/-- Regular nodes that have the shape that they should have keep chains together. -/
theorem Regular.keepsChains {form : Form} {x : Node form} (h : Regular x) (hshape : x.Shaped) :
    x.KeepsChains := by
  have hlinks := h.conforms.links
  cases x with
  | optionalChain span e =>
    have he := h.of_mem_parts ⟨.cover, e⟩ List.mem_cons_self
    exact he.isLinked_iff.mp hlinks
  | taggedTemplate span tag quasi =>
    have htag := h.of_mem_parts ⟨.base, tag⟩ List.mem_cons_self
    exact htag.isOptionalLink_eq (hlinks ⟨.base, tag⟩ List.mem_cons_self)
  | construct span callee arguments =>
    have hcallee := h.of_mem_parts ⟨.callee, callee⟩ List.mem_cons_self
    exact hcallee.isOptionalLink_eq (hlinks ⟨.callee, callee⟩ List.mem_cons_self)
  | update => exact Node.isOptionalChain_of_isPlainTarget hshape
  | memberTarget => exact Node.isOptionalChain_of_isPlainMember hshape
  | _ => trivial

/-- The nodes above a node of a script, the nearest first, each with the place that the way down
takes among its parts. -/
inductive Program.Above (program : Program) : List (Part × Nat) → Part → Prop where
  | statement {p : Part} (h : p ∈ program.parts) : program.Above [] p
  | part {above : List (Part × Nat)} {p q : Part} {i : Nat} (hp : program.Above above p)
      (h : p.node.parts[i]? = some q) : program.Above ((p, i) :: above) q

/-- The nodes above a place begin with a whole chain, or first with so many others, each attached
to the one below it, which is its first part. -/
inductive ChainAbove : List (Part × Nat) → Nat → Prop where
  | whole {role : Role} {span : Span} {e : Expression} {above : List (Part × Nat)} :
      ChainAbove ((⟨role, .optionalChain span e⟩, 0) :: above) 0
  | attached {p : Part} {above : List (Part × Nat)} {n : Nat}
      (h : p.node.attachedTo?.isSome = true) (hn : ChainAbove above n) :
      ChainAbove ((p, 0) :: above) (n + 1)

/-- There is one such chain at most, since a whole chain is attached to nothing. -/
theorem ChainAbove.unique {above : List (Part × Nat)} {m n : Nat} (hm : ChainAbove above m)
    (hn : ChainAbove above n) : m = n := by
  induction hm generalizing n with
  | whole =>
    cases hn with
    | whole => rfl
    | attached h => exact nomatch h
  | attached h _ ih =>
    cases hn with
    | whole => exact nomatch h
    | attached _ hn => rw [ih hn]

section

variable {program : Program} {above : List (Part × Nat)}

/-- The nodes with others above them are those of the script. -/
theorem Program.exists_above_iff {q : Part} :
    (∃ above, program.Above above q) ↔ ∃ p ∈ program.parts, p.Reaches q := by
  constructor
  · rintro ⟨above, h⟩
    induction h with
    | statement hp => exact ⟨_, hp, .refl⟩
    | part _ hpart ih =>
      obtain ⟨p, hp, hreaches⟩ := ih
      exact ⟨p, hp, hreaches.tail (List.mem_of_getElem? hpart)⟩
  · rintro ⟨p, hp, hreaches⟩
    induction hreaches with
    | refl => exact ⟨[], .statement hp⟩
    | tail _ hlast ih =>
      obtain ⟨above, habove⟩ := ih
      obtain ⟨i, hi⟩ := List.mem_iff_getElem?.mp hlast
      exact ⟨_, habove.part hi⟩

/-- A chain that is not whole is the first part of the whole one, or of a longer one that is
attached to it. -/
theorem Part.first_of_isLinked {p q : Part} {i : Nat} (h : p.node.PlacesLinks)
    (hq : p.node.parts[i]? = some q) (hlinked : q.node.isLinked = true) :
    i = 0 ∧ ((∃ role span e, p = ⟨role, .optionalChain span e⟩) ∨
      p.node.attachedTo?.isSome = true ∧ p.node.isLinked = true) := by
  have hother : ∀ {xs : List Expression} {j : Nat}, (∀ a ∈ xs, a.isLinked = false) →
      (xs.map (⟨.complete, ·⟩ : Expression → Part))[j]? = some q → False := by
    intro xs j hxs hj
    obtain ⟨a, ha, rfl⟩ := List.mem_map.mp (List.mem_of_getElem? hj)
    rw [hxs a ha] at hlinked
    exact nomatch hlinked
  obtain ⟨role, node⟩ := p
  cases node with
  | call span callee arguments optional =>
    cases i with
    | zero =>
      obtain rfl := Option.some.inj hq
      exact ⟨rfl, .inr ⟨rfl, by simp [Node.isLinked, hlinked]⟩⟩
    | succ i => exact (hother h hq).elim
  | member span base name optional =>
    cases i with
    | zero =>
      obtain rfl := Option.some.inj hq
      exact ⟨rfl, .inr ⟨rfl, by simp [Node.isLinked, hlinked]⟩⟩
    | succ i => exact nomatch hq
  | index span base key optional =>
    cases i with
    | zero =>
      obtain rfl := Option.some.inj hq
      exact ⟨rfl, .inr ⟨rfl, by simp [Node.isLinked, hlinked]⟩⟩
    | succ i =>
      have hkey : ∀ a ∈ [key], a.isLinked = false := List.forall_mem_singleton.mpr h
      exact (hother hkey hq).elim
  | optionalChain span e =>
    cases i with
    | zero => exact ⟨rfl, .inl ⟨role, span, e, rfl⟩⟩
    | succ i => exact nomatch hq
  | _ =>
    have hnot := h q (List.mem_of_getElem? hq)
    rw [hlinked] at hnot
    exact nomatch hnot

/-- Above a chain that is not whole there is the whole one. -/
theorem Program.Above.exists_chain (h : ∀ p ∈ program.parts, Proper p.node) {q : Part}
    (hq : program.Above above q) (hlinked : q.node.isLinked = true) : ∃ n, ChainAbove above n := by
  induction hq with
  | statement hp =>
    have hfree := (Node.isFree_iff.mp (h _ hp).free).1
    rw [hlinked] at hfree
    exact nomatch hfree
  | @part above p q i habove hpart ih =>
    obtain ⟨p₀, hp₀, hreaches⟩ := Program.exists_above_iff.mp ⟨above, habove⟩
    have hregular := (h p₀ hp₀).regular.of_reaches hreaches
    obtain ⟨rfl, ⟨role, span, e, rfl⟩ | ⟨hattached, hp⟩⟩ :=
      Part.first_of_isLinked hregular.conforms.links hpart hlinked
    · exact ⟨0, .whole⟩
    · obtain ⟨n, hn⟩ := ih hp
      exact ⟨n + 1, .attached hattached hn⟩

end

end EcmaScript

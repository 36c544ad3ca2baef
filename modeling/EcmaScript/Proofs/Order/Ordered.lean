import EcmaScript.Proofs.Order.Calls

/-!
# Calls in the order of the text

Calls are ordered between two offsets when what they are for stands between the two, each behind
the one before it, and the calls made out of each of them are ordered between its own ends. Then
no call is for something that starts before what an earlier call is for.
-/

namespace EcmaScript

namespace Call

/-- The calls are for what stands one behind the other between two offsets, and so are, between the
ends of each, the calls that are made out of it. -/
inductive Ordered : Nat → Nat → List Call → Prop where
  | nil {lo hi : Nat} : lo ≤ hi → Ordered lo hi []
  | cons {lo start stop hi : Nat} {visit : Visit} {made more : List Call} :
      visit.span = .ofOffsets start stop → lo ≤ start → Ordered start stop made →
      Ordered stop hi more → Ordered lo hi (mk visit made :: more)

namespace Ordered

variable {lo mid hi lo' hi' : Nat} {xs ys made : List Call}

theorem le (h : Ordered lo hi xs) : lo ≤ hi := by
  induction h with
  | nil h => exact h
  | cons _ hlo _ _ hmade hmore => omega

/-- The offsets may be further apart. -/
theorem mono (h : Ordered lo hi xs) (hlo : lo' ≤ lo) (hhi : hi ≤ hi') : Ordered lo' hi' xs := by
  induction h generalizing lo' with
  | nil h => exact .nil (by omega)
  | cons hspan hle hmade _ _ ih =>
    apply cons hspan (by omega) hmade
    exact ih (Nat.le_refl _) hhi

/-- What stands in front may start further ahead. -/
theorem from_le (h : Ordered lo hi xs) (hlo : lo' ≤ lo) : Ordered lo' hi xs :=
  h.mono hlo (Nat.le_refl hi)

/-- Calls for what stands behind what other calls are for. -/
theorem append (hx : Ordered lo mid xs) (hy : Ordered mid hi ys) : Ordered lo hi (xs ++ ys) := by
  induction hx with
  | nil h => exact hy.from_le h
  | cons hspan hle hmade _ _ ih => exact .cons hspan hle hmade (ih hy)

/-- The calls made out of each other for one thing. -/
theorem chain {visits : List Visit} (hv : ∀ v ∈ visits, v.span = .ofOffsets lo hi)
    (h : Ordered lo hi made) : Ordered lo hi (chain visits made) := by
  induction visits with
  | nil => exact h
  | cons v more ih =>
    rw [List.forall_mem_cons] at hv
    exact .cons hv.1 (Nat.le_refl lo) (ih hv.2) (.nil (Nat.le_refl hi))

theorem leaf {visit : Visit} (hv : visit.span = .ofOffsets lo hi) (h : lo ≤ hi) :
    Ordered lo hi (leaf visit) :=
  chain (by simpa using hv) (.nil h)

theorem exists_span {call : Call} (h : Ordered lo hi xs) (hm : call ∈ xs) :
    ∃ start stop, call.span = .ofOffsets start stop ∧ lo ≤ start ∧ stop ≤ hi ∧
      Ordered start stop call.made := by
  induction h with
  | nil => exact absurd hm List.not_mem_nil
  | cons hspan hle hmade hmore _ ih =>
    rcases List.mem_cons.mp hm with rfl | hm
    · exact ⟨_, _, hspan, hle, hmore.le, hmade⟩
    · obtain ⟨a, b, hab, ha, hb, hin⟩ := ih hm
      have hstop := hmade.le
      exact ⟨a, b, hab, by omega, hb, hin⟩

/-- Of calls out of one call the earlier ones are for what ends before the later ones start. -/
theorem siblings (h : Ordered lo hi xs) :
    xs.Pairwise fun a b => a.span.start ≤ a.span.stop ∧ a.span.stop ≤ b.span.start := by
  induction h with
  | nil => exact .nil
  | @cons _ start stop _ visit made _ hspan _ hmade hmore _ ih =>
    refine .cons (fun b hb => ?_) ih
    obtain ⟨next, _, hb, hle, -, -⟩ := hmore.exists_span hb
    have ha : (mk visit made).span = .ofOffsets start stop := hspan
    rw [ha, hb]
    exact ⟨Nat.add_le_add_right hmade.le 1, Nat.add_le_add_right hle 1⟩

/-- All that is met starts between the two offsets. -/
theorem exists_start {visit : Visit} (h : Ordered lo hi xs) (hm : visit ∈ visitsOf xs) :
    ∃ start : Nat, visit.span.start = start + 1 ∧ lo ≤ start ∧ start ≤ hi := by
  induction h with
  | nil => exact absurd hm List.not_mem_nil
  | @cons _ start _ _ _ _ _ hspan hle hmade hmore hin hout =>
    have hstart := hmade.le
    have hstop := hmore.le
    rcases List.mem_append.mp hm with hm | hm
    · rcases List.mem_cons.mp hm with rfl | hm
      · exact ⟨start, congrArg Span.start hspan, hle, by omega⟩
      · obtain ⟨n, hn, h₁, h₂⟩ := hin hm
        exact ⟨n, hn, by omega, by omega⟩
    · obtain ⟨n, hn, h₁, h₂⟩ := hout hm
      exact ⟨n, hn, by omega, by omega⟩

/-- What is met earlier does not start behind what is met later. -/
theorem pairwise_visitsOf (h : Ordered lo hi xs) :
    (visitsOf xs).Pairwise fun v w => v.span.start ≤ w.span.start := by
  induction h with
  | nil => exact .nil
  | cons hspan _ hmade hmore hin hout =>
    refine List.pairwise_append.mpr ⟨.cons (fun w hw => ?_) hin, hout, fun v hv w hw => ?_⟩
    · obtain ⟨n, hn, hle, -⟩ := hmade.exists_start hw
      rw [hspan, hn]
      exact Nat.add_le_add_right hle 1
    · obtain ⟨n, hn, hle, -⟩ := hmore.exists_start hw
      have hmid := hmade.le
      rw [hn]
      rcases List.mem_cons.mp hv with rfl | hv
      · rw [hspan]
        exact Nat.add_le_add_right (Nat.le_trans hmid hle) 1
      · obtain ⟨k, hk, -, hk'⟩ := hmade.exists_start hv
        rw [hk]
        exact Nat.add_le_add_right (Nat.le_trans hk' hle) 1

/-- The calls made out of any call on the way are ordered. -/
theorem of_reaches {call last : Call} (hr : Reaches call last) {start stop : Nat}
    (h : Ordered start stop call.made) : ∃ start stop, Ordered start stop last.made := by
  induction hr generalizing start stop with
  | refl => exact ⟨start, stop, h⟩
  | made hm _ ih =>
    obtain ⟨a, b, -, -, -, hin⟩ := h.exists_span hm
    exact ih hin

end Ordered

end Call

namespace Node

open Call

variable {form : Form} {lo hi : Nat} {made : List Call}

/-- All calls for a node itself are for its place. -/
theorem span_of_mem_callsAtEntry (node : Node form) {v : Visit} (hm : v ∈ node.callsAtEntry) :
    v.span = node.span := by
  obtain ⟨hm, hv⟩ := List.mem_filter.mp hm
  cases node <;>
    simp only [visitsAtEntry, enter, enterAs, List.mem_cons, List.not_mem_nil, or_false] at hm
  case arrow | conciseArrow | member | index =>
    rcases hm with rfl | rfl | rfl
    · rfl
    · rfl
    · exact absurd hv (by simp [Visit.isCall, Visit.name])
  case declarationInit | expressionInit =>
    subst hm
    exact absurd hv (by simp [Visit.isCall, Visit.name])
  all_goals first
    | exact hm.elim
    | (subst hm; rfl)
    | (rcases hm with rfl | rfl <;> rfl)

/-- The calls for a node are ordered if those for what is inside are. -/
theorem ordered_entry (node : Node form) (hs : node.span = .ofOffsets lo hi)
    (h : Ordered lo hi made) : Ordered lo hi (chain node.callsAtEntry made) :=
  .chain (fun _ hm => (node.span_of_mem_callsAtEntry hm).trans hs) h

end Node

end EcmaScript

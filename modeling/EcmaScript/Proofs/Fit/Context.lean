import EcmaScript.Parser.Statement
import EcmaScript.Proofs.Parser.Place
import EcmaScript.Proofs.Syntax.Fits
import Mathlib.Data.List.TakeWhile

/-!
# Contexts and surroundings

A context says less than what stands around: it has flags and labels where the surroundings
have constructs. What it says is true of them. Its flags are the rights of an expression, and
each right has a meaning in the surroundings; its labels and its flags for jumps have targets
within the nearest boundary.

A context does not change while an expression is read, apart from the flag for a bare `in`, but
an operator that suspends the function is known to be wrong only later if the expression becomes
the parameters of an arrow function. So a run of a parser may be asked to be calm, which means
that it meets no such operator. What it reads has the rights to suspend only if it is not.

Whether a label is that of a loop is known to a context by the first word of the statement
behind the label, and anew at each label behind it. So the labels that a statement has directly
in front of it are settled only when the statement has been read.
-/

namespace EcmaScript

open Surroundings

/-- What an expression may use, of what hangs on the constructs around it. -/
structure Rights where
  canYield : Bool
  canAwait : Bool
  inFunction : Bool
  superProperty : Bool
  superCall : Bool
  inClass : Bool

/-- Whatever may be used has a meaning in the surroundings. -/
structure Rights.Hold (r : Rights) (σ : Surroundings) : Prop where
  yields : r.canYield = true → σ.CanYield
  awaits : r.canAwait = true → σ.CanAwait
  functions : r.inFunction = true → σ.HasNewTarget
  properties : r.superProperty = true → σ.HasSuperProperty
  calls : r.superCall = true → σ.HasSuperCall
  classes : r.inClass = true → σ.InClass

/-- The rights hold within more constructs, as long as these are no boundary. -/
theorem Rights.Hold.cons {r : Rights} {σ : Surroundings} {a : Around} (h : r.Hold σ)
    (ha : a.isBoundary = false) : r.Hold (a :: σ) := by
  have hthis : a.hasThis = false := by
    cases a <;> first | rfl | exact nomatch ha
  exact ⟨fun hr => (h.yields hr).cons ha, fun hr => (h.awaits hr).cons ha,
    fun hr => (h.functions hr).cons a, fun hr => (h.properties hr).cons hthis,
    fun hr => (h.calls hr).cons hthis, fun hr => (h.classes hr).cons a⟩

namespace Parser

/-- Whether `super` can be followed by a token. -/
def Context.allowsSuper (ctx : Context) : TokenKind → Bool
  | .mark .openParen => ctx.superCall
  | .mark .dot | .mark .openBracket => ctx.superProperty
  | _ => false

/-- The rights that a context gives, to what is read calmly or not. -/
def Context.rights (ctx : Context) (calm : Bool) : Rights where
  canYield := ctx.canYield && !(ctx.inParameters || calm)
  canAwait := ctx.canAwait && !(ctx.inParameters || calm)
  inFunction := ctx.inFunction
  superProperty := ctx.superProperty
  superCall := ctx.superCall
  inClass := ctx.inClass

/-- The surroundings in which what a context says about expressions is true. -/
def Context.Allows (ctx : Context) (calm : Bool) : Surroundings → Prop := (ctx.rights calm).Hold

/-- The context of the parameters of a function, given that of the function. -/
def Context.parameters (ctx : Context) : Context := { ctx.allowIn with inParameters := true }

/-- The context in which labels in front of the statement at `place` are labels of a loop or
not. -/
def Context.settle (ctx : Context) (place : Nat) (loops : Bool) : Context :=
  { ctx with
    labels := ctx.labels.map fun l => if l.bodyStart = place then
    { l with isLoop := loops } else l }

/-- What a context says about jumps has a meaning in the surroundings. -/
structure Context.Jumps (ctx : Context) (σ : Surroundings) : Prop where
  returns : ctx.canReturn = true → σ.CanReturn
  breaks : ctx.inBreakable = true → σ.CanBreak
  continues : ctx.inLoop = true → σ.CanContinue
  labels : ∀ l ∈ ctx.labels, ∃ ofLoop, .labeled l.name ofLoop ∈ σ.inside ∧
    (l.isLoop = true → ofLoop = true)
  names : ∀ name, σ.HasLabel name → name ∈ ctx.labels.map (·.name)

/-- The surroundings in which what a context says about statements is true. -/
structure Context.Leads (ctx : Context) (σ : Surroundings) : Prop where
  allows : ctx.Allows false σ
  awaits : ctx.canAwait = true → σ.CanAwait
  jumps : ctx.Jumps σ

/-- What the context of a function says is true of its parameters and its body. -/
structure Context.Opens (ctx : Context) (isAsync isGenerator : Bool) (σ : Surroundings) : Prop where
  parameters : ctx.parameters.Allows false (.parameters :: σ)
  body : ctx.Leads (.body isGenerator isAsync :: σ)

/-- A statement that starts at the state stands behind all labels. Those directly in front of
it are labels of a loop if it starts as one. -/
def Context.Placed (ctx : Context) (s : State) : Prop :=
  ∀ l ∈ ctx.labels, l.bodyStart ≤ s.offset ∧
    (l.bodyStart = s.offset → l.isLoop = startsLoop s.lexer.token.kind)

/-- A statement that starts at the state has no label directly in front of it. -/
def Context.Behind (ctx : Context) (s : State) : Prop := ∀ l ∈ ctx.labels, l.bodyStart < s.offset

section

variable {ctx : Context} {calm isAsync isGenerator : Bool} {σ : Surroundings} {a : Around}

@[simp]
theorem Context.allows_allowIn (ctx : Context) (calm : Bool) :
    ctx.allowIn.Allows calm = ctx.Allows calm := rfl

@[simp]
theorem Context.allows_disallowIn (ctx : Context) (calm : Bool) :
    ctx.disallowIn.Allows calm = ctx.Allows calm := rfl

/-- What is allowed around a node is allowed below one that is no boundary. -/
theorem Context.Allows.cons (h : ctx.Allows calm σ) (ha : a.isBoundary = false) :
    ctx.Allows calm (a :: σ) := Rights.Hold.cons h ha

/-- Whether `in` is an operator does not matter for statements. -/
theorem Context.Leads.allowIn (h : ctx.Leads σ) : ctx.allowIn.Leads σ :=
  ⟨h.allows, h.awaits, h.jumps.returns, h.jumps.breaks, h.jumps.continues, h.jumps.labels,
    h.jumps.names⟩

/-- In the body of a loop statements may leave it and continue it. -/
theorem Context.Leads.loop (h : ctx.Leads σ) : ctx.loop.Leads (.loopBody :: σ) where
  allows := h.allows.cons rfl
  awaits hr := (h.awaits hr).cons rfl
  jumps := by
    have hin : inside (.loopBody :: σ) = .loopBody :: σ.inside := inside_cons rfl
    refine ⟨fun hr => (canReturn_cons rfl).mpr (h.jumps.returns hr), fun _ => ?_, fun _ => ?_,
      fun l hl => ?_, fun name hname => ?_⟩
    · exact Or.inl (by simp [hin])
    · simp [CanContinue, hin]
    · obtain ⟨ofLoop, hm, hloop⟩ := h.jumps.labels l hl
      exact ⟨ofLoop, by simp [hin, hm], hloop⟩
    · obtain ⟨ofLoop, hm⟩ := hname
      exact h.jumps.names name ⟨ofLoop, by simpa [hin] using hm⟩

/-- In a switch statements may leave it. -/
theorem Context.Leads.switch (h : ctx.Leads σ) :
    Context.Leads { ctx with inBreakable := true } (.switch :: σ) where
  allows := h.allows.cons rfl
  awaits hr := (h.awaits hr).cons rfl
  jumps := by
    have hin : inside (.switch :: σ) = .switch :: σ.inside := inside_cons rfl
    refine ⟨fun hr => (canReturn_cons rfl).mpr (h.jumps.returns hr), fun _ => ?_,
      fun hr => (h.jumps.continues hr).cons rfl, fun l hl => ?_, fun name hname => ?_⟩
    · exact Or.inr (by simp [hin])
    · obtain ⟨ofLoop, hm, hloop⟩ := h.jumps.labels l hl
      exact ⟨ofLoop, by simp [hin, hm], hloop⟩
    · obtain ⟨ofLoop, hm⟩ := hname
      exact h.jumps.names name ⟨ofLoop, by simpa [hin] using hm⟩

section

variable {s s₁ : State}

/-- A context from further ahead is placed. -/
theorem Context.Behind.placed (h : ctx.Behind s) : ctx.Placed s :=
  fun l hl => ⟨Nat.le_of_lt (h l hl), fun he => absurd he (Nat.ne_of_lt (h l hl))⟩

/-- A token further on a placed context lies behind. -/
theorem Context.Placed.behind (h : ctx.Placed s) (hlt : s.offset < s₁.offset) : ctx.Behind s₁ :=
  fun l hl => Nat.lt_of_le_of_lt (h l hl).1 hlt

/-- A context that lies behind does so later on. -/
theorem Context.Behind.later (h : ctx.Behind s) (hle : s.offset ≤ s₁.offset) : ctx.Behind s₁ :=
  fun l hl => Nat.lt_of_lt_of_le (h l hl) hle

/-- A label is settled from the start if its statement is a loop or not, as the first word
says. -/
theorem Context.Placed.settle_eq (h : ctx.Placed s) :
    ctx.settle s.offset (startsLoop s.lexer.token.kind) = ctx := by
  have hmap : (ctx.labels.map fun l => if l.bodyStart = s.offset then
      { l with isLoop := startsLoop s.lexer.token.kind } else l) = ctx.labels := by
    rw [List.map_congr_left (g := id), List.map_id]
    intro l hl
    split
    · rename_i he
      rw [← (h l hl).2 he]
      rfl
    · rfl
  rw [settle, hmap]

/-- Labels of a statement further ahead do not change any more. -/
theorem Context.Behind.settle_eq (h : ctx.Behind s) (loops : Bool) :
    ctx.settle s.offset loops = ctx := by
  have hmap : (ctx.labels.map fun l => if l.bodyStart = s.offset then
      { l with isLoop := loops } else l) = ctx.labels := by
    rw [List.map_congr_left (g := id), List.map_id]
    intro l hl
    rw [if_neg (Nat.ne_of_lt (h l hl))]
    rfl
  rw [settle, hmap]

/-- Deciding what a label stands before keeps its name. -/
theorem Context.names_settle (ctx : Context) (place : Nat) (loops : Bool) :
    (ctx.settle place loops).labels.map (·.name) = ctx.labels.map (·.name) := by
  simp only [settle, List.map_map]
  refine List.map_congr_left fun l _ => ?_
  by_cases h : l.bodyStart = place <;> simp [h]

/-- A labeled statement has one more name around it. -/
theorem Context.names_labeled (ctx : Context) (start : Nat) (label : Label) :
    (ctx.labeled start label).labels.map (·.name) = label.name :: ctx.labels.map (·.name) := by
  have hsplit := List.takeWhile_append_dropWhile (p := fun l : Label => l.bodyStart == start)
    (l := ctx.labels)
  have hsame : ((fun l : Label => l.name) ∘ fun l : Label => { l with isLoop := label.isLoop }) =
      fun l => l.name := rfl
  simp only [labeled, List.cons_append, List.map_cons, List.map_append, List.map_map, hsame]
  rw [← List.map_append, hsplit]

/-- The labels in the body of a labeled statement: the new one, those directly in front of the
statement, and the others. -/
theorem Context.mem_labels_labeled {start : Nat} {label l : Label}
    (h : l ∈ (ctx.labeled start label).labels) : l = label ∨
      (∃ l₀ ∈ ctx.labels, l₀.bodyStart = start ∧ l = { l₀ with isLoop := label.isLoop }) ∨
      l ∈ ctx.labels := by
  rcases List.mem_append.mp h with hm | hm
  · rcases List.mem_cons.mp hm with rfl | hm
    · exact Or.inl rfl
    · obtain ⟨l₀, hl₀, rfl⟩ := List.mem_map.mp hm
      refine Or.inr (Or.inl ⟨l₀, (List.takeWhile_sublist _).subset hl₀, ?_, rfl⟩)
      have hstart := List.mem_takeWhile_imp hl₀
      exact eq_of_beq hstart
  · exact Or.inr (Or.inr ((List.dropWhile_sublist _).subset hm))

/-- The body of a labeled statement stands behind the labels around it. -/
theorem Context.Placed.labeled (h : ctx.Placed s) (hlt : s.offset < s₁.offset) (name : String) :
    (ctx.labeled s.offset ⟨name, startsLoop s₁.lexer.token.kind, s₁.offset⟩).Placed s₁ := by
  intro l hl
  rcases mem_labels_labeled hl with rfl | ⟨l₀, hl₀, -, rfl⟩ | hl
  · exact ⟨Nat.le_refl _, fun _ => rfl⟩
  · have hle := (h l₀ hl₀).1
    exact ⟨by simp only; omega, fun he => by simp only at he; omega⟩
  · have hle := (h l hl).1
    exact ⟨by omega, fun he => by omega⟩

/-- What the context of the body of a labeled statement says is true there. The labels directly
in front of the statement are those of a loop only if this one is, as its own context has been
told; they stand in front of a name, so that none of the others is. -/
theorem Context.Leads.labeled {name : String} {loops : Bool} (hp : ctx.Placed s)
    (hname : startsLoop s.lexer.token.kind = false) (hlt : s.offset < s₁.offset)
    (hloops : startsLoop s₁.lexer.token.kind = true → loops = true)
    (h : (ctx.settle s.offset loops).Leads σ) :
    Context.Leads ((ctx.labeled s.offset
      ⟨name, startsLoop s₁.lexer.token.kind, s₁.offset⟩).settle s₁.offset loops)
      (.labeled name loops :: σ) where
  allows := h.allows.cons rfl
  awaits hr := (h.awaits hr).cons rfl
  jumps := by
    have hin : inside (.labeled name loops :: σ) = .labeled name loops :: σ.inside :=
      inside_cons rfl
    refine ⟨fun hr => (canReturn_cons rfl).mpr (h.jumps.returns hr),
      fun hr => (h.jumps.breaks hr).cons rfl, fun hr => (h.jumps.continues hr).cons rfl,
      fun l hl => ?_, fun other hother => ?_⟩
    · have hbefore : ∀ l₀ ∈ ctx.labels, ∃ ofLoop, Around.labeled l₀.name ofLoop ∈ σ.inside ∧
          ((if l₀.bodyStart = s.offset then loops else l₀.isLoop) = true → ofLoop = true) := by
        intro l₀ hl₀
        obtain ⟨ofLoop, hm, hloop⟩ := h.jumps.labels _ (List.mem_map_of_mem hl₀)
        refine ⟨ofLoop, ?_, ?_⟩
        · split at hm <;> exact hm
        · split <;> rename_i he
          · rwa [if_pos he] at hloop
          · rwa [if_neg he] at hloop
      obtain ⟨l₁, hl₁, rfl⟩ := List.mem_map.mp hl
      rcases mem_labels_labeled hl₁ with rfl | ⟨l₀, hl₀, hstart, rfl⟩ | hl₀
      · exact ⟨loops, by simp [hin], by simp⟩
      · obtain ⟨ofLoop, hm, hloop⟩ := hbefore l₀ hl₀
        rw [if_pos hstart] at hloop
        have hne : l₀.bodyStart ≠ s₁.offset := by omega
        exact ⟨ofLoop, by simp [hin, hne, hm], fun hl => hloop (hloops (by simpa [hne] using hl))⟩
      · obtain ⟨ofLoop, hm, hloop⟩ := hbefore l₁ hl₀
        have hne : l₁.bodyStart ≠ s₁.offset := by
          have hle := (hp l₁ hl₀).1
          omega
        refine ⟨ofLoop, by simp [hin, hne, hm], fun hl => hloop ?_⟩
        rw [if_neg hne] at hl
        rw [if_neg, hl]
        intro he
        rw [(hp l₁ hl₀).2 he, hname] at hl
        cases hl
    · rw [names_settle, names_labeled]
      obtain ⟨ofLoop, hm⟩ := hother
      rw [hin, List.mem_cons] at hm
      rcases hm with he | hm
      · cases he
        exact List.mem_cons_self
      · have hold := h.jumps.names other ⟨ofLoop, hm⟩
        rw [names_settle] at hold
        exact List.mem_cons_of_mem _ hold

end

/-- There is nothing to jump to right within a boundary. -/
theorem Context.jumps_of_isBoundary (ha : a.isBoundary = true)
    (hreturn : ctx.canReturn = true → a.isFunction = true ∨ a.isArrow = true)
    (hbreak : ctx.inBreakable = false) (hloop : ctx.inLoop = false) (hlabels : ctx.labels = []) :
    ctx.Jumps (a :: σ) where
  returns hr := ⟨a, boundary?_cons_of_isBoundary ha, hreturn hr⟩
  breaks hr := absurd hr (by simp [hbreak])
  continues hr := absurd hr (by simp [hloop])
  labels := by simp [hlabels]
  names name hname := by
    obtain ⟨ofLoop, hm⟩ := hname
    simp [inside_cons_of_isBoundary ha] at hm

/-- The function of a member, given what its context says besides what it is. -/
theorem Context.opens {inner : Context} (hinner : inner = { ctx.function isAsync isGenerator with
      superProperty := inner.superProperty, superCall := inner.superCall })
    (h : ctx.Allows calm σ) (hproperty : inner.superProperty = true → σ.IsMember)
    (hcall : inner.superCall = true →
      ∃ outer, σ = .method .constructor :: .classBody true :: outer) :
    inner.Opens isAsync isGenerator σ := by
  have hproperties : ∀ f : Around, f.isFunction = true → inner.superProperty = true →
      HasSuperProperty (f :: σ) := fun f hf hr => hasSuperProperty_of_isMember hf (hproperty hr)
  have hcalls : ∀ f : Around, f.isFunction = true → inner.superCall = true →
      HasSuperCall (f :: σ) := by
    intro f hf hr
    obtain ⟨outer, rfl⟩ := hcall hr
    exact ⟨f, outer, receiver_cons_of_hasThis (Around.hasThis_of_isFunction hf), hf⟩
  rw [hinner]
  constructor
  · refine ⟨fun hr => ?_, fun hr => ?_, fun _ => hasNewTarget_of_hasThis rfl,
      hproperties _ rfl, hcalls _ rfl, fun hr => (h.classes hr).cons _⟩
    · simp [rights, parameters] at hr
    · simp [rights, parameters] at hr
  · have hawaits : isAsync = true → CanAwait (.body isGenerator isAsync :: σ) := by
      rintro rfl
      exact Or.inl ⟨isGenerator, boundary?_cons_of_isBoundary rfl⟩
    refine ⟨⟨fun hr => ?_, fun hr => hawaits (by simpa [rights, function] using hr),
      fun _ => hasNewTarget_of_hasThis rfl, hproperties _ rfl, hcalls _ rfl,
      fun hr => (h.classes hr).cons _⟩, hawaits,
      jumps_of_isBoundary rfl (fun _ => Or.inl rfl) rfl rfl rfl⟩
    have hgenerator : isGenerator = true := by simpa [rights, function] using hr
    exact ⟨isAsync, by rw [hgenerator]; exact boundary?_cons_of_isBoundary rfl⟩

/-- In a function its own rules hold. -/
theorem Context.Allows.opens_function (isAsync isGenerator : Bool) (h : ctx.Allows calm σ) :
    (ctx.function isAsync isGenerator).Opens isAsync isGenerator σ :=
  Context.opens rfl h nofun nofun

/-- In a method `super` has properties, and in a derived constructor it can be called. -/
theorem Context.Allows.opens_method (isAsync isGenerator : Bool) {superCall : Bool}
    (h : ctx.Allows calm σ) (hmember : σ.IsMember)
    (hcall : superCall = true → ∃ outer, σ = .method .constructor :: .classBody true :: outer) :
    (ctx.method isAsync isGenerator superCall).Opens isAsync isGenerator σ :=
  Context.opens rfl h (fun _ => hmember) hcall

/-- The parameters of an arrow function were read calmly, in the context around it. -/
theorem Context.Allows.arrowParameters (h : ctx.Allows calm σ) :
    ctx.Allows true (.arrowParameters :: σ) where
  yields hr := by simp [rights] at hr
  awaits hr := by simp [rights] at hr
  functions hr := (h.functions hr).cons _
  properties hr := (h.properties hr).cons rfl
  calls hr := (h.calls hr).cons rfl
  classes hr := (h.classes hr).cons _

/-- In the body of an arrow function no statement can leave a loop around it. -/
theorem Context.Allows.leads_arrow (isAsync : Bool) (h : ctx.Allows calm σ) :
    (ctx.arrow isAsync).Leads (.arrowBody isAsync :: σ) := by
  have hawaits : isAsync = true → CanAwait (.arrowBody isAsync :: σ) := by
    rintro rfl
    exact Or.inr (boundary?_cons_of_isBoundary rfl)
  exact ⟨⟨nofun, fun hr => hawaits (by simpa [rights, arrow] using hr),
    fun hr => (h.functions hr).cons _, fun hr => (h.properties hr).cons rfl,
    fun hr => (h.calls hr).cons rfl, fun hr => (h.classes hr).cons _⟩, hawaits,
    jumps_of_isBoundary rfl (fun _ => Or.inr rfl) rfl rfl rfl⟩

/-- The initializer of a field or the statements of a static block. -/
theorem Context.Allows.leads_classInit (ha : a = .fieldValue ∨ a = .staticBlock)
    (h : ctx.Allows calm σ) : ctx.classInit.Leads (a :: σ) := by
  have hboundary : a.isBoundary = true := by rcases ha with rfl | rfl <;> rfl
  have hthis : a.hasThis = true := by rcases ha with rfl | rfl <;> rfl
  refine ⟨⟨nofun, nofun, fun _ => hasNewTarget_of_hasThis hthis, fun _ => ?_, nofun,
    fun hr => (h.classes hr).cons _⟩, nofun, jumps_of_isBoundary hboundary nofun rfl rfl rfl⟩
  exact ⟨a, σ, receiver_cons_of_hasThis hthis, ha.imp_right Or.inl⟩

/-- The members of a class. -/
theorem Context.Allows.classBody (isDerived : Bool) (h : ctx.Allows calm σ) :
    Context.Allows { ctx with inClass := true } calm (.classBody isDerived :: σ) :=
  ⟨fun hr => (h.yields hr).cons rfl, fun hr => (h.awaits hr).cons rfl,
    fun hr => (h.functions hr).cons _, fun hr => (h.properties hr).cons rfl,
    fun hr => (h.calls hr).cons rfl, fun _ => inClass_classBody isDerived⟩

end

end Parser

end EcmaScript

import EcmaScript.Proofs.Machine.Grammar
import EcmaScript.Proofs.Parser.Spans
import EcmaScript.Proofs.Parser.Takes
import EcmaScript.Proofs.Parser.Success

/-!
# Machines that run as parsers do

A machine runs as a parser does when it comes to the same result in the same state, or ends early
in the same way, and never runs out of fuel. Besides, its registers are in the end what they are
meant to be, the parser does not go back, and the depth of nesting stays between the one that the
machine starts with and one more than may be entered.

Such machines are put together the way parsers are. A loop needs a parser that takes a token in
every round but the last: then there is fuel for all of the rounds.
-/

namespace EcmaScript

open EcmaScript.Parser

/-- What holds of every state in which a parser of the text can be, and how long the text is. -/
structure Parser.State.Proper (text : String) (s : State) : Prop where
  sound : s.Sound text
  size_eq : s.size = text.utf8ByteSize

/-- More rounds, or the result. -/
def Parser.Round.andThen {σ β : Type} (next : σ → Parser β) : Round σ β → Parser β
  | .next a => next a
  | .done b => pure b

/-- Whether another round follows. -/
def Parser.Round.isNext {σ β : Type} : Round σ β → Bool
  | .next _ => true
  | .done _ => false

namespace Machine

/-- A later state, or the same. -/
structure Later (text : String) (s s' : State) : Prop where
  sound : s'.Sound text
  size_eq : s'.size = s.size
  consumed_le : s.consumed ≤ s'.consumed
  offset_le : s.offset ≤ s'.offset

/-- The parser does not go back. -/
class Keeps (text : String) {α : Type} (p : Parser α) : Prop where
  later : ∀ {s a s'}, s.Sound text → p s = .ok (a, s') → Later text s s'

section

variable {text : String} {α β : Type} {s s₁ s₂ : State}

theorem Later.refl (hs : s.Sound text) : Later text s s := ⟨hs, rfl, Nat.le_refl _, Nat.le_refl _⟩

/-- States that are reached from each other lie one behind the other. -/
theorem Later.trans (h : Later text s s₁) (k : Later text s₁ s₂) : Later text s s₂ :=
  ⟨k.sound, k.size_eq.trans h.size_eq, Nat.le_trans h.consumed_le k.consumed_le,
    Nat.le_trans h.offset_le k.offset_le⟩

/-- A state that is reached from a proper one is proper. -/
theorem Later.proper (h : Later text s s₁) (hs : s.Proper text) : s₁.Proper text :=
  ⟨h.sound, h.size_eq.trans hs.size_eq⟩

/-- Where more has been taken, less is left. -/
theorem remaining_lt (hs : s.Proper text) (h₁ : s₁.Proper text) (hlt : s.consumed < s₁.consumed) :
    s₁.remaining < s.remaining := by
  have hle : s₁.consumed ≤ text.utf8ByteSize := h₁.sound.place.isBoundary.le
  have hsize := hs.size_eq
  have hsize₁ := h₁.size_eq
  simp only [State.remaining]
  omega

/-- What is remembered for later does not matter. -/
theorem Later.same (hs : s.Sound text) (hl : s₁.lexer = s.lexer) (hn : s₁.size = s.size)
    (hc : s₁.consumed = s.consumed) (ht : s₁.taken = s.taken)
    (hf : ∀ fault, s₁.suspension = some fault → fault.IsSyntactic) : Later text s s₁ := by
  refine ⟨⟨?_, hf⟩, hn, Nat.le_of_eq hc.symm, ?_⟩
  · rw [State.place, hl, hc, ht]
    exact hs.place
  · exact Nat.le_of_eq (by rw [State.offset, State.offset, hl])

/-- The state behind the next token is a later one. -/
theorem Later.advance (hs : s.Sound text) : Later text s s.next := by
  have hstop : s.offset ≤ s.next.consumed := hs.place.offset_le_stop
  have hnext : s.next.Sound text := ⟨hs.place.take, hs.isSyntactic⟩
  exact ⟨hnext, rfl, Nat.le_trans hs.consumed_le hstop, Nat.le_trans hstop hnext.consumed_le⟩

end

section

variable {text : String} {α β : Type} {ctx : Context} {place : Nat} {k : TokenKind}
  {expression : Expression}

/-- A parser that only looks at the state. -/
theorem Keeps.of_reads {p : Parser α} (h : ∀ s, ∃ a, p s = .ok (a, s)) : Keeps text p where
  later {s} _ _ hs hp := by
    obtain ⟨a, ha⟩ := h s
    rw [ha] at hp
    cases hp
    exact .refl hs

/-- A parser that only ends parsing or goes on. -/
theorem Keeps.of_meets {p : Parser α}
    (h : ∀ s, s.Sound text → Meets text p s fun _ s' => s' = s) : Keeps text p where
  later {s} _ _ hs hp := by
    obtain rfl := (h s hs).ok hp
    exact .refl hs

/-- A parser that only changes what is remembered for later. -/
theorem Keeps.of_modifies {p : Parser α} {f : State → State} (hp : ∀ s, ∃ a, p s = .ok (a, f s))
    (h : ∀ s, s.Sound text → Later text s (f s)) : Keeps text p where
  later {s} _ _ hs ha := by
    obtain ⟨b, hb⟩ := hp s
    rw [hb] at ha
    cases ha
    exact h _ hs

instance {a : α} : Keeps text (pure a : Parser α) := .of_reads fun _ => ⟨_, rfl⟩

instance {p : Parser α} {f : α → Parser β} [hp : Keeps text p] [hf : ∀ a, Keeps text (f a)] :
    Keeps text (p >>= f) where
  later hs h := by
    obtain ⟨a, s₁, ha, h⟩ := bind_ok h
    have h₁ := hp.later hs ha
    exact h₁.trans ((hf a).later h₁.sound h)

instance {c : Prop} [Decidable c] {p q : Parser α} [hp : Keeps text p] [hq : Keeps text q] :
    Keeps text (if c then p else q) := by
  split
  · exact hp
  · exact hq

instance : Keeps text (get : Parser State) := .of_reads fun _ => ⟨_, rfl⟩

instance : Keeps text token := .of_reads fun _ => ⟨_, rfl⟩

instance : Keeps text kind := .of_reads fun _ => ⟨_, rfl⟩

instance : Keeps text offset := .of_reads fun _ => ⟨_, rfl⟩

instance : Keeps text afterLineBreak := .of_reads fun _ => ⟨_, rfl⟩

instance : Keeps text peek := .of_reads fun _ => ⟨_, rfl⟩

instance : Keeps text (isAt k) := .of_reads fun _ => ⟨_, rfl⟩

instance : Keeps text (spanFrom place) := .of_reads fun _ => ⟨_, rfl⟩

instance : Keeps text atImpliedEnd := .of_reads fun _ => ⟨_, rfl⟩

instance : Keeps text atArrow := .of_reads fun _ => ⟨_, rfl⟩

instance : Keeps text atLetDeclaration := .of_reads fun _ => ⟨_, rfl⟩

instance : Keeps text atAsyncFunction := .of_reads fun _ => ⟨_, rfl⟩

instance : Keeps text declarationKind? := .of_reads fun s => ⟨_, declarationKind_run s⟩

instance : Keeps text loopKind? := .of_reads fun s => ⟨_, loopKind_run s⟩

instance {min : Precedence} : Keeps text (binaryOperator? ctx min) := .of_reads fun _ => ⟨_, rfl⟩

instance : Keeps text (isCompleteArrow expression) :=
  .of_reads fun s => isCompleteArrow_run expression s

instance {problem : Problem} : Keeps text (fail place problem : Parser α) :=
  ⟨fun _ h => (fail_ok h).elim⟩

instance {problem : Problem} : Keeps text (failHere problem : Parser α) :=
  ⟨fun _ h => (failHere_ok h).elim⟩

instance : Keeps text (unexpected : Parser α) := ⟨fun _ h => (unexpected_ok h).elim⟩

instance {result : Except Fault α} : Keeps text (orFail result) := by
  cases result with
  | ok a => exact inferInstanceAs (Keeps text (pure a : Parser α))
  | error fault => exact inferInstanceAs (Keeps text (fail fault.offset fault.problem : Parser α))

instance : Keeps text checkCoverInit := ⟨fun hs h => checkCoverInit_ok h ▸ .refl hs⟩

instance : Keeps text (checkName ctx k place) :=
  .of_meets fun _ hs => checkName_meets ctx k place hs

instance {key : Node .propertyKey} : Keeps text (shorthandName ctx k place key) :=
  .of_meets fun _ hs => (shorthandName_meets ctx k place key hs).imp fun _ _ h => h.1

instance {accessor : PropertyKind} {params : Node .parameters} :
    Keeps text (checkAccessorParameters accessor params) :=
  .of_meets fun _ hs => checkAccessorParameters_meets accessor params hs

instance {isStatic : Bool} {key : Node .propertyKey} :
    Keeps text (checkMemberKey isStatic place key) :=
  .of_meets fun _ hs => checkMemberKey_meets isStatic place key hs

instance {isConstructor hasConstructor : Bool} {m : Modifiers} :
    Keeps text (checkConstructor isConstructor hasConstructor m place) :=
  .of_meets fun _ hs => checkConstructor_meets isConstructor hasConstructor m place hs

instance {m : Modifiers} {key : Node .propertyKey} : Keeps text (checkField m place key) :=
  .of_meets fun _ hs => checkField_meets m place key hs

instance : Keeps text rejectPower := .of_meets fun _ hs => rejectPower_meets hs

instance {variableKind : VariableKind} {target : Pattern} :
    Keeps text (checkBoundNames variableKind target) :=
  .of_meets fun _ hs => checkBoundNames_meets variableKind target hs

instance {variableKind : VariableKind} {d : Node .declarator} :
    Keeps text (checkInitializer variableKind d) :=
  .of_meets fun _ hs => checkInitializer_meets variableKind d hs

instance {variableKind : VariableKind} {ds : List (Node .declarator)} :
    Keeps text (ds.forM (checkInitializer variableKind)) :=
  .of_meets fun _ hs => checkInitializers_meets variableKind ds hs

instance {loop : LoopKind} {d : Node .declaration} : Keeps text (checkHeadDeclaration loop d) :=
  .of_meets fun _ hs => checkHeadDeclaration_meets loop d hs

instance {label : Option Identifier} : Keeps text (checkBreak ctx place label) :=
  .of_meets fun _ hs => checkBreak_meets ctx place label hs

instance {label : Option Identifier} : Keeps text (checkContinue ctx place label) :=
  .of_meets fun _ hs => checkContinue_meets ctx place label hs

instance {tagged : Bool} : Keeps text (templateElement tagged) := by
  unfold templateElement
  infer_instance

instance : Keeps text advance := .of_modifies (fun _ => ⟨_, rfl⟩) fun _ hs => .advance hs

instance : Keeps text take := by
  unfold take
  infer_instance

instance : Keeps text (eat k) := by
  unfold eat
  infer_instance

instance : Keeps text (expect k) := by
  unfold expect
  infer_instance

instance : Keeps text takeIdentifier := by
  unfold takeIdentifier
  infer_instance

instance : Keeps text takePrivateName := by
  unfold takePrivateName
  infer_instance

instance : Keeps text takeNumber := by
  unfold takeNumber
  infer_instance

instance : Keeps text takeBigInt := by
  unfold takeBigInt
  infer_instance

instance : Keeps text takeString := by
  unfold takeString
  infer_instance

instance : Keeps text takeRegex := by
  unfold takeRegex
  infer_instance

instance : Keeps text (identifier ctx) := by
  unfold identifier
  infer_instance

instance {ends : TokenKind → Bool} {w : Keyword} : Keeps text (eatModifier ends w) := by
  unfold eatModifier isModifier
  infer_instance

instance {ends : TokenKind → Bool} : Keeps text (modifiers ends) := by
  unfold modifiers
  infer_instance

instance : Keeps text (memberName ctx) := by
  unfold memberName
  infer_instance

instance : Keeps text (privateNameIn ctx) := by
  unfold privateNameIn
  infer_instance

instance {isDeclaration : Bool} : Keeps text (className ctx isDeclaration) := by
  unfold className
  infer_instance

instance : Keeps text (newTarget ctx place) := by
  have hname : ∀ holder, Keeps text (do
      let property ← takeIdentifier
      return .metaProperty (← spanFrom place) holder property : Parser Expression) :=
    fun _ => inferInstance
  unfold newTarget
  dsimp only
  infer_instance

instance : Keeps text (superBase ctx) := by
  unfold superBase
  infer_instance

instance : Keeps text (jumpLabel ctx) := by
  unfold jumpLabel
  infer_instance

instance : Keeps text takeCoverInit :=
  .of_modifies (fun _ => ⟨_, rfl⟩) fun _ hs => .same hs rfl rfl rfl rfl hs.isSyntactic

instance {outer : Option Nat} : Keeps text (setCoverInit outer) :=
  .of_modifies (fun _ => ⟨_, rfl⟩) fun _ hs => .same hs rfl rfl rfl rfl hs.isSyntactic

instance {outer : Option Nat} : Keeps text (mergeCoverInit outer) :=
  .of_modifies (fun _ => ⟨_, rfl⟩) fun _ hs => .same hs rfl rfl rfl rfl hs.isSyntactic

instance : Keeps text noteImplied :=
  .of_modifies (fun _ => ⟨_, rfl⟩) fun _ hs => .same hs rfl rfl rfl rfl hs.isSyntactic

/-- Noting a suspension keeps the state sound. -/
theorem keeps_noteSuspension (text : String) {problem : Problem}
    (hp : problem.category = .syntactic) :
    Keeps text (noteSuspension problem) where
  later {s a s'} hs h := by
    have hsame := (noteSuspension_meets hp hs).ok h
    cases h
    exact .same hs rfl rfl rfl rfl hsame.sound.isSyntactic

instance : Keeps text semicolon := by
  unfold semicolon
  infer_instance

instance : Keeps text optionalSemicolon := by
  unfold optionalSemicolon
  infer_instance

instance : Keeps text (breakStatement ctx) := by
  rw [breakStatement_eq]
  infer_instance

instance : Keeps text (continueStatement ctx) := by
  rw [continueStatement_eq]
  infer_instance

/-- The notes of the cover grammar do not matter for soundness. -/
theorem keeps_notes (text : String) (notes : State → CoverNotes) :
    Keeps text (modify fun s => { s with notes := notes s } : Parser Unit) :=
  .of_modifies (fun _ => ⟨_, rfl⟩) fun _ hs => .same hs rfl rfl rfl rfl hs.isSyntactic

/-- An unclaimed default does not matter for soundness. -/
theorem keeps_coverInit (text : String) (coverInit : State → Option Nat) :
    Keeps text (modify fun s => { s with coverInit := coverInit s } : Parser Unit) :=
  .of_modifies (fun _ => ⟨_, rfl⟩) fun _ hs => .same hs rfl rfl rfl rfl hs.isSyntactic

instance {cover : Cover.Parenthesized} : Keeps text (coverExpression cover) := by
  have hnotes := fun expression : Expression =>
    keeps_notes text fun s => s.notes.addParenthesized expression.span
  unfold coverExpression
  infer_instance

instance {operator : AssignmentOperator} {outer : Option Nat} :
    Keeps text (assignmentTarget operator outer expression) := by
  unfold assignmentTarget
  infer_instance

end

/-- A token is taken wherever there is a result. -/
structure Goes (text : String) {α : Type} (p : Parser α) : Prop where
  lt : ∀ {s a s'}, s.Sound text → p s = .ok (a, s') → s'.Sound text ∧ s.consumed < s'.consumed

/-- A token is taken wherever there is a result of a certain kind. -/
structure Progresses (text : String) {α : Type} (c : α → Bool) (p : Parser α) : Prop where
  lt : ∀ {s a s'}, s.Sound text → p s = .ok (a, s') → c a = true → s.consumed < s'.consumed

section

variable {text : String} {α β : Type} {c : α → Bool}

/-- Whoever makes a node goes on in the text. -/
theorem Goes.of_makes {f : α → List Sketch} {p : Parser α} (h : Makes text f p) : Goes text p where
  lt hs hp :=
    have ht := ((h _ hs).ok hp).1
    ⟨ht.sound, Nat.lt_of_le_of_lt hs.consumed_le ht.lt⟩

/-- A token is taken by the first step. -/
theorem Goes.bind {p : Parser β} (hp : Goes text p) {f : β → Parser α}
    [k : ∀ b, Keeps text (f b)] : Goes text (p >>= f) where
  lt hs h := by
    obtain ⟨b, s₁, hb, h⟩ := bind_ok h
    obtain ⟨hs₁, hlt⟩ := hp.lt hs hb
    have h₁ := (k b).later hs₁ h
    exact ⟨h₁.sound, Nat.lt_of_lt_of_le hlt h₁.consumed_le⟩

/-- A token is taken by the first step, and nothing is given back behind it. -/
theorem Goes.kept {p : Parser β} (hp : Goes text p) {f : β → Parser α}
    (hf : ∀ b s, s.Sound text → Meets text (f b) s fun _ s' => Kept text s s') :
    Goes text (p >>= f) where
  lt hs h := by
    obtain ⟨b, s₁, hb, h⟩ := bind_ok h
    obtain ⟨hs₁, hlt⟩ := hp.lt hs hb
    have h₁ := (hf b s₁ hs₁).ok h
    exact ⟨h₁.sound, Nat.lt_of_lt_of_le hlt h₁.toOnto.toAlong.consumed_le⟩

/-- A token is taken behind the first step. -/
theorem Goes.step {p : Parser β} [hp : Keeps text p] {f : β → Parser α}
    (hf : ∀ b, Goes text (f b)) : Goes text (p >>= f) where
  lt hs h := by
    obtain ⟨b, s₁, hb, h⟩ := bind_ok h
    have h₁ := hp.later hs hb
    obtain ⟨hs', hlt⟩ := (hf b).lt h₁.sound h
    exact ⟨hs', Nat.lt_of_le_of_lt h₁.consumed_le hlt⟩

/-- Both branches of a choice go on. -/
theorem Goes.ite {b : Prop} [Decidable b] {p q : Parser α} (hp : Goes text p)
    (hq : Goes text q) : Goes text (if b then p else q) := by
  split
  · exact hp
  · exact hq

/-- A check that is made under a condition. -/
theorem Goes.refuse {b : Prop} [Decidable b] {p : Parser Unit} [Keeps text p] {f : Unit → Parser α}
    (hf : Goes text (f ())) : Goes text (if b then p >>= f else f ()) :=
  .ite (.step fun _ => hf) hf

/-- Whoever refuses has no run that would have to go on. -/
theorem Goes.failHere {problem : Problem} : Goes text (Parser.failHere problem : Parser α) :=
  ⟨fun _ h => (failHere_ok h).elim⟩

/-- Whoever goes on makes progress, whatever the result. -/
theorem Goes.progresses {p : Parser α} (hp : Goes text p) : Progresses text c p :=
  ⟨fun hs h _ => (hp.lt hs h).2⟩

/-- Nothing needs to be taken for a result of another kind. -/
theorem Progresses.pure {a : α} (h : c a = false) : Progresses text c (Pure.pure a) where
  lt hs hp hc := by
    rw [← (pure_ok hp).1, h] at hc
    exact absurd hc Bool.false_ne_true

/-- Refusing a token is progress of its own kind. -/
theorem Progresses.unexpected : Progresses text c (Parser.unexpected : Parser α) :=
  ⟨fun _ h => (unexpected_ok h).elim⟩

/-- Both branches of a choice make progress. -/
theorem Progresses.ite {b : Prop} [Decidable b] {p q : Parser α} (hp : Progresses text c p)
    (hq : Progresses text c q) : Progresses text c (if b then p else q) := by
  split
  · exact hp
  · exact hq

/-- A step that keeps the state leaves the progress to what comes behind it. -/
theorem Progresses.step {p : Parser β} [hp : Keeps text p] {f : β → Parser α}
    (hf : ∀ b, Progresses text c (f b)) : Progresses text c (p >>= f) where
  lt hs h hc := by
    obtain ⟨b, s₁, hb, h⟩ := bind_ok h
    have h₁ := hp.later hs hb
    exact Nat.lt_of_le_of_lt h₁.consumed_le ((hf b).lt h₁.sound h hc)

end

/-- A machine ends as a parser does, with a result, registers and a state as the condition says. -/
inductive Agrees {α : Type} (Q : α → Registers → State → Prop) :
    Except Halt (α × Registers × State) → Except Abort (α × State) → Prop where
  | abort (abort : Abort) : Agrees Q (.error (.abort abort)) (.error abort)
  | ok {a : α} {r : Registers} {s : State} : Q a r s → Agrees Q (.ok (a, r, s)) (.ok (a, s))

/-- From given registers and a given state on, a machine runs as a parser does; the depth of
nesting does not fall below `d`. -/
structure RunsAt {α : Type} (d : Nat) (r : Registers) (s : State) (m : Machine α) (p : Parser α)
    (Q : α → Registers → State → Prop) : Prop where
  depths : ∀ depth ∈ (m r s).depths, d ≤ depth ∧ depth ≤ maxDepth + 1
  outcome : Agrees Q (m r s).outcome (p s)

/-- The registers are those that are meant, in a state that is no earlier one. -/
abbrev Restored (text : String) (r : Registers) (s : State) {α : Type} :
    α → Registers → State → Prop :=
  fun _ r₁ s₁ => r₁ = r ∧ Later text s s₁

/-- From the registers `r` on, a machine runs as a parser does and puts in `r'`, wherever `n` bytes
have been taken. -/
def Runs (text : String) (d n : Nat) (r r' : Registers) {α : Type} (m : Machine α)
    (p : Parser α) : Prop :=
  ∀ s, s.Proper text → n ≤ s.consumed →
    RunsAt d r s m p (Restored text r' s)

section

variable {text : String} {α β : Type} {d n : Nat} {r r₁ r' : Registers} {s s' : State}

/-- What is known of the end of a run can be said with less. -/
theorem RunsAt.imp {m : Machine α} {p : Parser α} {P Q : α → Registers → State → Prop}
    (h : RunsAt d r s m p P) (hpq : ∀ a r' s', P a r' s' → Q a r' s') : RunsAt d r s m p Q := by
  obtain ⟨hdepths, houtcome⟩ := h
  refine ⟨hdepths, ?_⟩
  generalize (m r s).outcome = outcome at houtcome
  generalize p s = out at houtcome
  cases houtcome with
  | abort e => exact .abort e
  | ok hq => exact .ok (hpq _ _ _ hq)

/-- A machine with a parser beside it finds what the parser finds. -/
theorem RunsAt.parsed? {m : Machine α} {p : Parser α} {Q : α → Registers → State → Prop}
    (h : RunsAt d r s m p Q) : (m r s).parsed? = some (p s) := by
  have houtcome := h.outcome
  unfold Run.parsed?
  generalize (m r s).outcome = outcome at houtcome ⊢
  generalize p s = out at houtcome ⊢
  cases houtcome with
  | abort e => rfl
  | ok hq => rfl

/-- Where the machine ends, the parser ends, and as is known of it. -/
theorem RunsAt.ok {m : Machine α} {p : Parser α} {Q : α → Registers → State → Prop} {a : α}
    (h : RunsAt d r s m p Q) (hok : (m r s).outcome = .ok (a, r', s')) :
    Q a r' s' ∧ p s = .ok (a, s') := by
  have houtcome := h.outcome
  rw [hok] at houtcome
  generalize p s = out at houtcome ⊢
  cases houtcome with
  | ok hq => exact ⟨hq, rfl⟩

/-- A machine followed by another. -/
theorem RunsAt.bind {m : Machine α} {p : Parser α} {f : α → Machine β} {f' : α → Parser β}
    {P : α → Registers → State → Prop} {Q : β → Registers → State → Prop}
    (h : RunsAt d r s m p P) (hf : ∀ a r₁ s₁, P a r₁ s₁ → RunsAt d r₁ s₁ (f a) (f' a) Q) :
    RunsAt d r s (m >>= f) (p >>= f') Q := by
  obtain ⟨hdepths, houtcome⟩ := h
  have hm : (m >>= f) r s = (m r s).andThen f := rfl
  have hp : (p >>= f') s = (p s).bind fun out => f' out.1 out.2 := rfl
  generalize m r s = run at hdepths houtcome hm
  generalize p s = out at houtcome hp
  obtain ⟨depths, outcome⟩ := run
  change Agrees P outcome out at houtcome
  cases houtcome with
  | abort e => exact ⟨by rw [hm]; exact hdepths, by rw [hm, hp]; exact .abort e⟩
  | @ok a r₁ s₁ hq =>
    have hrest := hf a r₁ s₁ hq
    refine ⟨?_, by rw [hm, hp]; exact hrest.outcome⟩
    rw [hm]
    exact fun depth hd => (List.mem_append.mp hd).elim (hdepths depth) (hrest.depths depth)

/-- Giving a value changes neither the registers nor the state. -/
theorem RunsAt.pure {a : α} {Q : α → Registers → State → Prop} (h : Q a r s) :
    RunsAt d r s (Pure.pure a) (Pure.pure a) Q :=
  ⟨List.forall_mem_nil _, .ok h⟩

/-- A parser as a machine. -/
theorem RunsAt.ofParser {p : Parser α} {Q : α → Registers → State → Prop}
    (h : ∀ a s', p s = .ok (a, s') → Q a r s') : RunsAt d r s (Machine.ofParser p) p Q := by
  cases hp : p s with
  | error e =>
    have hm : Machine.ofParser p r s = ⟨[], .error (.abort e)⟩ := by rw [Machine.ofParser, hp]
    exact ⟨by rw [hm]; exact List.forall_mem_nil _, by rw [hm, hp]; exact .abort e⟩
  | ok out =>
    have hm : Machine.ofParser p r s = ⟨[], .ok (out.1, r, out.2)⟩ := by rw [Machine.ofParser, hp]
    exact ⟨by rw [hm]; exact List.forall_mem_nil _, by rw [hm, hp]; exact .ok (h _ _ hp)⟩

/-- Only the runs from there on matter. -/
theorem RunsAt.congr {m m₁ : Machine α} {p p₁ : Parser α} {Q : α → Registers → State → Prop}
    (h : RunsAt d r₁ s' m₁ p₁ Q) (hm : m r s = m₁ r₁ s') (hp : p s = p₁ s') :
    RunsAt d r s m p Q := ⟨by rw [hm]; exact h.depths, by rw [hm, hp]; exact h.outcome⟩

/-- Looking at the registers. -/
theorem RunsAt.registers {f : Registers → Machine α} {p : Parser α}
    {Q : α → Registers → State → Prop} (h : RunsAt d r s (f r) p Q) :
    RunsAt d r s (Machine.registers >>= f) p Q := h.congr rfl rfl

/-- The facts of a function are registers only. -/
theorem RunsAt.setFacts {facts : FunctionFacts} {f : Unit → Machine α} {p : Parser α}
    {Q : α → Registers → State → Prop} (h : RunsAt d { r with facts } s (f ()) p Q) :
    RunsAt d r s (Machine.setFacts facts >>= f) p Q := h.congr rfl rfl

/-- A step of the parser whose result is known. -/
theorem RunsAt.step {p : Parser α} {f : α → Machine β} {f' : α → Parser β} {a : α}
    {Q : β → Registers → State → Prop} (hp : p s = .ok (a, s'))
    (h : RunsAt d r s' (f a) (f' a) Q) : RunsAt d r s (liftM p >>= f) (p >>= f') Q := by
  refine .bind (P := fun b r₁ s₁ => b = a ∧ r₁ = r ∧ s₁ = s')
    (.ofParser (p := p) fun b s₁ hb => ?_) ?_
  · rw [hp] at hb
    cases hb
    exact ⟨rfl, rfl, rfl⟩
  · rintro b r₁ s₁ ⟨rfl, rfl, rfl⟩
    exact h

/-- A machine and a parser choose alike. -/
theorem RunsAt.ite {c : Prop} [Decidable c] {m m' : Machine α} {p p' : Parser α}
    {Q : α → Registers → State → Prop} (h : c → RunsAt d r s m p Q)
    (h' : ¬c → RunsAt d r s m' p' Q) :
    RunsAt d r s (if c then m else m') (if c then p else p') Q := by
  split
  · exact h ‹_›
  · exact h' ‹_›

/-- A parser that ends early in any case. -/
theorem RunsAt.never {p : Parser α} {Q : α → Registers → State → Prop}
    (hp : ∀ a s', p s ≠ .ok (a, s')) : RunsAt d r s (liftM p) p Q :=
  .ofParser fun a s' h => absurd h (hp a s')

/-- What comes behind a parser that cannot succeed does not matter. -/
theorem RunsAt.cut {p : Parser α} {f : α → Machine β} {f' : α → Parser β}
    {Q : β → Registers → State → Prop} (hp : ∀ a s', p s ≠ .ok (a, s')) :
    RunsAt d r s (liftM p >>= f) (p >>= f') Q :=
  .bind (P := fun _ _ _ => False) (.never hp) fun _ _ _ h => h.elim

/-- A check that ends parsing, made under a condition. -/
theorem RunsAt.refuse {c : Prop} [Decidable c] {p : Parser Unit} {f : Unit → Machine α}
    {f' : Unit → Parser α} {Q : α → Registers → State → Prop}
    (hp : ∀ u s', p s ≠ .ok (u, s')) (h : RunsAt d r s (f ()) (f' ()) Q) :
    RunsAt d r s (if c then liftM p >>= f else f ()) (if c then p >>= f' else f' ()) Q :=
  .ite (fun _ => .cut hp) fun _ => h

/-- Runs one behind the other, of which the first gives the registers back. -/
theorem Runs.bind {m : Machine α} {p : Parser α} {f : α → Machine β} {f' : α → Parser β}
    (h : Runs text d n r r m p) (hf : ∀ a, Runs text d n r r' (f a) (f' a)) :
    Runs text d n r r' (m >>= f) (p >>= f') := fun s hs hn =>
  .bind (h s hs hn) fun a _ s₁ ⟨hr, h₁⟩ => hr ▸
    (hf a s₁ (h₁.proper hs) (Nat.le_trans hn h₁.consumed_le)).imp
      fun _ _ _ h => ⟨h.1, h₁.trans h.2⟩

/-- Giving a value gives the registers back. -/
theorem Runs.pure {a : α} : Runs text d n r r (Pure.pure a) (Pure.pure a) :=
  fun _ hs _ => .pure ⟨rfl, .refl hs.sound⟩

/-- A parser that does not look at the context runs as it is. -/
theorem Runs.lift {p : Parser α} [hp : Keeps text p] : Runs text d n r r (liftM p) p :=
  fun _ hs _ => .ofParser fun _ _ ha => ⟨rfl, hp.later hs.sound ha⟩

/-- A parser that reads its context runs on what the registers say. -/
theorem Runs.reading {p : Context → Parser α} [hp : Keeps text (p r.context)] :
    Runs text d n r r (Machine.reading p) (p r.context) := fun _ hs _ =>
  (RunsAt.ofParser fun _ _ ha => ⟨rfl, hp.later hs.sound ha⟩).congr rfl rfl

/-- A step that is left to the parser. -/
theorem Runs.step {p : Parser α} [Keeps text p] {f : α → Machine β} {f' : α → Parser β}
    (h : ∀ a, Runs text d n r r' (f a) (f' a)) :
    Runs text d n r r' (liftM p >>= f) (p >>= f') := .bind .lift h

/-- What a machine does may depend on its registers. -/
theorem Runs.registers {f : Registers → Machine α} {p : Parser α}
    (h : Runs text d n r r' (f r) p) : Runs text d n r r' (Machine.registers >>= f) p :=
  fun s hs hn => (h s hs hn).congr rfl rfl

/-- The flags are registers only. -/
theorem Runs.setFlags {flags : Flags} {f : Unit → Machine α} {p : Parser α}
    (h : Runs text d n { r with flags } r' (f ()) p) :
    Runs text d n r r' (Machine.setFlags flags >>= f) p := fun s hs hn =>
  (h s hs hn).congr rfl rfl

/-- From the other facts on the run gives back the registers. -/
theorem Runs.setFacts {facts : FunctionFacts} {f : Unit → Machine α} {p : Parser α}
    (h : Runs text d n { r with facts } r' (f ()) p) :
    Runs text d n r r' (Machine.setFacts facts >>= f) p := fun s hs hn => .setFacts (h s hs hn)

/-- A machine and a parser choose alike, and give back the registers either way. -/
theorem Runs.ite {c : Prop} [Decidable c] {m m' : Machine α} {p p' : Parser α}
    (h : c → Runs text d n r r' m p) (h' : ¬c → Runs text d n r r' m' p') :
    Runs text d n r r' (if c then m else m') (if c then p else p') := by
  split
  · exact h ‹_›
  · exact h' ‹_›

/-- A check that is made under a condition. -/
theorem Runs.refuse {c : Prop} [Decidable c] {p : Parser Unit} [Keeps text p]
    {f : Unit → Machine α} {f' : Unit → Parser α} (h : Runs text d n r r' (f ()) (f' ())) :
    Runs text d n r r' (if c then liftM p >>= f else f ()) (if c then p >>= f' else f' ()) :=
  .ite (fun _ => .step fun _ => h) fun _ => h

/-- A check that is made if a condition does not hold. -/
theorem Runs.require {c : Prop} [Decidable c] {p : Parser Unit} [Keeps text p]
    {f : Unit → Machine α} {f' : Unit → Parser α} (h : Runs text d n r r' (f ()) (f' ())) :
    Runs text d n r r' (if c then f () else liftM p >>= f) (if c then f' () else p >>= f') :=
  .ite (fun _ => h) fun _ => .step fun _ => h

/-- A construct with other flags around it. -/
theorem Runs.withFlags {m : Machine α} {p : Parser α} {f : Flags → Flags}
    (h : Runs text d n { r with flags := f r.flags } { r with flags := f r.flags } m p) :
    Runs text d n r r (Machine.withFlags f m) p := by
  have hp : p = p >>= Pure.pure := (bind_pure p).symm
  rw [hp]
  exact .registers (.setFlags (.bind h fun a => .setFlags .pure))

/-- The parts of a function with its own flags and facts. -/
theorem Runs.inFunction {flags : Flags} {facts : FunctionFacts} {m : Machine α} {p : Parser α}
    (h : Runs text d n { r with flags, facts } { r with flags, facts } m p) :
    Runs text d n r r (Machine.inFunction flags facts m) (ownSuspensions p) := by
  intro s hs hn
  have h₁ : Later text s { s with suspension := none } :=
    .same hs.sound rfl rfl rfl rfl fun _ hf => absurd hf.symm (Option.some_ne_none _)
  have hbody : RunsAt d { r with flags, facts } { s with suspension := none }
      (do
        let a ← m
        leaveFunction ⟨r.flags, r.facts, s.suspension⟩
        return a)
      (do
        let a ← p
        modify fun t => { t with suspension := s.suspension }
        return a) (Restored text r s) := by
    refine .bind (h _ (h₁.proper hs) hn) fun a r₂ s₂ ⟨hr, h₂⟩ => ?_
    subst hr
    have h₃ : Later text s₂ { s₂ with suspension := s.suspension } :=
      .same h₂.sound rfl rfl rfl rfl hs.sound.isSyntactic
    exact (RunsAt.pure (r := r) ⟨rfl, (h₁.trans h₂).trans h₃⟩).congr rfl rfl
  exact hbody.congr rfl rfl

/-- What holds of the results of the parser, holds of those of the machine. -/
theorem RunsAt.and {m : Machine α} {p : Parser α} {Q : α → Registers → State → Prop}
    {P : α → State → Prop} (h : RunsAt d r s m p Q) (hp : ∀ a s', p s = .ok (a, s') → P a s') :
    RunsAt d r s m p fun a r₁ s₁ => Q a r₁ s₁ ∧ P a s₁ := by
  obtain ⟨hdepths, houtcome⟩ := h
  refine ⟨hdepths, ?_⟩
  generalize (m r s).outcome = outcome at houtcome
  generalize p s = out at houtcome hp
  cases houtcome with
  | abort e => exact .abort e
  | ok hq => exact .ok ⟨hq, hp _ _ rfl⟩

/-- A loop has fuel for all of its rounds. -/
theorem Runs.iterate {σ : Type} {step : σ → Machine (Round σ β)} {step' : σ → Parser (Round σ β)}
    (h : ∀ a, Runs text d n r r (step a) (step' a))
    (hp : ∀ a, Progresses text Round.isNext (step' a)) (a : σ) :
    Runs text d n r r (Machine.iterate step a) (Parser.iterate step' a) := by
  have hrounds : ∀ fuel a s, s.Proper text → n ≤ s.consumed → s.remaining < fuel →
      RunsAt d r s (rounds step fuel a) (Parser.iterate step' a) (Restored text r s) := by
    intro fuel
    induction fuel with
    | zero => exact fun _ _ _ _ hf => absurd hf (Nat.not_lt_zero _)
    | succ fuel ih =>
      intro a s hs hn hf
      have hround : RunsAt d r s (rounds step (fuel + 1) a)
          (step' a >>= Round.andThen fun a' s' =>
            if s'.remaining < s.remaining then Parser.iterate step' a' s' else unexpected s')
          (Restored text r s) := by
        refine .bind ((h a s hs hn).and fun _ _ => (hp a).lt hs.sound)
          fun round r₁ s₁ ⟨⟨hr, h₁⟩, hlt⟩ => ?_
        subst hr
        cases round with
        | done b => exact .pure ⟨rfl, h₁⟩
        | next a' =>
          have hless := remaining_lt hs (h₁.proper hs) (hlt rfl)
          exact ((ih a' s₁ (h₁.proper hs) (Nat.le_trans hn h₁.consumed_le) (by omega)).imp
            fun _ _ _ h => ⟨h.1, h₁.trans h.2⟩).congr rfl (if_pos hless)
      refine hround.congr rfl ?_
      rw [Parser.iterate]
      show _ = Except.bind _ _
      cases step' a s with
      | error e => rfl
      | ok out =>
        obtain ⟨round, s₁⟩ := out
        cases round <;> rfl
  exact fun s hs hn => (hrounds _ a s hs hn (Nat.lt_succ_self _)).congr rfl rfl

/-- A list whose rounds make progress runs as the list of the parser. -/
theorem Runs.many {m : Machine (Option α)} {p : Parser (Option α)} (h : Runs text d n r r m p)
    (hp : Progresses text Option.isSome p) :
    Runs text d n r r (Machine.many m) (Parser.many p) := by
  refine .iterate (fun found => .bind h fun item => ?_) (fun found => ?_) []
  · cases item with
    | none => exact .pure
    | some a => exact .pure
  · refine ⟨fun hs hround hnext => ?_⟩
    obtain ⟨item, s₁, hitem, hround⟩ := bind_ok hround
    cases item with
    | none =>
      cases (pure_ok hround).1
      exact absurd hnext Bool.false_ne_true
    | some a =>
      obtain ⟨-, rfl⟩ := pure_ok hround
      exact hp.lt hs hitem rfl

/-- A recursion has fuel for all of its levels, if a token is taken before each of them. -/
theorem Runs.recursive {body : Machine α → Machine α}
    {body' : (Context → Parser α) → Context → Parser α}
    (hbody : ∀ n m p, (∀ r, r.depth = d → Runs text d (n + 1) r r m (p r.context)) →
      ∀ r, r.depth = d → Runs text d n r r (body m) (body' p r.context)) (hr : r.depth = d) :
    Runs text d n r r (Machine.recursive body) (Parser.recursive body' r.context) := by
  have hlevels : ∀ fuel r s, r.depth = d → s.Proper text → s.remaining < fuel →
      RunsAt d r s (levels body fuel) (Parser.recursive body' r.context) (Restored text r s) := by
    intro fuel
    induction fuel with
    | zero => exact fun _ _ _ _ hf => absurd hf (Nat.not_lt_zero _)
    | succ fuel ih =>
      intro r s hr hs hf
      refine (hbody s.consumed (levels body fuel) (fun ctx s' =>
        if s'.remaining < s.remaining then Parser.recursive body' ctx s' else unexpected s')
        (fun r₁ hr₁ s₁ hs₁ hn => ?_) r hr s hs (Nat.le_refl _)).congr rfl (by rw [Parser.recursive])
      have hless := remaining_lt hs hs₁ hn
      exact (ih r₁ s₁ hr₁ hs₁ (by omega)).congr rfl (if_pos hless)
  exact fun s hs _ => (hlevels _ r s hr hs (Nat.lt_succ_self _)).congr rfl rfl

/-- A run that stays below a depth stays below each greater one. -/
theorem RunsAt.mono {d' : Nat} {m : Machine α} {p : Parser α} {Q : α → Registers → State → Prop}
    (h : RunsAt d' r s m p Q) (hd : d ≤ d') : RunsAt d r s m p Q :=
  ⟨fun depth hm => ⟨Nat.le_trans hd (h.depths depth hm).1, (h.depths depth hm).2⟩, h.outcome⟩

/-- Puts in a depth that is within the bounds. -/
theorem RunsAt.setDepth {depth : Nat} {f : Unit → Machine α} {p : Parser α}
    {Q : α → Registers → State → Prop} (hd : d ≤ depth ∧ depth ≤ maxDepth + 1)
    (h : RunsAt d { r with depth } s (f ()) p Q) :
    RunsAt d r s (Machine.setDepth depth >>= f) p Q where
  depths := List.forall_mem_cons.mpr ⟨hd, h.depths⟩
  outcome := h.outcome

/-- A construct one level further in, where there may be one. -/
theorem RunsAt.deeper {m : Machine α} {p : Parser α} {P Q : α → Registers → State → Prop}
    (hlt : r.depth < maxDepth)
    (h : RunsAt (r.depth + 1) { r with depth := r.depth + 1 } s m p P)
    (hpq : ∀ a r₁ s₁, P a r₁ s₁ →
      r₁.depth = r.depth + 1 ∧ Q a { r₁ with depth := r.depth } s₁) :
    RunsAt r.depth r s (Machine.deeper m) p Q := by
  have henter : RunsAt r.depth r s enter (Pure.pure ()) fun _ r₁ s₁ =>
      r₁ = { r with depth := r.depth + 1 } ∧ s₁ = s := by
    refine .registers (.setDepth ⟨Nat.le_succ _, by omega⟩ ?_)
    rw [if_neg (by omega)]
    exact .pure ⟨rfl, rfl⟩
  have hrest : RunsAt r.depth r s (Machine.deeper m)
      (Pure.pure () >>= fun _ => p >>= fun a => Pure.pure () >>= fun _ => Pure.pure a) Q := by
    refine .bind henter fun _ r₁ s₁ ⟨hr, hs⟩ => ?_
    subst hr hs
    refine .bind (h.mono (Nat.le_succ _)) fun a r₂ s₂ hp => ?_
    obtain ⟨hdepth, hq⟩ := hpq a r₂ s₂ hp
    refine .bind (P := fun _ r₃ s₃ => r₃ = { r₂ with depth := r.depth } ∧ s₃ = s₂) ?_
      fun _ r₃ s₃ ⟨hr, hs⟩ => ?_
    · have hback : r₂.depth - 1 = r.depth := by omega
      have hset : RunsAt r.depth r₂ s₂ (Machine.setDepth (r₂.depth - 1) >>= Pure.pure)
          (Pure.pure ()) fun _ r₃ s₃ => r₃ = { r₂ with depth := r.depth } ∧ s₃ = s₂ := by
        rw [hback]
        exact .setDepth ⟨Nat.le_refl _, by omega⟩ (.pure ⟨rfl, rfl⟩)
      exact .registers (hset.congr rfl rfl)
    · subst hr hs
      exact .pure hq
  refine hrest.congr rfl ?_
  show p s = (p >>= Pure.pure) s
  rw [bind_pure]

/-- One level more than there may be. -/
theorem RunsAt.deeper_maxDepth {m : Machine α} {Q : α → Registers → State → Prop}
    (hd : r.depth = maxDepth) :
    RunsAt r.depth r s (Machine.deeper m) (failHere .nestingTooDeep) Q := by
  have henter : RunsAt r.depth r s enter (failHere .nestingTooDeep : Parser Unit)
      fun _ _ _ => False := by
    refine .registers (.setDepth ⟨Nat.le_succ _, by omega⟩ ?_)
    rw [if_pos (by omega)]
    exact .ofParser fun _ _ h => (failHere_ok h).elim
  have hrest : RunsAt r.depth r s (Machine.deeper m)
      ((failHere .nestingTooDeep : Parser Unit) >>= fun _ => failHere .nestingTooDeep) Q :=
    .bind henter fun _ _ _ h => h.elim
  exact hrest.congr rfl rfl

end

end Machine

end EcmaScript

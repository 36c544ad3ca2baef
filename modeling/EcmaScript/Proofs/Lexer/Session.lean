import EcmaScript.Proofs.Lexer.Trace

/-!
# Sessions with a lexer

Whoever reads with a lexer may take snapshots of it and go back to them, the last one first. A
snapshot keeps only how many faults had been met, so going back is right as long as nothing that
was done in between has touched these: a step may add faults and may take back those that were
met behind the oldest snapshot in reach, but no others. So whatever is tried between a snapshot
and the return to it leaves the lexer as it was.
-/

namespace EcmaScript

namespace Lexer

/-- What can be done with a lexer. -/
inductive Step where
  | scan
  | skipHashbang
  | rescanSlash
  | rescanTemplate
  | save
  | restore
deriving Repr, DecidableEq

/-- A lexer with the snapshots that were taken of it, the last one first. -/
structure Session where
  /-- The lexer as it is now. -/
  lexer : Lexer
  /-- The snapshots that can be gone back to. -/
  saved : List Snapshot

namespace Session

/-- A session before anything is read of a text. -/
def ofString (text : String) : Session := ⟨.ofString text, []⟩

/-- The session after a step. A template is resumed only at a closing brace, and there must be a
snapshot to go back to. -/
def step? (s : Session) : Step → Option Session
  | .scan => some { s with lexer := s.lexer.scan }
  | .skipHashbang => some { s with lexer := s.lexer.skipHashbang }
  | .rescanSlash => some { s with lexer := s.lexer.rescanSlash }
  | .rescanTemplate =>
    if s.lexer.token.kind = .mark .closeBrace then some { s with lexer := s.lexer.rescanTemplate }
    else none
  | .save => some { s with saved := s.lexer.save :: s.saved }
  | .restore =>
    match s.saved with
    | [] => none
    | snapshot :: older => some ⟨s.lexer.restore snapshot, older⟩

/-- The session after several steps. -/
def run? (s : Session) : List Step → Option Session
  | [] => some s
  | step :: more => (s.step? step).bind (run? · more)

end Session

/-- The steps can be done from the lexer on, and go back to every snapshot that they take. -/
def CanTry (lexer : Lexer) (steps : List Step) : Prop :=
  ∃ last, Session.run? ⟨lexer, []⟩ steps = some ⟨last, []⟩

/-- The lexer after some steps were tried on it. -/
def lookAhead? (lexer : Lexer) (steps : List Step) : Option Lexer :=
  (Session.run? ⟨lexer, []⟩ steps).map fun s => s.lexer.restore lexer.save

namespace Session

variable {s t : Session} {steps : List Step}

/-- Steps can be done one after the other. -/
theorem run?_append (s : Session) (xs ys : List Step) :
    s.run? (xs ++ ys) = (s.run? xs).bind (run? · ys) := by
  induction xs generalizing s with
  | nil => rfl
  | cons x xs ih =>
    rw [List.cons_append, run?, run?, Option.bind_assoc]
    exact congrArg _ (funext ih)

/-- What a step keeps is kept by any number of steps. -/
theorem run?_keeps {P : Session → Prop}
    (hstep : ∀ {s t step}, s.step? step = some t → P s → P t) (h : s.run? steps = some t)
    (hs : P s) : P t := by
  induction steps generalizing s with
  | nil =>
    obtain rfl := Option.some.inj h
    exact hs
  | cons step more ih =>
    obtain ⟨next, hnext, hmore⟩ := Option.bind_eq_some_iff.mp h
    exact ih hmore (hstep hnext hs)

/-- Steps that leave the older snapshots alone can be done whatever these are. -/
theorem run?_below {base : List Snapshot} (h : s.run? steps = some t) :
    run? ⟨s.lexer, s.saved ++ base⟩ steps = some ⟨t.lexer, t.saved ++ base⟩ := by
  induction steps generalizing s with
  | nil =>
    obtain rfl := Option.some.inj h
    rfl
  | cons step more ih =>
    obtain ⟨next, hnext, hmore⟩ := Option.bind_eq_some_iff.mp h
    have hbelow : step? ⟨s.lexer, s.saved ++ base⟩ step =
        some ⟨next.lexer, next.saved ++ base⟩ := by
      cases step with
      | rescanTemplate =>
        simp only [step?] at hnext ⊢
        split at hnext
        · rename_i hk
          rw [if_pos hk, ← Option.some.inj hnext]
        · exact nomatch hnext
      | restore =>
        obtain ⟨lexer, saved⟩ := s
        cases saved with
        | nil => exact nomatch hnext
        | cons snapshot older =>
          obtain rfl := Option.some.inj hnext
          rfl
      | _ =>
        obtain rfl := Option.some.inj hnext
        rfl
    rw [run?, hbelow]
    exact ih hmore

/-- The faults `old` were met before anything that can be taken back. -/
structure Keeps (old : List Fault) (s : Session) : Prop where
  /-- They are still there. -/
  isPrefix : old <+: s.lexer.faults.toList
  /-- No snapshot was taken before them. -/
  length_le : ∀ snapshot ∈ s.saved, old.length ≤ snapshot.faultCount

/-- Before any step is tried, nothing that was met can be taken back. -/
theorem keeps_start (lexer : Lexer) : Keeps lexer.faults.toList ⟨lexer, []⟩ :=
  ⟨List.prefix_rfl, fun _ hm => absurd hm List.not_mem_nil⟩

/-- No step touches the faults that were met before the oldest snapshot. -/
theorem Keeps.step {old : List Fault} {step : Step} (h : s.step? step = some t)
    (hs : s.Keeps old) : t.Keeps old := by
  -- Reading on, or again, only adds faults.
  have hmore : ∀ {lexer : Lexer} {more : List Fault},
      lexer.faults.toList = s.lexer.faults.toList ++ more →
        Keeps old { s with lexer := lexer } := fun he =>
    ⟨he ▸ hs.isPrefix.trans (List.prefix_append _ _), hs.length_le⟩
  cases step with
  | scan =>
    obtain rfl := Option.some.inj h
    exact hmore (faults_scan s.lexer)
  | skipHashbang =>
    obtain rfl := Option.some.inj h
    have hstay : s.lexer.skipHashbang.faults.toList = s.lexer.faults.toList ++ [] := by
      rw [List.append_nil, skipHashbang]
      split
      · rfl
      · rfl
    exact hmore hstay
  | rescanSlash =>
    obtain rfl := Option.some.inj h
    by_cases hk : s.lexer.token.kind = .mark .slash ∨ s.lexer.token.kind = .mark .slashAssign
    · rw [rescanSlash_eq hk]
      exact hmore Array.toList_appendList
    · have hstay : s.lexer.rescanSlash = s.lexer := by
        rw [rescanSlash, if_neg (by simpa using hk)]
      rw [hstay]
      exact hs
  | rescanTemplate =>
    simp only [step?] at h
    split at h
    · obtain rfl := Option.some.inj h
      rw [rescanTemplate_eq]
      exact hmore Array.toList_appendList
    · cases h
  | save =>
    obtain rfl := Option.some.inj h
    refine ⟨hs.isPrefix, fun snapshot hm => ?_⟩
    rcases List.mem_cons.mp hm with rfl | hm
    · exact hs.isPrefix.length_le
    · exact hs.length_le snapshot hm
  | restore =>
    obtain ⟨lexer, saved⟩ := s
    cases saved with
    | nil => cases h
    | cons snapshot older =>
      obtain rfl := Option.some.inj h
      refine ⟨?_, fun other hm => hs.length_le other (List.mem_cons_of_mem _ hm)⟩
      change old <+: (lexer.faults.take snapshot.faultCount).toList
      rw [Array.take_eq_extract, Array.toList_extract, List.extract_eq_take_drop]
      exact List.prefix_take_iff.mpr ⟨hs.isPrefix, hs.length_le snapshot List.mem_cons_self⟩

/-- Going back to a snapshot gives the lexer back that it was taken of, if its faults are still
there. -/
theorem restore_save {lexer last : Lexer} (h : lexer.faults.toList <+: last.faults.toList) :
    last.restore lexer.save = lexer := by
  have hf : last.faults.take lexer.faults.size = lexer.faults := by
    apply Array.toList_inj.mp
    rw [Array.take_eq_extract, Array.toList_extract, List.extract_eq_take_drop]
    exact (List.prefix_iff_eq_take.mp h).symm
  simp only [restore, save, hf]

/-- Trying some steps between a snapshot and the return to it gives the session back. -/
theorem run?_try {tried : List Step} (h : s.lexer.CanTry tried) :
    s.run? (.save :: (tried ++ [.restore])) = some s := by
  obtain ⟨last, hrun⟩ := h
  have htold := (run?_keeps Keeps.step hrun (keeps_start s.lexer)).isPrefix
  have hbelow : run? ⟨s.lexer, s.lexer.save :: s.saved⟩ tried =
      some ⟨last, s.lexer.save :: s.saved⟩ := run?_below hrun
  change run? ⟨s.lexer, s.lexer.save :: s.saved⟩ (tried ++ [.restore]) = some s
  rw [run?_append, hbelow]
  change some (Session.mk (last.restore s.lexer.save) s.saved) = some s
  rw [restore_save htold]

end Session

/-- Steps that can be tried leave the lexer as it was. -/
theorem lookAhead?_eq {lexer : Lexer} {steps : List Step} (h : lexer.CanTry steps) :
    lexer.lookAhead? steps = some lexer := by
  obtain ⟨last, hrun⟩ := h
  have htold := (Session.run?_keeps Session.Keeps.step hrun (Session.keeps_start lexer)).isPrefix
  rw [lookAhead?, hrun]
  exact congrArg some (Session.restore_save htold)

end Lexer

/-- What is tried on a lexer cannot be seen afterwards. At any point of a session, steps that go
back to every snapshot they take may be done between a snapshot and the return to it, or as a
look ahead: the session is what it was, in its token, in what a slash would mean and in its
faults, and goes on as it would have without them. -/
theorem session_tries_unseen (text : String) {before tried : List Lexer.Step} {s : Lexer.Session}
    (hs : (Lexer.Session.ofString text).run? before = some s) (h : s.lexer.CanTry tried) :
    s.run? (.save :: (tried ++ [.restore])) = some s ∧ s.lexer.lookAhead? tried = some s.lexer ∧
      ∀ after, (Lexer.Session.ofString text).run?
          (before ++ (.save :: (tried ++ [.restore]) ++ after)) =
        (Lexer.Session.ofString text).run? (before ++ after) := by
  have htry := Lexer.Session.run?_try h
  refine ⟨htry, Lexer.lookAhead?_eq h, fun after => ?_⟩
  rw [Lexer.Session.run?_append, Lexer.Session.run?_append, hs, Option.bind_some, Option.bind_some,
    Lexer.Session.run?_append, htry, Option.bind_some]

/-- The theorem where a slash is read again as the start of a regular expression, with a fault
before and another one behind it, which is met twice. -/
theorem session_tries_unseen_regex : ∃ s : Lexer.Session,
    (Lexer.Session.ofString "@ a /b/ 'c").run? [.scan, .save, .scan, .scan] = some s ∧
      s.lexer.faults.size = 1 ∧
      s.lexer.CanTry [.rescanSlash, .save, .scan, .restore, .scan] ∧
      s.run? [.save, .rescanSlash, .save, .scan, .restore, .scan, .restore] = some s := by
  refine ⟨_, rfl, by decide +kernel, ⟨_, rfl⟩, ?_⟩
  exact (@session_tries_unseen "@ a /b/ 'c" [.scan, .save, .scan, .scan]
    [.rescanSlash, .save, .scan, .restore, .scan] _ rfl ⟨_, rfl⟩).1

end EcmaScript

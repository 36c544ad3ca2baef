import EcmaScript.Proofs.Build.Script
import EcmaScript.Proofs.Implied.Tandem
import EcmaScript.Proofs.Slice.Script
import EcmaScript.Proofs.Syntax.Faithful

/-!
# Semicolons that may be left out

A statement or a field of a class that ends without a semicolon ends where one was implied. The text
with a semicolon put in there is parsed in step with the text without it, up to the end of both, and
so both have the same tree but for the places of the nodes.
-/

namespace EcmaScript

open Relation Lexer

/-- Whether the node is one whose semicolon may be left out. -/
def Node.mayOmitSemicolon {form : Form} : Node form → Bool
  | .variableStatement _ | .expressionStatement .. | .doWhile .. | .returnValue .. | .breakFrom ..
  | .continueWith .. | .throwValue .. | .debugger _ | .field .. => true
  | _ => false

section

variable {text : String} {lo : Nat} {front : Front}

/-- What can be reached from a placed node is placed. -/
theorem Part.Reaches.placed {p q : Part} (h : p.Reaches q)
    (hp : Sketch.EachPlaced text lo front p.node.sketch) :
    Sketch.EachPlaced text lo front q.node.sketch := by
  induction h with
  | refl => exact hp
  | tail _ hstep ih => exact Node.placed_parts _ ih _ hstep

/-- A placed node whose semicolon may be left out ends with one or where one was implied. -/
theorem Node.ends_of_placed {form : Form} {x : Node form} (h : x.mayOmitSemicolon = true)
    (hx : Sketch.EachPlaced text lo front x.sketch) :
    ∃ start stop, x.span = .ofOffsets start stop ∧ start < stop ∧ IsBoundary text start ∧
      IsBoundary text stop ∧ front.Ends stop := by
  have hends : ∀ {span : Span} {parts : List Sketch},
      Sketch.EachPlaced text lo front (Sketch.owing span .ending parts) →
        ∃ start stop, span = .ofOffsets start stop ∧ start < stop ∧ IsBoundary text start ∧
          IsBoundary text stop ∧ front.Ends stop := by
    intro span parts hp
    obtain ⟨start, stop, hspan, -, hlt, -, hs, he, hpaid, -, -⟩ := hp.of_mk
    exact ⟨start, stop, hspan, hlt, hs, he, hpaid⟩
  cases x with
  | variableStatement d =>
    cases d
    exact hends hx
  | expressionStatement | doWhile | returnValue | breakFrom | continueWith | throwValue | debugger
  | field =>
    exact hends hx
  | _ => cases h

/-- What ends where a semicolon does ends with it. -/
theorem Token.IsRead.getLast?_slice {t : Token} {start : Nat} (h : t.IsRead text)
    (hk : t.kind = .mark .semicolon) (hs : IsBoundary text start) (hlt : start < t.stop.offset) :
    ∃ slice, (Span.ofOffsets start t.stop.offset).slice? text = some slice ∧
      slice.toList.getLast? = some ';' := by
  have htext : t.text = ";" := by
    have hspells := h.spells
    rw [hk] at hspells
    exact hspells
  obtain ⟨readings, r, lexer, htrace, -, rfl⟩ := h
  obtain ⟨⟨before, hbefore, hoffset⟩, ⟨mark, hmark, hstop⟩, -⟩ := htrace.place
  obtain rfl : mark = [';'] := by
    rw [← toList_textUntil hmark hstop]
    exact congrArg String.toList htext
  have hwidth : byteLength [';'] = 1 := rfl
  have hstart : lexer.token.start.offset = byteLength before := hoffset.trans (Nat.zero_add _)
  rw [hmark] at hbefore
  change text.toList = _ at hbefore
  obtain ⟨early, middle, behind, hsplit, hearly, hmiddle⟩ :=
    hs.between ⟨before, _, hbefore, hstart.symm⟩ (by omega)
  have hcut : byteLength (early ++ middle) = byteLength before := by
    rw [byteLength_append, hmiddle, hstart]
  have hsame : (early ++ middle, behind) = (before, [';'] ++ lexer.token.stop.rest) := by
    refine Option.some.inj ?_
    rw [← splitBytes?_append, ← splitBytes?_append, hcut, ← hbefore, hsplit, List.append_assoc]
  obtain ⟨-, rfl⟩ := Prod.mk.inj hsame
  refine ⟨.ofList (middle ++ [';']), ?_, by simp⟩
  rw [← List.append_assoc middle] at hsplit
  rw [← hearly, hstop, hstart, ← hcut, byteLength_append, Nat.add_assoc, ← byteLength_append]
  exact Span.slice?_ofOffsets hsplit

end

namespace Parser

variable {j : Seam} {body : List Statement} {last : State}

/-- The script with a semicolon put in where one was implied is accepted, and differs from the one
without it in its spans alone. -/
theorem parse_filled (hrun : script (State.ofString j.text) = .ok (body, last))
    (hclean : last.lexer.faults = #[]) (hsemi : j.filling = ';')
    (himplied : j.offset ∈ last.implied) : ∃ other, parse j.filled = .ok other ∧
      other.relocate (fun _ _ => .unset) =
        (Program.ofStatements body).relocate fun _ _ => .unset := by
  have hend := ((script_meets j.text).ok hrun).2
  have himplies : Seam.Implies j last.post := ⟨hsemi, hend, hclean, himplied⟩
  obtain ⟨hway, hfollows⟩ :=
    script_follows (w := j.implied _ himplies) (t := State.ofString j.filled) rfl hrun
  -- At the end the semicolon has been implied, so at the start a token is still to be taken before.
  have hlast (n : Nat) : Seam.Awaits j last.post n last.post := ⟨.refl, Or.inl himplied⟩
  have hfirst : Seam.Awaits j last.post 1 (State.ofString j.text).post :=
    .of_way himplies hway (hlast 1) (Nat.le_refl 1) (Nat.le_refl 1)
  obtain ⟨other, hother, hbeside⟩ := hfollows (hlast 0) (Or.inr himplied)
    (himplies.inStep hfirst)
  refine ⟨_, parse_eq_ok hother hbeside.clean, ?_⟩
  simp only [Program.relocate, Program.body_ofStatements, List.map_map]
  congr 1
  refine List.map_congr_left fun statement _ => ?_
  exact statement.mapData_mapData

end Parser

/-- The text with a semicolon put in at an offset. -/
def insertSemicolon (text : String) (offset : Nat) : String :=
  match splitBytes? offset text.toList with
  | some (front, behind) => .ofList (front ++ ';' :: behind)
  | none => text

/-- A semicolon that was left out makes no difference: at any node of an accepted script whose
semicolon may be left out and that does not end with one, the script with a semicolon put in behind
the node is accepted, and its tree is the same but for the spans. -/
theorem parse_insertSemicolon {text : String} {program : Program} (h : parse text = .ok program)
    {p q : Part} (hp : p ∈ program.parts) (hq : p.Reaches q)
    (hkind : q.node.mayOmitSemicolon = true)
    (hopen : ∀ slice, q.node.span.slice? text = some slice → slice.toList.getLast? ≠ some ';') :
    ∃ other, parse (insertSemicolon text (Position.offset q.node.span.stop)) = .ok other ∧
      other.relocate (fun _ _ => .unset) = program.relocate fun _ _ => .unset := by
  obtain ⟨body, last, hrun, hclean, rfl⟩ := parse_ok_inv h
  obtain ⟨⟨hkept, hin⟩, -⟩ := (Parser.script_meets text).ok hrun
  obtain ⟨statement, hm, rfl⟩ := List.mem_map.mp hp
  rw [Program.body_ofStatements] at hm
  obtain ⟨start, stop, hspan, hlt, hs, he, hends⟩ :=
    Node.ends_of_placed hkind (hq.placed (hin.placed_of_mem hm).each)
  have himplied : stop ∈ last.implied := by
    refine hends.resolve_left ?_
    rintro ⟨t, ht, hsemi, rfl⟩
    have hread := (hkept.sound.place.taken t ht).isRead hclean
    obtain ⟨slice, hslice, hlast⟩ := hread.getLast?_slice hsemi hs hlt
    exact hopen slice (hspan ▸ hslice) hlast
  obtain ⟨j, hsemi, rfl, rfl⟩ := Seam.exists_of_isBoundary ';' (by decide) he
  obtain ⟨other, hother, hsame⟩ := Parser.parse_filled hrun hclean hsemi himplied
  have hfilled : insertSemicolon j.text (Position.offset q.node.span.stop) = j.filled := by
    rw [hspan, insertSemicolon, Seam.text, String.toList_ofList]
    show (match splitBytes? j.offset _ with | some (front, behind) => _ | none => _) = _
    rw [Seam.offset, splitBytes?_append, Seam.filled, hsemi]
  exact ⟨other, hfilled ▸ hother, hsame⟩

/-- A block with a loop in front of a slash. -/
def loopBeforeSlash : Accepted "{do;while(a)/b/}" fun program =>
    match program.body with
    | [.blockStatement (.block _ [.doWhile span _ _, .expressionStatement _ (.regex _)] _)] =>
      span.slice? "{do;while(a)/b/}" == some "do;while(a)" && Position.offset span.stop == 12
    | _ => false :=
  .ofRun (by decide +kernel)

/-- The theorem at a loop in a block: behind it a slash starts a regular expression, which the lexer
of the text without the semicolon takes for an operator at first. -/
theorem parse_insertSemicolon_loop : ∃ program other, parse "{do;while(a)/b/}" = .ok program ∧
    parse "{do;while(a);/b/}" = .ok other ∧
      other.relocate (fun _ _ => .unset) = program.relocate fun _ _ => .unset := by
  obtain ⟨program, h, hok⟩ := loopBeforeSlash
  simp only at hok
  split at hok
  · rename_i block span loop test behind regex scope hbody
    obtain ⟨hslice, hstop⟩ := Bool.and_eq_true_iff.mp hok
    let inner : Node .block := .block block
      [.doWhile span loop test, .expressionStatement behind (.regex regex)] scope
    have hq : Part.Reaches ⟨.complete, .blockStatement inner⟩
        ⟨.complete, .doWhile span loop test⟩ :=
      .head (b := ⟨.complete, inner⟩) List.mem_cons_self (.single List.mem_cons_self)
    obtain ⟨other, hother, hsame⟩ := parse_insertSemicolon h (Program.mem_parts hbody) hq rfl
      fun slice hs => by
        obtain rfl := Option.some.inj ((eq_of_beq hslice).symm.trans hs)
        decide
    have hinsert : insertSemicolon "{do;while(a)/b/}" 12 = "{do;while(a);/b/}" := by
      decide +kernel
    change parse (insertSemicolon _ (Position.offset span.stop)) = _ at hother
    rw [eq_of_beq hstop, hinsert] at hother
    exact ⟨program, other, h, hother, hsame⟩
  · cases hok

end EcmaScript

import EcmaScript.Text.Span

/-!
# Cursors of one text

A cursor reaches another one of the same text when some characters lie between the two and
the offsets differ by exactly the bytes of these. Cutting a text at the offsets of such
cursors gives the characters between them.
-/

namespace EcmaScript

namespace Cursor

/-- The second cursor is the first one moved over some characters. -/
def Reaches (c d : Cursor) : Prop :=
  ∃ front, c.rest = front ++ d.rest ∧ d.offset = c.offset + byteLength front

/-- A cursor reaches itself. -/
theorem Reaches.refl (c : Cursor) : c.Reaches c := ⟨[], rfl, rfl⟩

/-- What is reached in two steps is reached. -/
theorem Reaches.trans {c d e : Cursor} (h : c.Reaches d) (k : d.Reaches e) : c.Reaches e := by
  obtain ⟨xs, hr, ho⟩ := h
  obtain ⟨ys, kr, ko⟩ := k
  refine ⟨xs ++ ys, ?_, ?_⟩
  · rw [hr, kr, List.append_assoc]
  · rw [ko, ho, byteLength_append, Nat.add_assoc]

/-- What is reached is not further ahead in the text. -/
theorem Reaches.offset_le {c d : Cursor} (h : c.Reaches d) : c.offset ≤ d.offset := by
  obtain ⟨_, _, ho⟩ := h
  omega

/-- A cursor with fewer characters left has a larger offset. -/
theorem Reaches.offset_lt {c d : Cursor} (h : c.Reaches d)
    (hl : d.rest.length < c.rest.length) : c.offset < d.offset := by
  obtain ⟨front, hr, ho⟩ := h
  cases front with
  | nil =>
    rw [hr, List.nil_append] at hl
    exact absurd hl (Nat.lt_irrefl _)
  | cons ch front =>
    have hp := ch.utf8Size_pos
    rw [byteLength_cons] at ho
    omega

/-- Behind a character the cursor is further on by its size. -/
theorem reaches_cons {c : Cursor} {ch : Char} {cs : List Char} (h : c.rest = ch :: cs) :
    c.Reaches ⟨c.offset + ch.utf8Size, cs⟩ := ⟨[ch], h, rfl⟩

/-- A cursor reaches what is behind its first character. -/
theorem reaches_mk (offset : Nat) (ch : Char) (cs : List Char) :
    Reaches ⟨offset, ch :: cs⟩ ⟨offset + ch.utf8Size, cs⟩ := ⟨[ch], rfl, rfl⟩

/-- Behind two characters the cursor is further on by their sizes. -/
theorem reaches_cons_cons {c : Cursor} {a b : Char} {cs : List Char} (h : c.rest = a :: b :: cs) :
    c.Reaches ⟨c.offset + a.utf8Size + b.utf8Size, cs⟩ :=
  (reaches_cons h).trans (reaches_mk _ _ _)

/-- The next cursor is behind the first character. -/
theorem next_eq {c : Cursor} {ch : Char} {cs : List Char} (h : c.rest = ch :: cs) :
    c.next = ⟨c.offset + ch.utf8Size, cs⟩ := by
  rw [next, h]

/-- A cursor reaches the next one. -/
theorem reaches_next (c : Cursor) : c.Reaches c.next := by
  cases h : c.rest with
  | nil =>
    rw [show c.next = c by rw [next, h]]
    exact .refl c
  | cons ch cs =>
    rw [next_eq h]
    exact reaches_cons h

/-- A cursor reaches those some characters further on. -/
theorem reaches_advance (n : Nat) (c : Cursor) : c.Reaches (c.advance n) := by
  induction n generalizing c with
  | zero => exact .refl c
  | succ n ih => exact c.reaches_next.trans (ih c.next)

/-- The place behind some characters that come next. -/
theorem advance_length {c : Cursor} {front rest : List Char} (h : c.rest = front ++ rest) :
    c.advance front.length = ⟨c.offset + byteLength front, rest⟩ := by
  induction front generalizing c with
  | nil =>
    obtain ⟨offset, cs⟩ := c
    obtain rfl : cs = rest := h
    rfl
  | cons ch front ih =>
    rw [List.length_cons, advance, next_eq h, ih rfl, byteLength_cons, Nat.add_assoc]

/-- The longest front of characters that satisfy a condition ends in front of the first one that
does not. -/
theorem span_front {p : Char → Bool} {front rest : List Char} (hf : ∀ ch ∈ front, p ch = true)
    (hr : ∀ ch ∈ rest.head?, p ch = false) :
    (front ++ rest).takeWhile p = front ∧ (front ++ rest).dropWhile p = rest := by
  rw [List.takeWhile_append_of_pos hf, List.dropWhile_append_of_pos hf]
  cases rest with
  | nil => exact ⟨List.append_nil front, rfl⟩
  | cons ch rest =>
    rw [List.takeWhile_cons, List.dropWhile_cons, hr ch rfl]
    exact ⟨List.append_nil front, rfl⟩

private theorem skipWhile_go_eq (p : Char → Bool) (offset : Nat) (cs : List Char) :
    skipWhile.go p offset cs = ⟨offset + byteLength (cs.takeWhile p), cs.dropWhile p⟩ := by
  induction cs generalizing offset with
  | nil => rfl
  | cons ch cs ih =>
    rw [skipWhile.go, List.takeWhile_cons, List.dropWhile_cons]
    split
    · rw [ih, byteLength_cons, Nat.add_assoc]
    · rfl

/-- What is skipped is the longest front of characters that satisfy the condition. -/
theorem skipWhile_eq (p : Char → Bool) (c : Cursor) :
    c.skipWhile p = ⟨c.offset + byteLength (c.rest.takeWhile p), c.rest.dropWhile p⟩ :=
  skipWhile_go_eq p c.offset c.rest

/-- A cursor reaches what is behind a run of characters. -/
theorem reaches_skipWhile (p : Char → Bool) (c : Cursor) : c.Reaches (c.skipWhile p) := by
  rw [skipWhile_eq]
  exact ⟨c.rest.takeWhile p, List.takeWhile_append_dropWhile.symm, rfl⟩

end Cursor

/-- A text is split where its first part ends. -/
theorem splitBytes?_append (front back : List Char) :
    splitBytes? (byteLength front) (front ++ back) = some (front, back) := by
  induction front with
  | nil => rw [byteLength_nil, List.nil_append, splitBytes?]
  | cons ch front ih =>
    have hp := ch.utf8Size_pos
    obtain ⟨n, hn⟩ : ∃ n, byteLength (ch :: front) = n + 1 :=
      ⟨byteLength (ch :: front) - 1, by rw [byteLength_cons]; omega⟩
    have hle : ch.utf8Size ≤ n + 1 := by rw [← hn, byteLength_cons]; omega
    have hsub : n + 1 - ch.utf8Size = byteLength front := by rw [← hn, byteLength_cons]; omega
    rw [hn, List.cons_append, splitBytes?, if_pos hle, hsub, ih]
    rfl

/-- As many bytes as the first part has are that part. -/
theorem takeBytes_append (front back : List Char) :
    takeBytes (byteLength front) (front ++ back) = front := by
  induction front with
  | nil =>
    cases back with
    | nil => rfl
    | cons ch back =>
      have hp := ch.utf8Size_pos
      rw [List.nil_append, byteLength_nil, takeBytes, if_neg (by omega)]
  | cons ch front ih =>
    rw [List.cons_append, byteLength_cons, takeBytes, if_pos (by omega),
      Nat.add_sub_cancel_left, ih]

/-- A text is as long as its characters are together. -/
theorem byteLength_eq_utf8ByteSize (cs : List Char) :
    byteLength cs = (String.ofList cs).utf8ByteSize := by
  induction cs with
  | nil => rfl
  | cons c cs ih =>
    have hsplit : String.ofList (c :: cs) = String.singleton c ++ String.ofList cs := by
      rw [String.singleton_eq_ofList, ← String.ofList_append]
      rfl
    rw [hsplit, String.utf8ByteSize_append, String.utf8ByteSize_singleton, byteLength_cons, ih]

/-- The characters between two cursors of one text are those that lie between them. -/
theorem Cursor.charsUntil_eq {c d : Cursor} {front : List Char} (hr : c.rest = front ++ d.rest)
    (ho : d.offset = c.offset + byteLength front) : c.charsUntil d = front := by
  rw [charsUntil, hr, ho, Nat.add_sub_cancel_left, takeBytes_append]

/-- The span of a stretch of a text has that stretch as its slice. -/
theorem Span.slice?_ofOffsets {text : String} {before middle behind : List Char}
    (h : text.toList = before ++ (middle ++ behind)) :
    (Span.ofOffsets (byteLength before) (byteLength before + byteLength middle)).slice? text =
      some (String.ofList middle) := by
  have hr : (Span.ofOffsets (byteLength before) (byteLength before + byteLength middle)).range? =
      some (byteLength before, byteLength before + byteLength middle) := by
    simp [range?, isUnset, offsets, ofOffsets, Position.ofOffset, Position.offset]
  simp only [slice?, hr, h, Option.bind_eq_bind, Option.bind_some]
  rw [if_pos (Nat.le_add_right _ _), splitBytes?_append, Option.bind_some,
    Nat.add_sub_cancel_left, splitBytes?_append]
  rfl

end EcmaScript

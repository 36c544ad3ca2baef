import EcmaScript.Text.Line
import EcmaScript.Proofs.Text.Cursor
import Mathlib.Data.Prod.Lex
import Mathlib.Data.Set.Function
import Mathlib.Order.Interval.Set.Defs
import Mathlib.Order.Monotone.Basic
import Mathlib.Tactic.SplitIfs

/-!
# Looking a place up and reading up to it

The table of line starts answers as the text itself does: whatever the offset, the binary search
in the table finds the line and the column that reading the bytes up to the offset counts. Both
are taken down to bytes here. A byte moves a place strictly ahead, so different offsets of a text
have different places.
-/

namespace EcmaScript

namespace LineColumn

/-- The place behind one more byte. -/
def afterByte (place : LineColumn) (byte : UInt8) : LineColumn :=
  if byte = lineFeed then ⟨place.line + 1, 1⟩ else ⟨place.line, place.column + 1⟩

/-- Places are ordered by line, and within a line by column. -/
def lex (place : LineColumn) : Nat ×ₗ Nat := toLex (place.line, place.column)

/-- A byte moves the place on. -/
theorem lex_afterByte (place : LineColumn) (byte : UInt8) :
    place.lex < (place.afterByte byte).lex := by
  unfold lex
  rw [Prod.Lex.toLex_lt_toLex, afterByte]
  split
  · exact Or.inl (Nat.lt_succ_self _)
  · exact Or.inr ⟨rfl, Nat.lt_succ_self _⟩

/-- Bytes move the place on. -/
theorem lex_foldl {bytes : List UInt8} (h : bytes ≠ []) (place : LineColumn) :
    place.lex < (bytes.foldl afterByte place).lex := by
  induction bytes generalizing place with
  | nil => exact absurd rfl h
  | cons byte bytes ih =>
    have hbyte := place.lex_afterByte byte
    cases bytes with
    | nil => exact hbyte
    | cons next bytes => exact hbyte.trans (ih (List.cons_ne_nil _ _) _)

/-- Bytes without a line feed move the column only. -/
theorem foldl_of_notMem {bytes : List UInt8} (h : lineFeed ∉ bytes) (place : LineColumn) :
    bytes.foldl afterByte place = ⟨place.line, place.column + bytes.length⟩ := by
  induction bytes generalizing place with
  | nil => rfl
  | cons byte bytes ih =>
    rw [List.mem_cons, not_or] at h
    rw [List.foldl_cons, afterByte, if_neg (Ne.symm h.1), ih h.2, List.length_cons]
    simp only [mk.injEq, true_and]
    omega

/-- A line and a column together are at most as far as the bytes that were read. -/
theorem line_add_column_foldl (bytes : List UInt8) (place : LineColumn) (h : 1 ≤ place.column) :
    (bytes.foldl afterByte place).line + (bytes.foldl afterByte place).column ≤
      place.line + place.column + bytes.length := by
  induction bytes generalizing place with
  | nil => exact Nat.le_refl _
  | cons byte bytes ih =>
    have hbyte : 1 ≤ (place.afterByte byte).column ∧
        (place.afterByte byte).line + (place.afterByte byte).column ≤
          place.line + place.column + 1 := by
      rw [afterByte]
      split <;> constructor <;> dsimp only <;> omega
    have hrest := ih (place.afterByte byte) hbyte.1
    rw [List.foldl_cons, List.length_cons]
    omega

end LineColumn

/-- The byte of an ASCII character is its code point, and every other byte is above those. -/
theorem toNat_of_mem_utf8EncodeChar {ch : Char} {byte : UInt8}
    (h : byte ∈ String.utf8EncodeChar ch) : byte.toNat = ch.toNat ∨ 128 ≤ byte.toNat := by
  have hvalue : ch.val.toNat = ch.toNat := rfl
  rw [String.utf8EncodeChar, hvalue] at h
  split_ifs at h with hone htwo hthree
  · rw [List.mem_singleton] at h
    left
    rw [h, UInt8.toNat_ofNat']
    omega
  all_goals
    right
    simp only [List.mem_cons, List.not_mem_nil, or_false] at h
    rcases h with rfl | rfl | rfl | rfl <;> rw [UInt8.toNat_ofNat'] <;> omega

/-- The only character with a line feed among its bytes is the line feed. -/
theorem lineFeed_mem_utf8EncodeChar {ch : Char} :
    lineFeed ∈ String.utf8EncodeChar ch ↔ ch = '\n' := by
  constructor
  · intro h
    have hcode : ch.toNat = 10 := by
      rcases toNat_of_mem_utf8EncodeChar h with hlow | hhigh
      · exact hlow.symm
      · exact absurd hhigh (by decide)
    exact Char.toNat_inj.mp hcode
  · rintro rfl
    decide

/-- The bytes of a text are those of its characters. -/
theorem utf8Bytes_eq (text : String) :
    utf8Bytes text = text.toList.flatMap String.utf8EncodeChar := by
  rw [utf8Bytes, String.toUTF8_eq_toByteArray, ← String.utf8Encode_toList, List.utf8Encode,
    List.toList_data_toByteArray]

/-- A text has as many bytes as its size says. -/
theorem length_utf8Bytes (text : String) : (utf8Bytes text).length = text.utf8ByteSize := by
  rfl

namespace LineColumn

/-- Reading a character is reading its bytes, or as many of them as are wanted. -/
theorem step_eq (place : LineColumn) (ch : Char) (n : Nat) :
    place.step ch (n + 1) = ((String.utf8EncodeChar ch).take (n + 1)).foldl afterByte place := by
  rw [step]
  split
  case isTrue h =>
    have hbytes : String.utf8EncodeChar '\n' = [lineFeed] := by decide
    rw [h, hbytes, List.take_succ_cons, List.take_nil]
    rfl
  case isFalse h =>
    have hnot : lineFeed ∉ (String.utf8EncodeChar ch).take (n + 1) := fun hmem =>
      h (lineFeed_mem_utf8EncodeChar.mp (List.mem_of_mem_take hmem))
    rw [foldl_of_notMem hnot, List.length_take, String.length_utf8EncodeChar]

/-- The place behind some bytes is come to byte by byte. -/
theorem after_eq (place : LineColumn) (n : Nat) (cs : List Char) :
    place.after n cs = ((cs.flatMap String.utf8EncodeChar).take n).foldl afterByte place := by
  fun_induction after place n cs with
  | case1 => rfl
  | case2 => rfl
  | case3 place n ch cs ih =>
    rw [ih, step_eq, List.flatMap_cons, List.take_append, List.foldl_append,
      String.length_utf8EncodeChar]

/-- Finding a place by reading characters is counting the bytes in front of it. -/
theorem ofOffset_eq (text : String) (offset : Nat) :
    ofOffset text offset = ((utf8Bytes text).take offset).foldl afterByte ⟨1, 1⟩ := by
  rw [ofOffset, after_eq, utf8Bytes_eq]

end LineColumn

namespace LineTable

/-- The lines of a text start in its first part or in its second. -/
theorem startsFrom_append (offset : Nat) (front back : List UInt8) :
    startsFrom offset (front ++ back) =
      startsFrom offset front ++ startsFrom (offset + front.length) back := by
  induction front generalizing offset with
  | nil => rfl
  | cons byte front ih =>
    have hlength : offset + 1 + front.length = offset + (byte :: front).length := by
      rw [List.length_cons]
      omega
    rw [List.cons_append, startsFrom, startsFrom, ih, hlength]
    split <;> rfl

/-- A line starts behind a byte. -/
theorem mem_startsFrom {offset start : Nat} {bytes : List UInt8}
    (h : start ∈ startsFrom offset bytes) : offset < start ∧ start ≤ offset + bytes.length := by
  induction bytes generalizing offset with
  | nil => exact absurd h List.not_mem_nil
  | cons byte bytes ih =>
    rw [List.length_cons]
    have hlater : start ∈ startsFrom (offset + 1) bytes →
        offset < start ∧ start ≤ offset + (bytes.length + 1) := by
      intro hmem
      have hbounds := ih hmem
      omega
    rw [startsFrom] at h
    split at h
    · rcases List.mem_cons.mp h with rfl | hmem
      · omega
      · exact hlater hmem
    · exact hlater h

/-- Behind each line feed a line starts. -/
theorem length_startsFrom (offset : Nat) (bytes : List UInt8) :
    (startsFrom offset bytes).length = bytes.count lineFeed := by
  induction bytes generalizing offset with
  | nil => rfl
  | cons byte bytes ih =>
    rw [startsFrom, List.count_cons]
    split
    case isTrue h => rw [List.length_cons, ih, h, beq_self_eq_true, if_pos rfl]
    case isFalse h => rw [ih, beq_false_of_ne h, if_neg Bool.false_ne_true, Nat.add_zero]

/-- Reading bytes counts the lines that start in them, and leads to a column of the last one. -/
theorem foldl_eq (bytes : List UInt8) (line : Nat) {start offset : Nat} (h : start ≤ offset) :
    bytes.foldl LineColumn.afterByte ⟨line, offset - start + 1⟩ =
      ⟨line + (startsFrom offset bytes).length,
        offset + bytes.length -
          (start :: startsFrom offset bytes).getLast (List.cons_ne_nil _ _) + 1⟩ := by
  induction bytes generalizing line start offset with
  | nil => rfl
  | cons byte bytes ih =>
    have hlength : offset + 1 + bytes.length = offset + (byte :: bytes).length := by
      rw [List.length_cons]
      omega
    rw [List.foldl_cons, LineColumn.afterByte, startsFrom]
    split
    · -- The line that starts behind this byte takes the place of the one before.
      have hrest := ih (line + 1) (le_refl (offset + 1))
      rw [Nat.sub_self, hlength] at hrest
      have hcount : line + 1 + (startsFrom (offset + 1) bytes).length =
          line + ((offset + 1) :: startsFrom (offset + 1) bytes).length := by
        rw [List.length_cons]
        omega
      rw [hrest, List.getLast_cons (List.cons_ne_nil _ _), hcount]
    · have hcolumn : offset - start + 1 + 1 = offset + 1 - start + 1 := by omega
      rw [hcolumn, ih line (by omega), hlength]

end LineTable

namespace Rank

variable {entries : Array Nat} {value last : Nat}

/-- Halving keeps the last entry that is at most the value in the part that is left. -/
theorem narrow_eq (h : ∀ i < entries.size, entries.getD i 0 ≤ value ↔ i ≤ last) (base size : Nat)
    (hbase : base ≤ last) (hlast : last < base + size) (hsize : base + size ≤ entries.size) :
    narrow entries value base size = last := by
  fun_induction narrow entries value base size with
  | case1 => omega
  | case2 base size hmany middle hbehind ih =>
    have hmiddle := h middle (by omega)
    exact ih hbase (by omega) (by omega)
  | case3 base size hmany middle hfront ih =>
    have hmiddle := h middle (by omega)
    exact ih (by omega) (by omega) (by omega)

/-- The search ends at the last entry that is at most the value, found or just passed. -/
theorem search_eq (h : ∀ i < entries.size, entries.getD i 0 ≤ value ↔ i ≤ last)
    (hlast : last < entries.size) :
    search entries value =
      if entries.getD last 0 = value then .found last else .missing (last + 1) := by
  have hle : entries.getD last 0 ≤ value := (h last hlast).mpr le_rfl
  have hsome : entries.isEmpty = false := by
    rw [Array.isEmpty_eq_false_iff_exists_mem]
    exact ⟨entries[last], Array.getElem_mem hlast⟩
  have hindex := narrow_eq h 0 entries.size (Nat.zero_le _) (by omega) (by omega)
  rw [search, hsome, if_neg Bool.false_ne_true]
  simp only [hindex]
  split
  case h_1 heq => rw [if_pos (Nat.compare_eq_eq.mp heq)]
  case h_2 hlt => rw [if_neg (Nat.compare_eq_lt.mp hlt).ne]
  case h_3 hgt => exact absurd (Nat.compare_eq_gt.mp hgt) (Nat.not_lt.mpr hle)

end Rank

namespace LineTable

/-- An offset is on the last line that does not start behind it, which is one of the table's. -/
theorem lineIndex_eq {table : LineTable} {offset last : Nat}
    (h : ∀ i < table.starts.size, table.starts.getD i 0 ≤ offset ↔ i ≤ last)
    (hlast : last < table.starts.size) : table.lineIndex offset = last := by
  rw [lineIndex, Rank.search_eq h hlast]
  by_cases hfound : table.starts.getD last 0 = offset
  · rw [if_pos hfound]
  · rw [if_neg hfound]
    exact Nat.add_sub_cancel last 1

/-- Bytes up to an offset have the starts up to it, and the bytes behind it those behind. -/
theorem starts_le_iff (front back : List UInt8) {i : Nat}
    (h : i < (0 :: startsFrom 0 (front ++ back)).toArray.size) :
    (0 :: startsFrom 0 (front ++ back)).toArray.getD i 0 ≤ front.length ↔
      i ≤ (startsFrom 0 front).length := by
  have hsplit : 0 :: startsFrom 0 (front ++ back) =
      (0 :: startsFrom 0 front) ++ startsFrom front.length back := by
    rw [startsFrom_append, Nat.zero_add, List.cons_append]
  rw [hsplit] at h ⊢
  rw [Array.getD_eq_getD_getElem?, List.getElem?_toArray]
  by_cases hfront : i ≤ (startsFrom 0 front).length
  · have hi : i < (0 :: startsFrom 0 front).length := by
      rw [List.length_cons]
      omega
    rw [List.getElem?_append_left hi, List.getElem?_eq_getElem hi, Option.getD_some]
    refine iff_of_true ?_ hfront
    rcases List.mem_cons.mp (List.getElem_mem hi) with hzero | hmem
    · omega
    · have hbound := mem_startsFrom hmem
      omega
  · have hi : (0 :: startsFrom 0 front).length ≤ i := by
      rw [List.length_cons]
      omega
    have hback : i - (0 :: startsFrom 0 front).length < (startsFrom front.length back).length := by
      rw [List.size_toArray, List.length_append] at h
      omega
    rw [List.getElem?_append_right hi, List.getElem?_eq_getElem hback, Option.getD_some]
    refine iff_of_false ?_ hfront
    have hbound := mem_startsFrom (List.getElem_mem hback)
    omega

/-- The last line that starts in some bytes is the one with that number. -/
theorem getD_starts (front back : List UInt8) :
    (0 :: startsFrom 0 (front ++ back)).toArray.getD (startsFrom 0 front).length 0 =
      (0 :: startsFrom 0 front).getLast (List.cons_ne_nil _ _) := by
  have hlast : (startsFrom 0 front).length < (0 :: startsFrom 0 front).length := by
    rw [List.length_cons]
    omega
  rw [startsFrom_append, ← List.cons_append, Array.getD_eq_getD_getElem?, List.getElem?_toArray,
    List.getElem?_append_left hlast, List.getElem?_eq_getElem hlast, Option.getD_some,
    List.getLast_eq_getElem]
  rfl

/-- The table answers as a reading of the bytes up to the offset. -/
theorem lineColumn_eq (text : String) (offset : Nat) :
    (ofString text).lineColumn offset =
      ((utf8Bytes text).take offset).foldl LineColumn.afterByte ⟨1, 1⟩ := by
  obtain ⟨n, hn⟩ : ∃ n, n = min offset text.utf8ByteSize := ⟨_, rfl⟩
  have hfront : (utf8Bytes text).take offset = (utf8Bytes text).take n := by
    rw [List.take_eq_take_min, length_utf8Bytes, hn]
  have hlength : ((utf8Bytes text).take n).length = n := by
    rw [List.length_take, length_utf8Bytes, hn]
    omega
  obtain ⟨starts, hstarts⟩ : ∃ starts, starts = startsFrom 0 ((utf8Bytes text).take n) := ⟨_, rfl⟩
  have htable : (ofString text).starts =
      (0 :: startsFrom 0 ((utf8Bytes text).take n ++ (utf8Bytes text).drop n)).toArray := by
    rw [List.take_append_drop]
    rfl
  have hindex : (ofString text).lineIndex n = starts.length := by
    apply lineIndex_eq
    · intro i hi
      rw [htable] at hi ⊢
      have hle := starts_le_iff _ _ hi
      rwa [hlength, ← hstarts] at hle
    · rw [htable, startsFrom_append, List.size_toArray, List.length_cons, List.length_append,
        ← hstarts]
      omega
  have hstart := getD_starts ((utf8Bytes text).take n) ((utf8Bytes text).drop n)
  have hread := foldl_eq ((utf8Bytes text).take n) 1 (le_refl 0)
  rw [← htable, ← hstarts] at hstart
  simp only [Nat.sub_self, Nat.zero_add, hlength, ← hstarts] at hread
  rw [hfront, hread, lineColumn, show (ofString text).size = text.utf8ByteSize from rfl, ← hn]
  simp only [hindex, hstart, Nat.add_comm 1]

end LineTable

namespace LineColumn

/-- Places advance strictly with the offset, up to the end of the text. -/
theorem strictMonoOn_ofOffset (text : String) :
    StrictMonoOn (fun offset => (ofOffset text offset).lex) (Set.Iic text.utf8ByteSize) := by
  intro i _ j hj hij
  have hsplit : (utf8Bytes text).take j =
      (utf8Bytes text).take i ++ ((utf8Bytes text).drop i).take (j - i) := by
    rw [← List.take_add, Nat.add_sub_cancel' hij.le]
  have hmore : ((utf8Bytes text).drop i).take (j - i) ≠ [] := by
    rw [← List.length_pos_iff, List.length_take, List.length_drop, length_utf8Bytes]
    have hsize : j ≤ text.utf8ByteSize := hj
    omega
  dsimp only
  rw [ofOffset_eq, ofOffset_eq, hsplit, List.foldl_append]
  exact lex_foldl hmore _

end LineColumn

/-- A table of lines answers, for every offset, what reading the text up to there counts. It has
one line more than the text has line feeds. Up to the end of the text the places are strictly
ordered as the offsets are, so that none is given twice, and no number in a place is greater by
more than one than the size of the text. -/
theorem lineTable_agrees (text : String) :
    (∀ offset, (LineTable.ofString text).lineColumn offset = LineColumn.ofOffset text offset) ∧
      (LineTable.ofString text).count = (utf8Bytes text).count lineFeed + 1 ∧
      Set.InjOn (LineTable.ofString text).lineColumn (Set.Iic text.utf8ByteSize) ∧
      StrictMonoOn (fun offset => ((LineTable.ofString text).lineColumn offset).lex)
        (Set.Iic text.utf8ByteSize) ∧
      ∀ offset, ((LineTable.ofString text).lineColumn offset).line +
        ((LineTable.ofString text).lineColumn offset).column ≤ text.utf8ByteSize + 2 := by
  have hagree : (LineTable.ofString text).lineColumn = LineColumn.ofOffset text := by
    funext offset
    rw [LineTable.lineColumn_eq, LineColumn.ofOffset_eq]
  have hmono := LineColumn.strictMonoOn_ofOffset text
  rw [hagree]
  refine ⟨fun _ => rfl, ?_, ?_, hmono, ?_⟩
  · rw [← LineTable.length_startsFrom 0]
    rfl
  · intro i hi j hj hij
    exact hmono.injOn hi hj (congrArg LineColumn.lex hij)
  · intro offset
    have hbound := LineColumn.line_add_column_foldl ((utf8Bytes text).take offset) ⟨1, 1⟩ le_rfl
    have hlength := List.length_take_le' offset (utf8Bytes text)
    rw [length_utf8Bytes] at hlength
    rw [LineColumn.ofOffset_eq]
    dsimp only at hbound
    omega

end EcmaScript

import HdlIndex.LineIndex
import HdlIndex.Proofs.Lines

/-! Places by an index of lines are places. The line that is found by halving has as many line breaks in
front of it as a walk over the text meets, and the characters of one line are enough to tell the column.
Main statements: in a text that is not too long, places by an index are in the order of their offsets,
count lines and units, and lead back to the offsets between characters; and where the offset of a place is,
for each column of a line. -/

namespace HdlIndex

namespace LineIndex

open Text (byteSize utf16Size takeBytes dropBytes lastLine IsLine)
open String.Pos.Raw (IsValid)

variable {text : String} {lines line front rest : List Char} {start : Nat}

/-! ### Starts of lines -/

theorem startsFrom_append (start : Nat) (cs ds : List Char) :
    startsFrom start (cs ++ ds) = startsFrom start cs ++ startsFrom (start + byteSize cs) ds := by
  induction cs generalizing start with
  | nil => rfl
  | cons c cs ih =>
    simp only [List.cons_append, startsFrom, byteSize, ih, ← Nat.add_assoc]
    split <;> rfl

theorem length_startsFrom (start : Nat) (cs : List Char) :
    (startsFrom start cs).length = cs.count '\n' := by
  induction cs generalizing start with
  | nil => rfl
  | cons c cs ih =>
    by_cases hbreak : c = '\n'
    · simp [startsFrom, hbreak, ih]
    · simp [startsFrom, hbreak, ih]

/-- A line starts behind the line break in front of it. -/
theorem mem_startsFrom {cs : List Char} {offset : Nat} (h : offset ∈ startsFrom start cs) :
    start < offset ∧ offset ≤ start + byteSize cs := by
  induction cs generalizing start with
  | nil => cases h
  | cons c cs ih =>
    have hpos := c.utf8Size_pos
    have hrest (h : offset ∈ startsFrom (start + c.utf8Size) cs) :
        start < offset ∧ offset ≤ start + byteSize (c :: cs) := by
      obtain ⟨hlt, hle⟩ := ih h
      rw [byteSize]
      omega
    rw [startsFrom] at h
    split at h
    · rcases List.mem_cons.1 h with rfl | h
      · rw [byteSize]
        omega
      · exact hrest h
    · exact hrest h

theorem getElem?_lineStarts (text : String) (i : Nat) :
    (ofText text).lineStarts[i]? = (0 :: startsFrom 0 text.toList)[i]? := by
  rw [ofText, List.getElem?_toArray]

theorem size_lineStarts (text : String) :
    (ofText text).lineStarts.size = text.toList.count '\n' + 1 := by
  rw [ofText, List.size_toArray, List.length_cons, length_startsFrom]

theorem lineCount_ofText (text : String) : (ofText text).lineCount = Text.lineCount text :=
  size_lineStarts text

/-- Behind whole lines the next one starts. -/
theorem getElem?_lineStarts_count (htext : text.toList = lines ++ rest)
    (hlast : ∀ c ∈ lines.getLast?, c = '\n') :
    (ofText text).lineStarts[lines.count '\n']? = some (byteSize lines) := by
  rw [getElem?_lineStarts, htext]
  rcases lines.eq_nil_or_concat with rfl | ⟨init, c, rfl⟩
  · rfl
  · obtain rfl : c = '\n' := hlast c (by simp)
    have hinit := length_startsFrom 0 init
    simp [startsFrom_append, startsFrom, ← hinit, byteSize]

/-- A part of a text is cut out of it between its ends. -/
theorem slice_append (htext : text.toList = front ++ line ++ rest) :
    Text.slice text (byteSize front) (byteSize front + byteSize line) = .ofList line := by
  rw [Text.slice, htext, Nat.add_sub_cancel_left, List.append_assoc, Text.dropBytes_append,
    Text.takeBytes_append]

/-! ### Places -/

theorem isGreatest_boundary (text : String) (offset : Nat) :
    IsGreatest {o | o ≤ offset ∧ IsValid text ⟨o⟩} (boundary text offset) := by
  induction offset with
  | zero =>
    refine ⟨⟨Nat.le_refl 0, ?_⟩, fun o ho => ho.1⟩
    exact Text.isValid_of_append (String.empty_append (s := text)).symm
  | succ offset ih =>
    rw [boundary]
    split
    · next hvalid =>
      exact ⟨⟨Nat.le_refl _, String.Pos.Raw.isValid_eq_true_iff.1 hvalid⟩, fun o ho => ho.1⟩
    · next hinside =>
      refine ⟨⟨Nat.le_succ_of_le ih.1.1, ih.1.2⟩, ?_⟩
      rintro o ⟨hle, hvalid⟩
      have hne : o ≠ offset + 1 := by
        rintro rfl
        exact hinside (String.Pos.Raw.isValid_eq_true_iff.2 hvalid)
      exact ih.2 ⟨by omega, hvalid⟩

/-- The offset that a place is looked up for has in front of it what fits into the given one. -/
theorem boundary_min (text : String) (offset : Nat) :
    boundary text (min offset text.utf8ByteSize) = byteSize (takeBytes offset text.toList) := by
  have hfront := (Text.inFront_takeBytes text offset).last
  rw [Text.utf8ByteSize_ofList] at hfront
  have hsize : byteSize (takeBytes offset text.toList) ≤ text.utf8ByteSize := by
    rw [← Text.byteSize_toList, ← Text.takeBytes_append_dropBytes offset text.toList,
      Text.byteSize_append, Text.takeBytes_append_dropBytes]
    exact Nat.le_add_right _ _
  refine (isGreatest_boundary text _).unique ⟨⟨Nat.le_min.2 ⟨hfront.1.1, hsize⟩, hfront.1.2⟩, ?_⟩
  exact fun o ho => hfront.2 ⟨ho.1.trans (Nat.min_le_left _ _), ho.2⟩

/-- Halving finds the line that has all line breaks in front of the offset in front of it. -/
theorem lineAt_byteSize (htext : text.toList = front ++ rest) :
    (ofText text).lineAt (byteSize front) = front.count '\n' := by
  have hlength := length_startsFrom 0 front
  have hsize : (ofText text).lineStarts.size = front.count '\n' + rest.count '\n' + 1 := by
    rw [size_lineStarts, htext, List.count_append]
  rw [lineAt, bisect_eq (k := front.count '\n' + 1) (by omega), Nat.add_sub_cancel]
  intro i hi
  rw [getElem?_lineStarts, htext, startsFrom_append, ← List.cons_append]
  by_cases hlt : i < front.count '\n' + 1
  · have hi' : i < (0 :: startsFrom 0 front).length := by rwa [List.length_cons, hlength]
    rw [List.getElem?_append_left hi', List.getElem?_eq_getElem hi', Option.any_some,
      decide_eq_true hlt, decide_eq_true_iff]
    rcases List.mem_cons.1 (List.getElem_mem hi') with hzero | hmem
    · rw [hzero]
      exact Nat.zero_le _
    · exact (mem_startsFrom hmem).2.trans (Nat.le_of_eq (Nat.zero_add _))
  · have hi' : (0 :: startsFrom 0 front).length ≤ i := by
      rw [List.length_cons, hlength]
      exact Nat.le_of_not_lt hlt
    have hi'' : i - (0 :: startsFrom 0 front).length <
        (startsFrom (0 + byteSize front) rest).length := by
      rw [length_startsFrom, List.length_cons, hlength]
      omega
    rw [List.getElem?_append_right hi', List.getElem?_eq_getElem hi'', Option.any_some,
      decide_eq_false hlt, decide_eq_false_iff_not, Nat.not_le]
    exact Nat.lt_of_le_of_lt (Nat.le_of_eq (Nat.zero_add _).symm)
      (mem_startsFrom (List.getElem_mem hi'')).1

/-! ### Walks -/

/-- The place behind a run of characters, also where lines and columns do not fit into a word. -/
theorem foldl_advance (cs : List Char) : cs.foldl Position.advance .zero =
    ⟨.ofNat (cs.count '\n'), .ofNat (utf16Size (lastLine cs))⟩ := by
  induction cs using List.reverseRecOn with
  | nil => rfl
  | append_singleton cs c ih =>
    rw [List.foldl_concat, ih, Position.advance, lastLine, lastLine, List.rtakeWhile_concat]
    by_cases hbreak : c = '\n'
    · simp [hbreak, utf16Size, UInt32.ofNat_add]
    · simp [hbreak, Text.utf16Size_append, utf16Size, UInt32.ofNat_add]

/-- A place by an index is the place that a walk over the text leads to. -/
theorem position_ofText (text : String) (offset : Nat) :
    (ofText text).position offset = Text.position text offset := by
  have htext := (Text.takeBytes_append_dropBytes offset text.toList).symm
  have hboundary := boundary_min text offset
  rw [Text.position, Position.walk_eq_foldl, foldl_advance]
  generalize takeBytes offset text.toList = front at htext hboundary ⊢
  generalize dropBytes offset text.toList = rest at htext
  obtain ⟨lines, hsplit, hlast, hcount, -⟩ := Text.exists_lastLine front
  have htext' : text.toList = lines ++ lastLine front ++ rest := by rw [htext, ← hsplit]
  have hstart : (ofText text).lineStarts[front.count '\n']? = some (byteSize lines) := by
    rw [hcount]
    exact getElem?_lineStarts_count (htext'.trans (List.append_assoc ..)) hlast
  have hline : Text.slice text (byteSize lines) (byteSize front) = .ofList (lastLine front) := by
    have hcut := slice_append htext'
    rwa [← Text.byteSize_append, ← hsplit] at hcut
  rw [position]
  simp only [show (ofText text).text = text from rfl, hboundary, lineAt_byteSize htext, hstart,
    Option.getD_some, hline, String.toList_ofList]

theorem range_ofText (text : String) (start stop : Nat) :
    (ofText text).range start stop = Text.range text start stop := by
  rw [range, Text.range_eq, position_ofText, position_ofText, Nat.max_comm]

/-! ### Offsets -/

theorem bytesInFront_eq {column units : UInt32} {behind : List Char} (hline : '\n' ∉ line)
    (hbehind : ∀ c ∈ behind.head?, c = '\n') :
    bytesInFront column units (line ++ behind.take 1) =
      Text.columnOffset column units (line ++ behind) := by
  induction line generalizing units with
  | nil =>
    cases behind with
    | nil => rfl
    | cons c behind =>
      obtain rfl : c = '\n' := hbehind c rfl
      simp [bytesInFront, Text.columnOffset]
  | cons c line ih =>
    obtain ⟨hbreak, hline⟩ : '\n' ≠ c ∧ '\n' ∉ line := by simpa using hline
    rw [List.cons_append, List.cons_append, bytesInFront, ih hline, Text.columnOffset]
    simp [Ne.symm hbreak]

theorem dropLines_eq_none {n : Nat} {cs : List Char} (h : cs.count '\n' < n) :
    Text.dropLines n cs = none := by
  induction cs generalizing n with
  | nil =>
    obtain ⟨n, rfl⟩ := Nat.exists_eq_succ_of_ne_zero (Nat.ne_zero_of_lt h)
    rfl
  | cons c cs ih =>
    obtain ⟨n, rfl⟩ := Nat.exists_eq_succ_of_ne_zero (Nat.ne_zero_of_lt h)
    by_cases hbreak : c = '\n'
    · rw [hbreak, List.count_cons_self] at h
      simp [Text.dropLines, hbreak, ih (Nat.lt_of_succ_lt_succ h)]
    · rw [List.count_cons_of_ne hbreak] at h
      simp [Text.dropLines, hbreak, ih h]

/-- A line ends where the next one starts, or where the text ends. -/
theorem getD_lineStarts {number : Nat} {before line behind : String}
    (h : IsLine text number before line behind) :
    (ofText text).lineStarts[number + 1]?.getD text.utf8ByteSize =
      byteSize before.toList + byteSize (line.toList ++ behind.toList.take 1) := by
  have htext : text.toList = before.toList ++ line.toList ++ behind.toList := by
    rw [h.text, String.toList_append, String.toList_append]
  have hcount : (before.toList ++ line.toList).count '\n' = number := by
    rw [List.count_append, List.count_eq_zero.2 h.whole, h.number, Nat.add_zero]
  cases hbehind : behind.toList with
  | nil =>
    rw [hbehind, List.append_nil] at htext
    have hnone : (ofText text).lineStarts[number + 1]? = none := by
      rw [Array.getElem?_eq_none]
      rw [size_lineStarts, htext, hcount]
    rw [hnone, Option.getD_none, List.take_nil, List.append_nil, ← Text.byteSize_append, ← htext,
      Text.byteSize_toList]
  | cons c rest =>
    obtain rfl : c = '\n' := h.ends c (by rw [hbehind]; rfl)
    have htext' : text.toList = (before.toList ++ line.toList ++ ['\n']) ++ rest := by
      rw [htext, hbehind, List.append_assoc _ ['\n'], List.singleton_append]
    have hnext := getElem?_lineStarts_count htext' (by simp)
    rw [List.count_append, hcount, List.count_singleton_self] at hnext
    rw [hnext, Option.getD_some, List.append_assoc, Text.byteSize_append]
    rfl

/-- The offset of a place by an index is the one that a walk to its line and along it leads to. -/
theorem offset_ofText (text : String) (p : Position) :
    (ofText text).offset p = Text.offset text p := by
  by_cases hp : p.line.toNat < Text.lineCount text
  · obtain ⟨before, line, behind, hline⟩ := Text.exists_isLine hp
    have htext : text.toList = before.toList ++ (line.toList ++ behind.toList) := by
      rw [hline.text, String.toList_append, String.toList_append, List.append_assoc]
    have hstart := getElem?_lineStarts_count htext hline.starts
    rw [hline.number] at hstart
    have hcut : text.toList = before.toList ++ (line.toList ++ behind.toList.take 1) ++
        behind.toList.drop 1 := by
      rw [htext, List.append_assoc, List.append_assoc, List.take_append_drop]
    rw [offset, hstart]
    simp only [show (ofText text).text = text from rfl]
    rw [getD_lineStarts hline, slice_append hcut, String.toList_ofList, bytesInFront_eq hline.whole hline.ends,
      hline.offset_eq, Text.byteSize_toList]
  · have hcount : text.toList.count '\n' < p.line.toNat := by
      rw [Text.lineCount] at hp
      omega
    have hnone : (ofText text).lineStarts[p.line.toNat]? = none := by
      rw [Array.getElem?_eq_none]
      rw [size_lineStarts]
      omega
    rw [offset, hnone, Text.offset, dropLines_eq_none hcount]
    exact (Text.byteSize_toList text).symm

/-! ### Texts that are not too long -/

/-- Places by an index, in a text whose length fits into a word: they are in the order of their offsets, an
offset is at the line break and the UTF-16 unit that are counted in front of it, an offset between
characters is found again from its place, and a range never ends in front of its start. -/
theorem places_correct (h : text.utf8ByteSize < UInt32.size) :
    (∀ a b, a ≤ b → ((ofText text).position a).le ((ofText text).position b) = true) ∧
    (∀ offset, ∃ front, Text.InFront text offset front ∧
      ((ofText text).position offset).line.toNat = front.toList.count '\n' ∧
      ((ofText text).position offset).character.toNat = utf16Size (lastLine front.toList)) ∧
    (∀ offset, IsValid text ⟨offset⟩ →
      (ofText text).offset ((ofText text).position offset) = offset) ∧
    ∀ a b, ((ofText text).range a b).start.le ((ofText text).range a b).stop = true := by
  simp only [position_ofText, offset_ofText, range_ofText]
  exact Text.position_correct h

/-- Two, four and one bytes for one, two and one units, then a second line. The offset six is behind the
second character, and a range that ends at an offset in front of its start is empty. -/
theorem places_correct_clef : "é𝄞x\ny".utf8ByteSize < UInt32.size ∧
    (ofText "é𝄞x\ny").offset ((ofText "é𝄞x\ny").position 6) = 6 ∧
    ((ofText "é𝄞x\ny").range 9 4).start.le ((ofText "é𝄞x\ny").range 9 4).stop = true := by
  have hsize : "é𝄞x\ny".utf8ByteSize < UInt32.size := by decide
  have hvalid : IsValid "é𝄞x\ny" ⟨6⟩ :=
    Text.isValid_of_append (show "é𝄞x\ny" = "é𝄞" ++ "x\ny" by decide)
  obtain ⟨-, -, hfound, hordered⟩ := places_correct hsize
  exact ⟨hsize, hfound 6 hvalid, hordered 9 4⟩

/-- A text has the line of every number that is less than the number of its lines. The offset of a place
in such a line is in it, at the first character that is not in front of the column, if the line is long
enough. If it is too short, the offset is at the end of the text or, if there is a line break, behind that.
So the offset is in its line, and not behind the line break of it, exactly if the line is long enough or
the last one. -/
theorem offset_on_line_iff (h : text.utf8ByteSize < UInt32.size) (p : Position)
    (hp : p.line.toNat < (ofText text).lineCount) :
    (∃ before line behind, IsLine text p.line.toNat before line behind) ∧
    ∀ before line behind, IsLine text p.line.toNat before line behind →
      (p.character.toNat ≤ utf16Size line.toList →
        ∃ front, Text.Reaches p.character.toNat line.toList front.toList ∧
          (ofText text).offset p = (before ++ front).utf8ByteSize) ∧
      (utf16Size line.toList < p.character.toNat → (ofText text).offset p =
        if behind = "" then text.utf8ByteSize else (before ++ line).utf8ByteSize + 1) ∧
      (((ofText text).position ((ofText text).offset p)).line = p.line ∧
          (ofText text).offset p ≤ (before ++ line).utf8ByteSize ↔
        p.character.toNat ≤ utf16Size line.toList ∨ behind = "") := by
  rw [lineCount_ofText] at hp
  simp only [position_ofText, offset_ofText]
  exact Text.offset_in_line_iff h p hp

/-- A column between the two units of the second character leads behind that character. -/
theorem offset_on_line_clef : "é𝄞x\ny".utf8ByteSize < UInt32.size ∧
    (0 : UInt32).toNat < (ofText "é𝄞x\ny").lineCount ∧ IsLine "é𝄞x\ny" 0 "" "é𝄞x" "\ny" ∧
    (2 : UInt32).toNat ≤ utf16Size "é𝄞x".toList ∧
    ((ofText "é𝄞x\ny").position ((ofText "é𝄞x\ny").offset ⟨0, 2⟩)).line = 0 ∧
    (ofText "é𝄞x\ny").offset ⟨0, 2⟩ ≤ ("" ++ "é𝄞x").utf8ByteSize := by
  have hsize : "é𝄞x\ny".utf8ByteSize < UInt32.size := by decide
  have hnumber : (0 : UInt32).toNat < (ofText "é𝄞x\ny").lineCount := by decide
  have hline : IsLine "é𝄞x\ny" 0 "" "é𝄞x" "\ny" := ⟨by decide, by decide, by simp, by decide, by simp⟩
  have hcolumn : (2 : UInt32).toNat ≤ utf16Size "é𝄞x".toList := by decide
  obtain ⟨-, hall⟩ := offset_on_line_iff hsize ⟨0, 2⟩ hnumber
  obtain ⟨-, -, hiff⟩ := hall _ _ _ hline
  exact ⟨hsize, hnumber, hline, hcolumn, hiff.2 (.inl hcolumn)⟩

/-- The first line is empty, and a column behind its end leads to the second line. -/
theorem offset_past_lineBreak : "\nw".utf8ByteSize < UInt32.size ∧
    (0 : UInt32).toNat < (ofText "\nw").lineCount ∧ IsLine "\nw" 0 "" "" "\nw" ∧
    ((ofText "\nw").position ((ofText "\nw").offset ⟨0, 1⟩)).line ≠ 0 ∧
    ¬(ofText "\nw").offset ⟨0, 1⟩ ≤ ("" ++ "").utf8ByteSize := by
  rw [position_ofText, offset_ofText]
  refine ⟨by decide, by decide, ⟨by decide, by decide, by simp, by decide, by simp⟩, ?_, ?_⟩ <;> decide

end LineIndex

end HdlIndex

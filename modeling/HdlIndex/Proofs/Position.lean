import HdlIndex.Position
import HdlIndex.Proofs.Grammar.Pieces
import Mathlib.Data.List.DropRight
import Mathlib.Order.Bounds.Basic

/-! Places and offsets. Lines and columns are machine words, which hold the places of every text that is
not longer than a word can count. A place counts the line breaks in front of its offset and the UTF-16
units behind the last of them; an offset that stands between two characters is found again from its place.
Main statement: in a text that is not too long, places are in the order of their offsets, count lines and
units, and lead back to the offsets between characters. -/

namespace HdlIndex

theorem Text.units16_le (c : Char) : units16 c ≤ c.utf8Size := by
  unfold units16
  split
  · exact c.utf8Size_pos
  · next hlarge =>
    unfold Char.utf8Size
    dsimp only
    split
    · next hascii =>
      have hle : c.toNat ≤ 0x7f := UInt32.le_iff_toNat_le.1 hascii
      omega
    · split
      · exact Nat.le_refl 2
      · split <;> decide

/-- A sum that fits into a word. -/
theorem toNat_add_of_lt {a b : UInt32} (h : a.toNat + b.toNat < UInt32.size) :
    (a + b).toNat = a.toNat + b.toNat := by
  rw [UInt32.toNat_add]
  exact Nat.mod_eq_of_lt h

theorem toNat_add_units16 {units : UInt32} {c : Char}
    (h : units.toNat + Text.units16 c < UInt32.size) :
    (units + .ofNat (Text.units16 c)).toNat = units.toNat + Text.units16 c := by
  have hword : (UInt32.ofNat (Text.units16 c)).toNat = Text.units16 c :=
    UInt32.toNat_ofNat_of_lt' (Nat.lt_of_le_of_lt (Nat.le_add_left _ _) h)
  rw [toNat_add_of_lt (by rwa [hword]), hword]

namespace Position

variable {p q r : Position} {cs : List Char}

theorem le_iff : p.le q = true ↔ p.line.toNat < q.line.toNat ∨
    p.line.toNat = q.line.toNat ∧ p.character.toNat ≤ q.character.toNat := by
  rw [← UInt32.lt_iff_toNat_lt, UInt32.toNat_inj, ← UInt32.le_iff_toNat_le]
  unfold le compare
  rcases hline : Ord.compare p.line q.line with _ | _ | _
  · simp [Std.compare_eq_lt.1 hline]
  · have heq := Std.compare_eq_iff_eq.1 hline
    simp [heq, Std.LawfulLECmp.ne_gt_iff_le]
  · have hgt := Std.compare_eq_gt.1 hline
    simp [UInt32.lt_asymm hgt, (UInt32.ne_of_lt hgt).symm]

theorem le_refl (p : Position) : p.le p = true := le_iff.2 (.inr ⟨rfl, Nat.le_refl _⟩)

theorem le_trans (h : p.le q = true) (h' : q.le r = true) : p.le r = true := by
  rw [le_iff] at h h' ⊢
  omega

/-- Whether walking over characters from a place on leaves the line and the column in a word. -/
def Fits (p : Position) (cs : List Char) : Prop :=
  p.line.toNat + Text.byteSize cs < UInt32.size ∧ p.character.toNat + Text.byteSize cs < UInt32.size

/-- One character counts as a line or as its units. -/
theorem Fits.toNat_advance {c : Char} (h : p.Fits (c :: cs)) :
    (p.advance c).line.toNat = p.line.toNat + [c].count '\n' ∧
      (p.advance c).character.toNat =
        if c = '\n' then 0 else p.character.toNat + Text.units16 c := by
  have hsize := c.utf8Size_pos
  have hunits := Text.units16_le c
  obtain ⟨hline, hcharacter⟩ := h
  rw [Text.byteSize] at hline hcharacter
  by_cases hbreak : c = '\n'
  · subst hbreak
    exact ⟨toNat_add_of_lt (by rw [UInt32.toNat_one]; omega), rfl⟩
  · have hnext : (p.character + .ofNat (Text.units16 c)).toNat =
        p.character.toNat + Text.units16 c := toNat_add_units16 (by omega)
    simp [Position.advance, hbreak, hnext]

theorem Fits.advance {c : Char} (h : p.Fits (c :: cs)) :
    (p.advance c).Fits cs ∧ p.le (p.advance c) = true := by
  obtain ⟨hline, hcharacter⟩ := h.toNat_advance
  have hsize := c.utf8Size_pos
  have hunits := Text.units16_le c
  obtain ⟨hfits, hfits'⟩ := h
  rw [Text.byteSize] at hfits hfits'
  rw [le_iff, Fits, hline, hcharacter]
  by_cases hbreak : c = '\n'
  · rw [if_pos hbreak, hbreak, List.count_singleton_self]
    rw [hbreak] at hsize hunits hfits hfits'
    omega
  · rw [if_neg hbreak, List.count_singleton, if_neg (by simpa using hbreak)]
    omega

theorem le_walk (h : p.Fits cs) (offset : Nat) : p.le (p.walk offset cs) = true := by
  induction cs generalizing p offset with
  | nil => exact le_refl p
  | cons c cs ih =>
    obtain ⟨hfits, hle⟩ := h.advance
    rw [walk]
    split
    · exact le_trans hle (ih hfits _)
    · exact le_refl p

theorem walk_le_walk (h : p.Fits cs) {a b : Nat} (hab : a ≤ b) :
    (p.walk a cs).le (p.walk b cs) = true := by
  induction cs generalizing p a b with
  | nil => exact le_refl p
  | cons c cs ih =>
    obtain ⟨hfits, hle⟩ := h.advance
    rw [walk]
    split
    · rw [walk, if_pos (by omega)]
      exact ih hfits (by omega)
    · exact le_walk h b

/-! ### Lines and columns -/

/-- A walk passes the characters that fit into the offset. -/
theorem walk_eq_foldl (p : Position) (offset : Nat) (cs : List Char) :
    p.walk offset cs = (Text.takeBytes offset cs).foldl Position.advance p := by
  induction cs generalizing p offset with
  | nil => rfl
  | cons c cs ih =>
    rw [walk, Text.takeBytes]
    split
    · exact ih _ _
    · rfl

theorem Fits.foldl {front rest : List Char} (h : p.Fits (front ++ rest)) :
    (front.foldl Position.advance p).Fits rest := by
  induction front generalizing p with
  | nil => exact h
  | cons c front ih => exact ih h.advance.1

end Position

namespace Text

open String.Pos.Raw (IsValid)

variable {text : String} {offset a b : Nat}

theorem utf16Size_append (cs ds : List Char) : utf16Size (cs ++ ds) = utf16Size cs + utf16Size ds := by
  induction cs with
  | nil => rw [List.nil_append, utf16Size, Nat.zero_add]
  | cons c cs ih => rw [List.cons_append, utf16Size, utf16Size, ih, Nat.add_assoc]

/-- What stands behind the last line break. -/
def lastLine (cs : List Char) : List Char := cs.rtakeWhile (· != '\n')

theorem fits_of_lt {cs : List Char} (h : byteSize cs < UInt32.size) : Position.zero.Fits cs := by
  constructor <;> simpa [Position.zero] using h

/-- The place behind a run of characters that starts a text. The induction is on the last character, as
the column starts again behind every line break. -/
theorem foldl_advance {cs : List Char} (h : byteSize cs < UInt32.size) :
    (cs.foldl Position.advance .zero).line.toNat = cs.count '\n' ∧
      (cs.foldl Position.advance .zero).character.toNat = utf16Size (lastLine cs) := by
  induction cs using List.reverseRecOn with
  | nil => exact ⟨rfl, rfl⟩
  | append_singleton cs c ih =>
    obtain ⟨hline, hcharacter⟩ := ih (by rw [byteSize_append] at h; omega)
    obtain ⟨hline', hcharacter'⟩ := (fits_of_lt h).foldl.toNat_advance
    rw [List.foldl_concat, hline', hcharacter', hline, hcharacter, List.count_append, lastLine, lastLine,
      List.rtakeWhile_concat]
    refine ⟨rfl, ?_⟩
    by_cases hbreak : c = '\n'
    · simp [hbreak, utf16Size]
    · simp [hbreak, utf16Size_append, utf16Size]

/-! ### Offsets -/

/-- As many lines as a run of characters has line breaks, if it ends with one. -/
theorem dropLines_append {cs : List Char} (h : ∀ c ∈ cs.getLast?, c = '\n') (rest : List Char) :
    dropLines (cs.count '\n') (cs ++ rest) = some (byteSize cs, rest) := by
  induction cs with
  | nil => rw [List.count_nil, List.nil_append, dropLines, byteSize]
  | cons c cs ih =>
    have htail : ∀ c ∈ cs.getLast?, c = '\n' := by
      intro d hd
      refine h d ?_
      rw [List.getLast?_cons, Option.mem_def.1 hd]
      rfl
    by_cases hbreak : c = '\n'
    · rw [List.cons_append, hbreak, List.count_cons_self, dropLines, if_pos (beq_self_eq_true _), ih htail]
      rfl
    · -- A line break is still ahead, as the run ends with one.
      have hne : cs ≠ [] := by
        rintro rfl
        exact hbreak (h c rfl)
      have hmem : '\n' ∈ cs := by
        have hlast := List.getLast?_eq_some_getLast hne
        rw [← htail _ hlast]
        exact List.getLast_mem hne
      obtain ⟨n, hcount⟩ := Nat.exists_eq_succ_of_ne_zero (List.count_pos_iff.2 hmem).ne'
      rw [List.cons_append, List.count_cons_of_ne hbreak, hcount, dropLines,
        if_neg (by simpa using hbreak), ← Nat.succ_eq_add_one, ← hcount, ih htail]
      rfl

/-- Going along a line for as many units as a run of characters has. -/
theorem columnOffset_append {line : List Char} (h : '\n' ∉ line) {column units : UInt32}
    (hcolumn : column.toNat = units.toNat + utf16Size line) (rest : List Char) :
    columnOffset column units (line ++ rest) = byteSize line := by
  induction line generalizing units with
  | nil =>
    have hle : column ≤ units := UInt32.le_iff_toNat_le.2 (Nat.le_of_eq hcolumn)
    cases rest with
    | nil => rfl
    | cons c rest => exact if_pos hle
  | cons c line ih =>
    obtain ⟨hbreak, hline⟩ : '\n' ≠ c ∧ '\n' ∉ line := by simpa using h
    have hpos : 0 < units16 c := by unfold units16; split <;> decide
    have hlt := column.toNat_lt
    have hsum : utf16Size (c :: line) = units16 c + utf16Size line := rfl
    have hnext : (units + .ofNat (units16 c)).toNat = units.toNat + units16 c :=
      toNat_add_units16 (by change _ < 2 ^ 32; omega)
    have hbefore : ¬ column ≤ units := by
      rw [UInt32.le_iff_toNat_le]
      omega
    rw [List.cons_append, columnOffset, if_neg hbefore, if_neg (by simpa using Ne.symm hbreak),
      ih hline (by rw [hnext]; omega)]
    rfl

/-- A text starts with what stands in front of an offset: up to the last place between characters that is
not behind the offset. -/
structure InFront (text : String) (offset : Nat) (front : String) : Prop where
  starts : ∃ behind, text = front ++ behind
  last : IsGreatest {o | o ≤ offset ∧ IsValid text ⟨o⟩} front.utf8ByteSize

theorem byteSize_takeBytes_mono (h : a ≤ b) (cs : List Char) :
    byteSize (takeBytes a cs) ≤ byteSize (takeBytes b cs) := by
  induction cs generalizing a b with
  | nil => exact Nat.le_refl _
  | cons c cs ih =>
    rw [takeBytes, takeBytes]
    split
    · rw [if_pos (by omega)]
      exact Nat.add_le_add_left (ih (by omega)) _
    · exact Nat.zero_le _

/-- A valid offset cuts the text in two. -/
theorem exists_of_isValid (h : IsValid text ⟨offset⟩) : ∃ before behind, text = before ++ behind ∧
    offset = before.utf8ByteSize ∧ takeBytes offset text.toList = before.toList := by
  obtain ⟨before, behind, rfl, hoffset⟩ := String.Pos.Raw.isValid_iff_exists_append.1 h
  have hsize : offset = before.utf8ByteSize := congrArg String.Pos.Raw.byteIdx hoffset
  refine ⟨before, behind, rfl, hsize, ?_⟩
  rw [hsize, String.toList_append, ← byteSize_toList, takeBytes_append]

theorem inFront_takeBytes (text : String) (offset : Nat) :
    InFront text offset (.ofList (takeBytes offset text.toList)) := by
  have hsplit : text =
      .ofList (takeBytes offset text.toList) ++ .ofList (dropBytes offset text.toList) := by
    rw [← String.ofList_append, takeBytes_append_dropBytes, String.ofList_toList]
  refine ⟨⟨_, hsplit⟩, ⟨?_, isValid_of_append hsplit⟩, ?_⟩
  · rw [utf8ByteSize_ofList]
    exact byteSize_takeBytes_le offset _
  · rintro o ⟨hle, hvalid⟩
    obtain ⟨before, -, -, rfl, htake⟩ := exists_of_isValid hvalid
    have hmono := byteSize_takeBytes_mono hle text.toList
    rwa [htake, byteSize_toList, ← utf8ByteSize_ofList] at hmono

/-- The place of an offset counts what stands in front of it. -/
theorem toNat_position (h : text.utf8ByteSize < UInt32.size) (offset : Nat) :
    (position text offset).line.toNat = (takeBytes offset text.toList).count '\n' ∧
      (position text offset).character.toNat = utf16Size (lastLine (takeBytes offset text.toList)) := by
  have hsize : byteSize (takeBytes offset text.toList) ≤ text.utf8ByteSize := by
    rw [← byteSize_toList, ← takeBytes_append_dropBytes offset text.toList, byteSize_append,
      takeBytes_append_dropBytes]
    exact Nat.le_add_right _ _
  rw [position, Position.walk_eq_foldl]
  exact foldl_advance (Nat.lt_of_le_of_lt hsize h)

/-- In a text that is not too long, places are in the order of their offsets. -/
theorem position_le (h : text.utf8ByteSize < UInt32.size) (hab : a ≤ b) :
    (position text a).le (position text b) = true := by
  rw [← byteSize_toList] at h
  exact Position.walk_le_walk (fits_of_lt h) hab

/-- The last line stands behind whole lines, each with its line break. -/
theorem exists_lastLine (cs : List Char) : ∃ lines, cs = lines ++ lastLine cs ∧
    (∀ c ∈ lines.getLast?, c = '\n') ∧ cs.count '\n' = lines.count '\n' ∧ '\n' ∉ lastLine cs := by
  have hsplit : cs.rdropWhile (· != '\n') ++ lastLine cs = cs := List.rdropWhile_append_rtakeWhile
  have hfree : '\n' ∉ lastLine cs := fun hmem => by simpa using List.mem_rtakeWhile_imp hmem
  refine ⟨_, hsplit.symm, fun c hc => ?_, ?_, hfree⟩
  · obtain ⟨hne, rfl⟩ := List.mem_getLast?_eq_getLast hc
    simpa using List.rdropWhile_last_not _ _ hne
  · conv_lhs => rw [← hsplit]
    rw [List.count_append, List.count_eq_zero.2 hfree, Nat.add_zero]

/-- An offset between characters is found again: its place leads over the whole lines in front of it and
then along its line. -/
theorem offset_position (h : text.utf8ByteSize < UInt32.size) (hvalid : IsValid text ⟨offset⟩) :
    Text.offset text (position text offset) = offset := by
  obtain ⟨before, behind, htext, rfl, htake⟩ := exists_of_isValid hvalid
  obtain ⟨hline, hcharacter⟩ := toNat_position h before.utf8ByteSize
  obtain ⟨lines, hsplit, hlines, hcount, hfree⟩ := exists_lastLine before.toList
  have hdrop : dropLines (position text before.utf8ByteSize).line.toNat text.toList =
      some (byteSize lines, lastLine before.toList ++ behind.toList) := by
    have hchars : text.toList = lines ++ (lastLine before.toList ++ behind.toList) := by
      rw [htext, String.toList_append, ← List.append_assoc, ← hsplit]
    rw [hline, htake, hcount, hchars]
    exact dropLines_append hlines _
  rw [Text.offset, hdrop]
  dsimp only
  rw [columnOffset_append hfree, ← byteSize_append, ← hsplit, byteSize_toList]
  rw [hcharacter, htake, UInt32.toNat_zero, Nat.zero_add]

/-- Places in a text whose length fits into a word: they are in the order of their offsets, an offset is
at the line break and the UTF-16 unit that are counted in front of it, an offset between characters is
found again from its place, and a range never ends in front of its start. -/
theorem position_correct (h : text.utf8ByteSize < UInt32.size) :
    (∀ a b, a ≤ b → (position text a).le (position text b) = true) ∧
    (∀ offset, ∃ front, InFront text offset front ∧
      (position text offset).line.toNat = front.toList.count '\n' ∧
      (position text offset).character.toNat = utf16Size (lastLine front.toList)) ∧
    (∀ offset, IsValid text ⟨offset⟩ → Text.offset text (position text offset) = offset) ∧
    ∀ a b, (range text a b).start.le (range text a b).stop = true := by
  refine ⟨fun a b hab => position_le h hab, fun offset => ?_, fun offset => offset_position h,
    fun a b => ?_⟩
  · refine ⟨_, inFront_takeBytes text offset, ?_⟩
    rw [String.toList_ofList]
    exact toNat_position h offset
  · rw [range_eq]
    exact position_le h (Nat.le_max_left a b)

end Text

end HdlIndex

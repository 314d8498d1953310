import HdlIndex.Proofs.Position

/-! Offsets of places that need not exist. A column may be larger than its line is long, and it may fall
between the two units of one character. Main statement: the offset of a place is in its line, at the first
character that is not in front of the column, unless the column is behind the end of a line that has a line
break; then it is behind the line break, which is where the next line starts. -/

namespace HdlIndex

namespace Text

variable {text before line behind : String} {column units : UInt32}

/-! ### Columns -/

theorem utf16Size_le_byteSize (cs : List Char) : utf16Size cs ≤ byteSize cs := by
  induction cs with
  | nil => exact Nat.le_refl 0
  | cons c cs ih => exact Nat.add_le_add (units16_le c) ih

/-- The shortest start of a line that has as many units as a number says. -/
structure Reaches (units : Nat) (line front : List Char) : Prop where
  starts : front <+: line
  reaches : units ≤ utf16Size front
  shortest : ∀ shorter, shorter <+: front → shorter ≠ front → utf16Size shorter < units

theorem columnOffset_of_le {rest : List Char} (h : column ≤ units) : columnOffset column units rest = 0 := by
  cases rest with
  | nil => rfl
  | cons c rest => exact if_pos h

/-- One character of a line that is in front of the column. -/
theorem columnOffset_cons {c : Char} (hbreak : c ≠ '\n') (h : ¬column ≤ units) (rest : List Char) :
    columnOffset column units (c :: rest) =
      c.utf8Size + columnOffset column (units + .ofNat (units16 c)) rest := by
  rw [columnOffset, if_neg h, if_neg (by simpa using hbreak)]

/-- Going along a line that is long enough leads to the first character that is not in front of the
column. -/
theorem exists_reaches {line : List Char} (hline : '\n' ∉ line)
    (hfits : units.toNat + utf16Size line < UInt32.size)
    (hcolumn : column.toNat ≤ units.toNat + utf16Size line) (rest : List Char) :
    ∃ front, Reaches (column.toNat - units.toNat) line front ∧
      columnOffset column units (line ++ rest) = byteSize front := by
  induction line generalizing units with
  | nil =>
    have hle : column ≤ units := UInt32.le_iff_toNat_le.2 hcolumn
    have hnone : column.toNat - units.toNat = 0 := Nat.sub_eq_zero_of_le hcolumn
    refine ⟨[], ⟨List.nil_prefix, by rw [hnone]; exact Nat.zero_le _, ?_⟩, columnOffset_of_le hle⟩
    exact fun shorter hshorter hne => absurd (List.prefix_nil.1 hshorter) hne
  | cons c line ih =>
    by_cases hle : column ≤ units
    · have hnone : column.toNat - units.toNat = 0 :=
        Nat.sub_eq_zero_of_le (UInt32.le_iff_toNat_le.1 hle)
      refine ⟨[], ⟨List.nil_prefix, by rw [hnone]; exact Nat.zero_le _, ?_⟩, columnOffset_of_le hle⟩
      exact fun shorter hshorter hne => absurd (List.prefix_nil.1 hshorter) hne
    · obtain ⟨hbreak, hrest⟩ : '\n' ≠ c ∧ '\n' ∉ line := by simpa using hline
      have hlt : units.toNat < column.toNat := by rwa [UInt32.le_iff_toNat_le, Nat.not_le] at hle
      have hsum : utf16Size (c :: line) = units16 c + utf16Size line := rfl
      have hnext : (units + .ofNat (units16 c)).toNat = units.toNat + units16 c :=
        toNat_add_units16 (by omega)
      have hcolumn' : column.toNat ≤ (units + .ofNat (units16 c)).toNat + utf16Size line := by omega
      obtain ⟨front, hfront, hoffset⟩ := ih hrest (by omega) hcolumn'
      rw [hnext] at hfront
      refine ⟨c :: front, ⟨?_, ?_, ?_⟩, ?_⟩
      · exact List.cons_prefix_cons.2 ⟨rfl, hfront.starts⟩
      · have hreaches := hfront.reaches
        rw [utf16Size]
        omega
      · intro shorter hshorter hne
        cases shorter with
        | nil => exact Nat.sub_pos_of_lt hlt
        | cons d shorter =>
          obtain ⟨rfl, hprefix⟩ := List.cons_prefix_cons.1 hshorter
          have hshort := hfront.shortest shorter hprefix fun heq => hne (heq ▸ rfl)
          rw [utf16Size]
          omega
      · rw [List.cons_append, columnOffset_cons (Ne.symm hbreak) hle, hoffset, byteSize]

/-- A column behind the end of a line leads over the line and its line break. -/
theorem columnOffset_beyond {line : List Char} (hline : '\n' ∉ line)
    (hcolumn : units.toNat + utf16Size line < column.toNat) {rest : List Char}
    (hrest : ∀ c ∈ rest.head?, c = '\n') :
    columnOffset column units (line ++ rest) = byteSize line + byteSize (rest.take 1) := by
  induction line generalizing units with
  | nil =>
    have hle : ¬column ≤ units := by
      rw [UInt32.le_iff_toNat_le]
      exact Nat.not_le.2 hcolumn
    cases rest with
    | nil => rfl
    | cons c rest =>
      obtain rfl : c = '\n' := hrest c rfl
      rw [List.nil_append, columnOffset, if_neg hle, if_pos (beq_self_eq_true _)]
      rfl
  | cons c line ih =>
    obtain ⟨hbreak, hrest⟩ : '\n' ≠ c ∧ '\n' ∉ line := by simpa using hline
    have hsum : utf16Size (c :: line) = units16 c + utf16Size line := rfl
    have hle : ¬column ≤ units := by
      rw [UInt32.le_iff_toNat_le]
      omega
    have hlt := column.toNat_lt
    have hnext : (units + .ofNat (units16 c)).toNat = units.toNat + units16 c :=
      toNat_add_units16 (by change _ < 2 ^ 32; omega)
    rw [List.cons_append, columnOffset_cons (Ne.symm hbreak) hle, ih hrest (by omega), byteSize,
      Nat.add_assoc]

/-! ### Lines -/

/-- A line of a text, counted from zero, with what stands in front of it and behind it. The line break
at its end, if it has one, stands behind it. -/
structure IsLine (text : String) (number : Nat) (before line behind : String) : Prop where
  text : text = before ++ line ++ behind
  number : before.toList.count '\n' = number
  starts : ∀ c ∈ before.toList.getLast?, c = '\n'
  whole : '\n' ∉ line.toList
  ends : ∀ c ∈ behind.toList.head?, c = '\n'

/-- The first lines of a text, each with its line break. -/
theorem exists_lines {n : Nat} {cs : List Char} (h : n ≤ cs.count '\n') :
    ∃ lines rest, cs = lines ++ rest ∧ lines.count '\n' = n ∧ ∀ c ∈ lines.getLast?, c = '\n' := by
  induction cs generalizing n with
  | nil =>
    obtain rfl : n = 0 := by simpa using h
    exact ⟨[], [], rfl, rfl, by simp⟩
  | cons c cs ih =>
    cases n with
    | zero => exact ⟨[], c :: cs, rfl, rfl, by simp⟩
    | succ n =>
      by_cases hbreak : c = '\n'
      · rw [hbreak, List.count_cons_self] at h
        obtain ⟨lines, rest, rfl, hcount, hlast⟩ := ih (Nat.le_of_succ_le_succ h)
        refine ⟨c :: lines, rest, rfl, by rw [hbreak, List.count_cons_self, hcount], ?_⟩
        rw [List.getLast?_cons]
        cases hend : lines.getLast? with
        | none => simpa using hbreak
        | some d => simpa [hend] using hlast
      · rw [List.count_cons_of_ne hbreak] at h
        obtain ⟨lines, rest, rfl, hcount, hlast⟩ := ih h
        refine ⟨c :: lines, rest, rfl, by rw [List.count_cons_of_ne hbreak, hcount], ?_⟩
        rw [List.getLast?_cons]
        cases hend : lines.getLast? with
        | none =>
          rw [List.getLast?_eq_none_iff.1 hend] at hcount
          cases hcount
        | some d => simpa [hend] using hlast

theorem exists_isLine {number : Nat} (h : number < lineCount text) :
    ∃ before line behind, IsLine text number before line behind := by
  obtain ⟨lines, rest, htext, hcount, hlast⟩ := exists_lines (Nat.le_of_lt_succ h)
  refine ⟨.ofList lines, .ofList (rest.takeWhile (· != '\n')), .ofList (rest.dropWhile (· != '\n')),
    ?_, ?_, ?_, ?_, ?_⟩
  · rw [← String.ofList_append, ← String.ofList_append, List.append_assoc, List.takeWhile_append_dropWhile,
      ← htext, String.ofList_toList]
  · rwa [String.toList_ofList]
  · rwa [String.toList_ofList]
  · rw [String.toList_ofList]
    intro hmem
    simpa using List.mem_takeWhile_imp hmem
  · rw [String.toList_ofList]
    intro c hc
    have hhead := List.head?_dropWhile_not (· != '\n') rest
    rw [Option.mem_def.1 hc] at hhead
    simpa using hhead

/-- The number of line breaks in front of an offset is the line of its place. -/
theorem toNat_line_position (h : text.utf8ByteSize < UInt32.size) {front rest : String}
    (htext : text = front ++ rest) :
    (position text front.utf8ByteSize).line.toNat = front.toList.count '\n' := by
  rw [(toNat_position h _).1, htext, String.toList_append, ← byteSize_toList, takeBytes_append]

section IsLine

variable {p : Position} (hline : IsLine text p.line.toNat before line behind)
include hline

theorem IsLine.offset_eq : Text.offset text p =
    before.utf8ByteSize + columnOffset p.character 0 (line.toList ++ behind.toList) := by
  have hdrop : dropLines p.line.toNat text.toList =
      some (byteSize before.toList, line.toList ++ behind.toList) := by
    rw [hline.text, String.toList_append, String.toList_append, List.append_assoc, ← hline.number]
    exact dropLines_append hline.starts _
  rw [Text.offset, hdrop]
  dsimp only
  rw [byteSize_toList]

theorem IsLine.exists_reaches (h : text.utf8ByteSize < UInt32.size)
    (hcolumn : p.character.toNat ≤ utf16Size line.toList) :
    ∃ front, Reaches p.character.toNat line.toList front.toList ∧
      Text.offset text p = (before ++ front).utf8ByteSize := by
  have hfits : utf16Size line.toList < UInt32.size := by
    have hsize := utf16Size_le_byteSize line.toList
    rw [byteSize_toList] at hsize
    rw [hline.text, String.utf8ByteSize_append, String.utf8ByteSize_append] at h
    omega
  have hfits' : (0 : UInt32).toNat + utf16Size line.toList < UInt32.size := by
    rwa [UInt32.toNat_zero, Nat.zero_add]
  have hcolumn' : p.character.toNat ≤ (0 : UInt32).toNat + utf16Size line.toList := by
    rwa [UInt32.toNat_zero, Nat.zero_add]
  obtain ⟨front, hfront, hoffset⟩ :=
    Text.exists_reaches hline.whole hfits' hcolumn' behind.toList
  refine ⟨.ofList front, ?_, ?_⟩
  · rwa [String.toList_ofList]
  · rw [hline.offset_eq, hoffset, String.utf8ByteSize_append, utf8ByteSize_ofList]

theorem IsLine.offset_beyond (hcolumn : utf16Size line.toList < p.character.toNat) :
    Text.offset text p = (before ++ line).utf8ByteSize + byteSize (behind.toList.take 1) := by
  have hcolumn' : (0 : UInt32).toNat + utf16Size line.toList < p.character.toNat := by
    rwa [UInt32.toNat_zero, Nat.zero_add]
  rw [hline.offset_eq, columnOffset_beyond hline.whole hcolumn' hline.ends, byteSize_toList,
    String.utf8ByteSize_append, Nat.add_assoc]

/-- The places in a line, up to its end, are in the line. -/
theorem IsLine.line_position (h : text.utf8ByteSize < UInt32.size) {front : String}
    (hfront : front.toList <+: line.toList) :
    (position text (before ++ front).utf8ByteSize).line = p.line ∧
      (before ++ front).utf8ByteSize ≤ (before ++ line).utf8ByteSize := by
  obtain ⟨rest, hrest⟩ := hfront
  have hsplit : line = front ++ .ofList rest := by
    rw [← String.toList_inj, String.toList_append, String.toList_ofList, hrest]
  have htext : text = before ++ front ++ (.ofList rest ++ behind) := by
    rw [hline.text, hsplit, String.append_assoc, String.append_assoc, String.append_assoc]
  have hbreak : '\n' ∉ front.toList := fun hmem =>
    hline.whole (hrest ▸ List.mem_append_left rest hmem)
  refine ⟨UInt32.toNat_inj.1 ?_, ?_⟩
  · rw [toNat_line_position h htext, String.toList_append, List.count_append,
      List.count_eq_zero.2 hbreak, Nat.add_zero, hline.number]
  · rw [hsplit, ← String.append_assoc]
    simp only [String.utf8ByteSize_append]
    exact Nat.le_add_right _ _

end IsLine

/-- A text has the line of every number that is less than the number of its lines. The offset of a place
in such a line is in it, at the first character that is not in front of the column, if the line is long
enough. If it is too short, the offset is at the end of the text or, if there is a line break, behind that.
So the offset is in its line, and not behind the line break of it, exactly if the line is long enough or
the last one. -/
theorem offset_in_line_iff (h : text.utf8ByteSize < UInt32.size) (p : Position)
    (hp : p.line.toNat < lineCount text) :
    (∃ before line behind, IsLine text p.line.toNat before line behind) ∧
    ∀ before line behind, IsLine text p.line.toNat before line behind →
      (p.character.toNat ≤ utf16Size line.toList →
        ∃ front, Reaches p.character.toNat line.toList front.toList ∧
          Text.offset text p = (before ++ front).utf8ByteSize) ∧
      (utf16Size line.toList < p.character.toNat → Text.offset text p =
        if behind = "" then text.utf8ByteSize else (before ++ line).utf8ByteSize + 1) ∧
      ((position text (Text.offset text p)).line = p.line ∧
          Text.offset text p ≤ (before ++ line).utf8ByteSize ↔
        p.character.toNat ≤ utf16Size line.toList ∨ behind = "") := by
  refine ⟨exists_isLine hp, fun before line behind hline => ?_⟩
  have hbeyond (hshort : utf16Size line.toList < p.character.toNat) : Text.offset text p =
      if behind = "" then text.utf8ByteSize else (before ++ line).utf8ByteSize + 1 := by
    rw [hline.offset_beyond hshort]
    split
    · next hempty =>
      rw [hline.text, hempty, String.append_empty]
      rfl
    · next hne =>
      obtain ⟨c, rest, hc⟩ := List.exists_cons_of_ne_nil (by simpa using hne : behind.toList ≠ [])
      obtain rfl : c = '\n' := hline.ends c (by rw [hc]; rfl)
      rw [hc]
      rfl
  refine ⟨hline.exists_reaches h, hbeyond, ?_, ?_⟩
  · rintro ⟨-, hle⟩
    by_contra hneither
    obtain ⟨hshort, hne⟩ := not_or.1 hneither
    rw [hbeyond (Nat.not_le.1 hshort), if_neg hne] at hle
    exact Nat.not_succ_le_self _ hle
  · intro hstays
    by_cases hcolumn : p.character.toNat ≤ utf16Size line.toList
    · obtain ⟨front, hfront, hoffset⟩ := hline.exists_reaches h hcolumn
      rw [hoffset]
      exact hline.line_position h hfront.starts
    · have hempty := hstays.resolve_left hcolumn
      have hend : text.utf8ByteSize = (before ++ line).utf8ByteSize := by
        rw [hline.text, hempty, String.append_empty]
      rw [hbeyond (Nat.not_le.1 hcolumn), if_pos hempty, hend]
      exact hline.line_position h List.prefix_rfl

end Text

end HdlIndex

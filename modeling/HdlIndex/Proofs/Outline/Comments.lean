import Mathlib.Data.List.Infix
import HdlIndex.Proofs.Grammar.Spelled
import HdlIndex.Proofs.Outline.SameKeys
import HdlIndex.Proofs.Outline.Storage
import HdlIndex.Proofs.Outline.Tokens
import HdlIndex.Proofs.Symbol.Edits
import HdlIndex.Proofs.Text.Fields

/-! Comments. No token comes from a comment, but the texts of types and package items are cut out of
the document as they stand, with the comments in them. In that way a comment may get into a tag, an
import, an export or the name of a package, but only to be seen there. Main statement: if a blank in
the place of a comment leaves the tokens as they are, and nothing in the outline shows a comment,
then the outline of the document with the blank has the same keys, imports, exports and packages. -/

namespace HdlIndex

namespace Text

/-! ### Texts that show a comment -/

/-- What comments start with. -/
def commentMarks : List (List Char) := [['/', '/'], ['/', '*']]

/-- Whether a comment starts somewhere in a text. -/
def showsComment (text : String) : Bool :=
  commentMarks.any fun mark => decide (mark <:+: text.toList)

theorem showsComment_iff {text : String} :
    showsComment text = true ↔ ∃ mark ∈ commentMarks, mark <:+: text.toList := by
  simp [showsComment, List.any_eq_true]

section Marks

variable {mark : List Char}

theorem eq_of_mem_commentMarks (hmark : mark ∈ commentMarks) :
    mark = ['/', '/'] ∨ mark = ['/', '*'] := by
  simpa [commentMarks] using hmark

theorem length_of_mem_commentMarks (hmark : mark ∈ commentMarks) : mark.length = 2 := by
  rcases eq_of_mem_commentMarks hmark with rfl | rfl <;> rfl

theorem ne_nil_of_mem_commentMarks (hmark : mark ∈ commentMarks) : mark ≠ [] :=
  List.ne_nil_of_length_eq_add_one (length_of_mem_commentMarks hmark)

theorem isBlank_of_mem_commentMarks (hmark : mark ∈ commentMarks) :
    ∀ c ∈ mark, isBlank c = false := by
  have hslash : isBlank '/' = false := rfl
  have hstar : isBlank '*' = false := rfl
  rcases eq_of_mem_commentMarks hmark with rfl | rfl <;> simp [hslash, hstar]

theorem colon_notMem_of_mem_commentMarks (hmark : mark ∈ commentMarks) : ':' ∉ mark := by
  rcases eq_of_mem_commentMarks hmark with rfl | rfl <;> simp

end Marks

/-- A comment is still to be seen when the blanks around it are squeezed. -/
theorem showsComment_join_fields {text : String} (h : showsComment text = true) (sep : String) :
    showsComment (sep.intercalate (fields text)) = true := by
  obtain ⟨mark, hmark, hinfix⟩ := showsComment_iff.1 h
  exact showsComment_iff.2 ⟨mark, hmark, infix_join_fields (isBlank_of_mem_commentMarks hmark)
    (ne_nil_of_mem_commentMarks hmark) hinfix sep⟩

/-! ### A blank in the place of a comment -/

theorem takeBytes_append_of_le {n : Nat} {a : List Char} (h : n ≤ byteSize a) (b : List Char) :
    takeBytes n (a ++ b) = takeBytes n a := by
  induction a generalizing n with
  | nil =>
    obtain rfl : n = 0 := Nat.le_zero.1 h
    rw [takeBytes_zero, takeBytes_zero]
  | cons c a ih =>
    rw [List.cons_append, takeBytes, takeBytes]
    split
    · rw [ih (Nat.sub_le_of_le_add (by rwa [byteSize, Nat.add_comm] at h))]
    · rfl

/-- The offset in the text with `c` behind `u`, for the one in the text with a blank instead. -/
def shiftPast (u c : String) (offset : Nat) : Nat :=
  if offset ≤ u.utf8ByteSize then offset else offset - 1 + c.utf8ByteSize

variable {u c v : String} {a b n : Nat}

/-- A place between characters lies in front of the blank or behind it. -/
theorem cases_of_isValid (h : String.Pos.Raw.IsValid (u ++ " " ++ v) ⟨n⟩) :
    (∃ x y, u.toList = x ++ y ∧ n = byteSize x ∧ shiftPast u c n = byteSize x) ∨
      ∃ x y, v.toList = x ++ y ∧ n = byteSize (u.toList ++ ' ' :: x) ∧
        shiftPast u c n = byteSize (u.toList ++ (c.toList ++ x)) := by
  obtain ⟨front, behind, htext, hn⟩ := String.Pos.Raw.isValid_iff_exists_append.1 h
  have hfront : n = byteSize front.toList := by
    rw [byteSize_toList]
    exact congrArg String.Pos.Raw.byteIdx hn
  have hlists : u.toList ++ ' ' :: v.toList = front.toList ++ behind.toList := by
    have := congrArg String.toList htext
    simpa using this
  have hinside {x y : List Char} (hu : u.toList = x ++ y) :
      shiftPast u c (byteSize x) = byteSize x := by
    refine if_pos ?_
    rw [← byteSize_toList, hu, byteSize_append]
    exact Nat.le_add_right _ _
  rw [hfront]
  rcases List.append_eq_append_iff.1 hlists with ⟨x, hx, hv⟩ | ⟨y, hu, -⟩
  · cases x with
    | nil =>
      rw [List.append_nil] at hx
      exact .inl ⟨u.toList, [], (List.append_nil _).symm, by rw [hx],
        by rw [hx, hinside (List.append_nil _).symm]⟩
    | cons blank x =>
      obtain ⟨rfl, hrest⟩ := List.cons.inj hv
      refine .inr ⟨x, behind.toList, hrest, by rw [hx], ?_⟩
      have hblank : Char.utf8Size ' ' = 1 := rfl
      rw [hx, shiftPast, byteSize_append, byteSize_append, byteSize_append, byteSize_toList,
        byteSize_toList, byteSize, hblank, if_neg (by omega)]
      omega
  · exact .inl ⟨front.toList, y, hu, rfl, hinside hu⟩

theorem slice_of_append {text : String} {x rest : List Char} (h : text.toList = x ++ rest)
    (stop : Nat) : slice text (byteSize x) stop = .ofList (takeBytes (stop - byteSize x) rest) := by
  rw [slice, h, dropBytes_append]

theorem toList_around (u middle v : String) :
    (u ++ middle ++ v).toList = u.toList ++ (middle.toList ++ v.toList) := by
  rw [String.toList_append, String.toList_append, List.append_assoc]

/-- What starts behind the blank is the same in both texts. -/
theorem slice_behind_blank (hb : String.Pos.Raw.IsValid (u ++ " " ++ v) ⟨b⟩) {x y : List Char}
    (hv : v.toList = x ++ y) :
    slice (u ++ " " ++ v) (byteSize (u.toList ++ ' ' :: x)) b =
      slice (u ++ c ++ v) (byteSize (u.toList ++ (c.toList ++ x))) (shiftPast u c b) := by
  have hbehind (middle : String) :
      (u ++ middle ++ v).toList = (u.toList ++ (middle.toList ++ x)) ++ y := by
    rw [toList_around, hv, List.append_assoc, List.append_assoc]
  rw [slice_of_append (hbehind c)]
  refine (slice_of_append (hbehind _) b).trans (congrArg _ (congrArg (takeBytes · y) ?_))
  rcases cases_of_isValid (c := c) hb with ⟨z, rest, hu, rfl, hb'⟩ | ⟨z, rest, -, rfl, hb'⟩
  · have hsize := congrArg byteSize hu
    rw [byteSize_append] at hsize
    rw [hb']
    simp only [byteSize_append]
    omega
  · have hblank : byteSize (' ' :: z) = byteSize " ".toList + byteSize z := rfl
    rw [hb']
    simp only [byteSize_append]
    omega

/-- A part of the text with the blank is also a part of the text with `c`, or it has the blank in
it. -/
theorem slice_blanked (ha : String.Pos.Raw.IsValid (u ++ " " ++ v) ⟨a⟩)
    (hb : String.Pos.Raw.IsValid (u ++ " " ++ v) ⟨b⟩) :
    slice (u ++ " " ++ v) a b = slice (u ++ c ++ v) (shiftPast u c a) (shiftPast u c b) ∨
      ∃ y z, y <:+ u.toList ∧ z <+: v.toList ∧
        (slice (u ++ " " ++ v) a b).toList = y ++ ' ' :: z ∧
        (slice (u ++ c ++ v) (shiftPast u c a) (shiftPast u c b)).toList =
          y ++ (c.toList ++ z) := by
  rcases cases_of_isValid (c := c) ha with ⟨x, y, hu, rfl, ha'⟩ | ⟨x, y, hv, rfl, ha'⟩
  · have hbehind (middle : String) :
        (u ++ middle ++ v).toList = x ++ (y ++ (middle.toList ++ v.toList)) := by
      rw [toList_around, hu, List.append_assoc]
    rw [ha', slice_of_append (hbehind _), slice_of_append (hbehind _)]
    rcases cases_of_isValid (c := c) hb with ⟨z, rest, hu', rfl, hb'⟩ | ⟨z, rest, hv, rfl, hb'⟩
    · have hle : byteSize z - byteSize x ≤ byteSize y := by
        have hsize := congrArg byteSize (hu.symm.trans hu')
        rw [byteSize_append, byteSize_append] at hsize
        omega
      left
      rw [hb', takeBytes_append_of_le hle, takeBytes_append_of_le hle]
    · have hinside (middle : List Char) :
          takeBytes (byteSize (u.toList ++ (middle ++ z)) - byteSize x)
              (y ++ (middle ++ v.toList)) = y ++ (middle ++ z) := by
        have hrest : y ++ (middle ++ v.toList) = (y ++ (middle ++ z)) ++ rest := by
          rw [hv, List.append_assoc, List.append_assoc]
        rw [hu, List.append_assoc, byteSize_append, Nat.add_sub_cancel_left, hrest,
          takeBytes_append]
      refine .inr ⟨y, z, ⟨x, hu.symm⟩, ⟨rest, hv.symm⟩, ?_, ?_⟩
      · rw [String.toList_ofList]
        exact hinside [' ']
      · rw [hb', String.toList_ofList, hinside]
  · rw [ha']
    exact .inl (slice_behind_blank hb hv)

end Text

open Text

/-! ### Package items -/

namespace Reading

theorem beforeColons_cons {c : Char} {cs : List Char} (h : c = ':' → cs.head? ≠ some ':') :
    beforeColons (c :: cs) = (beforeColons cs).map (c :: ·) := by
  rw [beforeColons]
  rintro rest rfl rfl
  exact h rfl rfl

/-- The first colons of a text are in its first part, if there are any in it. -/
theorem beforeColons_append {a b : List Char} (h : a.getLast? = some ':' → b.head? ≠ some ':') :
    beforeColons (a ++ b) = (beforeColons a).or ((beforeColons b).map (a ++ ·)) := by
  induction a using beforeColons.induct with
  | case1 rest => rfl
  | case2 => simp [beforeColons]
  | case3 c cs hcolons ih =>
    have happart : c = ':' → cs.head? ≠ some ':' := by
      rintro rfl hhead
      obtain ⟨rest, rfl⟩ := List.head?_eq_some_iff.1 hhead
      exact hcolons rest rfl rfl
    have hlonger : c = ':' → (cs ++ b).head? ≠ some ':' := by
      rintro rfl
      cases cs with
      | nil => exact h rfl
      | cons d cs => exact happart rfl
    have hlast : cs.getLast? = some ':' → b.head? ≠ some ':' := fun hcs =>
      h (by rw [List.getLast?_cons, hcs]; rfl)
    rw [List.cons_append, beforeColons_cons hlonger, beforeColons_cons happart, ih hlast,
      Option.map_or, Option.map_map]
    rfl

/-- Where there are no colons, there are none behind either. -/
theorem beforeColons_eq_none_of_append {a b : List Char} (h : beforeColons (a ++ b) = none) :
    beforeColons b = none := by
  induction a with
  | nil => exact h
  | cons c a ih =>
    rw [List.cons_append, beforeColons.eq_def] at h
    split at h
    · cases h
    · next hnil => cases hnil
    · next hcons =>
      obtain ⟨rfl, rfl⟩ := List.cons.inj hcons
      exact ih (Option.map_eq_none_iff.1 h)

end Reading

/-- Where there is no colon at all. -/
theorem Reading.beforeColons_of_notMem {a : List Char} (h : ':' ∉ a) : beforeColons a = none := by
  induction a with
  | nil => rfl
  | cons c a ih =>
    rw [List.mem_cons, not_or] at h
    rw [beforeColons_cons fun hc => absurd hc.symm h.1, ih h.2]
    rfl

/-! ### Texts with a comment inside -/

/-- Whether a text has, besides other blanks, a comment in it that another one does not have. It
does not part two colons. -/
def Parted (text text' : String) : Prop :=
  ∃ mark ∈ commentMarks, ∃ y z rest, mark <:+: text'.toList ∧
    (y.getLast? = some ':' → z.head? ≠ some ':') ∧ solid text.toList = y ++ z ∧
    solid text'.toList = y ++ (mark ++ (rest ++ z))

namespace Parted

variable {text text' : String}

theorem showsComment_join_fields (h : Parted text text') (sep : String) :
    showsComment (sep.intercalate (fields text')) = true := by
  obtain ⟨mark, hmark, -, -, -, hinfix, -⟩ := h
  exact Text.showsComment_join_fields (showsComment_iff.2 ⟨mark, hmark, hinfix⟩) sep

/-- As a package item, the text shows the comment. The package in front of the colons is the same,
or shows it as well. -/
theorem itemAlike (h : Parted text text') {item item' : String}
    (hitem : item.toList = solid text.toList) (hitem' : item'.toList = solid text'.toList) :
    ItemAlike showsComment item item' := by
  obtain ⟨mark, hmark, y, z, rest, -, hcolons, hsolid, hsolid'⟩ := h
  rw [hsolid] at hitem
  rw [hsolid'] at hitem'
  have hcolon : ':' ∉ mark := colon_notMem_of_mem_commentMarks hmark
  have hlast : mark.getLast? = some ':' → (rest ++ z).head? ≠ some ':' := fun h =>
    absurd (List.mem_of_getLast? h) hcolon
  have hfirst : y.getLast? = some ':' → (mark ++ (rest ++ z)).head? ≠ some ':' := fun _ h => by
    rw [List.head?_append_of_ne_nil _ (ne_nil_of_mem_commentMarks hmark)] at h
    exact hcolon (List.mem_of_head? h)
  have hshows : showsComment item' = true :=
    showsComment_iff.2 ⟨mark, hmark, y, rest ++ z, by rw [hitem', List.append_assoc]⟩
  refine .inr ⟨hshows, ?_⟩
  rw [hitem, hitem', Reading.beforeColons_append hcolons, Reading.beforeColons_append hfirst,
    Reading.beforeColons_append hlast, Reading.beforeColons_of_notMem hcolon, Option.none_or,
    Option.map_map]
  cases Reading.beforeColons y with
  | some package => exact .inl rfl
  | none =>
    rw [Option.none_or, Option.none_or]
    cases hbehind : Reading.beforeColons (rest ++ z) with
    | none =>
      rw [Reading.beforeColons_eq_none_of_append hbehind]
      exact .inl rfl
    | some package =>
      refine .inr ⟨_, rfl, fun hstar => ?_, showsComment_iff.2 ⟨mark, hmark, y, package, by simp⟩⟩
      have hlength := congrArg List.length hstar
      simp only [Function.comp_apply, List.length_append, List.length_singleton,
        length_of_mem_commentMarks hmark] at hlength
      omega

end Parted

/-! ### Twins -/

/-- Two processed documents that differ in one place, where the text of the first one has a comment
and that of the second one a blank. -/
structure Blanked (p q : Preprocessed) (u comment v : String) : Prop where
  text : p.stream.text = u ++ comment ++ v
  blanked : q.stream.text = u ++ " " ++ v
  symbols : q.symbols = p.symbols
  opens : ∃ mark ∈ commentMarks, mark <+: comment.toList

/-- Whether what stands between two texts parts two colons. -/
def PartsColons (u v : String) : Prop :=
  (solid u.toList).getLast? = some ':' ∧ (solid v.toList).head? = some ':'

namespace Blanked

variable {p q : Preprocessed} {u comment v : String}

/-- A text that is cut out of the document has the comment in it, or is not touched by it. -/
theorem cut (h : Blanked p q u comment v) (hcolons : ¬PartsColons u v) {a b : Nat}
    (ha : String.Pos.Raw.IsValid q.stream.text ⟨a⟩)
    (hb : String.Pos.Raw.IsValid q.stream.text ⟨b⟩) :
    slice q.stream.text a b = slice p.stream.text (shiftPast u comment a) (shiftPast u comment b) ∨
      Parted (slice q.stream.text a b)
        (slice p.stream.text (shiftPast u comment a) (shiftPast u comment b)) := by
  obtain ⟨mark, hmark, tail, htail⟩ := h.opens
  rw [h.blanked] at ha hb
  rw [h.blanked, h.text]
  refine (slice_blanked ha hb).imp_right fun hparted => ?_
  obtain ⟨y, z, ⟨before, hy⟩, ⟨behind, hz⟩, hq, hp⟩ := hparted
  rw [Parted, hq, hp, ← htail]
  refine ⟨mark, hmark, solid y, solid z, solid tail, ⟨y, tail ++ z, by simp⟩, ?_, ?_, ?_⟩
  · intro hlast hhead
    have hu : (solid u.toList).getLast? = some ':' := by
      rw [← hy, solid_append, List.getLast?_append, hlast, Option.some_or]
    have hv : (solid v.toList).head? = some ':' := by
      rw [← hz, solid_append, List.head?_append, hhead, Option.some_or]
    exact hcolons ⟨hu, hv⟩
  · exact solid_append y (' ' :: z)
  · rw [solid_append, solid_append, solid_append,
      solid_of_forall (isBlank_of_mem_commentMarks hmark), List.append_assoc]

/-- The document with the blank and the one with the comment. -/
def twin (h : Blanked p q u comment v) (hcolons : ¬PartsColons u v) : Twin where
  doc := .ofPreprocessed q
  doc' := .ofPreprocessed p
  shift := shiftPast u comment
  At n := String.Pos.Raw.IsValid q.stream.text ⟨n⟩
  Marked := showsComment
  same := False
  same_eq h := h.elim
  texts first last hfirst hlast := by
    rw [Document.textBetween, Document.textBetween, Cursor.nextStart_mapOffsets,
      Cursor.mapOffsets_stop]
    rcases h.cut hcolons hfirst.nextStart hlast.stop with heq | hparted
    · exact .inl (congrArg (fun text => " ".intercalate (fields text)) heq)
    · exact .inr (hparted.showsComment_join_fields " ")
  items first last hfirst hlast := by
    have hjoined (text : String) :
        ("".intercalate (fields (" ".intercalate (fields text)))).toList = solid text.toList := by
      rw [toList_join_fields, solid_join_fields rfl]
    rw [Document.textBetween, Document.textBetween, Cursor.nextStart_mapOffsets,
      Cursor.mapOffsets_stop]
    rcases h.cut hcolons hfirst.nextStart hlast.stop with heq | hparted
    · exact .inl (congrArg
        (fun text => "".intercalate (fields (" ".intercalate (fields text)))) heq)
    · exact hparted.itemAlike (hjoined _) (hjoined _)
  marked_withDimensions name dimensions hmarked := by
    obtain ⟨mark, hmark, hinfix⟩ := showsComment_iff.1 hmarked
    rw [Reading.withDimensions]
    split
    · next hempty =>
      rw [String.isEmpty_iff] at hempty
      rw [hempty] at hinfix
      exact absurd (List.infix_nil.1 hinfix) (ne_nil_of_mem_commentMarks hmark)
    · refine showsComment_iff.2 ⟨mark, hmark, ?_⟩
      rw [String.toList_append]
      exact hinfix.trans (List.suffix_append _ _).isInfix

end Blanked

namespace Outline

/-- Comments only matter where they are to be seen. If a blank in the place of a comment leaves the
tokens as they are and brings no colons together, and no tag, import, export or package of the
outline shows a comment, then the document with the blank has the same keys, imports, exports and
packages, whatever was read into the tables before. -/
theorem sameKeys_of_unseen_comment {p q : Preprocessed} {u comment v : String}
    (h : Blanked p q u comment v) (hcolons : ¬PartsColons u v)
    (htokens : OutlineToken.significant (Grammar.structural.tokenize p.stream.text) =
      (OutlineToken.significant (Grammar.structural.tokenize q.stream.text)).map
        (·.mapOffsets (shiftPast u comment)))
    (limits : Limits) {t t' : SymbolTable} (ht : t.Attainable) (ht' : t'.Attainable)
    (hunseen : (read p limits t').1.shows showsComment = false) :
    (read q limits t).1.SameKeys (read p limits t').1 := by
  refine sameKeys_of_twin (h.twin hcolons) id rfl rfl h.symbols rfl ?_ ?_ ht.orderly.sound
    ht'.orderly.sound hunseen
  · rw [tokensOf, tokensOf, htokens, List.map_take]
    rfl
  · refine ⟨String.Pos.Raw.isValid_zero, fun token htoken => ?_⟩
    exact OutlineToken.isValid_significant (List.mem_of_mem_take htoken)

end Outline

namespace Session

/-- A document without files around it. -/
def alone (text : String) : Preprocessed := (withoutFiles.preprocess "/a.sv" text).1

def outlineAlone (text : String) : Outline := (withoutFiles.outline "/a.sv" text).1

theorem outlineAlone_eq (text : String) :
    outlineAlone text = (Outline.read (alone text) withoutFiles.options.limits .empty).1 := rfl

/-- An import with a comment behind the item, and one with a comment inside; both also with a blank
instead. -/
theorem computed_imports :
    (alone "import p::*/**/;").stream.text = "import p::*" ++ "/**/" ++ ";" ∧
    (alone "import p::* ;").stream.text = "import p::*" ++ " " ++ ";" ∧
    (alone "import p::* ;").symbols = (alone "import p::*/**/;").symbols ∧
    OutlineToken.significant
        (Grammar.structural.tokenize (alone "import p::*/**/;").stream.text) =
      (OutlineToken.significant
        (Grammar.structural.tokenize (alone "import p::* ;").stream.text)).map
          (·.mapOffsets (shiftPast "import p::*" "/**/")) ∧
    (outlineAlone "import p::*/**/;").shows showsComment = false ∧
    (alone "import p/**/::*;").stream.text = "import p" ++ "/**/" ++ "::*;" ∧
    (alone "import p ::*;").stream.text = "import p" ++ " " ++ "::*;" ∧
    (alone "import p ::*;").symbols = (alone "import p/**/::*;").symbols ∧
    (Grammar.structural.tokenize (alone "import p/**/::*;").stream.text).map
        (fun t => (t.text, t.hasScope Role.blockComment.scope)) =
      [("import", false), (" ", false), ("p", false), ("/*", true), ("*/", true), ("::", false),
        ("*", false), (";", false)] ∧
    (outlineAlone "import p/**/::*;").symbols.imports = ["p/**/::*"] ∧
    (outlineAlone "import p/**/::*;").packages = ["p/**/"] ∧
    (outlineAlone "import p ::*;").symbols.imports = ["p::*"] ∧
    (outlineAlone "import p ::*;").packages = ["p"] := by
  simp only [outlineAlone_eq]
  unfold Outline.read
  rw [Grammar.structural_eq_inPieces]
  decide +kernel

theorem opens_blockComment : ∃ mark ∈ commentMarks, mark <+: "/**/".toList :=
  ⟨['/', '*'], by decide, by decide⟩

/-- A comment behind the item of an import is not to be seen. -/
theorem sameKeys_of_unseen_comment_behind :
    (Blanked (alone "import p::*/**/;") (alone "import p::* ;") "import p::*" "/**/" ";" ∧
      ¬PartsColons "import p::*" ";" ∧
      OutlineToken.significant
          (Grammar.structural.tokenize (alone "import p::*/**/;").stream.text) =
        (OutlineToken.significant
          (Grammar.structural.tokenize (alone "import p::* ;").stream.text)).map
            (·.mapOffsets (shiftPast "import p::*" "/**/")) ∧
      SymbolTable.empty.Attainable ∧
      (outlineAlone "import p::*/**/;").shows showsComment = false) ∧
    (outlineAlone "import p::* ;").SameKeys (outlineAlone "import p::*/**/;") := by
  obtain ⟨htext, hblanked, hsymbols, htokens, hunseen, -⟩ := computed_imports
  have hcolons : ¬PartsColons "import p::*" ";" := fun h => absurd h.1 (by decide)
  have h : Blanked _ _ "import p::*" "/**/" ";" := ⟨htext, hblanked, hsymbols, opens_blockComment⟩
  refine ⟨⟨h, hcolons, htokens, .empty, hunseen⟩, ?_⟩
  rw [outlineAlone_eq] at hunseen
  rw [outlineAlone_eq, outlineAlone_eq]
  exact Outline.sameKeys_of_unseen_comment h hcolons htokens _ .empty .empty hunseen

/-- A comment inside the item of an import becomes part of the import. -/
theorem comment_in_import :
    Blanked (alone "import p/**/::*;") (alone "import p ::*;") "import p" "/**/" "::*;" ∧
    (Grammar.structural.tokenize (alone "import p/**/::*;").stream.text).map
        (fun t => (t.text, t.hasScope Role.blockComment.scope)) =
      [("import", false), (" ", false), ("p", false), ("/*", true), ("*/", true), ("::", false),
        ("*", false), (";", false)] ∧
    (outlineAlone "import p ::*;").symbols.imports ≠
      (outlineAlone "import p/**/::*;").symbols.imports ∧
    (outlineAlone "import p ::*;").packages ≠ (outlineAlone "import p/**/::*;").packages := by
  obtain ⟨-, -, -, -, -, htext, hblanked, hsymbols, hpieces, himports, hpackages, himports',
    hpackages'⟩ := computed_imports
  refine ⟨⟨htext, hblanked, hsymbols, opens_blockComment⟩, hpieces, ?_, ?_⟩
  · rw [himports, himports']
    decide
  · rw [hpackages, hpackages']
    decide

end Session

end HdlIndex

import Mathlib.Data.List.Basic
import HdlIndex.Text.Class

/-! Texts with their blanks squeezed. The fields of a text, joined by single blanks or by nothing,
have all of its characters but the blanks. Main statements: joined by nothing they are the text
without blanks, and a run without blanks that stands in the text still stands in them when they are
joined by blanks. -/

namespace HdlIndex.Text

/-- The characters that are not blank. -/
def solid (cs : List Char) : List Char := cs.filter (!isBlank ·)

@[simp]
theorem solid_nil : solid [] = [] := rfl

@[simp]
theorem solid_append (a b : List Char) : solid (a ++ b) = solid a ++ solid b :=
  List.filter_append a b

theorem solid_of_forall {cs : List Char} (h : ∀ c ∈ cs, isBlank c = false) : solid cs = cs :=
  List.filter_eq_self.2 fun c hc => by simp [h c hc]

/-! ### Splitting at blanks -/

theorem flatten_splitOnP (cs : List Char) : (cs.splitOnP isBlank).flatten = solid cs := by
  induction cs with
  | nil => rfl
  | cons c cs ih =>
    obtain ⟨first, rest, hsplit⟩ := List.exists_cons_of_ne_nil (List.splitOnP_ne_nil isBlank cs)
    rw [List.splitOnP_cons_eq_if_modifyHead, solid, List.filter_cons, ← solid, ← ih, hsplit]
    cases isBlank c <;> rfl

/-- A run without blanks becomes part of the first piece behind it. -/
theorem splitOnP_append {run : List Char} (hrun : ∀ c ∈ run, isBlank c = false) (b : List Char) :
    (run ++ b).splitOnP isBlank = (b.splitOnP isBlank).modifyHead (run ++ ·) := by
  induction run with
  | nil => exact congrFun List.modifyHead_id.symm _
  | cons c run ih =>
    have hc : ¬isBlank c = true := by simp [hrun c List.mem_cons_self]
    rw [List.cons_append, List.splitOnP_cons_eq_if_modifyHead, if_neg hc,
      ih fun d hd => hrun d (List.mem_cons_of_mem _ hd), List.modifyHead_modifyHead]
    rfl

/-- A run without blanks lies in one piece. -/
theorem exists_infix_splitOnP {run : List Char} (hrun : ∀ c ∈ run, isBlank c = false)
    (a b : List Char) : ∃ piece ∈ (a ++ (run ++ b)).splitOnP isBlank, run <:+: piece := by
  induction a with
  | nil =>
    obtain ⟨first, rest, hsplit⟩ := List.exists_cons_of_ne_nil (List.splitOnP_ne_nil isBlank b)
    rw [List.nil_append, splitOnP_append hrun, hsplit]
    exact ⟨run ++ first, List.mem_cons_self, (List.prefix_append run first).isInfix⟩
  | cons c a ih =>
    obtain ⟨piece, hpiece, hinfix⟩ := ih
    obtain ⟨first, rest, hsplit⟩ :=
      List.exists_cons_of_ne_nil (List.splitOnP_ne_nil isBlank (a ++ (run ++ b)))
    rw [List.cons_append, List.splitOnP_cons_eq_if_modifyHead]
    rw [hsplit] at hpiece ⊢
    split
    · exact ⟨piece, List.mem_cons_of_mem _ hpiece, hinfix⟩
    · rcases List.mem_cons.1 hpiece with rfl | hrest
      · exact ⟨c :: piece, List.mem_cons_self, List.infix_cons hinfix⟩
      · exact ⟨piece, List.mem_cons_of_mem _ hrest, hinfix⟩

/-! ### Joining -/

/-- What stands between pieces that are joined does not count if nothing of it passes the test. -/
theorem filter_intercalate {test : Char → Bool} {sep : List Char} (hsep : sep.filter test = [])
    (pieces : List (List Char)) :
    (sep.intercalate pieces).filter test = pieces.flatten.filter test := by
  induction pieces with
  | nil => rfl
  | cons piece pieces ih =>
    rw [List.flatten_cons, List.filter_append, ← ih]
    by_cases hnil : pieces = []
    · simp [hnil]
    · rw [List.intercalate_cons_of_ne_nil hnil, List.filter_append, List.filter_append, hsep,
        List.append_nil]

theorem mem_intersperse {sep piece : List Char} {pieces : List (List Char)} (h : piece ∈ pieces) :
    piece ∈ pieces.intersperse sep := by
  obtain ⟨i, hi⟩ := List.mem_iff_getElem?.1 h
  exact List.mem_of_getElem? (List.getElem?_intersperse_two_mul.trans hi)

/-- The fields of a text as lists. -/
theorem toList_fields (s : String) :
    (fields s).map String.toList = (s.toList.splitOnP isBlank).filter (!·.isEmpty) := by
  rw [fields, List.map_map]
  exact (List.map_congr_left fun _ _ => String.toList_ofList).trans (List.map_id _)

theorem flatten_fields (s : String) : ((fields s).map String.toList).flatten = solid s.toList := by
  rw [toList_fields, List.flatten_filter_not_isEmpty, flatten_splitOnP]

/-- Fields joined by blanks. -/
theorem solid_join_fields {sep : String} (hsep : solid sep.toList = []) (s : String) :
    solid (sep.intercalate (fields s)).toList = solid s.toList := by
  rw [String.toList_intercalate, solid, filter_intercalate hsep, flatten_fields]
  simp [solid]

/-- Fields joined by nothing. -/
theorem toList_join_fields (s : String) : ("".intercalate (fields s)).toList = solid s.toList := by
  have hnothing : ([] : List Char).filter (fun _ => true) = [] := rfl
  have hall := filter_intercalate hnothing ((fields s).map String.toList)
  rwa [List.filter_true, List.filter_true, flatten_fields, ← String.toList_empty,
    ← String.toList_intercalate] at hall

/-- A run without blanks still stands in the joined fields. -/
theorem infix_join_fields {run : List Char} (hrun : ∀ c ∈ run, isBlank c = false) (hne : run ≠ [])
    {s : String} (h : run <:+: s.toList) (sep : String) :
    run <:+: (sep.intercalate (fields s)).toList := by
  obtain ⟨a, b, hs⟩ := h
  obtain ⟨piece, hpiece, hinfix⟩ := exists_infix_splitOnP hrun a b
  rw [← List.append_assoc, hs] at hpiece
  have hfield : piece ∈ (fields s).map String.toList := by
    have hpiecene : piece ≠ [] := fun hnil => hne (by simpa [hnil] using hinfix)
    rw [toList_fields]
    exact List.mem_filter.2 ⟨hpiece, by simpa using hpiecene⟩
  rw [String.toList_intercalate]
  exact hinfix.trans (List.infix_of_mem_flatten (mem_intersperse hfield))

end HdlIndex.Text

import HdlIndex.Proofs.Sources
import Mathlib.Data.List.Induction

/-! Spellings of a path. A path can be put together of parts, and each part may be made normal first. In a
normal path `..` stands in front only, and not behind the root. Main statement: files in memory are found
under every spelling of their path, and under a spelling stands what was put there last. -/

namespace HdlIndex

namespace Component

/-! ### Stacks -/

/-- A stack without `.` in which only `..` stands below a `..`; the last step is on top. -/
structure UpsFirst (stack : List Component) : Prop where
  noDot : .current ∉ stack
  below : stack.Pairwise fun c d => c = .up → d = .up

theorem UpsFirst.tail {c : Component} {stack : List Component} (h : UpsFirst (c :: stack)) :
    UpsFirst stack where
  noDot := fun hmem => h.noDot (List.mem_cons_of_mem c hmem)
  below := (List.pairwise_cons.1 h.below).2

theorem UpsFirst.push {c : Component} {stack : List Component} (h : UpsFirst stack)
    (hdot : c ≠ .current) (hup : c = .up → ∀ d ∈ stack, d = .up) : UpsFirst (c :: stack) where
  noDot := List.not_mem_cons_of_ne_of_not_mem hdot.symm h.noDot
  below := .cons (fun d hd hc => hup hc d hd) h.below

theorem UpsFirst.settle {stack : List Component} (h : UpsFirst stack) (c : Component) :
    UpsFirst (settle stack c) := by
  cases c with
  | current => exact h
  | root => exact h.push (by simp) (by simp)
  | name s => exact h.push (by simp) (by simp)
  | up =>
    match stack, h with
    | [], h => exact h.push (by simp) (by simp)
    | .root :: rest, h => exact h
    | .name s :: rest, h => exact h.tail
    | .current :: rest, h => exact absurd List.mem_cons_self h.noDot
    | .up :: rest, h =>
      -- All steps below a `..` are such steps, so one more may be put on top.
      refine h.push (by simp) fun _ d hd => ?_
      rcases List.mem_cons.1 hd with rfl | hd
      · rfl
      · exact (List.pairwise_cons.1 h.below).1 d hd rfl

end Component

namespace Path

open Component

theorem upsFirst_components (p : Path) : UpsFirst (p.components.foldl settle []) :=
  List.foldlRecOn (motive := UpsFirst) _ _ ⟨by simp, .nil⟩ fun _ h c _ => h.settle c

/-- The steps of a normal path: there is no `.`, and in front of a `..` there are only such steps. -/
theorem components_normalize_upsFirst (p : Path) :
    .current ∉ p.normalize.components ∧
      p.normalize.components.Pairwise fun c d => d = .up → c = .up := by
  rw [components_normalize]
  exact ⟨fun h => p.upsFirst_components.noDot (List.mem_reverse.1 h),
    List.pairwise_reverse.2 p.upsFirst_components.below⟩

/-! ### Steps of a path that is put together -/

/-- The steps that stand between the slashes of a text. -/
def stepsOf (text : List Char) : List Component := (text.splitOnP (· == '/')).filterMap ofPiece

theorem stepsOf_append_slash (a b : List Char) : stepsOf (a ++ '/' :: b) = stepsOf a ++ stepsOf b := by
  rw [stepsOf, List.splitOnP_append_cons a b (by rfl), List.filterMap_append]
  rfl

/-- A slash at the end of a text adds no step. -/
theorem stepsOf_slash (a : List Char) : stepsOf (a ++ ['/']) = stepsOf a := by
  rw [stepsOf_append_slash]
  exact List.append_nil _

/-- What a path does to a stack: it starts with the root if it is absolute, and a dot in front makes no
difference. -/
theorem foldl_settle_components (p : Path) (stack : List Component) :
    p.components.foldl settle stack =
      (stepsOf p.text.toList).foldl settle (if p.isAbsolute then .root :: stack else stack) := by
  simp only [components]
  split
  · rfl
  · split <;> rfl

theorem stepsOf_join {p q : Path} (hq : ¬q.isAbsolute) :
    stepsOf (p.join q).text.toList = stepsOf p.text.toList ++ stepsOf q.text.toList := by
  rw [join, if_neg hq]
  split
  · next hclosed =>
    -- No slash is written between the two where one stands already or nothing stands in front.
    rw [String.toList_append]
    rcases Bool.or_eq_true .. ▸ hclosed with hempty | hslash
    · rw [String.isEmpty_iff.1 hempty]
      rfl
    · obtain ⟨front, hfront⟩ := List.getLast?_eq_some_iff.1 (beq_iff_eq.1 hslash)
      rw [hfront, List.append_assoc, List.singleton_append, stepsOf_append_slash, stepsOf_slash]
  · rw [String.toList_append, String.toList_append, List.append_assoc]
    exact stepsOf_append_slash _ _

theorem isAbsolute_join {p q : Path} (hq : ¬q.isAbsolute) : (p.join q).isAbsolute = p.isAbsolute := by
  rw [join, if_neg hq]
  cases htext : p.text.toList with
  | nil =>
    have hempty : p.text = "" := String.toList_eq_nil_iff.1 htext
    simpa [isAbsolute, hempty] using hq
  | cons c rest => split <;> simp [isAbsolute, String.toList_append, htext]

/-- The steps of a path that is continued are settled one after another. -/
theorem foldl_settle_join {p q : Path} (hq : ¬q.isAbsolute) (stack : List Component) :
    (p.join q).components.foldl settle stack =
      q.components.foldl settle (p.components.foldl settle stack) := by
  rw [foldl_settle_components, foldl_settle_components q, foldl_settle_components p, stepsOf_join hq,
    isAbsolute_join hq, if_neg hq, List.foldl_append]

/-- A path may be made normal before it is continued. -/
theorem normalize_join (p q : Path) : (p.join q).normalize = (p.normalize.join q).normalize := by
  by_cases hq : q.isAbsolute
  · rw [join, join, if_pos hq, if_pos hq]
  · rw [normalize, normalize, foldl_settle_join hq, foldl_settle_join hq, foldl_settle_normalize]

end Path

namespace Files

/-! ### Files under their spellings -/

theorem lookup_cons (path : Path) (e : Path × String) (rest : List (Path × String)) :
    (e :: rest).lookup path = if path = e.1 then some e.2 else rest.lookup path := by
  by_cases h : path = e.1
  · rw [if_pos h, List.lookup_cons, beq_iff_eq.2 h]
  · rw [if_neg h, List.lookup_cons, beq_eq_false_iff_ne.2 h]

/-- A text that takes the place of another. -/
theorem lookup_map (key path : Path) (text : String) (entries : List (Path × String)) :
    (entries.map fun entry => if entry.1 == key then (key, text) else entry).lookup path =
      (entries.lookup path).map fun old => if path = key then text else old := by
  induction entries with
  | nil => rfl
  | cons e rest ih =>
    obtain ⟨place, old⟩ := e
    rw [List.map_cons, lookup_cons, lookup_cons, ih]
    by_cases hkey : place = key
    · subst hkey
      by_cases hpath : path = place <;> simp [hpath]
    · by_cases hpath : path = place <;> simp [hkey, hpath]

/-- A file that is put in stands under all spellings of its path, and hides nothing else. -/
theorem get?_insert (files : Files) (path : Path) (text : String) (a : Path) :
    (files.insert path text).get? a =
      if path.normalize = a.normalize then some text else files.get? a := by
  by_cases hknown : files.entries.any (·.1 == path.normalize)
  · obtain ⟨old, hold⟩ : ∃ old, files.entries.lookup path.normalize = some old := by
      rw [← Option.isSome_iff_exists, List.lookup_isSome_iff]
      simpa [Bool.beq_comm] using hknown
    simp only [insert, get?, if_pos hknown, lookup_map]
    by_cases hsame : path.normalize = a.normalize
    · rw [if_pos hsame, ← hsame, hold, Option.map_some, if_pos rfl]
    · simp [hsame, Ne.symm hsame]
  · have hnone : files.entries.lookup path.normalize = none := by
      rw [List.lookup_eq_none_iff]
      intro e he
      rw [bne_iff_ne]
      exact fun heq => hknown (List.any_eq_true.2 ⟨e, he, beq_iff_eq.2 heq.symm⟩)
    simp only [insert, get?, if_neg hknown, List.lookup_append, lookup_cons, List.lookup_nil]
    by_cases hsame : path.normalize = a.normalize
    · rw [if_pos hsame, ← hsame, hnone, if_pos rfl, Option.none_or]
    · rw [if_neg hsame, if_neg (Ne.symm hsame), Option.or_none]

/-- Of the files that were put in under spellings of a path, the last one stands there. -/
theorem get?_ofList (entries : List (Path × String)) (a : Path) :
    (ofList entries).get? a =
      (entries.filter (·.1.normalize = a.normalize)).getLast?.map (·.2) := by
  induction entries using List.reverseRecOn with
  | nil => rfl
  | append_singleton entries e ih =>
    have hinsert : ofList (entries ++ [e]) = (ofList entries).insert e.1 e.2 := by
      rw [ofList, List.foldl_append]
      rfl
    rw [hinsert, get?_insert, List.filter_append, List.getLast?_append, ih]
    by_cases he : e.1.normalize = a.normalize <;> simp [he]

theorem read_eq_ok_iff {files : Files} {a : Path} {text : String} :
    files.read a = .ok text ↔ files.get? a = some text := by
  unfold read
  cases files.get? a <;> simp

/-- Normal forms stand for files. To make a path normal again changes nothing, and a path may be made normal
before it is continued. A normal path has no `.`, and no `..` behind the root or a name. So files in memory
are known under every spelling: whatever was put in, a path can be read if and only if it is known, and the
text is the one that was put in last under a path with the same normal form. -/
theorem normal_forms_stand_for_files :
    (∀ a : Path, a.normalize.normalize = a.normalize) ∧
    (∀ a b : Path, (a.join b).normalize = (a.normalize.join b).normalize) ∧
    (∀ a : Path, .current ∉ a.normalize.components ∧
      a.normalize.components.Pairwise fun c d => d = .up → c = .up) ∧
    ∀ (entries : List (Path × String)) (a : Path),
      ((∃ text, (ofList entries).provider.read a = .ok text) ↔
        (ofList entries).provider.contains a = true) ∧
      ∀ text, (ofList entries).provider.read a = .ok text ↔
        (entries.filter (·.1.normalize = a.normalize)).getLast?.map (·.2) = some text := by
  refine ⟨Path.normalize_normalize, Path.normalize_join, Path.components_normalize_upsFirst,
    fun entries a => ⟨?_, fun text => ?_⟩⟩
  · show (∃ text, (ofList entries).read a = .ok text) ↔ ((ofList entries).get? a).isSome = true
    rw [Option.isSome_iff_exists]
    exact exists_congr fun text => read_eq_ok_iff
  · rw [← get?_ofList]
    exact read_eq_ok_iff

/-- The second text takes the place of the first one, which was put in under another spelling. -/
example :
    let files := ofList [(⟨"/rtl/./top.sv"⟩, "a"), (⟨"/rtl/inc/../top.sv"⟩, "b")]
    files.provider.read ⟨"//rtl/top.sv"⟩ = .ok "b" := by rfl

end Files

end HdlIndex

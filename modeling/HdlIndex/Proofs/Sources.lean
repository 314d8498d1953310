import HdlIndex.Proofs.Path
import HdlIndex.Source

/-! Texts of source files as a map from names. The entries stand in the order of their names, so two
collections are equal as soon as every name has the same text in both. Files in memory are a provider
with finitely many files, which it lists by their normal paths. -/

namespace HdlIndex

namespace Sources

theorem lookup_cons (f : String) (e : String × String) (rest : List (String × String)) :
    (e :: rest).lookup f = if f = e.1 then some e.2 else rest.lookup f := by
  by_cases hf : f = e.1
  · rw [if_pos hf, List.lookup_cons, beq_iff_eq.2 hf]
  · rw [if_neg hf, List.lookup_cons, beq_eq_false_iff_ne.2 hf]

theorem lookup_place (file text f : String) (entries : List (String × String)) :
    (place file text entries).lookup f = if f = file then some text else entries.lookup f := by
  induction entries with
  | nil => exact lookup_cons f (file, text) []
  | cons e rest ih =>
    rw [place]
    split
    · next heq => by_cases hf : f = file <;> simp [lookup_cons, hf, ← heq]
    · next hne =>
      split
      · exact lookup_cons f (file, text) _
      · by_cases hf : f = e.1
        · simp [lookup_cons, hf, Ne.symm hne]
        · simp [lookup_cons, hf, ih]

theorem get?_insert (s : Sources) (file text f : String) :
    (s.insert file text).get? f = if f = file then some text else s.get? f :=
  lookup_place file text f s.entries

theorem get?_addNew (s : Sources) (file text f : String) :
    (s.addNew file text).get? f = (s.get? f).or (if f = file then some text else none) := by
  unfold addNew
  split
  · next hs =>
    obtain ⟨old, hold⟩ := Option.isSome_iff_exists.1 hs
    by_cases hf : f = file <;> simp [hf, hold]
  · next hs =>
    rw [get?_insert]
    by_cases hf : f = file <;> simp_all

/-- A text of the first collection hides one of the second. -/
theorem get?_merge (s t : Sources) (f : String) : (s.merge t).get? f = (s.get? f).or (t.get? f) := by
  have hfold : ∀ (entries : List (String × String)) (s : Sources),
      (entries.foldl (fun s e => s.addNew e.1 e.2) s).get? f =
        (s.get? f).or (entries.lookup f) := by
    intro entries
    induction entries with
    | nil => simp
    | cons e rest ih =>
      intro s
      rw [List.foldl_cons, ih, get?_addNew, Option.or_assoc, lookup_cons]
      by_cases hf : f = e.1 <;> simp [hf]
  exact hfold t.entries s

/-- Whether the text of a file is known. -/
def Has (s : Sources) (file : String) : Prop := (s.get? file).isSome

theorem has_insert {s : Sources} {file text f : String} :
    (s.insert file text).Has f ↔ f = file ∨ s.Has f := by
  unfold Has
  rw [get?_insert]
  split <;> simp_all

theorem has_merge {s t : Sources} {f : String} : (s.merge t).Has f ↔ s.Has f ∨ t.Has f := by
  unfold Has
  rw [get?_merge, Option.isSome_or, Bool.or_eq_true]

/-! ### Equality -/

theorem lookup_eq_some_of_mem {entries : List (String × String)}
    (h : entries.Pairwise fun e f => e.1 < f.1) {e : String × String} (he : e ∈ entries) :
    entries.lookup e.1 = some e.2 := by
  induction entries with
  | nil => cases he
  | cons first rest ih =>
    obtain ⟨hfirst, hrest⟩ := List.pairwise_cons.1 h
    rcases List.mem_cons.1 he with rfl | he
    · simp [lookup_cons]
    · have hne : e.1 ≠ first.1 := fun heq => String.lt_irrefl _ (heq ▸ hfirst e he)
      simp [lookup_cons, hne, ih hrest he]

theorem mem_of_lookup_eq_some {entries : List (String × String)} {f text : String}
    (h : entries.lookup f = some text) : (f, text) ∈ entries := by
  induction entries with
  | nil => cases h
  | cons first rest ih =>
    rw [lookup_cons] at h
    split at h
    · next hf =>
      cases h
      exact hf ▸ List.mem_cons_self
    · exact List.mem_cons_of_mem _ (ih h)

theorem mem_entries_iff (s : Sources) (e : String × String) :
    e ∈ s.entries ↔ s.get? e.1 = some e.2 :=
  ⟨lookup_eq_some_of_mem s.sorted, mem_of_lookup_eq_some⟩

/-- The order of the names leaves no choice but the texts. -/
theorem ext_get? {s t : Sources} (h : ∀ f, s.get? f = t.get? f) : s = t := by
  have hmem : ∀ e, e ∈ s.entries ↔ e ∈ t.entries := by
    intro e
    rw [mem_entries_iff, mem_entries_iff, h]
  have hnodup : ∀ u : Sources, u.entries.Nodup := by
    intro u
    refine u.sorted.imp ?_
    rintro e f hlt rfl
    exact String.lt_irrefl _ hlt
  have hperm : s.entries.Perm t.entries :=
    (List.perm_ext_iff_of_nodup (hnodup s) (hnodup t)).2 hmem
  have hentries : s.entries = t.entries :=
    hperm.eq_of_pairwise (fun _ _ _ _ hab hba => absurd (String.lt_trans hab hba) (String.lt_irrefl _))
      s.sorted t.sorted
  cases s
  cases t
  cases hentries
  rfl

theorem merge_assoc (s t u : Sources) : (s.merge t).merge u = s.merge (t.merge u) := by
  refine ext_get? fun f => ?_
  simp only [get?_merge, Option.or_assoc]

/-- A text that is not in contradiction with those in front may as well come last. -/
theorem insert_merge {s : Sources} {file text : String}
    (h : ∀ old, s.get? file = some old → old = text) (t : Sources) :
    (s.insert file text).merge t = s.merge (t.insert file text) := by
  refine ext_get? fun f => ?_
  simp only [get?_merge, get?_insert]
  by_cases hf : f = file
  · subst hf
    cases hold : s.get? f with
    | none => simp
    | some old => simp [h old hold]
  · simp [hf]

end Sources

/-! ### Providers with finitely many files -/

/-- The provider can read no other files than these, and lists files by their normal paths. -/
structure Provider.Holds (provider : Provider) (files : List Path) : Prop where
  read {path : Path} {text : String} (h : provider.read path = .ok text) : path.normalize ∈ files
  listed {suffix path : Path} (h : path ∈ provider.endingIn suffix) : path.IsNormal

namespace Files

theorem normal_insert {files : Files} (h : ∀ e ∈ files.entries, e.1.IsNormal) (path : Path)
    (text : String) : ∀ e ∈ (files.insert path text).entries, e.1.IsNormal := by
  intro e he
  simp only [insert] at he
  split at he
  · obtain ⟨old, hold, rfl⟩ := List.mem_map.1 he
    split
    · exact path.isNormal_normalize
    · exact h old hold
  · rcases List.mem_append.1 he with he | he
    · exact h e he
    · cases List.mem_singleton.1 he
      exact path.isNormal_normalize

theorem holds_ofList (entries : List (Path × String)) :
    (ofList entries).provider.Holds ((ofList entries).entries.map (·.1)) := by
  have hnormal : ∀ e ∈ (ofList entries).entries, e.1.IsNormal :=
    List.foldlRecOn (motive := fun files : Files => ∀ e ∈ files.entries, e.1.IsNormal)
      entries _ (by simp [empty]) fun files h e _ => normal_insert h e.1 e.2
  refine ⟨fun {path text} h => ?_, fun {suffix path} h => ?_⟩
  · have hfound : (ofList entries).get? path = some text := by
      simp only [provider, read] at h
      split at h
      · next found hfound => cases h; exact hfound
      · cases h
    obtain ⟨before, behind, hentries, -⟩ := List.lookup_eq_some_iff.1 hfound
    exact List.mem_map.2 ⟨_, by rw [hentries]; exact List.mem_append_right _ List.mem_cons_self, rfl⟩
  · obtain ⟨e, he, rfl⟩ := List.mem_map.1 (List.mem_filter.1 (List.mem_mergeSort.1 h)).1
    exact hnormal e he

end Files

end HdlIndex

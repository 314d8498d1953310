import HdlIndex.Path

/-! Normal paths. The steps of a normal path can be read back from its text, so two normal paths with
the same steps are equal, and a table that is searched by steps has one place for each of them. A
normal path is its own normal form. -/

namespace HdlIndex

namespace Component

/-- A step that is read from what stands between two slashes. -/
def IsStep (c : Component) : Prop := ofPiece c.text.toList = some c ∧ '/' ∉ c.text.toList

theorem isStep_of_ofPiece {piece : List Char} (hslash : '/' ∉ piece) {c : Component}
    (h : ofPiece piece = some c) : c.IsStep := by
  unfold ofPiece at h
  split at h
  · cases h
  · cases h
  · cases h
    exact ⟨rfl, by decide⟩
  · next hnil hdot hup =>
    cases h
    refine ⟨?_, ?_⟩
    · rw [text, String.toList_ofList]
      unfold ofPiece
      split
      · exact absurd rfl hnil
      · exact absurd rfl hdot
      · exact absurd rfl hup
      · rfl
    · rwa [text, String.toList_ofList]

theorem filterMap_ofPiece {steps : List Component} (h : ∀ c ∈ steps, c.IsStep) :
    (steps.map (·.text.toList)).filterMap ofPiece = steps := by
  rw [List.filterMap_map]
  induction steps with
  | nil => rfl
  | cons c steps ih =>
    have hc : (ofPiece ∘ fun c : Component => c.text.toList) c = some c :=
      (h c List.mem_cons_self).1
    rw [List.filterMap_cons_some hc, ih fun d hd => h d (List.mem_cons_of_mem _ hd)]

/-- The stack of a normal form, with its last step first. -/
def Settled (stack : List Component) : Prop :=
  ∃ steps : List Component, (∀ c ∈ steps, c.IsStep) ∧ (stack = steps ∨ stack = steps ++ [.root])

theorem settled_settle {stack : List Component} (h : Settled stack) {c : Component}
    (hc : c = .current ∨ c.IsStep) : Settled (settle stack c) := by
  obtain ⟨steps, hsteps, hstack⟩ := h
  have hpush : c.IsStep → Settled (c :: stack) := fun hstep =>
    ⟨c :: steps, List.forall_mem_cons.2 ⟨hstep, hsteps⟩, hstack.imp (congrArg _) (congrArg _)⟩
  unfold settle
  split
  · exact ⟨steps, hsteps, hstack⟩
  · next s rest =>
    cases steps with
    | nil => simp at hstack
    | cons d steps =>
      refine ⟨steps, fun e he => hsteps e (List.mem_cons_of_mem _ he), ?_⟩
      exact hstack.imp (fun h => (List.cons.inj h).2) (fun h => (List.cons.inj h).2)
  · exact ⟨steps, hsteps, hstack⟩
  · exact hpush (hc.resolve_left (by assumption))

/-- A stack that its own steps give, from the first to the last. -/
def Stands (stack : List Component) : Prop := stack.reverse.foldl settle [] = stack

theorem stands_settle {stack : List Component} (h : Stands stack) (c : Component) :
    Stands (settle stack c) := by
  have hpush (heq : settle stack c = c :: stack) : Stands (c :: stack) := by
    rw [Stands, List.reverse_cons, List.foldl_append, h, List.foldl_cons, List.foldl_nil, heq]
  cases c with
  | current => exact h
  | root => exact hpush rfl
  | name s => exact hpush rfl
  | up =>
    match stack, h with
    | [], h => exact hpush rfl
    | .root :: rest, h => exact h
    | .up :: rest, h => exact hpush rfl
    | .current :: rest, h => exact hpush rfl
    | .name s :: rest, h =>
      -- A name is put on top of whatever stands below it, so what is below stands by itself.
      rw [Stands, List.reverse_cons, List.foldl_append] at h
      exact (List.cons.inj h).2

end Component

namespace Path

open Component

/-- What stands between slashes has no slash. -/
theorem not_mem_of_mem_pieces {text piece : List Char} (h : piece ∈ text.splitOnP (· == '/')) :
    '/' ∉ piece := by
  induction text generalizing piece with
  | nil =>
    rw [List.splitOnP_nil, List.mem_singleton] at h
    simp [h]
  | cons c text ih =>
    rw [List.splitOnP_cons_eq_if_modifyHead] at h
    split at h
    · rcases List.mem_cons.1 h with rfl | h
      · simp
      · exact ih h
    · next hc =>
      cases hpieces : text.splitOnP (· == '/') with
      | nil => simp [hpieces] at h
      | cons first rest =>
        rw [hpieces] at h ih
        rcases List.mem_cons.1 h with rfl | h
        · have hslash : '/' ≠ c := fun heq => hc (beq_iff_eq.2 heq.symm)
          exact List.not_mem_cons_of_ne_of_not_mem hslash (ih List.mem_cons_self)
        · exact ih (List.mem_cons_of_mem _ h)

/-- The steps of a path are the root or a dot, if it starts so, and steps between slashes. -/
theorem components_cases (p : Path) :
    ∃ first steps : List Component, p.components = first ++ steps ∧
      (first = [] ∨ first = [.root] ∨ first = [.current]) ∧ ∀ c ∈ steps, c.IsStep := by
  have hsteps : ∀ c ∈ (p.text.toList.splitOnP (· == '/')).filterMap ofPiece, c.IsStep := by
    intro c hc
    obtain ⟨piece, hpiece, hof⟩ := List.mem_filterMap.1 hc
    exact isStep_of_ofPiece (not_mem_of_mem_pieces hpiece) hof
  simp only [components]
  split
  · exact ⟨[.root], _, rfl, .inr (.inl rfl), hsteps⟩
  · split
    · exact ⟨[.current], _, rfl, .inr (.inr rfl), hsteps⟩
    · exact ⟨[], _, rfl, .inl rfl, hsteps⟩

theorem settled_components (p : Path) : Settled (p.components.foldl settle []) := by
  obtain ⟨first, steps, hp, hfirst, hsteps⟩ := p.components_cases
  have hstart : Settled (first.foldl settle []) := by
    rcases hfirst with rfl | rfl | rfl
    · exact ⟨[], by simp, .inl rfl⟩
    · exact ⟨[], by simp, .inr rfl⟩
    · exact ⟨[], by simp, .inl rfl⟩
  rw [hp, List.foldl_append]
  generalize first.foldl settle [] = stack at hstart
  clear hp
  induction steps generalizing stack with
  | nil => exact hstart
  | cons c steps ih =>
    exact ih (fun d hd => hsteps d (List.mem_cons_of_mem _ hd)) _
      (settled_settle hstart (.inr (hsteps c List.mem_cons_self)))

/-! ### Steps read back -/

theorem splitOnP_slash (text : List Char) :
    ('/' :: text).splitOnP (· == '/') = [] :: text.splitOnP (· == '/') := by
  rw [List.splitOnP_cons_eq_if_modifyHead, if_pos (by rfl)]

/-- The pieces of a path that is written from its steps; without steps it is one empty piece. -/
theorem splitOnP_intercalate {steps : List Component} (h : ∀ c ∈ steps, c.IsStep) :
    ("/".intercalate (steps.map Component.text)).toList.splitOnP (· == '/') =
      if steps = [] then [[]] else steps.map (·.text.toList) := by
  split
  · next hnil => rw [hnil]; rfl
  · next hne =>
    rw [String.toList_intercalate, List.map_map]
    refine List.splitOn_intercalate '/' ?_ (by simpa using hne)
    intro piece hpiece
    obtain ⟨c, hc, rfl⟩ := List.mem_map.1 hpiece
    exact (h c hc).2

theorem filterMap_splitOnP_intercalate {steps : List Component} (h : ∀ c ∈ steps, c.IsStep) :
    (("/".intercalate (steps.map Component.text)).toList.splitOnP (· == '/')).filterMap ofPiece =
      steps := by
  rw [splitOnP_intercalate h]
  split
  · next hnil => rw [hnil]; rfl
  · exact filterMap_ofPiece h

theorem components_ofComponents_root {steps : List Component} (h : ∀ c ∈ steps, c.IsStep) :
    (ofComponents (.root :: steps)).components = .root :: steps := by
  have htext : (ofComponents (.root :: steps)).text.toList =
      '/' :: ("/".intercalate (steps.map Component.text)).toList := by
    rw [ofComponents, String.toList_append]
    rfl
  have habsolute : (ofComponents (.root :: steps)).isAbsolute := by
    rw [isAbsolute, htext]
    rfl
  rw [components, if_pos habsolute, htext, splitOnP_slash,
    List.filterMap_cons_none rfl, filterMap_splitOnP_intercalate h]

theorem components_ofComponents {steps : List Component} (h : ∀ c ∈ steps, c.IsStep) :
    (ofComponents steps).components = steps := by
  have htext : (ofComponents steps).text = "/".intercalate (steps.map Component.text) := by
    unfold ofComponents
    split
    · have hroot := (h .root List.mem_cons_self).1
      simp [Component.text, ofPiece] at hroot
    · rfl
  have hpieces := splitOnP_intercalate h
  have hsteps := filterMap_splitOnP_intercalate h
  rw [← htext] at hpieces hsteps
  cases steps with
  | nil => rfl
  | cons c rest =>
    -- The first piece is that of the first step, so it is neither empty nor a dot.
    rw [if_neg (List.cons_ne_nil c rest), List.map_cons] at hpieces
    have hc := (h c List.mem_cons_self).1
    have habsolute : ¬(ofComponents (c :: rest)).isAbsolute := by
      intro habsolute
      rw [isAbsolute, beq_iff_eq] at habsolute
      obtain ⟨text, htext⟩ := List.head?_eq_some_iff.1 habsolute
      rw [htext, splitOnP_slash] at hpieces
      rw [← (List.cons.inj hpieces).1] at hc
      cases hc
    have hdot : ¬(some c.text.toList == some ['.']) := by
      rw [beq_iff_eq]
      intro hdot
      rw [Option.some.inj hdot] at hc
      cases hc
    rw [components, if_neg habsolute, hpieces, List.head?_cons, if_neg hdot, ← hpieces, hsteps]

/-- The steps of a normal path are those it was made of. -/
theorem components_normalize (p : Path) :
    p.normalize.components = (p.components.foldl settle []).reverse := by
  obtain ⟨steps, hsteps, hstack⟩ := p.settled_components
  have hreverse : ∀ c ∈ steps.reverse, c.IsStep := fun c hc => hsteps c (List.mem_reverse.1 hc)
  rw [normalize]
  rcases hstack with hstack | hstack
  · rw [hstack, components_ofComponents hreverse]
  · rw [hstack, List.reverse_append, List.reverse_singleton, List.singleton_append,
      components_ofComponents_root hreverse]

/-- The steps of a normal path settle as those of the path do. -/
theorem foldl_settle_normalize (p : Path) :
    p.normalize.components.foldl settle [] = p.components.foldl settle [] := by
  have hstands : Stands (p.components.foldl settle []) :=
    List.foldlRecOn (motive := Stands) _ _ rfl fun _ h c _ => stands_settle h c
  rw [components_normalize, hstands]

@[simp]
theorem normalize_normalize (p : Path) : p.normalize.normalize = p.normalize := by
  rw [normalize, foldl_settle_normalize, ← normalize]

/-- A path that is its own normal form. -/
def IsNormal (p : Path) : Prop := p.normalize = p

@[simp]
theorem isNormal_normalize (p : Path) : p.normalize.IsNormal := p.normalize_normalize

/-- Two spellings of one normal path are equal. -/
theorem eq_of_same_normalize {p q : Path} (h : p.normalize.same q.normalize) :
    p.normalize = q.normalize := by
  rw [same, beq_iff_eq, components_normalize, components_normalize] at h
  rw [normalize, h, normalize]

@[simp]
theorem same_refl (p : Path) : p.same p := beq_self_eq_true _

theorem same_symm {p q : Path} (h : p.same q) : q.same p := by
  rwa [same, beq_iff_eq, eq_comm, ← beq_iff_eq] at h

theorem same_trans {p q r : Path} (h : p.same q) (h' : q.same r) : p.same r := by
  rw [same, beq_iff_eq] at h h' ⊢
  exact h.trans h'

end Path

end HdlIndex

import HdlIndex.Proofs.Pattern.Matches

/-! Matches of simple patterns, computed. Comments and literals are made of a character or two, of runs of
characters of a set, and of runs up to a character. Main statements: what such a pattern matches at the
start of a text, and when it does not match. -/

namespace HdlIndex

theorem drop_length_takeWhile {α : Type} (p : α → Bool) (l : List α) :
    l.drop (l.takeWhile p).length = l.dropWhile p := by
  have h : (l.takeWhile p ++ l.dropWhile p).drop (l.takeWhile p).length = l.dropWhile p :=
    List.drop_left
  rwa [List.takeWhile_append_dropWhile] at h

theorem CharSet.has_just {a c : Char} : (CharSet.just a).has c = true ↔ c = a := by
  simp only [CharSet.just, has, Bool.and_eq_true, decide_eq_true_eq]
  exact ⟨fun h => Char.le_antisymm h.2 h.1, fun h => h ▸ ⟨Char.le_refl _, Char.le_refl _⟩⟩

theorem CharSet.any_has_just {a : Char} {c : Option Char} :
    c.any (CharSet.just a).has = true ↔ c = some a := by
  cases c with
  | none => simp
  | some c => simpa using has_just

namespace MatchState

/-- The place where a text starts. -/
def start (text : List Char) : MatchState := ⟨none, text, 0, []⟩

/-- The place behind some characters that come next. -/
def past (s : MatchState) (run : List Char) : MatchState := run.foldl behind s

@[simp] theorem rest_start (text : List Char) : (start text).rest = text := rfl

@[simp] theorem pos_start (text : List Char) : (start text).pos = 0 := rfl

@[simp] theorem captures_start (text : List Char) : (start text).captures = [] := rfl

@[simp] theorem pos_behind (s : MatchState) (c : Char) : (s.behind c).pos = s.pos + 1 := rfl

@[simp] theorem captures_behind (s : MatchState) (c : Char) : (s.behind c).captures = s.captures := rfl

@[simp] theorem pos_past (s : MatchState) (run : List Char) :
    (s.past run).pos = s.pos + run.length := by
  induction run generalizing s with
  | nil => rfl
  | cons c run ih =>
    show ((s.behind c).past run).pos = _
    rw [ih, List.length_cons, pos_behind, Nat.add_assoc, Nat.add_comm 1]

@[simp] theorem captures_past (s : MatchState) (run : List Char) :
    (s.past run).captures = s.captures := by
  induction run generalizing s with
  | nil => rfl
  | cons c run ih => exact ih (s.behind c)

@[simp] theorem rest_past (s : MatchState) (run : List Char) :
    (s.past run).rest = s.rest.drop run.length := by
  induction run generalizing s with
  | nil => rfl
  | cons c run ih =>
    show ((s.behind c).past run).rest = _
    rw [ih, List.length_cons, behind, List.drop_tail]

end MatchState

namespace Pattern

variable {s t : MatchState} {c : Char} {cs : List Char} {a b : CharSet}

/-! ### The preferred end -/

/-- A pattern that is tied to the start of a text. -/
def tied (p : Pattern) : Pattern := .seq (.edge .textStart) p

theorem match?_tied {p : Pattern} (hp : p.isSteady) (text : List Char) :
    (tied p).match? text = (p.ends (.start text)).head?.map fun t => ⟨0, t.pos, t.captures⟩ := by
  simp [tied, match?, isTied, matchFrom?, end?, isSteady, hp, ends, Edge.holds, stepAll,
    MatchState.start]

theorem head?_distinct (states : List MatchState) : (distinct states).head? = states.head? := by
  unfold distinct
  split
  · rfl
  · rfl
  · cases states with
    | nil => rfl
    | cons s rest => simp [distinctFrom]

/-- The first choice counts if there is a match with it. -/
theorem head?_merge (first second : List MatchState) :
    (merge first second).head? = first.head?.or second.head? := by
  unfold merge
  split
  · rfl
  · cases first <;> rfl
  · rw [head?_distinct, List.head?_append]

/-! ### Single characters -/

theorem ends_one (hs : s.rest = c :: cs) :
    (one a).ends s = if a.has c then [s.behind c] else [] := by
  rw [ends, hs]

theorem ends_one_of_nil (hs : s.rest = []) : (one a).ends s = [] := by
  rw [ends, hs]

theorem ends_seq_one (q : Pattern) (hs : s.rest = c :: cs) :
    (seq (one a) q).ends s = if a.has c then q.ends (s.behind c) else [] := by
  rw [ends, ends_one hs]
  split <;> rfl

/-- A row does not match where its first character does not. -/
theorem match?_seq_of_not {q : Pattern} (hq : q.isSteady) (hc : ¬a.has c) (cs : List Char) :
    (tied (seq (one a) q)).match? (c :: cs) = none := by
  rw [match?_tied (show (seq (one a) q).isSteady = true from hq), ends_seq_one q rfl, if_neg hc]
  rfl

theorem match?_one (a : CharSet) (c : Char) (cs : List Char) :
    (tied (one a)).match? (c :: cs) = if a.has c then some ⟨0, 1, []⟩ else none := by
  rw [match?_tied rfl, ends_one rfl]
  split <;> rfl

theorem match?_pair (a b : CharSet) (c : Char) (cs : List Char) :
    (tied (seq (one a) (one b))).match? (c :: cs) =
      if a.has c ∧ cs.head?.any b.has then some ⟨0, 2, []⟩ else none := by
  rw [match?_tied rfl, ends_seq_one (one b) rfl]
  cases cs with
  | nil => simp [ends_one_of_nil (show ((MatchState.start [c]).behind c).rest = [] from rfl)]
  | cons d cs =>
    rw [ends_one (show ((MatchState.start (c :: d :: cs)).behind c).rest = d :: cs from rfl)]
    by_cases hc : a.has c
    · by_cases hd : b.has d
      · simp [hc, hd]
      · simp [hc, hd]
    · simp [hc]

/-! ### Runs -/

theorem head?_runPlaces (a : CharSet) (cs : List Char) (s : MatchState) (found : List MatchState) :
    (runPlaces a cs s found).head? = some (s.past (cs.takeWhile a.has)) := by
  induction cs generalizing s found with
  | nil => rfl
  | cons c cs ih =>
    rw [runPlaces]
    by_cases hc : a.has c
    · rw [if_pos hc, ih, List.takeWhile_cons_of_pos hc]
      rfl
    · rw [if_neg hc, List.takeWhile_cons_of_neg hc]
      rfl

/-- A run goes as far as it can. -/
theorem head?_ends_run {least : Nat} (h : least ≤ (s.rest.takeWhile a.has).length) :
    ((repeated true least none (one a)).ends s).head? = some (s.past (s.rest.takeWhile a.has)) := by
  obtain ⟨places, hplaces⟩ := List.head?_eq_some_iff.1 (head?_runPlaces a s.rest s [])
  show ((runPlaces a s.rest s []).filter fun t => s.pos + least ≤ t.pos).head? = _
  rw [hplaces, List.filter_cons_of_pos, List.head?_cons]
  simpa using h

theorem ends_run_of_not (hs : s.rest = c :: cs) (hc : ¬a.has c) (least : Nat) :
    (repeated true (least + 1) none (one a)).ends s = [] := by
  show (runPlaces a s.rest s []).filter (fun t => s.pos + (least + 1) ≤ t.pos) = []
  rw [hs, runPlaces, if_neg hc]
  simp

theorem match?_run (a : CharSet) (c : Char) (cs : List Char) :
    (tied (repeated true 1 none (one a))).match? (c :: cs) =
      if a.has c then some ⟨0, ((c :: cs).takeWhile a.has).length, []⟩ else none := by
  rw [match?_tied rfl]
  by_cases hc : a.has c
  · have hrun : 1 ≤ ((c :: cs).takeWhile a.has).length := by
      rw [List.takeWhile_cons_of_pos hc]
      exact Nat.succ_pos _
    rw [head?_ends_run (s := .start (c :: cs)) hrun, if_pos hc]
    simp
  · rw [ends_run_of_not rfl hc, if_neg hc]
    rfl

/-- A run of characters of one set, or a single character of another. -/
theorem match?_run_or (a b : CharSet) (c : Char) (cs : List Char) :
    (tied (alt (repeated true 1 none (one a)) (one b))).match? (c :: cs) =
      if a.has c then some ⟨0, ((c :: cs).takeWhile a.has).length, []⟩
      else if b.has c then some ⟨0, 1, []⟩ else none := by
  have hrun := match?_run a c cs
  have hone := match?_one b c cs
  rw [match?_tied rfl] at hrun hone ⊢
  rw [ends, head?_merge, Option.map_or, hrun, hone]
  split <;> rfl

/-- Two characters and a run behind them. -/
theorem match?_pair_run (a b d : CharSet) (c : Char) (cs : List Char) :
    (tied (seq (one a) (seq (one b) (repeated true 0 none (one d))))).match? (c :: cs) =
      if a.has c ∧ cs.head?.any b.has then some ⟨0, 2 + (cs.tail.takeWhile d.has).length, []⟩
      else none := by
  rw [match?_tied rfl, ends_seq_one _ rfl]
  by_cases hc : a.has c
  · rw [if_pos hc]
    cases cs with
    | nil =>
      rw [ends, ends_one_of_nil (show ((MatchState.start [c]).behind c).rest = [] from rfl)]
      simp [stepAll]
    | cons e cs =>
      rw [ends_seq_one _ (show ((MatchState.start (c :: e :: cs)).behind c).rest = e :: cs from rfl)]
      by_cases he : b.has e
      · rw [if_pos he, head?_ends_run (Nat.zero_le _)]
        simp [hc, he, MatchState.behind, MatchState.start]
      · simp [he]
  · simp [hc]

/-- Of the places in a run, only the last one counts if the next step leaves the set. -/
theorem flatMap_runPlaces {f : MatchState → List MatchState}
    (hf : ∀ s c, s.rest.head? = some c → a.has c → f s = []) (cs : List Char) (s : MatchState)
    (hs : s.rest = cs) (found : List MatchState) :
    (runPlaces a cs s found).flatMap f =
      f (s.past (cs.takeWhile a.has)) ++ found.flatMap f := by
  induction cs generalizing s found with
  | nil => rfl
  | cons c cs ih =>
    rw [runPlaces]
    by_cases hc : a.has c
    · have hrest : (s.behind c).rest = cs := by rw [MatchState.behind, hs, List.tail_cons]
      have hhere : f s = [] := hf s c (by rw [hs, List.head?_cons]) hc
      rw [if_pos hc, ih (s.behind c) hrest, List.takeWhile_cons_of_pos hc, List.flatMap_cons, hhere,
        List.nil_append]
      rfl
    · rw [if_neg hc, List.takeWhile_cons_of_neg hc]
      rfl

theorem ends_run (a : CharSet) (s : MatchState) :
    (repeated true 0 none (one a)).ends s = runPlaces a s.rest s [] := by
  show (runPlaces a s.rest s []).filter (fun t => s.pos + 0 ≤ t.pos) = _
  refine List.filter_eq_self.2 fun t ht => decide_eq_true ?_
  rcases steps_of_mem_runPlaces List.prefix_rfl ht with ht | ⟨n, -, hpos, -⟩
  · cases ht
  · exact hpos ▸ Nat.le_add_right _ _

theorem head?_stepAll (step : MatchState → List MatchState) (states : List MatchState) :
    (stepAll step states).head? = (states.flatMap step).head? := by
  unfold stepAll
  split
  · rfl
  · rw [List.flatMap_singleton]
  · exact head?_distinct _

/-- A run and a character outside its set: the run is as long as it can be. -/
theorem head?_ends_run_one (h : ∀ c, a.has c → ¬b.has c) (s : MatchState) :
    ((seq (repeated true 0 none (one a)) (one b)).ends s).head? =
      ((one b).ends (s.past (s.rest.takeWhile a.has))).head? := by
  have hinside (s : MatchState) (c : Char) (hs : s.rest.head? = some c) (hc : a.has c) :
      (one b).ends s = [] := by
    obtain ⟨cs, hcs⟩ := List.head?_eq_some_iff.1 hs
    rw [ends_one hcs, if_neg (h c hc)]
  show (stepAll (fun t => (one b).ends t) ((repeated true 0 none (one a)).ends s)).head? = _
  rw [head?_stepAll, ends_run, flatMap_runPlaces hinside s.rest s rfl, List.flatMap_nil,
    List.append_nil]

/-- Two characters, a run, and a character outside the set of the run. -/
theorem match?_pair_run_one {a b d e : CharSet} (h : ∀ c, d.has c → ¬e.has c) (c : Char)
    (cs : List Char) :
    (tied (seq (one a) (seq (one b) (seq (repeated true 0 none (one d)) (one e))))).match? (c :: cs) =
      if a.has c ∧ cs.head?.any b.has ∧ (cs.tail.dropWhile d.has).head?.any e.has then
        some ⟨0, 3 + (cs.tail.takeWhile d.has).length, []⟩
      else none := by
  rw [match?_tied rfl, ends_seq_one _ rfl]
  by_cases hc : a.has c
  · rw [if_pos hc]
    cases cs with
    | nil =>
      rw [ends, ends_one_of_nil (show ((MatchState.start [c]).behind c).rest = [] from rfl)]
      simp [stepAll]
    | cons f cs =>
      rw [ends_seq_one _ (show ((MatchState.start (c :: f :: cs)).behind c).rest = f :: cs from rfl)]
      by_cases hf : b.has f
      · rw [if_pos hf, head?_ends_run_one h]
        generalize hs : ((MatchState.start (c :: f :: cs)).behind c).behind f = s
        have hrest : s.rest = cs := hs ▸ rfl
        have hpos : s.pos = 2 := hs ▸ rfl
        have hcaptures : s.captures = [] := hs ▸ rfl
        have hbehind : (s.past (s.rest.takeWhile d.has)).rest = cs.dropWhile d.has := by
          rw [MatchState.rest_past, hrest, drop_length_takeWhile]
        cases hnext : cs.dropWhile d.has with
        | nil => simp [ends_one_of_nil (hbehind.trans hnext), hnext]
        | cons g rest =>
          rw [ends_one (hbehind.trans hnext)]
          by_cases hg : e.has g
          · simp [hg, hc, hf, hnext, hrest, hpos, hcaptures]
            omega
          · simp [hg, hnext]
      · simp [hf]
  · simp [hc]

end Pattern

end HdlIndex

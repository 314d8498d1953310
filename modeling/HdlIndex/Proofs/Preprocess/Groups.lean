import HdlIndex.Preprocess.Stream

/-! Streams as groups of tokens. Halving finds the run that a token lies in if the runs start in order. A
stream that is written token by token, or by adding whole streams, is a row of groups, each with the file
that its tokens come from, and its runs start where the groups do. So halving finds the group of a token:
the number of its run and its file. -/

namespace HdlIndex

/-- What holds of the first number and not of another stops holding somewhere in between. -/
theorem exists_border (holds : Nat → Prop) {n : Nat} (hzero : holds 0) (hn : ¬holds n) :
    ∃ i < n, holds i ∧ ¬holds (i + 1) := by
  induction n with
  | zero => exact absurd hzero hn
  | succ n ih =>
    by_cases hlast : holds n
    · exact ⟨n, Nat.lt_succ_self n, hlast, hn⟩
    · obtain ⟨i, hi, hborder⟩ := ih hlast
      exact ⟨i, Nat.lt_succ_of_lt hi, hborder⟩

namespace TokenStream

/-! ### Runs -/

/-- A token lies in a run from `file`: the run starts at or in front of it, the next one behind it. -/
structure InRun (s : TokenStream) (index run : Nat) (file : String) : Prop where
  starts : ∃ start ≤ index, s.runs[run]? = some ⟨file, start⟩
  stops : ∀ next ∈ s.runs[run + 1]?, index < next.start

variable {s : TokenStream}

/-- Each token lies in a run if the first run starts with the first token. -/
theorem exists_inRun (hfirst : s.runs.toList.head?.map (·.start) = some 0) (index : Nat) :
    ∃ run file, s.InRun index run file := by
  have hzero : ∃ origin ∈ s.runs[0]?, origin.start ≤ index := by
    obtain ⟨origin, horigin, hstart⟩ := Option.map_eq_some_iff.1 hfirst
    rw [List.head?_eq_getElem?, Array.getElem?_toList] at horigin
    exact ⟨origin, horigin, hstart ▸ Nat.zero_le index⟩
  have hall : ¬∃ origin ∈ s.runs[s.runs.size]?, origin.start ≤ index := by simp
  obtain ⟨run, -, ⟨⟨file, start⟩, horigin, hstart⟩, hnext⟩ :=
    exists_border (fun run => ∃ origin ∈ s.runs[run]?, origin.start ≤ index) hzero hall
  exact ⟨run, file, ⟨start, hstart, horigin⟩,
    fun next hmem => Nat.lt_of_not_le fun hle => hnext ⟨next, hmem, hle⟩⟩

section

variable (hruns : s.runs.toList.Pairwise (·.start < ·.start))
include hruns

theorem start_le_start {i j : Nat} {a b : OriginRun} (hij : i ≤ j) (hi : s.runs[i]? = some a)
    (hj : s.runs[j]? = some b) : a.start ≤ b.start := by
  rcases Nat.lt_or_eq_of_le hij with hlt | rfl
  · rw [← Array.getElem?_toList] at hi hj
    obtain ⟨hi, rfl⟩ := List.getElem?_eq_some_iff.1 hi
    obtain ⟨hj, rfl⟩ := List.getElem?_eq_some_iff.1 hj
    exact Nat.le_of_lt (List.pairwise_iff_getElem.1 hruns i j _ _ hlt)
  · exact Nat.le_of_eq (congrArg OriginRun.start (Option.some.inj (hi.symm.trans hj)))

/-- Halving finds the run that a token lies in. -/
theorem InRun.runOf?_eq {index run : Nat} {file : String} (h : s.InRun index run file) :
    s.runOf? index = some run := by
  obtain ⟨⟨start, hstart, hrun⟩, hstops⟩ := h
  have hup : s.runsUpTo index = run + 1 := by
    refine bisect_eq ?_ fun other hother => ?_
    · exact (Array.getElem?_eq_some_iff.1 hrun).1
    · obtain ⟨origin, horigin⟩ : ∃ origin, s.runs[other]? = some origin :=
        ⟨_, Array.getElem?_eq_getElem hother⟩
      rw [horigin, Option.any_some, decide_eq_decide]
      refine ⟨fun hle => Nat.lt_of_not_le fun hge => ?_, fun hlt => ?_⟩
      · obtain ⟨next, hnext⟩ : ∃ next, s.runs[run + 1]? = some next :=
          ⟨_, Array.getElem?_eq_getElem (Nat.lt_of_le_of_lt hge hother)⟩
        have := start_le_start hruns hge hnext horigin
        have := hstops next hnext
        omega
      · exact Nat.le_trans (start_le_start hruns (Nat.le_of_lt_succ hlt) horigin hrun) hstart
  rw [runOf?, hup]

theorem InRun.unique {index run other : Nat} {file source : String} (h : s.InRun index run file)
    (hother : s.InRun index other source) : run = other ∧ file = source := by
  obtain rfl : run = other :=
    Option.some.inj ((h.runOf?_eq hruns).symm.trans (hother.runOf?_eq hruns))
  obtain ⟨⟨start, -, hrun⟩, -⟩ := h
  obtain ⟨⟨place, -, hplace⟩, -⟩ := hother
  cases hrun.symm.trans hplace
  exact ⟨rfl, rfl⟩

end

/-! ### Groups -/

/-- Tokens in a row that come from one file. -/
structure Group where
  file : String
  tokens : List PostToken

namespace Group

/-- All tokens of groups. -/
def flatten (groups : List Group) : List PostToken := groups.flatMap (·.tokens)

@[simp] theorem flatten_nil : flatten [] = [] := rfl

@[simp]
theorem flatten_cons (g : Group) (groups : List Group) :
    flatten (g :: groups) = g.tokens ++ flatten groups := rfl

@[simp]
theorem flatten_append (a b : List Group) : flatten (a ++ b) = flatten a ++ flatten b :=
  List.flatMap_append

/-- The runs of groups, the first of which starts with the given token. -/
def runs : Nat → List Group → List OriginRun
  | _, [] => []
  | start, g :: groups => ⟨g.file, start⟩ :: runs (start + g.tokens.length) groups

theorem runs_append (start : Nat) (a b : List Group) :
    runs start (a ++ b) = runs start a ++ runs (start + (flatten a).length) b := by
  induction a generalizing start with
  | nil => rfl
  | cons g a ih =>
    rw [List.cons_append, runs, ih, runs, flatten_cons, List.length_append, ← Nat.add_assoc,
      List.cons_append]

theorem getElem?_runs (start : Nat) (groups : List Group) (index : Nat) :
    (runs start groups)[index]? =
      groups[index]?.map fun g => ⟨g.file, start + (flatten (groups.take index)).length⟩ := by
  induction groups generalizing start index with
  | nil => rfl
  | cons g groups ih =>
    cases index with
    | zero => rfl
    | succ index =>
      rw [runs, List.getElem?_cons_succ, ih, List.getElem?_cons_succ, List.take_succ_cons,
        flatten_cons, List.length_append]
      simp only [Nat.add_assoc]

/-- The runs of groups that are not empty start at different tokens, in order. -/
theorem pairwise_runs {groups : List Group} (h : ∀ g ∈ groups, g.tokens ≠ []) (start : Nat) :
    (runs start groups).Pairwise (·.start < ·.start) ∧
      ∀ run ∈ runs start groups, start ≤ run.start ∧ run.start < start + (flatten groups).length := by
  induction groups generalizing start with
  | nil => exact ⟨.nil, by simp [runs]⟩
  | cons g groups ih =>
    obtain ⟨hg, hgroups⟩ := List.forall_mem_cons.1 h
    have hpositive : 0 < g.tokens.length := List.length_pos_iff.2 hg
    obtain ⟨hpairwise, hwithin⟩ := ih hgroups (start + g.tokens.length)
    rw [runs, flatten_cons, List.length_append]
    refine ⟨.cons (fun run hrun => ?_) hpairwise, List.forall_mem_cons.2 ⟨⟨?_, ?_⟩, ?_⟩⟩
    · exact Nat.lt_of_lt_of_le (Nat.lt_add_of_pos_right hpositive) (hwithin run hrun).1
    · exact Nat.le_refl _
    · dsimp only
      omega
    · intro run hrun
      have := hwithin run hrun
      omega

/-- A token of a row of groups stands in one of them. -/
theorem exists_of_getElem? {groups : List Group} {index : Nat} {token : PostToken}
    (h : (flatten groups)[index]? = some token) :
    ∃ front g behind offset, groups = front ++ g :: behind ∧
      index = (flatten front).length + offset ∧ g.tokens[offset]? = some token := by
  induction groups generalizing index with
  | nil => cases h
  | cons first groups ih =>
    rw [flatten_cons] at h
    by_cases hindex : index < first.tokens.length
    · rw [List.getElem?_append_left hindex] at h
      exact ⟨[], first, groups, index, rfl, (Nat.zero_add _).symm, h⟩
    · rw [List.getElem?_append_right (Nat.le_of_not_lt hindex)] at h
      obtain ⟨front, g, behind, offset, rfl, hoffset, htoken⟩ := ih h
      refine ⟨first :: front, g, behind, offset, rfl, ?_, htoken⟩
      rw [flatten_cons, List.length_append]
      omega

end Group

open TokenStream.Group

/-- A stream is a row of groups, none of them empty. -/
structure Grouped (s : TokenStream) (groups : List Group) : Prop where
  nonempty : ∀ g ∈ groups, g.tokens ≠ []
  tokens : s.tokens.toList = flatten groups
  runs : s.runs.toList = Group.runs 0 groups

namespace Grouped

variable {s : TokenStream} {groups : List Group}

theorem empty : Grouped {} [] := ⟨by simp, rfl, rfl⟩

theorem size_tokens (h : Grouped s groups) : s.tokens.size = (flatten groups).length := by
  rw [← Array.length_toList, h.tokens]

theorem getElem?_runs (h : Grouped s groups) (index : Nat) :
    s.runs[index]? = groups[index]?.map fun g => ⟨g.file, (flatten (groups.take index)).length⟩ := by
  rw [← Array.getElem?_toList, h.runs, Group.getElem?_runs]
  simp only [Nat.zero_add]

theorem pairwise (h : Grouped s groups) : s.runs.toList.Pairwise (·.start < ·.start) :=
  h.runs ▸ (pairwise_runs h.nonempty 0).1

/-- A token lies in the run of its group. -/
theorem inRun {front behind : List Group} {g : Group} (h : Grouped s (front ++ g :: behind))
    {offset : Nat} (hoffset : offset < g.tokens.length) :
    s.InRun ((flatten front).length + offset) front.length g.file where
  starts := ⟨(flatten front).length, Nat.le_add_right _ _, by rw [h.getElem?_runs]; simp⟩
  stops next hnext := by
    rw [Option.mem_def, h.getElem?_runs] at hnext
    obtain ⟨other, -, rfl⟩ := Option.map_eq_some_iff.1 hnext
    rw [List.take_length_add_append, List.take_succ_cons, List.take_zero, flatten_append,
      List.length_append, flatten_cons, flatten_nil, List.append_nil]
    exact Nat.add_lt_add_left hoffset _

/-- The run of a token is that of its group. -/
theorem runOf?_eq {front behind : List Group} {g : Group} (h : Grouped s (front ++ g :: behind))
    {offset : Nat} (hoffset : offset < g.tokens.length) :
    s.runOf? ((flatten front).length + offset) = some front.length :=
  (h.inRun hoffset).runOf?_eq h.pairwise

theorem originOf?_eq {front behind : List Group} {g : Group} (h : Grouped s (front ++ g :: behind))
    {offset : Nat} (hoffset : offset < g.tokens.length) :
    s.originOf? ((flatten front).length + offset) = some g.file := by
  rw [originOf?, h.runOf?_eq hoffset, Option.bind_some, h.getElem?_runs]
  simp

/-- A token of a stream stands in a group, whose place gives its run and its file. -/
theorem exists_group (h : Grouped s groups) {index : Nat} {token : PostToken}
    (htoken : s.tokens[index]? = some token) :
    ∃ front g behind offset, groups = front ++ g :: behind ∧
      index = (flatten front).length + offset ∧ g.tokens[offset]? = some token ∧
      s.runOf? index = some front.length ∧ s.originOf? index = some g.file := by
  rw [← Array.getElem?_toList, h.tokens] at htoken
  obtain ⟨front, g, behind, offset, rfl, rfl, hoffset⟩ := exists_of_getElem? htoken
  obtain ⟨hlt, -⟩ := List.getElem?_eq_some_iff.1 hoffset
  exact ⟨front, g, behind, offset, rfl, rfl, hoffset, h.runOf?_eq hlt, h.originOf?_eq hlt⟩

end Grouped

/-! ### Runs are added behind -/

theorem beginRun_of_lt {runs : Array OriginRun} {start : Nat}
    (h : ∀ last, runs.back? = some last → last.start < start) (file : String) :
    beginRun runs file start = runs.push ⟨file, start⟩ := by
  unfold beginRun
  split
  · next last hlast => rw [if_neg (Nat.ne_of_lt (h last hlast))]
  · rfl

/-- The last run of a stream starts in front of its end. -/
theorem Grouped.start_lt {s : TokenStream} {groups : List Group} (h : Grouped s groups)
    {last : OriginRun} (hlast : s.runs.back? = some last) :
    last.start < (flatten groups).length ∧
      ∃ front g, groups = front ++ [g] ∧ g.file = last.file := by
  rcases List.eq_nil_or_concat groups with rfl | ⟨front, g, rfl⟩
  · rw [← Array.getLast?_toList, h.runs] at hlast
    cases hlast
  · rw [← Array.getLast?_toList, h.runs, List.concat_eq_append, Group.runs_append] at hlast
    simp only [Group.runs, List.getLast?_append, List.getLast?_singleton, Option.some_or,
      Option.some.injEq, Nat.zero_add] at hlast
    subst hlast
    have hg : 0 < g.tokens.length := List.length_pos_iff.2 (h.nonempty g (by simp))
    refine ⟨?_, front, g, List.concat_eq_append, rfl⟩
    rw [List.concat_eq_append, flatten_append, List.length_append, flatten_cons, flatten_nil,
      List.append_nil]
    exact Nat.lt_add_of_pos_right hg

theorem foldl_beginRun {groups : List Group} (hgroups : ∀ g ∈ groups, g.tokens ≠ []) (base : Nat)
    {start : Nat} {runs : Array OriginRun}
    (h : ∀ last, runs.back? = some last → last.start < base + start) :
    ((Group.runs start groups).foldl (fun runs run => beginRun runs run.file (base + run.start))
      runs).toList = runs.toList ++ Group.runs (base + start) groups := by
  induction groups generalizing start runs with
  | nil => simp [Group.runs]
  | cons g groups ih =>
    obtain ⟨hg, hgroups⟩ := List.forall_mem_cons.1 hgroups
    have hpositive : 0 < g.tokens.length := List.length_pos_iff.2 hg
    rw [Group.runs, List.foldl_cons, beginRun_of_lt h, ih hgroups]
    · rw [Array.toList_push, Group.runs, List.append_assoc, List.singleton_append, Nat.add_assoc]
    · intro last hlast
      rw [Array.back?_push, Option.some.injEq] at hlast
      subst hlast
      dsimp only
      omega

end TokenStream

namespace Emitter

open TokenStream Group

variable {e : Emitter} {groups : List Group}

/-- A token is added to the last group, if that is of its file and no split is in between, or else
becomes a group of its own. -/
theorem grouped_push (h : e.stream.Grouped groups) (file : String) (token : PostToken) :
    (∃ front g, groups = front ++ [g] ∧ e.splitNext = false ∧ g.file = file ∧
        (e.push file token).stream.Grouped (front ++ [⟨file, g.tokens ++ [token]⟩])) ∨
      (e.push file token).stream.Grouped (groups ++ [⟨file, [token]⟩]) := by
  by_cases hsame : !e.splitNext && e.stream.runs.back?.any (·.file == file)
  · left
    have hstream : (e.push file token).stream = ⟨e.stream.tokens.push token, e.stream.runs⟩ := by
      simp only [push, if_pos hsame]
    rw [Bool.and_eq_true, Bool.not_eq_true', Option.any_eq_true_iff_get] at hsame
    obtain ⟨hsplit, hback, hfile⟩ := hsame
    obtain ⟨-, front, g, rfl, hg⟩ := h.start_lt (Option.some_get hback).symm
    have hgfile : g.file = file := hg.trans (beq_iff_eq.1 hfile)
    refine ⟨front, g, rfl, hsplit, hgfile, ?_⟩
    rw [hstream]
    refine ⟨?_, ?_, ?_⟩
    · refine List.forall_mem_append.2 ⟨fun g' hg' => h.nonempty g' (by simp [hg']), by simp⟩
    · simp [h.tokens]
    · rw [h.runs, Group.runs_append, Group.runs_append, hgfile.symm]
      rfl
  · right
    have hlast : ∀ last, e.stream.runs.back? = some last → last.start < e.stream.tokens.size := by
      intro last hlast
      rw [h.size_tokens]
      exact (h.start_lt hlast).1
    have hstream : (e.push file token).stream =
        ⟨e.stream.tokens.push token, e.stream.runs.push ⟨file, e.stream.tokens.size⟩⟩ := by
      simp only [push, if_neg hsame, beginRun_of_lt hlast]
    rw [hstream]
    refine ⟨List.forall_mem_append.2 ⟨h.nonempty, by simp⟩, ?_, ?_⟩
    · simp [h.tokens]
    · rw [Group.runs_append, Array.toList_push, h.runs, h.size_tokens, Nat.zero_add]
      rfl

theorem grouped_append (h : e.stream.Grouped groups) {s : TokenStream} {more : List Group}
    (hs : s.Grouped more) : (e.append s).stream.Grouped (groups ++ more) := by
  unfold append
  split
  · next hempty =>
    have hnil : flatten more = [] := by
      rw [← hs.tokens, Array.isEmpty_iff.1 hempty]
    have hmore : more = [] := by
      cases more with
      | nil => rfl
      | cons g more => exact absurd (List.append_eq_nil_iff.1 hnil).1 (hs.nonempty g (by simp))
    rwa [hmore, List.append_nil]
  · refine ⟨List.forall_mem_append.2 ⟨h.nonempty, hs.nonempty⟩, ?_, ?_⟩
    · rw [Array.toList_append, h.tokens, hs.tokens, flatten_append]
    · dsimp only
      rw [← Array.foldl_toList, hs.runs, foldl_beginRun hs.nonempty, h.runs, Group.runs_append,
        h.size_tokens, Nat.add_zero, Nat.zero_add]
      intro last hlast
      rw [h.size_tokens]
      exact (h.start_lt hlast).1

end Emitter

end HdlIndex

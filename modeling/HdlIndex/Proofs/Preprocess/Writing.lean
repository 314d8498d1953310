import HdlIndex.Proofs.Preprocess.Groups

/-! Streams as they are written: token by token, with splits in between, and by adding streams that
were written so themselves. Main statement: whatever is done in whatever order, the runs start at
different tokens, in order and the first with the first token, and the run that halving finds for a
token names the file that the token was pushed with. -/

namespace HdlIndex

/-- What is done to write a stream, the latest last. -/
inductive Writing where
  | start
  | push (before : Writing) (file : String) (token : PostToken)
  | split (before : Writing)
  /-- Another stream is written and added. -/
  | append (before added : Writing)

namespace Writing

def emitter : Writing → Emitter
  | start => {}
  | push before file token => before.emitter.push file token
  | split before => before.emitter.split
  | append before added => before.emitter.append added.emitter.stream

def stream (w : Writing) : TokenStream := w.emitter.stream

/-- The tokens that are pushed, directly or in a stream that is added, each behind its file. -/
def pushed : Writing → List (String × PostToken)
  | start => []
  | push before file token => before.pushed ++ [(file, token)]
  | split before => before.pushed
  | append before added => before.pushed ++ added.pushed

end Writing

namespace TokenStream

/-! ### Tokens with their files -/

namespace Group

/-- All tokens of groups, each behind the file of its group. -/
def attributed (groups : List Group) : List (String × PostToken) :=
  groups.flatMap fun g => g.tokens.map (g.file, ·)

@[simp] theorem attributed_nil : attributed [] = [] := rfl

@[simp]
theorem attributed_cons (g : Group) (groups : List Group) :
    attributed (g :: groups) = g.tokens.map (g.file, ·) ++ attributed groups := rfl

@[simp]
theorem attributed_append (a b : List Group) :
    attributed (a ++ b) = attributed a ++ attributed b := List.flatMap_append

theorem map_snd_attributed (groups : List Group) :
    (attributed groups).map (·.2) = flatten groups := by
  induction groups with
  | nil => rfl
  | cons g groups ih =>
    rw [attributed_cons, List.map_append, ih, List.map_map, flatten_cons]
    exact congrArg (· ++ flatten groups) (List.map_id' g.tokens)

theorem length_attributed (groups : List Group) :
    (attributed groups).length = (flatten groups).length := by
  rw [← map_snd_attributed, List.length_map]

end Group

open TokenStream.Group

/-- The file of a token is the one that it stands behind. -/
theorem Grouped.originOf?_of_getElem? {s : TokenStream} {groups : List Group} (h : s.Grouped groups)
    {index : Nat} {entry : String × PostToken} (hentry : (attributed groups)[index]? = some entry) :
    s.originOf? index = some entry.1 := by
  have htoken : s.tokens[index]? = some entry.2 := by
    rw [← Array.getElem?_toList, h.tokens, ← map_snd_attributed, List.getElem?_map, hentry,
      Option.map_some]
  obtain ⟨front, g, behind, offset, rfl, rfl, hoffset, -, horigin⟩ := h.exists_group htoken
  obtain ⟨hlt, -⟩ := List.getElem?_eq_some_iff.1 hoffset
  rw [attributed_append, attributed_cons, ← length_attributed,
    List.getElem?_append_right (Nat.le_add_right _ _), Nat.add_sub_cancel_left,
    List.getElem?_append_left (by rwa [List.length_map]), List.getElem?_map, hoffset,
    Option.map_some, Option.some.injEq] at hentry
  rw [horigin, ← hentry]

end TokenStream

namespace Writing

open TokenStream TokenStream.Group

/-- A stream is a row of groups in which its tokens have the files that they were pushed with. -/
theorem exists_grouped (w : Writing) :
    ∃ groups, w.stream.Grouped groups ∧ attributed groups = w.pushed := by
  induction w with
  | start => exact ⟨[], .empty, rfl⟩
  | push before file token ih =>
    obtain ⟨groups, hgrouped, hpushed⟩ := ih
    rcases Emitter.grouped_push hgrouped file token with ⟨front, g, rfl, -, rfl, h⟩ | h
    · exact ⟨_, h, by simp [pushed, ← hpushed]⟩
    · exact ⟨_, h, by simp [pushed, ← hpushed]⟩
  | split before ih => exact ih
  | append before added ih ihadded =>
    obtain ⟨groups, hgrouped, hpushed⟩ := ih
    obtain ⟨more, hmore, hadded⟩ := ihadded
    exact ⟨_, Emitter.grouped_append hgrouped hmore, by rw [attributed_append, hpushed, hadded, pushed]⟩

/-- The runs of a stream are exact, however it was written: the stream has the tokens that were pushed,
the first run starts with the first token and each other one behind the one in front of it, no run
starts behind the last token, and each token has the file that it was pushed with as its origin. -/
theorem origins_eq_pushed (w : Writing) :
    w.stream.tokens.toList = w.pushed.map (·.2) ∧
      w.stream.runs.toList.Pairwise (·.start < ·.start) ∧
      w.stream.runs.toList.head? = w.pushed.head?.map (fun entry => ⟨entry.1, 0⟩) ∧
      (∀ run ∈ w.stream.runs, run.start < w.stream.tokens.size) ∧
      (List.range w.stream.tokens.size).map w.stream.originOf? = w.pushed.map (some ·.1) := by
  obtain ⟨groups, hgrouped, hpushed⟩ := w.exists_grouped
  obtain ⟨hpairwise, hwithin⟩ := pairwise_runs hgrouped.nonempty 0
  rw [← hpushed, hgrouped.tokens, map_snd_attributed]
  refine ⟨rfl, hgrouped.runs ▸ hpairwise, ?_, fun run hrun => ?_, ?_⟩
  · rw [hgrouped.runs]
    cases groups with
    | nil => rfl
    | cons g groups =>
      obtain ⟨t, rest, htokens⟩ := List.exists_cons_of_ne_nil (hgrouped.nonempty g (by simp))
      simp [Group.runs, htokens]
  · rw [hgrouped.size_tokens, ← Nat.zero_add (flatten groups).length]
    exact (hwithin run (hgrouped.runs ▸ Array.mem_toList_iff.2 hrun)).2
  · refine List.ext_getElem? fun index => ?_
    rw [hgrouped.size_tokens, ← length_attributed, List.getElem?_map, List.getElem?_map]
    cases hentry : (attributed groups)[index]? with
    | none => simp [List.getElem?_eq_none_iff.1 hentry]
    | some entry =>
      obtain ⟨hlt, -⟩ := List.getElem?_eq_some_iff.1 hentry
      rw [List.getElem?_range hlt, Option.map_some, hgrouped.originOf?_of_getElem? hentry,
        Option.map_some]

/-- A stream without tokens leaves a split in front of it as it is. -/
example : (Writing.start |>.push "a.v" ⟨"x", 0, 1⟩ |>.split |>.append .start
    |>.push "a.v" ⟨"y", 1, 2⟩).stream.runs = #[⟨"a.v", 0⟩, ⟨"a.v", 1⟩] := by decide

end Writing

end HdlIndex

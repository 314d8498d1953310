import HdlIndex.Proofs.Pattern.Matches

/-! The extents of a match. Main statement: whether a match is found in the list of ends or by
running the program of a pattern, it ends in the text, and the extents of its groups end in the
match and behind the places where they start. -/

namespace HdlIndex

/-- Whether a place lies in a text and the extents that were noted lie in front of it. -/
structure MatchState.Within (text : List Char) (s : MatchState) : Prop where
  rest : s.rest = text.drop s.pos
  le : s.pos ≤ text.length
  extents : ∀ c ∈ s.captures, c.start ≤ c.stop ∧ c.stop ≤ s.pos

namespace MatchState.Within

variable {text : List Char} {s : MatchState}

theorem start (before : Option Char) {pos : Nat} (h : pos ≤ text.length) :
    Within text ⟨before, text.drop pos, pos, []⟩ := ⟨rfl, h, by simp⟩

theorem behind (h : s.Within text) {c : Char} (hc : s.rest.head? = some c) :
    (s.behind c).Within text := by
  obtain ⟨rest, hrest⟩ := List.head?_eq_some_iff.1 hc
  have hlt : s.pos < text.length := by
    have hlength := congrArg List.length (h.rest.symm.trans hrest)
    rw [List.length_drop, List.length_cons] at hlength
    omega
  refine ⟨?_, hlt, fun d hd => ?_⟩
  · rw [MatchState.behind, h.rest, List.tail_drop]
  · exact ⟨(h.extents d hd).1, Nat.le_succ_of_le (h.extents d hd).2⟩

theorem note (h : s.Within text) (group : Nat) {start : Nat} (hstart : start ≤ s.pos) :
    (s.note group start).Within text :=
  ⟨h.rest, h.le, List.forall_mem_cons.2 ⟨⟨hstart, Nat.le_refl _⟩, h.extents⟩⟩

end MatchState.Within

namespace Pattern

/-- A match that is found in the list of ends stays within the text. -/
theorem Matches.within {text : List Char} {p : Pattern} {s t : MatchState} (h : p.Matches s t)
    (hs : s.Within text) : t.Within text := by
  induction p generalizing s t with
  | empty =>
    obtain rfl : t = s := h
    exact hs
  | one set =>
    obtain ⟨c, hc, -, rfl⟩ := h
    exact hs.behind hc
  | edge e =>
    obtain ⟨-, rfl⟩ := h
    exact hs
  | seq p q ihp ihq =>
    obtain ⟨r, hp, hq⟩ := h
    exact ihq hq (ihp hp hs)
  | alt p q ihp ihq =>
    rcases h with h | h
    · exact ihp h hs
    · exact ihq h hs
  | repeated greedy least most p ih =>
    obtain ⟨n, -, -, hsteps⟩ := h
    induction hsteps with
    | zero => exact hs
    | succ hstep _ ihsteps => exact ihsteps (ih hstep hs)
  | group index p ih =>
    obtain ⟨r, hr, rfl⟩ := h
    exact (ih hr hs).note index hr.leads.pos_le

end Pattern

/-! ### Programs -/

/-- Whether a way through a program has stayed within a text, the groups that were started too. -/
structure Thread.Within (text : List Char) (t : Thread) : Prop where
  state : t.state.Within text
  starts : ∀ start ∈ t.starts, start ≤ t.state.pos

theorem Thread.Within.step {text : List Char} {t : Thread} (h : t.Within text) (i : Instruction) :
    ∀ u ∈ t.step i, u.Within text := by
  intro u hu
  cases i with
  | read set next =>
    simp only [Thread.step] at hu
    split at hu
    · cases hu
    · next c rest hrest =>
      split at hu
      · obtain rfl := List.mem_singleton.1 hu
        have hc : t.state.rest.head? = some c := by rw [hrest, List.head?_cons]
        exact ⟨h.state.behind hc, fun start hstart => Nat.le_succ_of_le (h.starts start hstart)⟩
      · cases hu
  | check e next =>
    simp only [Thread.step] at hu
    split at hu
    · obtain rfl := List.mem_singleton.1 hu
      exact ⟨h.state, h.starts⟩
    · cases hu
  | start next =>
    obtain rfl := List.mem_singleton.1 hu
    exact ⟨h.state, List.forall_mem_cons.2 ⟨Nat.le_refl _, h.starts⟩⟩
  | stop index next =>
    simp only [Thread.step] at hu
    split at hu
    · cases hu
    · next start starts hstarts =>
      obtain rfl := List.mem_singleton.1 hu
      have hall := List.forall_mem_cons.1 (hstarts ▸ h.starts)
      exact ⟨h.state.note index hall.1, hall.2⟩
  | fork first second =>
    rcases List.mem_cons.1 hu with rfl | hu
    · exact ⟨h.state, h.starts⟩
    · obtain rfl := List.mem_singleton.1 hu
      exact ⟨h.state, h.starts⟩
  | jump next =>
    obtain rfl := List.mem_singleton.1 hu
    exact ⟨h.state, h.starts⟩

theorem Thread.within_run {text : List Char} {program : Array Instruction} {bound : Nat}
    {visited : Std.HashSet (Nat × Nat)} {threads : List Thread}
    (h : ∀ t ∈ threads, t.Within text) {s : MatchState}
    (hrun : Thread.run program bound visited threads = some s) : s.Within text := by
  induction bound generalizing visited threads with
  | zero => cases hrun
  | succ bound ih =>
    cases threads with
    | nil => cases hrun
    | cons t threads =>
      obtain ⟨ht, hthreads⟩ := List.forall_mem_cons.1 h
      rw [Thread.run] at hrun
      split at hrun
      · exact ih hthreads hrun
      · split at hrun
        · obtain rfl := Option.some.inj hrun
          exact ht.state
        · refine ih (fun u hu => ?_) hrun
          rcases List.mem_append.1 hu with hu | hu
          · exact ht.step _ u hu
          · exact hthreads u hu

/-! ### Matches in a text -/

/-- Whether a match ends in a text, and its groups in the match and not in front of their starts. -/
structure Match.Within (text : List Char) (m : Match) : Prop where
  le : m.stop ≤ text.length
  extents : ∀ c ∈ m.captures, c.start ≤ c.stop ∧ c.stop ≤ m.stop

namespace Pattern

theorem within_end? {text : List Char} {p : Pattern} {s t : MatchState} (hs : s.Within text)
    (h : p.end? s = some t) : t.Within text := by
  unfold end? at h
  split at h
  · exact (matches_of_mem_ends (List.mem_of_head? h)).within hs
  · refine Thread.within_run (List.forall_mem_singleton.2 ?_) h
    exact ⟨hs, by simp⟩

theorem within_matchFrom? {text : List Char} {p : Pattern} {s : MatchState} {m : Match}
    (hs : s.Within text) (h : p.matchFrom? s = some m) : m.Within text := by
  obtain ⟨t, ht, rfl⟩ := Option.map_eq_some_iff.1 h
  have hwithin := within_end? hs ht
  exact ⟨hwithin.le, hwithin.extents⟩

theorem within_search? {text : List Char} {p : Pattern} {before : Option Char} {pos : Nat}
    {rest : List Char} (hpos : pos ≤ text.length) (hrest : rest = text.drop pos) {m : Match}
    (h : p.search? before pos rest = some m) : m.Within text := by
  induction rest generalizing before pos with
  | nil =>
    rw [search?, hrest] at h
    exact within_matchFrom? (.start before hpos) h
  | cons c cs ih =>
    rw [search?] at h
    split at h
    · next m' hm =>
      obtain rfl := Option.some.inj h
      rw [hrest] at hm
      exact within_matchFrom? (.start before hpos) hm
    · have hlt : pos < text.length := by
        have hlength := congrArg List.length hrest
        rw [List.length_drop, List.length_cons] at hlength
        omega
      refine ih hlt ?_ h
      rw [← List.tail_drop, ← hrest, List.tail_cons]

/-- A match lies in the text in which it was found. -/
theorem within_match? {text : List Char} {p : Pattern} {m : Match} (h : p.match? text = some m) :
    m.Within text := by
  unfold match? at h
  split at h
  · exact within_matchFrom? (.start none (Nat.zero_le _)) h
  · exact within_search? (Nat.zero_le _) List.drop_zero.symm h

/-- Whether a pattern matches where the text starts, if at all. -/
def IsAnchored (p : Pattern) : Prop := ∀ text m, p.match? text = some m → m.start = 0

theorem isAnchored_of_isTied {p : Pattern} (h : p.isTied) : p.IsAnchored := by
  intro text m hm
  rw [match?, if_pos h] at hm
  obtain ⟨t, -, rfl⟩ := Option.map_eq_some_iff.1 hm
  rfl

end Pattern

end HdlIndex

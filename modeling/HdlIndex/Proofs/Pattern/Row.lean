import HdlIndex.Proofs.Pattern.Matches

/-! Patterns that are a row of groups. Main statement: the extents that a match of such a pattern
notes follow one another from the start of the match to its end. -/

namespace HdlIndex

/-- Whether extents are numbered from `next` on and each one starts where the one in front of it
stops, from the place `pos` to the place `stop`. -/
def Capture.Row (next pos stop : Nat) : List Capture → Prop
  | [] => pos = stop
  | c :: rest => c.group = next ∧ c.start = pos ∧ pos ≤ c.stop ∧ Row (next + 1) c.stop stop rest

namespace Capture.Row

theorem append {next pos middle stop : Nat} {row more : List Capture} (h : Row next pos middle row)
    (h' : Row (next + row.length) middle stop more) : Row next pos stop (row ++ more) := by
  induction row generalizing next pos with
  | nil =>
    obtain rfl : pos = middle := h
    exact h'
  | cons c row ih =>
    obtain ⟨hgroup, hstart, hstop, hrow⟩ := h
    rw [List.length_cons, Nat.add_comm row.length 1, ← Nat.add_assoc] at h'
    exact ⟨hgroup, hstart, hstop, ih hrow h'⟩

theorem pos_le {next pos stop : Nat} {row : List Capture} (h : Row next pos stop row) :
    pos ≤ stop := by
  induction row generalizing next pos with
  | nil => exact Nat.le_of_eq h
  | cons c row ih =>
    obtain ⟨-, -, hstop, hrow⟩ := h
    exact Nat.le_trans hstop (ih hrow)

theorem le_group {next pos stop : Nat} {row : List Capture} (h : Row next pos stop row) :
    ∀ c ∈ row, next ≤ c.group := by
  induction row generalizing next pos with
  | nil => simp
  | cons c row ih =>
    obtain ⟨rfl, -, -, hrow⟩ := h
    intro d hd
    rcases List.mem_cons.1 hd with rfl | hd
    · exact Nat.le_refl _
    · exact Nat.le_of_succ_le (ih hrow d hd)

/-- No two extents of a row have the same number. -/
theorem eq_of_group_eq {next pos stop : Nat} {row : List Capture} (h : Row next pos stop row) :
    ∀ c ∈ row, ∀ d ∈ row, c.group = d.group → c = d := by
  induction row generalizing next pos with
  | nil => simp
  | cons b row ih =>
    obtain ⟨rfl, -, -, hrow⟩ := h
    have hlt := hrow.le_group
    intro c hc d hd hgroup
    rcases List.mem_cons.1 hc with rfl | hcrow
    · rcases List.mem_cons.1 hd with rfl | hdrow
      · rfl
      · exact absurd (hlt d hdrow) (by omega)
    · rcases List.mem_cons.1 hd with rfl | hdrow
      · exact absurd (hlt c hcrow) (by omega)
      · exact ih hrow c hcrow d hdrow hgroup

/-- An extent of a row is found by its number. -/
theorem find?_reverse {next pos stop : Nat} {row : List Capture} (h : Row next pos stop row)
    {c : Capture} (hc : c ∈ row) : row.reverse.find? (·.group == c.group) = some c := by
  rcases hfind : row.reverse.find? (·.group == c.group) with _ | d
  · have hnone := List.find?_eq_none.1 hfind c (List.mem_reverse.2 hc)
    simp at hnone
  · have hd := List.mem_reverse.1 (List.mem_of_find?_eq_some hfind)
    have hgroup : d.group = c.group := by simpa using List.find?_some hfind
    rw [hfind, h.eq_of_group_eq d hd c hc hgroup]

end Capture.Row

namespace Pattern

/-- Whether no extent is noted in a match. -/
def isGroupless : Pattern → Bool
  | empty | one _ | edge _ => true
  | seq p q | alt p q => p.isGroupless && q.isGroupless
  | repeated _ _ _ p => p.isGroupless
  | group _ _ => false

/-- If all that reads characters is a row of groups numbered from `next` on, the number behind the
last one. -/
def rowEnd? (next : Nat) : Pattern → Option Nat
  | empty | edge _ => some next
  | seq p q => (p.rowEnd? next).bind (q.rowEnd? ·)
  | group index p => if index = next ∧ p.isGroupless then some (next + 1) else none
  | one _ | alt _ _ | repeated _ _ _ _ => none

theorem Steps.captures_eq {R : MatchState → MatchState → Prop}
    (hR : ∀ s t, R s t → t.captures = s.captures) {n : Nat} {s t : MatchState}
    (h : Steps R n s t) : t.captures = s.captures := by
  induction h with
  | zero s => rfl
  | succ hstep _ ih => rw [ih, hR _ _ hstep]

theorem Matches.captures_eq {p : Pattern} (hp : p.isGroupless) {s t : MatchState}
    (h : p.Matches s t) : t.captures = s.captures := by
  induction p generalizing s t with
  | empty =>
    obtain rfl : t = s := h
    rfl
  | one set =>
    obtain ⟨c, -, -, rfl⟩ := h
    rfl
  | edge e =>
    obtain ⟨-, rfl⟩ := h
    rfl
  | seq p q ihp ihq =>
    obtain ⟨hp, hq⟩ := Bool.and_eq_true _ _ ▸ hp
    obtain ⟨r, hpr, hrq⟩ := h
    rw [ihq hq hrq, ihp hp hpr]
  | alt p q ihp ihq =>
    obtain ⟨hp, hq⟩ := Bool.and_eq_true _ _ ▸ hp
    rcases h with h | h
    · exact ihp hp h
    · exact ihq hq h
  | repeated greedy least most p ih =>
    obtain ⟨n, -, -, hsteps⟩ := h
    exact hsteps.captures_eq fun _ _ => ih hp
  | group index p ih => cases hp

/-- A match of a row of groups notes a row of extents. -/
theorem Matches.row {p : Pattern} {next next' : Nat} (hp : p.rowEnd? next = some next')
    {s t : MatchState} (h : p.Matches s t) :
    ∃ row, t.captures = row.reverse ++ s.captures ∧ Capture.Row next s.pos t.pos row ∧
      next' = next + row.length := by
  induction p generalizing next next' s t with
  | empty =>
    obtain rfl : t = s := h
    obtain rfl : next = next' := Option.some.inj hp
    exact ⟨[], rfl, rfl, rfl⟩
  | edge e =>
    obtain ⟨-, rfl⟩ := h
    obtain rfl : next = next' := Option.some.inj hp
    exact ⟨[], rfl, rfl, rfl⟩
  | seq p q ihp ihq =>
    obtain ⟨middle, hpm, hqm⟩ := Option.bind_eq_some_iff.1 hp
    obtain ⟨r, hpr, hrq⟩ := h
    obtain ⟨row, hcaptures, hrow, rfl⟩ := ihp hpm hpr
    obtain ⟨more, hcaptures', hmore, rfl⟩ := ihq hqm hrq
    refine ⟨row ++ more, ?_, hrow.append hmore, ?_⟩
    · rw [hcaptures', hcaptures, List.reverse_append, List.append_assoc]
    · rw [List.length_append, Nat.add_assoc]
  | group index p ih =>
    rw [rowEnd?] at hp
    split at hp
    · next hindex =>
      obtain ⟨rfl, hplain⟩ := hindex
      obtain rfl := Option.some.inj hp
      obtain ⟨r, hr, rfl⟩ := h
      refine ⟨[⟨index, s.pos, r.pos⟩], ?_, ⟨rfl, rfl, hr.leads.pos_le, rfl⟩, rfl⟩
      show _ :: r.captures = _
      rw [hr.captures_eq hplain]
      rfl
    · cases hp
  | one set => cases hp
  | alt p q => cases hp
  | repeated greedy least most p => cases hp

end Pattern

end HdlIndex

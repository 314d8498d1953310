import HdlIndex.Pattern.Matcher

/-! What it is to match, without an order of preference: which places a pattern can lead to from a
place. Main statements: every end that the matcher lists is the end of a match, a match reads on
from where it starts, and a match of a pattern that consumes reads at least one character. -/

namespace HdlIndex

namespace Pattern

/-- A number of steps in a row. -/
inductive Steps (R : MatchState → MatchState → Prop) : Nat → MatchState → MatchState → Prop
  | zero (s : MatchState) : Steps R 0 s s
  | succ {n : Nat} {s t u : MatchState} (h : R s t) (rest : Steps R n t u) : Steps R (n + 1) s u

namespace Steps

variable {R R' : MatchState → MatchState → Prop} {m n : Nat} {s t u : MatchState}

theorem one (h : R s t) : Steps R 1 s t := .succ h (.zero t)

theorem trans (h : Steps R m s t) (h' : Steps R n t u) : Steps R (m + n) s u := by
  induction h with
  | zero s => rwa [Nat.zero_add]
  | @succ m s t u hstep _ ih =>
    rw [Nat.add_right_comm]
    exact .succ hstep (ih h')

theorem imp (hR : ∀ s t, R s t → R' s t) (h : Steps R n s t) : Steps R' n s t := by
  induction h with
  | zero s => exact .zero s
  | succ hstep _ ih => exact .succ (hR _ _ hstep) ih

end Steps

/-- Whether a match from one place can end at another, with the extents of groups noted there. -/
def Matches : Pattern → MatchState → MatchState → Prop
  | .empty, s, t => t = s
  | .one set, s, t => ∃ c, s.rest.head? = some c ∧ set.has c ∧ t = s.behind c
  | .edge e, s, t => e.holds s ∧ t = s
  | .seq p q, s, u => ∃ t, p.Matches s t ∧ q.Matches t u
  | .alt p q, s, t => p.Matches s t ∨ q.Matches s t
  | .repeated _ least most p, s, t =>
    ∃ n, least ≤ n ∧ (∀ m ∈ most, n ≤ max least m) ∧ Steps p.Matches n s t
  | .group index p, s, u => ∃ t, p.Matches s t ∧ u = t.note index s.pos

/-! ### Lists of ends -/

theorem mem_of_mem_distinctFrom {t : MatchState} {seen : Std.HashSet Nat}
    {states : List MatchState} (h : t ∈ distinctFrom seen states) : t ∈ states := by
  induction states generalizing seen with
  | nil => exact h
  | cons s rest ih =>
    rw [distinctFrom] at h
    split at h
    · exact List.mem_cons_of_mem s (ih h)
    · rcases List.mem_cons.1 h with rfl | h
      · exact List.mem_cons_self
      · exact List.mem_cons_of_mem s (ih h)

theorem mem_of_mem_distinct {t : MatchState} {states : List MatchState}
    (h : t ∈ distinct states) : t ∈ states := by
  unfold distinct at h
  split at h
  · exact h
  · exact h
  · exact mem_of_mem_distinctFrom h

theorem mem_of_mem_stepAll {step : MatchState → List MatchState} {u : MatchState}
    {states : List MatchState} (h : u ∈ stepAll step states) : ∃ t ∈ states, u ∈ step t := by
  unfold stepAll at h
  split at h
  · cases h
  · exact ⟨_, List.mem_singleton_self _, h⟩
  · exact List.mem_flatMap.1 (mem_of_mem_distinct h)

theorem mem_of_mem_merge {t : MatchState} {first second : List MatchState}
    (h : t ∈ merge first second) : t ∈ first ∨ t ∈ second := by
  unfold merge at h
  split at h
  · exact .inr h
  · exact .inl h
  · exact List.mem_append.1 (mem_of_mem_distinct h)

section Repetitions

variable {step : MatchState → List MatchState} {greedy : Bool}

theorem steps_of_mem_stepTimes {n : Nat} {states : List MatchState} {u : MatchState}
    (h : u ∈ stepTimes step n states) : ∃ t ∈ states, Steps (fun s t => t ∈ step s) n t u := by
  induction n generalizing states with
  | zero =>
    have hu : u ∈ states := by
      cases states with
      | nil => exact h
      | cons => exact h
    exact ⟨u, hu, .zero u⟩
  | succ n ih =>
    cases states with
    | nil => cases h
    | cons s states =>
      obtain ⟨t, ht, hsteps⟩ := ih h
      obtain ⟨r, hr, hstep⟩ := mem_of_mem_stepAll ht
      exact ⟨r, hr, .succ hstep hsteps⟩

/-- Whether all ends found so far satisfy a condition. -/
def Found.All (P : MatchState → Prop) (f : Found) : Prop := ∀ t ∈ f.ends, P t

theorem Found.All.add {P : MatchState → Prop} {f : Found} (hf : f.All P) {s : MatchState}
    (hs : P s) : (f.add s).All P := by
  intro t ht
  rcases List.mem_cons.1 ht with rfl | ht
  · exact hs
  · exact hf t ht

/-- Whatever holds of the ends found so far and of all that steps lead to holds of all ends. -/
theorem all_explore {counted : Bool} {P : MatchState → Prop} (left : Nat) (s : MatchState)
    (f : Found) (hf : f.All P)
    (hs : ∀ n t, (counted → n ≤ left) → Steps (fun s t => t ∈ step s) n s t → P t) :
    (explore greedy counted step left s f).All P := by
  induction left generalizing s f with
  | zero => exact hf.add (hs 0 s (fun _ => Nat.le_refl 0) (.zero s))
  | succ left ih =>
    have hhere : P s := hs 0 s (fun _ => Nat.zero_le _) (.zero s)
    -- What was visited only keeps ends out, so nothing has to be known of it.
    have hgo (f : Found) (hf : f.All P) : ((step s).foldl (fun f t =>
        if counted || s.pos < t.pos then explore greedy counted step left t f else f) f).All P := by
      refine List.foldlRecOn _ _ hf ?_
      intro f hf t ht
      split
      · refine ih t f hf ?_
        intro n u hn hsteps
        exact hs (n + 1) u (fun hc => Nat.succ_le_succ (hn hc)) (.succ ht hsteps)
      · exact hf
    rw [explore]
    generalize (if counted then left else 0, s.pos) = key
    have hvisited : ({ f with visited := f.visited.insert key } : Found).All P := hf
    dsimp only
    split
    · exact hf
    · split
      · exact (hgo _ hvisited).add hhere
      · exact hgo _ (hvisited.add hhere)

theorem steps_of_mem_someSteps {s t : MatchState} (h : t ∈ someSteps greedy step s) :
    ∃ n, 0 < n ∧ Steps (fun s t => t ∈ step s) n s t := by
  have hall : ((step s).foldl (fun f t =>
      if s.pos < t.pos then explore greedy false step t.rest.length t f else f.add t)
      ({} : Found)).All fun t => ∃ n, 0 < n ∧ Steps (fun s t => t ∈ step s) n s t := by
    refine List.foldlRecOn _ _ (by simp [Found.All]) ?_
    intro f hf t ht
    split
    · refine all_explore _ t f hf ?_
      intro n u _ hsteps
      exact ⟨n + 1, Nat.succ_pos n, .succ ht hsteps⟩
    · exact hf.add ⟨1, Nat.one_pos, .one ht⟩
  exact hall t (List.mem_reverse.1 (mem_of_mem_distinct h))

theorem steps_of_mem_fewSteps {most : Nat} {s t : MatchState}
    (h : t ∈ fewSteps greedy step most s) :
    ∃ n ≤ most, Steps (fun s t => t ∈ step s) n s t := by
  have hall : (explore greedy true step most s {}).All fun t =>
      ∃ n ≤ most, Steps (fun s t => t ∈ step s) n s t := by
    refine all_explore most s {} (by simp [Found.All]) ?_
    intro n u hn hsteps
    exact ⟨n, hn rfl, hsteps⟩
  exact hall t (List.mem_reverse.1 (mem_of_mem_distinct h))

/-- The ends of a repetition are reached in an allowed number of steps. -/
theorem steps_of_mem_repeatSteps {least : Nat} {most : Option Nat} {s u : MatchState}
    (h : u ∈ repeatSteps greedy least most step s) :
    ∃ n, least ≤ n ∧ (∀ m ∈ most, n ≤ max least m) ∧ Steps (fun s t => t ∈ step s) n s u := by
  cases most with
  | some most =>
    simp only [repeatSteps] at h
    split at h
    · obtain ⟨t, ht, hu⟩ := mem_of_mem_stepAll h
      obtain ⟨r, hr, hfirst⟩ := steps_of_mem_stepTimes ht
      obtain ⟨n, hn, hmore⟩ := steps_of_mem_fewSteps hu
      obtain rfl := List.mem_singleton.1 hr
      refine ⟨least + n, Nat.le_add_right _ _, ?_, hfirst.trans hmore⟩
      simp only [Option.mem_some_iff, forall_eq']
      omega
    · obtain ⟨r, hr, hsteps⟩ := steps_of_mem_stepTimes h
      obtain rfl := List.mem_singleton.1 hr
      exact ⟨least, Nat.le_refl _, fun _ _ => Nat.le_max_left _ _, hsteps⟩
  | none =>
    cases least with
    | zero =>
      have hmerge : u ∈ someSteps greedy step s ∨ u = s := by
        simp only [repeatSteps] at h
        split at h
        · exact (mem_of_mem_merge h).imp_right List.mem_singleton.1
        · exact (mem_of_mem_merge h).symm.imp_right List.mem_singleton.1
      rcases hmerge with hu | rfl
      · obtain ⟨n, -, hsteps⟩ := steps_of_mem_someSteps hu
        exact ⟨n, Nat.zero_le _, by simp, hsteps⟩
      · exact ⟨0, Nat.le_refl _, by simp, .zero u⟩
    | succ least =>
      obtain ⟨t, ht, hu⟩ := mem_of_mem_stepAll h
      obtain ⟨r, hr, hfirst⟩ := steps_of_mem_stepTimes ht
      obtain ⟨n, hn, hmore⟩ := steps_of_mem_someSteps hu
      obtain rfl := List.mem_singleton.1 hr
      exact ⟨least + n, Nat.add_le_add_left hn _, by simp, hfirst.trans hmore⟩

end Repetitions

/-! ### Soundness of the matcher -/

/-- The places in a run are reached by reading characters of the set. -/
theorem steps_of_mem_runPlaces {set : CharSet} {cs : List Char} {s t : MatchState}
    {found : List MatchState} (hcs : cs <+: s.rest) (h : t ∈ runPlaces set cs s found) :
    t ∈ found ∨ ∃ n ≤ cs.length, t.pos = s.pos + n ∧ Steps (Pattern.one set).Matches n s t := by
  induction cs generalizing s found with
  | nil =>
    rcases List.mem_cons.1 h with rfl | h
    · exact .inr ⟨0, Nat.le_refl 0, rfl, .zero t⟩
    · exact .inl h
  | cons c cs ih =>
    have hstay (h : t ∈ s :: found) :
        t ∈ found ∨ ∃ n ≤ (c :: cs).length, t.pos = s.pos + n ∧
          Steps (Pattern.one set).Matches n s t := by
      rcases List.mem_cons.1 h with rfl | h
      · exact .inr ⟨0, Nat.zero_le _, rfl, .zero t⟩
      · exact .inl h
    obtain ⟨more, hmore⟩ := hcs
    rw [runPlaces] at h
    split at h
    · next hc =>
      have hrest : cs <+: (s.behind c).rest := ⟨more, by simp [MatchState.behind, ← hmore]⟩
      rcases ih hrest h with h | ⟨n, hn, hpos, hsteps⟩
      · exact hstay h
      · refine .inr ⟨n + 1, Nat.succ_le_succ hn, ?_, .succ ⟨c, ?_, hc, rfl⟩ hsteps⟩
        · simp only [MatchState.behind] at hpos
          omega
        · simp [← hmore]
    · exact hstay h

theorem matches_of_mem_runEnds {greedy : Bool} {least : Nat} {most : Option Nat} {set : CharSet}
    {s t : MatchState} (h : t ∈ runEnds greedy least most set s) :
    (Pattern.repeated greedy least most (.one set)).Matches s t := by
  have hends (cs : List Char) (hcs : cs <+: s.rest)
      (h : t ∈ if greedy then (runPlaces set cs s []).filter fun t => s.pos + least ≤ t.pos
        else ((runPlaces set cs s []).filter fun t => s.pos + least ≤ t.pos).reverse) :
      ∃ n, least ≤ n ∧ n ≤ cs.length ∧ Steps (Pattern.one set).Matches n s t := by
    have hplace : t ∈ runPlaces set cs s [] ∧ s.pos + least ≤ t.pos := by
      split at h
      · simpa using h
      · simpa using h
    rcases steps_of_mem_runPlaces hcs hplace.1 with h | ⟨n, hn, hpos, hsteps⟩
    · cases h
    · exact ⟨n, by omega, hn, hsteps⟩
  cases most with
  | none =>
    obtain ⟨n, hleast, -, hsteps⟩ := hends s.rest List.prefix_rfl h
    exact ⟨n, hleast, by simp, hsteps⟩
  | some most =>
    obtain ⟨n, hleast, hn, hsteps⟩ := hends (s.rest.take most) (List.take_prefix _ _) h
    rw [List.length_take] at hn
    refine ⟨n, hleast, ?_, hsteps⟩
    simp only [Option.mem_some_iff, forall_eq']
    omega

/-- Every end that the matcher lists is the end of a match. -/
theorem matches_of_mem_ends {p : Pattern} {s t : MatchState} (h : t ∈ p.ends s) :
    p.Matches s t := by
  induction p generalizing s t with
  | empty => exact List.mem_singleton.1 h
  | one set =>
    rw [ends] at h
    split at h
    · cases h
    · next c cs hrest =>
      split at h
      · next hc => exact ⟨c, by rw [hrest, List.head?_cons], hc, List.mem_singleton.1 h⟩
      · cases h
  | edge e =>
    rw [ends] at h
    split at h
    · next he => exact ⟨he, List.mem_singleton.1 h⟩
    · cases h
  | seq p q ihp ihq =>
    obtain ⟨r, hr, ht⟩ := mem_of_mem_stepAll h
    exact ⟨r, ihp hr, ihq ht⟩
  | alt p q ihp ihq => exact (mem_of_mem_merge h).imp ihp ihq
  | repeated greedy least most p ih =>
    have hsteps (h : t ∈ repeatSteps greedy least most (fun t => p.ends t) s) :
        (Pattern.repeated greedy least most p).Matches s t := by
      obtain ⟨n, hleast, hmost, hsteps⟩ := steps_of_mem_repeatSteps h
      exact ⟨n, hleast, hmost, hsteps.imp fun _ _ => ih⟩
    -- Repetitions of single characters have a way of their own to find their ends.
    cases p with
    | one set => exact matches_of_mem_runEnds h
    | _ => exact hsteps h
  | group index p ih =>
    obtain ⟨r, hr, rfl⟩ := List.mem_map.1 h
    exact ⟨r, ih hr, rfl⟩

/-- The preferred match in a text is a match from its start. -/
theorem matches_of_match? {p : Pattern} (htied : p.isTied) (hsteady : p.isSteady)
    {text : List Char} {m : Match} (h : p.match? text = some m) :
    ∃ t, p.Matches ⟨none, text, 0, []⟩ t ∧ m = ⟨0, t.pos, t.captures⟩ := by
  rw [match?, if_pos htied, matchFrom?, end?, if_pos hsteady] at h
  obtain ⟨t, ht, rfl⟩ := Option.map_eq_some_iff.1 h
  exact ⟨t, matches_of_mem_ends (List.mem_of_head? ht), rfl⟩

end Pattern

/-! ### Where matches lead -/

/-- Whether a place stands behind another one in the same text, or is the same. -/
def MatchState.Leads (s t : MatchState) : Prop :=
  ∃ piece, s.rest = piece ++ t.rest ∧ t.pos = s.pos + piece.length

namespace MatchState.Leads

variable {s t u : MatchState}

theorem refl (s : MatchState) : s.Leads s := ⟨[], rfl, rfl⟩

theorem trans (h : s.Leads t) (h' : t.Leads u) : s.Leads u := by
  obtain ⟨a, ha, hpos⟩ := h
  obtain ⟨b, hb, hpos'⟩ := h'
  refine ⟨a ++ b, by rw [ha, hb, List.append_assoc], ?_⟩
  rw [hpos', hpos, List.length_append, Nat.add_assoc]

theorem behind {c : Char} (h : s.rest.head? = some c) : s.Leads (s.behind c) := by
  refine ⟨[c], ?_, rfl⟩
  obtain ⟨rest, hrest⟩ := List.head?_eq_some_iff.1 h
  simp [MatchState.behind, hrest]

theorem pos_le (h : s.Leads t) : s.pos ≤ t.pos := by
  obtain ⟨piece, -, hpos⟩ := h
  omega

end MatchState.Leads

namespace Pattern

/-- Steps that lead on lead on together. -/
theorem Steps.leads {R : MatchState → MatchState → Prop} (hR : ∀ s t, R s t → s.Leads t) {n : Nat}
    {s t : MatchState} (h : Steps R n s t) : s.Leads t := by
  induction h with
  | zero s => exact .refl s
  | succ hstep _ ih => exact (hR _ _ hstep).trans ih

/-- A match reads on in the text. -/
theorem Matches.leads {p : Pattern} {s t : MatchState} (h : p.Matches s t) : s.Leads t := by
  induction p generalizing s t with
  | empty =>
    obtain rfl : t = s := h
    exact .refl t
  | one set =>
    obtain ⟨c, hc, -, rfl⟩ := h
    exact .behind hc
  | edge e =>
    obtain ⟨-, rfl⟩ := h
    exact .refl t
  | seq p q ihp ihq =>
    obtain ⟨r, hp, hq⟩ := h
    exact (ihp hp).trans (ihq hq)
  | alt p q ihp ihq =>
    rcases h with h | h
    · exact ihp h
    · exact ihq h
  | repeated greedy least most p ih =>
    obtain ⟨n, -, -, hsteps⟩ := h
    exact hsteps.leads fun _ _ => ih
  | group index p ih =>
    obtain ⟨r, hr, rfl⟩ := h
    show s.Leads r
    exact ih hr

/-- A match of a pattern that consumes reads a character. -/
theorem Matches.pos_lt {p : Pattern} (hp : p.consumes) {s t : MatchState} (h : p.Matches s t) :
    s.pos < t.pos := by
  induction p generalizing s t with
  | empty => cases hp
  | one set =>
    obtain ⟨c, -, -, rfl⟩ := h
    exact Nat.lt_succ_self s.pos
  | edge e => cases hp
  | seq p q ihp ihq =>
    obtain ⟨r, hpr, hrq⟩ := h
    rcases Bool.or_eq_true _ _ ▸ hp with hp | hq
    · exact Nat.lt_of_lt_of_le (ihp hp hpr) hrq.leads.pos_le
    · exact Nat.lt_of_le_of_lt hpr.leads.pos_le (ihq hq hrq)
  | alt p q ihp ihq =>
    obtain ⟨hp, hq⟩ := Bool.and_eq_true _ _ ▸ hp
    rcases h with h | h
    · exact ihp hp h
    · exact ihq hq h
  | repeated greedy least most p ih =>
    obtain ⟨hleast, hp⟩ := Bool.and_eq_true _ _ ▸ hp
    obtain ⟨n, hn, -, hsteps⟩ := h
    cases hsteps with
    | zero => simp at hleast; omega
    | succ hstep hmore =>
      exact Nat.lt_of_lt_of_le (ih hp hstep) (hmore.leads fun _ _ => Matches.leads).pos_le
  | group index p ih =>
    obtain ⟨r, hr, rfl⟩ := h
    show s.pos < r.pos
    exact ih hp hr

end Pattern

end HdlIndex

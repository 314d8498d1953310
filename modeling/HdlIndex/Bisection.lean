/-! Finding a place in a row by halving. -/

namespace HdlIndex

/-- Halves a stretch of `size` places from `base` on. A test that holds moves the stretch to the
place that was tested, one that fails keeps what lies in front of it. -/
def halve (holds : Nat → Bool) (base size : Nat) : Nat :=
  if 1 < size then
    halve holds (if holds (base + size / 2) then base + size / 2 else base) (size - size / 2)
  else if holds base then base + 1 else base
termination_by size

/-- The first of `n` places at which a test fails, if it fails at all places behind it. -/
def bisect (holds : Nat → Bool) (n : Nat) : Nat := if n = 0 then 0 else halve holds 0 n

/-- If the test holds exactly in front of `k`, then halving finds `k`. -/
theorem halve_eq {holds : Nat → Bool} {base size k n : Nat} (hn : base + size ≤ n) (hs : 0 < size)
    (hb : base ≤ k) (hk : k ≤ base + size) (h : ∀ i < n, holds i = decide (i < k)) :
    halve holds base size = k := by
  induction size using Nat.strongRecOn generalizing base with
  | ind size ih =>
    rw [halve]
    split
    · have hm := h (base + size / 2) (by omega)
      by_cases hlt : base + size / 2 < k
      · simp only [hm, hlt, decide_true, if_true]
        exact ih _ (by omega) (by omega) (by omega) (by omega) (by omega)
      · simp only [hm, hlt, decide_false, Bool.false_eq_true, if_false]
        exact ih _ (by omega) (by omega) (by omega) hb (by omega)
    · have hm := h base (by omega)
      by_cases hlt : base < k
      · simp only [hm, hlt, decide_true, if_true]
        omega
      · simp only [hm, hlt, decide_false, Bool.false_eq_true, if_false]
        omega

theorem bisect_eq {holds : Nat → Bool} {n k : Nat} (hk : k ≤ n)
    (h : ∀ i < n, holds i = decide (i < k)) : bisect holds n = k := by
  rw [bisect]
  split
  · omega
  · exact halve_eq (by omega) (by omega) (Nat.zero_le k) (by omega) h

end HdlIndex

/-
# Going around a growing list

A position that moves through a list, one place at a time and from the end back to the
start, while the list grows at its end.  Whatever is in the list when the position leaves
a place has its turn exactly once before the position comes back.
-/
import Mathlib

/-- The positions `pos 0`, `pos 1`, ... of the first `len` turns, each in a list whose
length at that time is `count`: the next place if there is one, and the first otherwise. -/
structure Rounds (pos count : ℕ → ℕ) (len : ℕ) : Prop where
  lt : ∀ k < len, pos k < count k
  mono : ∀ k, k + 1 < len → count k ≤ count (k + 1)
  step : ∀ k, k + 1 < len → pos (k + 1) = if pos k + 1 < count (k + 1) then pos k + 1 else 0

namespace Rounds

variable {pos count : ℕ → ℕ} {len k l : ℕ}

/-- The list only grows. -/
theorem count_le (h : Rounds pos count len) (hkl : k ≤ l) (hl : l < len) : count k ≤ count l := by
  induction l, hkl using Nat.le_induction with
  | base => exact le_rfl
  | succ l _ ih => exact (ih (by omega)).trans (h.mono l hl)

/-- **Until the position comes back**, it goes to the end of the list and then on from the
start. -/
theorem before_return (h : Rounds pos count len) (hkl : k ≤ l) (hl : l < len)
    (hne : ∀ j, k < j → j < l → pos j ≠ pos k) :
    (∀ j, k ≤ j → j ≤ l → pos j = pos k + (j - k)) ∨
      ∃ w, k < w ∧ w ≤ l ∧ count w = pos k + (w - k) ∧ l - w ≤ pos k ∧
        (∀ j, k ≤ j → j < w → pos j = pos k + (j - k)) ∧
        ∀ j, w ≤ j → j ≤ l → pos j = j - w := by
  induction l, hkl using Nat.le_induction with
  | base =>
    refine .inl fun j h1 h2 => ?_
    obtain rfl : j = k := by omega
    omega
  | succ l hle ih =>
    have hstep := h.step l hl
    rcases ih (by omega) fun j h1 h2 => hne j h1 (by omega) with hup | ⟨w, hkw, hwl, hcount, hroom, hup, hon⟩
    · have hposl := hup l hle le_rfl
      by_cases hlt : pos l + 1 < count (l + 1)
      · -- one place further
        rw [if_pos hlt] at hstep
        refine .inl fun j h1 h2 => ?_
        by_cases hj : j = l + 1
        · rw [hj]
          omega
        · exact hup j h1 (by omega)
      · -- the end of the list
        rw [if_neg hlt] at hstep
        have hin := h.lt l (by omega)
        have hgrow := h.mono l hl
        refine .inr ⟨l + 1, by omega, le_rfl, by omega, by omega,
          fun j h1 h2 => hup j h1 (by omega), fun j h1 h2 => ?_⟩
        obtain rfl : j = l + 1 := by omega
        omega
    · have hposl := hon l hwl le_rfl
      have hback : pos l ≠ pos k := hne l (by omega) (by omega)
      have hgrow := h.count_le (by omega : w ≤ l + 1) hl
      rw [if_pos (by omega)] at hstep
      refine .inr ⟨w, hkw, by omega, hcount, by omega, hup, fun j h1 h2 => ?_⟩
      by_cases hj : j = l + 1
      · rw [hj]
        omega
      · exact hon j h1 (by omega)

/-- **Everyone else has one turn** before the position comes back. -/
theorem exists_unique_turn (h : Rounds pos count len) (hkl : k < l) (hl : l < len)
    (hback : pos l = pos k) (hne : ∀ j, k < j → j < l → pos j ≠ pos k) {p : ℕ}
    (hp : p < count k) (hpk : p ≠ pos k) :
    ∃! j, k < j ∧ j < l ∧ pos j = p := by
  rcases h.before_return hkl.le hl hne with hup | ⟨w, hkw, hwl, hcount, hroom, hup, hon⟩
  · have := hup l hkl.le le_rfl
    omega
  · have hend := hon l hwl le_rfl
    have hgrow := h.count_le hkw.le (by omega)
    rcases Nat.lt_or_gt_of_ne hpk with hlt | hgt
    · -- behind the place: after the turn at the end of the list
      refine ⟨w + p, ⟨by omega, by omega, ?_⟩, ?_⟩
      · rw [hon _ (by omega) (by omega)]
        omega
      · rintro j ⟨h1, h2, hj⟩
        by_cases hjw : j < w
        · have := hup j (by omega) hjw
          omega
        · have := hon j (by omega) (by omega)
          omega
    · refine ⟨k + (p - pos k), ⟨by omega, by omega, ?_⟩, ?_⟩
      · rw [hup _ (by omega) (by omega)]
        omega
      · rintro j ⟨h1, h2, hj⟩
        by_cases hjw : j < w
        · have := hup j (by omega) hjw
          omega
        · have := hon j (by omega) (by omega)
          omega

end Rounds

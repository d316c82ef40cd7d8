import Mathlib.Data.Int.GCD
import Mathlib.Data.Nat.Find
import Mathlib.Order.Basic

/-!
# A counter that wraps around

A counter starts at zero and advances by a fixed step modulo `K` until it reaches
a bound, where it is clamped. It attains every multiple of `gcd q K` below `K`, so
the largest value it ever takes is `K - gcd q K`: a bound up to there is reached
within `K` steps, and a larger one never. A zero step is the case where the
counter does not move at all.
-/

namespace BananaApi

/-- Advance until the bound is reached or the budget is spent, keeping the largest
value seen; the flag says whether the bound was reached. -/
def climb (K q n : Nat) : Nat → Nat → Nat → Nat × Bool
  | 0, _, top => (top, false)
  | fuel + 1, m, top =>
    if m < n then
      let next := min n ((m + q) % K)
      climb K q n fuel next (max top next)
    else (top, true)

/-- The largest value of the counter. -/
def reach (K q : Nat) : Nat := K - Nat.gcd q K

/-- The largest of the first values of the unclamped counter. -/
def peak (K q : Nat) : Nat → Nat
  | 0 => 0
  | k + 1 => max (peak K q k) ((k + 1) * q % K)

section Counter

variable {K q n : Nat}

/-- The largest value seen does not get smaller. -/
theorem le_climb (fuel m top : Nat) : top ≤ (climb K q n fuel m top).1 := by
  induction fuel generalizing m top with
  | zero => exact le_rfl
  | succ fuel ih =>
    unfold climb
    split
    · exact (le_max_left _ _).trans (ih _ _)
    · exact le_rfl

/-- No sum up to here is above the peak. -/
theorem le_peak {j k : Nat} (h : j ≤ k) : j * q % K ≤ peak K q k := by
  induction k with
  | zero =>
    have hj : j = 0 := by omega
    simp [hj]
  | succ k ih =>
    rw [peak]
    rcases Nat.lt_or_ge k j with hk | hk
    · have hj : j = k + 1 := by omega
      rw [hj]
      exact le_max_right _ _
    · exact (ih hk).trans (le_max_left _ _)

/-- The peak is below a bound of all the sums. -/
theorem peak_lt {k : Nat} (h : ∀ j ≤ k, j * q % K < n) : peak K q k < n := by
  induction k with
  | zero => simpa [peak] using (Nat.zero_le _).trans_lt (h 0 le_rfl)
  | succ k ih =>
    rw [peak]
    exact max_lt (ih fun j hj => h j (by omega)) (h (k + 1) le_rfl)

/-- Below the bound the counter runs through the multiples of its step. -/
theorem climb_below (k fuel : Nat) (h : ∀ j ≤ k, j * q % K < n) :
    climb K q n (k + fuel) 0 0 = climb K q n fuel (k * q % K) (peak K q k) := by
  induction k generalizing fuel with
  | zero => simp [peak]
  | succ k ih =>
    have hnext : (k * q % K + q) % K = (k + 1) * q % K := by
      rw [Nat.mod_add_mod, Nat.succ_mul]
    have hmin : min n ((k + 1) * q % K) = (k + 1) * q % K :=
      min_eq_right (h (k + 1) le_rfl).le
    rw [show k + 1 + fuel = k + (fuel + 1) by omega, ih (fuel + 1) fun j hj => h j (by omega),
      climb, if_pos (h k (by omega))]
    simp only [hnext, hmin, peak]

/-- The counter stays on multiples of the greatest common divisor. -/
theorem mul_mod_le_reach (hK : 0 < K) (j : Nat) : j * q % K ≤ reach K q := by
  have hlt : j * q % K < K := Nat.mod_lt _ hK
  have hdvd : Nat.gcd q K ∣ j * q % K :=
    (Nat.dvd_mod_iff (Nat.gcd_dvd_right q K)).mpr ((Nat.gcd_dvd_left q K).mul_left j)
  have hgap : Nat.gcd q K ≤ K - j * q % K :=
    Nat.le_of_dvd (by omega) (Nat.dvd_sub (Nat.gcd_dvd_right q K) hdvd)
  rw [reach]
  omega

/-- The counter attains its largest value within `K` steps. -/
theorem exists_mul_mod_eq_reach (hK : 0 < K) : ∃ j < K, j * q % K = reach K q := by
  rcases (Nat.gcd_le_right q hK).lt_or_eq with hlt | heq
  · obtain ⟨m, -, hm⟩ := Nat.exists_mul_mod_eq_gcd hlt
    refine ⟨m * (K - 1) % K, Nat.mod_lt _ hK, ?_⟩
    have hpos : 0 < Nat.gcd q K := Nat.gcd_pos_of_pos_right q hK
    have hsum : (q * m * (K - 1) + q * m) % K = 0 := by
      rw [← Nat.mul_succ, Nat.succ_eq_add_one, Nat.sub_add_cancel hK, Nat.mul_mod_left]
    have hval : m * (K - 1) % K * q % K = q * m * (K - 1) % K := by
      rw [Nat.mod_mul_mod, Nat.mul_comm, ← Nat.mul_assoc]
    have hlast := Nat.mod_lt (q * m * (K - 1)) hK
    rw [Nat.add_mod, hm] at hsum
    rw [hval, reach]
    rcases Nat.lt_or_ge (q * m * (K - 1) % K + Nat.gcd q K) K with h | h
    · rw [Nat.mod_eq_of_lt h] at hsum
      omega
    · rw [Nat.mod_eq_sub_mod h, Nat.mod_eq_of_lt (by omega)] at hsum
      omega
  · exact ⟨0, hK, by rw [reach, heq]; simp⟩

/-- With a budget of `K` steps the counter reaches every bound up to its largest
value, and stays below every other. -/
theorem climb_eq (hK : 0 < K) {fuel : Nat} (hf : K ≤ fuel) :
    climb K q n fuel 0 0 = if n ≤ reach K q then (n, true) else (reach K q, false) := by
  obtain ⟨top, htop, heq⟩ := exists_mul_mod_eq_reach (q := q) hK
  by_cases hn : n ≤ reach K q
  · rw [if_pos hn]
    have hex : ∃ j, n ≤ j * q % K := ⟨top, by omega⟩
    have hfind := Nat.find_spec hex
    have hmin : ∀ j, j < Nat.find hex → j * q % K < n := fun j hj =>
      Nat.lt_of_not_ge (Nat.find_min hex hj)
    have hle : Nat.find hex ≤ top := Nat.find_le (by omega)
    cases hJ : Nat.find hex with
    | zero =>
      rw [hJ] at hfind
      have hn0 : n = 0 := by simpa using hfind
      obtain ⟨f, rfl⟩ : ∃ f, fuel = f + 1 := ⟨fuel - 1, by omega⟩
      simp [climb, hn0]
    | succ k =>
      rw [hJ] at hfind hmin hle
      obtain ⟨f, rfl⟩ : ∃ f, fuel = k + (f + 2) := ⟨fuel - (k + 2), by omega⟩
      have hbelow : ∀ j ≤ k, j * q % K < n := fun j hj => hmin j (by omega)
      have hnext : (k * q % K + q) % K = (k + 1) * q % K := by
        rw [Nat.mod_add_mod, Nat.succ_mul]
      have hpk := peak_lt hbelow
      rw [climb_below k (f + 2) hbelow, climb, if_pos (hbelow k le_rfl)]
      simp only [hnext, min_eq_left hfind, max_eq_right hpk.le]
      rw [climb, if_neg (lt_irrefl n)]
  · rw [if_neg hn]
    have hbelow : ∀ j ≤ fuel, j * q % K < n := fun j _ =>
      (mul_mod_le_reach hK j).trans_lt (by omega)
    have hpeak : peak K q fuel = reach K q := by
      apply le_antisymm
      · exact Nat.le_of_lt_succ (peak_lt fun j _ => Nat.lt_succ_of_le (mul_mod_le_reach hK j))
      · rw [← heq]
        exact le_peak (by omega)
    rw [show fuel = fuel + 0 from rfl, climb_below fuel 0 hbelow, climb, hpeak]

end Counter

end BananaApi

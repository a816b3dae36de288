import Mathlib.Algebra.Order.Ring.Nat
import Mathlib.Algebra.GroupWithZero.Nat
import Mathlib.Data.Nat.Init
import Mathlib.Tactic.Ring

/-!
# Numbers without certain digits

The digits of a number in any base, counted from the low end.

* **one digit** — `bump` makes the digit at a place one larger and clears those
  below it. As long as the digit is not the largest one nothing is carried, so what
  is above stays (`bump_div_gt`) and the number keeps its length (`bump_lt_pow`);
* **all digits** — `skip` looks for an unwanted digit from the high end on and
  bumps the first one. No unwanted digit is left (`skip_digits_of_lt`), and the
  number has only become larger (`le_skip`).
-/

namespace Tsshd

/-- The digit at place `k`. -/
def digit (base n k : Nat) : Nat := n / base ^ k % base

/-- One more at place `k`, and zeros below. -/
def bump (base n k : Nat) : Nat := (n / base ^ k + 1) * base ^ k

section Bump

variable {base n k j : Nat}

theorem lt_bump (hbase : 0 < base) : n < bump base n k := by
  rw [bump, Nat.mul_comm]
  exact Nat.lt_mul_div_succ n (Nat.pow_pos hbase)

/-- From its own place on, a number is bumped by one. -/
theorem bump_div (hbase : 0 < base) (d : Nat) :
    bump base n k / base ^ (k + d) = (n / base ^ k + 1) / base ^ d := by
  rw [bump, Nat.pow_add, ← Nat.div_div_eq_div_mul, Nat.mul_div_cancel _ (Nat.pow_pos hbase)]

/-- Nothing is carried out of a digit that is not the largest. -/
theorem succ_digits (h : digit base n k + 1 < base) :
    (n / base ^ k + 1) / base = n / base ^ k / base ∧
      (n / base ^ k + 1) % base = digit base n k + 1 := by
  rw [Nat.div_mod_unique (by omega)]
  have hsplit : digit base n k + base * (n / base ^ k / base) = n / base ^ k :=
    Nat.mod_add_div (n / base ^ k) base
  omega

theorem digit_bump_lt (hbase : 0 < base) (h : j < k) : digit base (bump base n k) j = 0 := by
  obtain ⟨d, rfl⟩ : ∃ d, k = j + (d + 1) := ⟨k - j - 1, by omega⟩
  have hshift : bump base n (j + (d + 1)) =
      (n / base ^ (j + (d + 1)) + 1) * base ^ d * base * base ^ j := by
    rw [bump, Nat.pow_add, Nat.pow_succ]
    ring
  rw [digit, hshift, Nat.mul_div_cancel _ (Nat.pow_pos hbase), Nat.mul_mod_left]

theorem digit_bump_self (h : digit base n k + 1 < base) :
    digit base (bump base n k) k = digit base n k + 1 := by
  have hdiv : bump base n k / base ^ k = n / base ^ k + 1 :=
    Nat.mul_div_cancel _ (Nat.pow_pos (by omega))
  have hdigit : digit base (bump base n k) k = (n / base ^ k + 1) % base := by rw [digit, hdiv]
  rw [hdigit, (succ_digits h).2]

theorem bump_div_gt (h : digit base n k + 1 < base) (hj : k < j) :
    bump base n k / base ^ j = n / base ^ j := by
  obtain ⟨d, rfl⟩ : ∃ d, j = k + (d + 1) := ⟨j - k - 1, by omega⟩
  rw [bump_div (by omega), Nat.pow_succ', ← Nat.div_div_eq_div_mul, (succ_digits h).1,
    Nat.pow_add, Nat.pow_succ', Nat.div_div_eq_div_mul, Nat.div_div_eq_div_mul]

theorem digit_bump_gt (h : digit base n k + 1 < base) (hj : k < j) :
    digit base (bump base n k) j = digit base n j := by
  rw [digit, bump_div_gt h hj, digit]

theorem bump_lt_pow (h : digit base n k + 1 < base) (hk : k < j) (hn : n < base ^ j) :
    bump base n k < base ^ j := by
  have hzero : bump base n k / base ^ j = 0 := by rw [bump_div_gt h hk, Nat.div_eq_of_lt hn]
  exact (Nat.div_eq_zero_iff_lt (Nat.pow_pos (by omega))).mp hzero

end Bump

/-- The highest unwanted digit below place `k` is bumped. -/
def skip (base : Nat) (bad : Nat → Bool) : Nat → Nat → Nat
  | 0, n => n
  | k + 1, n => if bad (digit base n k) then bump base n k else skip base bad k n

/-- The number behind an unwanted digit is again a digit, and not an unwanted one. -/
structure Skippable (base : Nat) (bad : Nat → Bool) : Prop where
  pos : 0 < base
  zero : bad 0 = false
  next : ∀ d, bad d = true → d + 1 < base ∧ bad (d + 1) = false

section Skip

variable {base n k : Nat} {bad : Nat → Bool}

theorem le_skip (hs : Skippable base bad) : n ≤ skip base bad k n := by
  induction k with
  | zero => exact Nat.le_refl n
  | succ k ih =>
    rw [skip]
    split
    · exact (lt_bump hs.pos).le
    · exact ih

/-- The digits above place `k` are known to be wanted ones; the bumped digit is
one, and below it there are zeros. -/
theorem skip_digits (hs : Skippable base bad)
    (hhigh : ∀ j, k ≤ j → bad (digit base n j) = false) (j : Nat) :
    bad (digit base (skip base bad k n) j) = false := by
  induction k with
  | zero => exact hhigh j (Nat.zero_le j)
  | succ k ih =>
    rw [skip]
    split
    · rename_i hbad
      obtain ⟨hdigit, hnext⟩ := hs.next _ hbad
      rcases Nat.lt_trichotomy j k with hlt | rfl | hgt
      · rw [digit_bump_lt hs.pos hlt]
        exact hs.zero
      · rw [digit_bump_self hdigit]
        exact hnext
      · rw [digit_bump_gt hdigit hgt]
        exact hhigh j hgt
    · rename_i hgood
      refine ih fun i hi => ?_
      rcases Nat.lt_or_eq_of_le hi with hlt | rfl
      · exact hhigh i hlt
      · exact Bool.eq_false_iff.mpr hgood

/-- A number of `k` digits ends up with wanted digits only. -/
theorem skip_digits_of_lt (hs : Skippable base bad) (hn : n < base ^ k) (j : Nat) :
    bad (digit base (skip base bad k n) j) = false := by
  refine skip_digits hs (fun i hi => ?_) j
  have hzero : digit base n i = 0 := by
    rw [digit, Nat.div_eq_of_lt (hn.trans_le (Nat.pow_le_pow_right hs.pos hi)), Nat.zero_mod]
  rw [hzero]
  exact hs.zero

end Skip

end Tsshd

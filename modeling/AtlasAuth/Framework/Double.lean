import Mathlib.Data.Nat.Log
import Mathlib.Data.Nat.Basic
import Mathlib.Algebra.Order.Ring.Nat

/-!
# Doubles that hold whole numbers

Arithmetic of IEEE 754 doubles, round to nearest with ties to even, on whole
numbers and positive infinity (`Double`). Sums, differences and products are
those of the integers, rounded to 53 significant bits (`roundNat`);
`divFloor` is the floor of a rounded quotient. A magnitude that rounds to
`2^1024` or more is infinite.

Up to `2^53` every whole number is a double, so there the arithmetic is exact
(`roundNat_of_le`); beyond, rounding never takes a number below a bound up to
`2^53` (`le_roundNat`), and it keeps the order (`roundNat_mono`). At the other
end, numbers are infinite from `halfway` on (`roundNat_lt_overflow`).
-/

namespace Framework

/-- `a / b` rounded to the nearest whole number, ties to even. -/
def roundDiv (a b : Nat) : Nat :=
  let q := a / b
  let r := a % b
  if 2 * r < b ∨ (2 * r = b ∧ q % 2 = 0) then q else q + 1

/-- The place of the last significant bit of a number with 53 of them. -/
def ulp (n : Nat) : Nat := 2 ^ (Nat.log2 n - 52)

/-- The nearest number of 53 significant bits. -/
def roundNat (n : Nat) : Nat := roundDiv n (ulp n) * ulp n

theorem le_roundDiv (a b : Nat) : a / b ≤ roundDiv a b := by
  unfold roundDiv
  simp only
  split
  · exact Nat.le_refl _
  · exact Nat.le_succ _

theorem roundDiv_of_dvd {a b : Nat} (hb : 0 < b) (h : b ∣ a) : roundDiv a b = a / b := by
  unfold roundDiv
  simp only [Nat.mod_eq_zero_of_dvd h]
  rw [if_pos (Or.inl (by omega))]

theorem ulp_eq_one {n : Nat} (h : n ≤ 2 ^ 53) (h' : n ≠ 2 ^ 53) : ulp n = 1 := by
  unfold ulp
  have : Nat.log2 n < 53 := by
    rcases Nat.eq_zero_or_pos n with rfl | hn
    · decide
    · exact (Nat.log2_lt (by omega)).mpr (by omega)
  rw [show Nat.log2 n - 52 = 0 by omega, Nat.pow_zero]

/-- Whole numbers up to `2^53` are doubles. -/
theorem roundNat_of_le {n : Nat} (h : n ≤ 2 ^ 53) : roundNat n = n := by
  by_cases h' : n = 2 ^ 53
  · subst h'; decide
  · rw [roundNat, ulp_eq_one h h', roundDiv_of_dvd Nat.one_pos (Nat.one_dvd n)]
    omega

theorem ulp_pos (n : Nat) : 0 < ulp n := Nat.pow_pos (by decide)

theorem two_pow_log2 {n : Nat} (h : 52 ≤ Nat.log2 n) : 2 ^ Nat.log2 n = 2 ^ 52 * ulp n := by
  rw [ulp, ← Nat.pow_add]
  congr 1
  omega

/-- A number from `2^53` on has 53 significant bits before its last place. -/
theorem two_pow_le_quot {n : Nat} (h : 2 ^ 53 ≤ n) : 2 ^ 52 ≤ n / ulp n := by
  have hlog : 52 ≤ Nat.log2 n := (Nat.le_log2 (by omega)).mpr (by omega)
  rw [Nat.le_div_iff_mul_le (ulp_pos n), ← two_pow_log2 hlog]
  exact Nat.log2_self_le (by omega)

/-- Rounding never takes a number below a bound that is itself a double. -/
theorem le_roundNat {m n : Nat} (hm : m ≤ 2 ^ 53) (h : m ≤ n) : m ≤ roundNat n := by
  rcases Nat.lt_or_ge n (2 ^ 53) with hn | hn
  · rwa [roundNat_of_le (by omega)]
  · have hlog : 53 ≤ Nat.log2 n := (Nat.le_log2 (by omega)).mpr hn
    calc m ≤ 2 ^ 53 := hm
      _ ≤ 2 ^ Nat.log2 n := Nat.pow_le_pow_right (by decide) hlog
      _ = 2 ^ 52 * ulp n := two_pow_log2 (by omega)
      _ ≤ roundNat n := Nat.mul_le_mul_right _ ((two_pow_le_quot hn).trans (le_roundDiv _ _))

theorem roundDiv_le_succ (a b : Nat) : roundDiv a b ≤ a / b + 1 := by
  unfold roundDiv
  simp only
  split
  · exact Nat.le_succ _
  · exact Nat.le_refl _

theorem roundDiv_mono {a a' : Nat} (b : Nat) (h : a ≤ a') : roundDiv a b ≤ roundDiv a' b := by
  rcases Nat.lt_or_ge (a / b) (a' / b) with hq | hq
  · exact (roundDiv_le_succ a b).trans (Nat.le_trans hq (le_roundDiv a' b))
  · have hq : a' / b = a / b := Nat.le_antisymm hq (Nat.div_le_div_right h)
    have hr : a % b ≤ a' % b := by
      have h₁ := Nat.div_add_mod a b
      have h₂ := Nat.div_add_mod a' b
      rw [hq] at h₂
      omega
    unfold roundDiv
    simp only [hq]
    split <;> split <;> omega

theorem roundNat_mono {m n : Nat} (h : m ≤ n) : roundNat m ≤ roundNat n := by
  rcases Nat.lt_or_ge n (2 ^ 53) with hn | hn
  · rwa [roundNat_of_le (by omega), roundNat_of_le (by omega)]
  rcases Nat.lt_or_ge m (2 ^ 53) with hm | hm
  · exact (roundNat_of_le (Nat.le_of_lt hm)).le.trans (le_roundNat (by omega) h)
  have hm52 : 52 ≤ Nat.log2 m := (Nat.le_log2 (by omega)).mpr (by omega)
  have hlog : Nat.log2 m ≤ Nat.log2 n :=
    (Nat.le_log2 (by omega)).mpr ((Nat.log2_self_le (by omega)).trans h)
  rcases Nat.eq_or_lt_of_le hlog with e | hlt
  · rw [roundNat, roundNat, ulp, ulp, e]
    exact Nat.mul_le_mul_right _ (roundDiv_mono _ h)
  · -- A power of two lies in between.
    have hpow : 2 ^ (Nat.log2 m + 1) = 2 ^ 53 * ulp m := by
      rw [Nat.pow_succ, two_pow_log2 hm52]
      omega
    have hquot : m / ulp m < 2 ^ 53 := by
      rw [Nat.div_lt_iff_lt_mul (ulp_pos m), ← hpow]
      exact Nat.lt_log2_self
    calc roundNat m ≤ 2 ^ 53 * ulp m := Nat.mul_le_mul_right _ ((roundDiv_le_succ _ _).trans hquot)
      _ = 2 ^ (Nat.log2 m + 1) := hpow.symm
      _ ≤ 2 ^ Nat.log2 n := Nat.pow_le_pow_right (by decide) hlt
      _ = 2 ^ 52 * ulp n := two_pow_log2 (by omega)
      _ ≤ roundNat n := Nat.mul_le_mul_right _ ((two_pow_le_quot hn).trans (le_roundDiv _ _))

/-- A double that holds a whole number, or positive infinity. -/
inductive Double : Type
  | int (i : Int)
  | infinity
  deriving DecidableEq, Repr

namespace Double

/-- The least magnitude that no finite double reaches, `2^1024`. -/
def overflow : Nat := (2 ^ 256) ^ 4

/-- The nearest double to a whole number. -/
def ofInt (i : Int) : Double :=
  if roundNat i.natAbs < overflow then .int (if 0 ≤ i then roundNat i.natAbs else -roundNat i.natAbs)
  else .infinity

def ofNat (n : Nat) : Double := ofInt n

def add : Double → Double → Double
  | .int a, .int b => ofInt (a + b)
  | _, _ => .infinity

/-- The difference, of a subtrahend that is finite. -/
def sub : Double → Int → Double
  | .int a, b => ofInt (a - b)
  | .infinity, _ => .infinity

/-- The product with a positive whole number. -/
def mul : Double → Nat → Double
  | .int a, b => ofInt (a * b)
  | .infinity, _ => .infinity

/-- The floor of the double nearest to `n / d`, for whole numbers and
`0 < d < 2^52`. -/
def floorQuot (n d : Nat) : Nat :=
  let e := Nat.log2 (n / d)
  if e < 52 then roundDiv (n * 2 ^ (52 - e)) d / 2 ^ (52 - e)
  else roundDiv n (d * 2 ^ (e - 52)) * 2 ^ (e - 52)

def divFloor : Double → Nat → Double
  | .int a, d => .int (floorQuot a.toNat d)
  | .infinity, _ => .infinity

/-- A finite double from zero on, as a natural number. -/
def toNat : Double → Nat
  | .int i => i.toNat
  | .infinity => 0

/-- A quotient of doubles that comes out whole. -/
theorem floorQuot_mul {m d : Nat} (hd : 0 < d) (hm : m < 2 ^ 52) : floorQuot (m * d) d = m := by
  have hlog : Nat.log2 m < 52 := by
    rcases Nat.eq_zero_or_pos m with rfl | h
    · decide
    · exact (Nat.log2_lt (by omega)).mpr hm
  unfold floorQuot
  simp only [Nat.mul_div_cancel _ hd]
  rw [if_pos hlog, Nat.mul_right_comm, roundDiv_of_dvd hd (Nat.dvd_mul_left _ _),
    Nat.mul_div_cancel _ hd, Nat.mul_div_cancel _ (Nat.pow_pos (by decide))]

/-- Whole numbers up to `2^53` are doubles. -/
theorem ofInt_of_natAbs_le {i : Int} (h : i.natAbs ≤ 2 ^ 53) : ofInt i = .int i := by
  have hlt : i.natAbs < overflow := Nat.lt_of_le_of_lt h (by decide)
  rw [ofInt, roundNat_of_le h, if_pos hlt]
  congr 1
  split <;> omega

theorem ofInt_of_le {n : Nat} (h : n ≤ 2 ^ 53) : ofInt n = .int n := ofInt_of_natAbs_le h

theorem add_of_le {a b : Nat} (h : a + b ≤ 2 ^ 53) :
    (Double.int a).add (.int b) = .int (a + b : Nat) := by
  show ofInt ((a : Int) + b) = _
  rw [← Int.natCast_add, ofInt_of_le h]

/-- A whole number that is a finite double is not below a bound that it was
not below before rounding. -/
theorem le_of_ofInt {m : Nat} {i j : Int} (hm : m ≤ 2 ^ 53) (h : (m : Int) ≤ i)
    (hj : ofInt i = .int j) : (m : Int) ≤ j := by
  unfold ofInt at hj
  split at hj
  · have h0 : 0 ≤ i := by omega
    simp only [if_pos h0, Double.int.injEq] at hj
    have := le_roundNat (n := i.natAbs) hm (by omega)
    omega
  · cases hj

/-- Infinite, or not below the bound. -/
def AtLeast (b : Nat) : Double → Prop
  | .int i => b ≤ i
  | .infinity => True

section

variable {b c k n : Nat} {d : Double}

theorem AtLeast.ofInt {i : Int} (hb : b ≤ 2 ^ 53) (h : (b : Int) ≤ i) : (ofInt i).AtLeast b := by
  cases hj : Double.ofInt i with
  | infinity => trivial
  | int j => exact le_of_ofInt hb h hj

theorem AtLeast.mul (h : d.AtLeast b) (hc : c ≤ 2 ^ 53) (hle : c ≤ b * k) : (d.mul k).AtLeast c := by
  cases d with
  | infinity => trivial
  | int i =>
    have h : (b : Int) ≤ i := h
    refine AtLeast.ofInt hc ?_
    calc (c : Int) ≤ b * k := by exact_mod_cast hle
      _ ≤ i * k := Int.mul_le_mul_of_nonneg_right h (Int.natCast_nonneg k)

theorem AtLeast.add (h : d.AtLeast b) (hc : c ≤ 2 ^ 53) (hle : c ≤ n + b) :
    ((Double.int n).add d).AtLeast c := by
  cases d with
  | infinity => trivial
  | int i =>
    have h : (b : Int) ≤ i := h
    exact AtLeast.ofInt hc (by omega)

end

/-- A sum that is finite is so for a smaller summand. -/
theorem add_finite_of_le {a b c : Nat} {i : Int} (h : b ≤ a)
    (hi : (Double.int a).add (.int c) = .int i) : ∃ j, (Double.int b).add (.int c) = .int j := by
  have hi : ofInt (a + c : Nat) = .int i := hi
  have hmono : roundNat (b + c) ≤ roundNat (a + c) := roundNat_mono (by omega)
  show ∃ j, ofInt (b + c : Nat) = .int j
  unfold ofInt at hi ⊢
  simp only [Int.natAbs_natCast] at hi ⊢
  split at hi
  · rw [if_pos (by omega)]
    exact ⟨_, rfl⟩
  · cases hi

/-! ## The greatest doubles -/

/-- The least whole number that no finite double is nearest to. -/
def halfway : Nat := overflow - 2 ^ 202 * (2 ^ 256) ^ 3

theorem roundNat_lt_overflow {n : Nat} : roundNat n < overflow ↔ n < halfway := by
  constructor
  · intro h
    have hup : roundNat halfway = overflow := by decide +kernel
    exact Nat.lt_of_not_le fun hle => absurd (roundNat_mono hle) (by omega)
  · intro h
    have hdown : roundNat (halfway - 1) < overflow := by decide +kernel
    exact Nat.lt_of_le_of_lt (roundNat_mono (Nat.le_sub_one_of_lt h)) hdown

theorem ofInt_natCast {n : Nat} (h : n < halfway) : ofInt n = .int (roundNat n) := by
  simp [ofInt, roundNat_lt_overflow.mpr h]

theorem ofInt_natCast_eq_infinity {n : Nat} (h : halfway ≤ n) : ofInt n = .infinity := by
  have h : ¬roundNat n < overflow := fun hlt => absurd (roundNat_lt_overflow.mp hlt) (by omega)
  simp [ofInt, h]

/-- A product is infinite from `halfway` on. -/
theorem ofNat_mul {a b : Nat} (hb : 0 < b) :
    (ofNat a).mul b =
      if roundNat a * b < halfway then .int (roundNat (roundNat a * b)) else .infinity := by
  by_cases ha : a < halfway
  · rw [ofNat, ofInt_natCast ha]
    show ofInt ((roundNat a : Int) * b) = _
    rw [← Int.natCast_mul]
    split
    · exact ofInt_natCast ‹_›
    · exact ofInt_natCast_eq_infinity (Nat.le_of_not_lt ‹_›)
  · have hlarge : overflow ≤ roundNat a := Nat.le_of_not_lt fun h => ha (roundNat_lt_overflow.mp h)
    have hle : halfway ≤ roundNat a * b :=
      calc halfway ≤ overflow := Nat.sub_le _ _
        _ ≤ roundNat a := hlarge
        _ ≤ roundNat a * b := Nat.le_mul_of_pos_right _ hb
    rw [ofNat, ofInt_natCast_eq_infinity (Nat.le_of_not_lt ha), if_neg (Nat.not_lt.mpr hle)]
    rfl

/-- Rounding a quotient takes it at most to twice its floor, and one more. -/
theorem floorQuot_le (n : Nat) {d : Nat} (hd : 0 < d) : floorQuot n d ≤ 2 * (n / d) + 1 := by
  unfold floorQuot
  dsimp only
  split
  · generalize hk : 2 ^ (52 - Nat.log2 (n / d)) = k
    have hk : 0 < k := hk ▸ Nat.pow_pos (by decide)
    have hquot : n * k / d < (n / d + 1) * k := by
      rw [Nat.div_lt_iff_lt_mul hd, Nat.mul_right_comm, Nat.mul_comm _ d]
      exact Nat.mul_lt_mul_of_pos_right (Nat.lt_mul_div_succ n hd) hk
    calc roundDiv (n * k) d / k ≤ (n / d + 1) * k / k :=
          Nat.div_le_div_right ((roundDiv_le_succ _ _).trans hquot)
      _ = n / d + 1 := Nat.mul_div_cancel _ hk
      _ ≤ 2 * (n / d) + 1 := by omega
  · rename_i he
    generalize hk : 2 ^ (Nat.log2 (n / d) - 52) = k
    have hne : n / d ≠ 0 := fun h => he (by rw [h]; decide)
    have hk : k ≤ n / d :=
      calc k = 2 ^ (Nat.log2 (n / d) - 52) := hk.symm
        _ ≤ 2 ^ Nat.log2 (n / d) := Nat.pow_le_pow_right (by decide) (Nat.sub_le _ _)
        _ ≤ n / d := Nat.log2_self_le hne
    calc roundDiv n (d * k) * k ≤ (n / (d * k) + 1) * k := Nat.mul_le_mul_right _ (roundDiv_le_succ _ _)
      _ = n / d / k * k + k := by rw [Nat.div_div_eq_div_mul, Nat.add_one_mul]
      _ ≤ n / d + k := Nat.add_le_add_right (Nat.div_mul_le_self _ _) _
      _ ≤ 2 * (n / d) + 1 := by omega

end Double

end Framework

import AtlasAuth.Model.Repositories

/-!
# The dates that the database accepts

`Prisma.dateTime` lets a date of expiry through up to the end of the year 9999,
and there the arithmetic of `JsDate.after` is exact: beyond `2^53` sums and
products are rounded, but not down to it.
-/

namespace AtlasAuth

open Framework

variable {n i t : Nat} {date : JsDate} {e : Exn}

theorem dateTime_eq_ok : Prisma.dateTime date = .ok t ↔ date = some t ∧ t ≤ Prisma.maxDateTime := by
  cases date with
  | none => simp [Prisma.dateTime]
  | some d =>
    unfold Prisma.dateTime
    dsimp only
    split
    · rename_i h
      constructor
      · rintro ⟨⟩
        exact ⟨rfl, h⟩
      · rintro ⟨⟨⟩, -⟩
        rfl
    · rename_i h
      refine iff_of_false nofun ?_
      rintro ⟨⟨⟩, h'⟩
      exact h h'

/-- A refusal is an error of the database driver. -/
theorem dateTime_eq_error (h : Prisma.dateTime date = .error e) : ∃ m, e = .error m := by
  cases date with
  | none => exact ⟨_, (Except.error.inj h).symm⟩
  | some d =>
    unfold Prisma.dateTime at h
    dsimp only at h
    split at h
    · cases h
    · exact ⟨_, (Except.error.inj h).symm⟩

theorem maxDateTime_le_maxTime : Prisma.maxDateTime ≤ maxTime := by decide

/-! ## Sums -/

/-- A sum that is too large for a date is not rounded to one. -/
theorem after_of_atLeast {d : Double} (h : d.AtLeast (2 ^ 53)) : JsDate.after n d = none := by
  have hadd : ((Double.int n).add d).AtLeast (2 ^ 53) := h.add (Nat.le_refl _) (Nat.le_add_left _ n)
  have hmax : maxTime < 2 ^ 53 := by decide
  unfold JsDate.after
  cases hs : (Double.int n).add d with
  | infinity => rfl
  | int s =>
    rw [hs] at hadd
    have hadd : ((2 ^ 53 : Nat) : Int) ≤ s := hadd
    dsimp only
    rw [if_neg (by omega)]

theorem after_eq_some : JsDate.after n (.int i) = some t ↔ t = n + i ∧ t ≤ maxTime := by
  have hmax : maxTime < 2 ^ 53 := by decide
  by_cases hle : n + i ≤ 2 ^ 53
  · unfold JsDate.after
    rw [Double.add_of_le hle]
    dsimp only
    split
    · rw [Option.some.injEq, Int.toNat_natCast]
      constructor
      · rintro rfl
        exact ⟨rfl, by omega⟩
      · exact fun h => h.1.symm
    · refine iff_of_false nofun ?_
      omega
  · by_cases hi : i ≤ 2 ^ 53
    · have hs : ((Double.int n).add (.int i)).AtLeast (2 ^ 53) :=
        Double.AtLeast.add (b := i) (Int.le_refl _) (Nat.le_refl _) (by omega)
      unfold JsDate.after
      cases ha : (Double.int n).add (.int i) with
      | infinity => exact iff_of_false nofun (by omega)
      | int s =>
        rw [ha] at hs
        have hs : ((2 ^ 53 : Nat) : Int) ≤ s := hs
        dsimp only
        rw [if_neg (by omega)]
        exact iff_of_false nofun (by omega)
    · have hi : (Double.int i).AtLeast (2 ^ 53) :=
        show ((2 ^ 53 : Nat) : Int) ≤ i from by omega
      rw [after_of_atLeast hi]
      exact iff_of_false nofun (by omega)

theorem dateTime_after : Prisma.dateTime (JsDate.after n (.int i)) = .ok t ↔
    t = n + i ∧ t ≤ Prisma.maxDateTime := by
  rw [dateTime_eq_ok, after_eq_some, and_assoc]
  exact and_congr_right fun _ => and_iff_right_of_imp fun h => h.trans maxDateTime_le_maxTime

/-- Prisma accepts the date. -/
def JsDate.Accepted (date : JsDate) : Prop := ∃ t, Prisma.dateTime date = .ok t

theorem accepted_after {i : Nat} :
    (JsDate.after n (.int i)).Accepted ↔ n + i ≤ Prisma.maxDateTime := by
  constructor
  · rintro ⟨t, ht⟩
    obtain ⟨rfl, h⟩ := dateTime_after.mp ht
    exact h
  · exact fun h => ⟨n + i, dateTime_after.mpr ⟨rfl, h⟩⟩

/-! ## Minutes -/

theorem minutesToMs_of_le {minutes : Nat} (h : minutes * 60 * 1000 ≤ 2 ^ 53) :
    minutesToMs minutes = .int (minutes * 60 * 1000 : Nat) := by
  unfold minutesToMs
  rw [Double.ofNat, Double.ofInt_of_le (by omega)]
  show ((Double.ofInt ((minutes : Int) * (60 : Nat))).mul 1000) = _
  rw [← Int.natCast_mul, Double.ofInt_of_le (by omega)]
  show Double.ofInt (((minutes * 60 : Nat) : Int) * (1000 : Nat)) = _
  rw [← Int.natCast_mul, Double.ofInt_of_le h]

theorem minutesToMs_atLeast {minutes : Nat} (h : 2 ^ 53 ≤ minutes * 60 * 1000) :
    (minutesToMs minutes).AtLeast (2 ^ 53) := by
  have h₀ : (Double.ofNat minutes).AtLeast (min minutes (2 ^ 53)) :=
    .ofInt (Nat.min_le_right _ _) (by exact_mod_cast Nat.min_le_left _ _)
  have h₁ : ((Double.ofNat minutes).mul 60).AtLeast (min (minutes * 60) (2 ^ 53)) :=
    h₀.mul (Nat.min_le_right _ _) (by omega)
  refine h₁.mul (Nat.le_refl (2 ^ 53)) ?_
  rcases Nat.le_total (minutes * 60) (2 ^ 53) with hle | hle
  · rwa [Nat.min_eq_left hle]
  · rw [Nat.min_eq_right hle]
    exact Nat.le_mul_of_pos_right _ (by decide)

/-- A date so many minutes from now. -/
theorem dateTime_minutes {minutes : Nat} :
    Prisma.dateTime (JsDate.after n (minutesToMs minutes)) = .ok t ↔
      t = n + minutes * 60 * 1000 ∧ t ≤ Prisma.maxDateTime := by
  have hmax : Prisma.maxDateTime < 2 ^ 53 := by decide
  by_cases h : minutes * 60 * 1000 ≤ 2 ^ 53
  · rw [minutesToMs_of_le h]
    exact dateTime_after
  · rw [after_of_atLeast (minutesToMs_atLeast (Nat.le_of_lt (Nat.lt_of_not_le h)))]
    exact iff_of_false nofun (by omega)

theorem accepted_minutes {minutes : Nat} :
    (JsDate.after n (minutesToMs minutes)).Accepted ↔
      n + minutes * 60 * 1000 ≤ Prisma.maxDateTime := by
  constructor
  · rintro ⟨t, ht⟩
    obtain ⟨rfl, h⟩ := dateTime_minutes.mp ht
    exact h
  · exact fun h => ⟨_, dateTime_minutes.mpr ⟨rfl, h⟩⟩

theorem accepted_minutes_of_le {minutes : Nat} (h : i ≤ n)
    (hn : (JsDate.after n (minutesToMs minutes)).Accepted) :
    (JsDate.after i (minutesToMs minutes)).Accepted :=
  accepted_minutes.mpr ((Nat.add_le_add_right h _).trans (accepted_minutes.mp hn))

/-- It is accepted, or there is no such date before the year 10000. -/
theorem dateTime_minutes_cases (n minutes : Nat) :
    (Prisma.dateTime (JsDate.after n (minutesToMs minutes)) = .ok (n + minutes * 60 * 1000) ∧
        n + minutes * 60 * 1000 ≤ Prisma.maxDateTime) ∨
      Prisma.maxDateTime < n + minutes * 60 * 1000 ∧
        ∃ m, Prisma.dateTime (JsDate.after n (minutesToMs minutes)) = .error (.error m) := by
  by_cases h : n + minutes * 60 * 1000 ≤ Prisma.maxDateTime
  · exact .inl ⟨dateTime_minutes.mpr ⟨rfl, h⟩, h⟩
  · refine .inr ⟨Nat.lt_of_not_le h, ?_⟩
    cases hd : Prisma.dateTime (JsDate.after n (minutesToMs minutes)) with
    | ok t =>
      obtain ⟨rfl, ht⟩ := dateTime_minutes.mp hd
      exact absurd ht h
    | error e =>
      obtain ⟨m, rfl⟩ := dateTime_eq_error hd
      exact ⟨m, rfl⟩

end AtlasAuth

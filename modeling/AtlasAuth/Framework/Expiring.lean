import Mathlib.Logic.Basic

/-!
# Keys that expire

A key-value store whose keys may carry a time at which they cease to exist.
A key set to expire at `e` exists at the times before `e`, and one set
without an expiry at every time, until it is set again. `Until` says that a
key, once set, lasts at least up to a given time, and is what a store's
users keep as an invariant.
-/

namespace Framework

/-- The value of a key, and the time from which the key no longer exists. -/
structure Held (ν : Type) where
  value : ν
  expiresAt : Option Nat

/-- Whether a value is held at a time. -/
def Held.live {ν : Type} (h : Held ν) (now : Nat) : Bool :=
  match h.expiresAt with
  | none => true
  | some e => now < e

abbrev Expiring (κ ν : Type) := κ → Option (Held ν)

namespace Expiring

variable {κ ν : Type} {m : Expiring κ ν} {k k' : κ} {h : Held ν}

def empty : Expiring κ ν := fun _ => none

def get (m : Expiring κ ν) (k : κ) (now : Nat) : Option ν :=
  match m k with
  | none => none
  | some h => if h.live now then some h.value else none

def has (m : Expiring κ ν) (k : κ) (now : Nat) : Bool := (m.get k now).isSome

theorem has_eq_true {now : Nat} :
    m.has k now = true ↔ ∃ h, m k = some h ∧ h.live now = true := by
  unfold has get
  cases m k with
  | none => simp
  | some h => by_cases hl : h.live now <;> simp [hl]

theorem has_congr {m' : Expiring κ ν} {now : Nat} (h : m' k = m k) : m'.has k now = m.has k now := by
  unfold has get
  rw [h]

/-- A key that exists has existed since it was set. -/
theorem has_of_le {now later : Nat} (h : m.has k later = true) (hl : now ≤ later) :
    m.has k now = true := by
  obtain ⟨x, hk, hx⟩ := has_eq_true.mp h
  refine has_eq_true.mpr ⟨x, hk, ?_⟩
  unfold Held.live at hx ⊢
  cases he : x.expiresAt with
  | none => rfl
  | some e =>
    simp only [he, decide_eq_true_eq] at hx ⊢
    exact Nat.lt_of_le_of_lt hl hx

/-- If the key was ever set, it lasts at least up to time `e`. -/
def Until (m : Expiring κ ν) (k : κ) (e : Nat) : Prop :=
  ∀ h, m k = some h → ∀ x, h.expiresAt = some x → e ≤ x

/-- A key that was never set. -/
theorem Until.of_none {e : Nat} (hk : m k = none) : m.Until k e := by
  intro x hx
  rw [hk] at hx
  cases hx

/-- A key that was set to last long enough. -/
theorem Until.of_some {v : ν} {d e : Nat} (hd : d ≤ e) (hk : m k = some ⟨v, some e⟩) :
    m.Until k d := by
  intro x hx y hy
  rw [hk] at hx
  obtain rfl := Option.some.inj hx
  exact Option.some.inj hy ▸ hd

/-- A key that was set, and lasts up to `e`, exists at the times before `e`. -/
theorem Until.has {e now : Nat} (hu : m.Until k e) (hk : (m k).isSome = true) (hlt : now < e) :
    m.has k now = true := by
  obtain ⟨h, hk⟩ := Option.isSome_iff_exists.mp hk
  refine has_eq_true.mpr ⟨h, hk, ?_⟩
  unfold Held.live
  cases hx : h.expiresAt with
  | none => rfl
  | some x =>
    rw [decide_eq_true_eq]
    exact Nat.lt_of_lt_of_le hlt (hu h hk x hx)

section set

variable [DecidableEq κ]

def set (m : Expiring κ ν) (k : κ) (h : Held ν) : Expiring κ ν :=
  fun k' => if k' = k then some h else m k'

@[simp] theorem set_self : m.set k h k = some h := by simp [set]

theorem set_of_ne (hk : k' ≠ k) : m.set k h k' = m k' := by simp [set, hk]

end set

end Expiring

end Framework

import Mathlib.Data.List.Basic

/-!
# Lockout after failed attempts

What a lockout after `n` failures for a duration `d` means, said of the whole
history of attempts on an account (`LockedOut`), and the two fields that keep
it: a count of failures, and the time up to which the account is locked
(`Counter`). `Counter.Means` relates the two, and every attempt preserves it
(`Counter.Means.step`), as long as no attempt is checked while the account is
locked.

A history is in the order of time, newest first.
-/

namespace Framework

/-- A check of the credential that failed, one that succeeded, or a change of
the credential. -/
inductive Attempt
  | failure
  | success
  | update
  deriving DecidableEq

abbrev Attempts := List (Nat × Attempt)

/-- The failures since the latest success, update or failure that has locked
the account, which is the `n`-th one so counted. -/
def failures (n : Nat) : Attempts → Nat
  | [] => 0
  | (_, .failure) :: h => if failures n h + 1 = n then 0 else failures n h + 1
  | (_, .success) :: _ => 0
  | (_, .update) :: _ => 0

/-- The failure at the head of the history locks the account. -/
def Locks (n : Nat) (a : Nat × Attempt) (earlier : Attempts) : Prop :=
  a.2 = .failure ∧ failures n earlier + 1 = n

/-- At the time `t` a failure within the last `d` keeps the account locked,
and the credential has not been updated since. -/
def LockedOut (n d t : Nat) (h : Attempts) : Prop :=
  ∃ later a earlier, h = later ++ a :: earlier ∧ Locks n a earlier ∧ t < a.1 + d ∧
    ∀ b ∈ later, b.2 ≠ .update

section

variable {n d t t' now : Nat} {h : Attempts} {a : Attempt}

theorem not_lockedOut_nil : ¬LockedOut n d t [] := by
  rintro ⟨later, a, earlier, e, -⟩
  simp at e

/-- A lock is due to the latest attempt, or was there before. -/
theorem lockedOut_cons : LockedOut n d t ((t', a) :: h) ↔
    (Locks n (t', a) h ∧ t < t' + d) ∨ (a ≠ .update ∧ LockedOut n d t h) := by
  constructor
  · rintro ⟨_ | ⟨b, later⟩, x, earlier, e, hl, ht, hu⟩
    · obtain ⟨rfl, rfl⟩ := List.cons.inj e
      exact .inl ⟨hl, ht⟩
    · obtain ⟨rfl, rfl⟩ := List.cons.inj e
      exact .inr ⟨hu _ (List.mem_cons_self ..), later, x, earlier, rfl, hl, ht,
        fun b hb => hu b (List.mem_cons_of_mem _ hb)⟩
  · rintro (⟨hl, ht⟩ | ⟨hu, later, x, earlier, rfl, hl, ht, hu'⟩)
    · exact ⟨[], _, h, rfl, hl, ht, fun _ => nofun⟩
    · exact ⟨_ :: later, x, earlier, rfl, hl, ht, List.forall_mem_cons.mpr ⟨hu, hu'⟩⟩

/-- A lock only ends. -/
theorem LockedOut.earlier (h' : LockedOut n d t' h) (ht : t ≤ t') : LockedOut n d t h := by
  obtain ⟨later, a, earlier, e, hl, hlt, hu⟩ := h'
  exact ⟨later, a, earlier, e, hl, Nat.lt_of_le_of_lt ht hlt, hu⟩

end

/-- A count of failures, and the end of the lock. -/
structure Counter where
  failed : Nat
  lockedUntil : Option Nat
  deriving DecidableEq

namespace Counter

def zero : Counter := ⟨0, none⟩

def locked (c : Counter) (t : Nat) : Bool := c.lockedUntil.any (t < ·)

/-- The counter after an attempt at the time `t`. -/
def after (n d t : Nat) (c : Counter) : Attempt → Counter
  | .failure => if c.failed + 1 ≥ n then ⟨0, some (t + d)⟩ else ⟨c.failed + 1, c.lockedUntil⟩
  | .success => zero
  | .update => zero

variable {n d t now : Nat} {c : Counter} {h : Attempts} {a : Attempt}

/-- The count is that of the failures, whenever they were. -/
theorem failed_after {t' : Nat} (hn : 1 ≤ n) (hc : c.failed = failures n h ∧ c.failed < n) :
    (c.after n d t a).failed = failures n ((t', a) :: h) ∧ (c.after n d t a).failed < n := by
  obtain ⟨hc, hlt⟩ := hc
  cases a with
  | failure =>
    by_cases hl : c.failed + 1 ≥ n
    · have he : failures n h + 1 = n := by omega
      simp only [after, if_pos hl, failures, if_pos he]
      exact ⟨trivial, hn⟩
    · have he : failures n h + 1 ≠ n := by omega
      simp only [after, if_neg hl, failures, if_neg he]
      exact ⟨congrArg (· + 1) hc, by omega⟩
  | success | update => exact ⟨rfl, hn⟩

/-- From now on, the account is locked exactly when its history says so. -/
def Means (n d now : Nat) (c : Counter) (h : Attempts) : Prop :=
  ∀ t, now ≤ t → (c.locked t = true ↔ LockedOut n d t h)

theorem Means.zero : Means n d now zero [] :=
  fun _ _ => iff_of_false nofun not_lockedOut_nil

theorem Means.later {now' : Nat} (hm : Means n d now c h) (hn : now ≤ now') : Means n d now' c h :=
  fun t ht => hm t (Nat.le_trans hn ht)

/-- An attempt at the time `t`, when the account is not locked unless the
attempt is an update. -/
theorem Means.step (hm : Means n d now c h) (hc : c.failed = failures n h ∧ c.failed < n)
    (ht : now ≤ t) (hfree : a ≠ .update → c.locked t = false) :
    Means n d t (c.after n d t a) ((t, a) :: h) := by
  intro t' ht'
  rw [lockedOut_cons]
  have hover (ha : a ≠ .update) : ¬LockedOut n d t' h := fun hl => by
    have := (hm t ht).mpr (hl.earlier ht')
    simp [hfree ha] at this
  cases a with
  | failure =>
    have hlocks : Locks n (t, .failure) h ↔ c.failed + 1 ≥ n := by
      simp only [Locks, true_and]
      omega
    by_cases hl : c.failed + 1 ≥ n
    · simp [after, hl, locked, hlocks, hover]
    · simp only [after, hl, if_false, hlocks, false_and, false_or, ne_eq, reduceCtorEq,
        not_false_eq_true, true_and]
      exact hm t' (Nat.le_trans ht ht')
  | success => exact iff_of_false nofun (by simp [Locks, hover])
  | update => exact iff_of_false nofun (by simp [Locks])

/-- Which attempts of a sequence of wrong ones meet the lock, where each is so
long after the one before. An attempt that meets it is not counted. -/
def meetsLock (n d : Nat) : Counter → Nat → List Nat → List Bool
  | _, _, [] => []
  | c, now, wait :: waits =>
    let t := now + wait
    c.locked t :: meetsLock n d (if c.locked t then c else c.after n d t .failure) t waits

theorem length_meetsLock {waits : List Nat} : (c.meetsLock n d now waits).length = waits.length := by
  induction waits generalizing c now with
  | nil => rfl
  | cons wait waits ih => exact congrArg (· + 1) ih

theorem locked_later (h : c.locked now = false) (ht : now ≤ t) : c.locked t = false := by
  unfold locked at h ⊢
  cases hl : c.lockedUntil with
  | none => rfl
  | some e =>
    simp only [hl, Option.any_some, decide_eq_false_iff_not, Nat.not_lt] at h ⊢
    exact Nat.le_trans h ht

/-- The attempt that locks the account does not itself meet the lock. -/
theorem meetsLock_of_few {waits : List Nat} (hl : c.locked now = false)
    (hc : c.failed + waits.length ≤ n) : ∀ b ∈ meetsLock n d c now waits, b = false := by
  induction waits generalizing c now with
  | nil => exact fun _ h => absurd h List.not_mem_nil
  | cons wait waits ih =>
    have hl' : c.locked (now + wait) = false := locked_later hl (Nat.le_add_right _ _)
    rw [List.length_cons] at hc
    simp only [meetsLock, hl', Bool.false_eq_true, if_false]
    refine List.forall_mem_cons.mpr ⟨rfl, ?_⟩
    by_cases hn : c.failed + 1 ≥ n
    · obtain rfl : waits = [] := List.length_eq_zero_iff.mp (by omega)
      exact fun _ h => absurd h List.not_mem_nil
    · simp only [after, if_neg hn]
      exact ih hl' (by simp only; omega)

end Counter

end Framework

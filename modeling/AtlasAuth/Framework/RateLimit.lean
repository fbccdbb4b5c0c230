import Mathlib.Data.List.Pairwise

/-!
# Rate limits

A limiter counts the requests in a window. A window begins with a request
outside the one before it and lasts for `ttl`; a request over the `limit` of
its window begins a block, which lasts for `block`. Requests are counted while
a block lasts, too, so the window and the block each have an end of their own
(`Limiter`).

In a window at most `limit` requests are let through (`free_window_le`), in
any interval as long as a window at most twice as many (`free_interval_le`),
since an interval meets at most two windows; and a request before the end of a
block is blocked (`blocked_until`).
-/

namespace Framework

structure Limits where
  limit : Nat
  ttl : Nat
  block : Nat
  ttl_pos : 0 < ttl
  block_pos : 0 < block

/-- The requests counted in the latest window, its end, and that of the latest
block. -/
structure Limiter where
  hits : Nat
  windowEnd : Nat
  blockEnd : Nat

/-- A request that has been counted, and the limiter after it. -/
structure Hit where
  time : Nat
  after : Limiter

def Hit.blocked (h : Hit) : Bool := h.time < h.after.blockEnd

namespace Limiter

variable {L : Limits} {s : Limiter} {now : Nat} {h h' : Hit} {times : List Nat}

def init : Limiter := ⟨0, 0, 0⟩

def hit (L : Limits) (s : Limiter) (now : Nat) : Limiter :=
  let hits := if now < s.windowEnd then s.hits + 1 else 1
  { hits
    windowEnd := if now < s.windowEnd then s.windowEnd else now + L.ttl
    blockEnd :=
      if now < s.blockEnd then s.blockEnd
      else if hits > L.limit then now + L.block
      else s.blockEnd }

/-- The requests at the given times, one after the other. -/
def run (L : Limits) : List Nat → Limiter → List Hit
  | [], _ => []
  | now :: times, s => ⟨now, s.hit L now⟩ :: run L times (s.hit L now)

@[simp] theorem run_nil : run L [] s = [] := rfl

@[simp] theorem run_cons :
    run L (now :: times) s = ⟨now, s.hit L now⟩ :: run L times (s.hit L now) := rfl

/-! ## One request -/

theorem hit_same (hw : now < s.windowEnd) :
    (s.hit L now).hits = s.hits + 1 ∧ (s.hit L now).windowEnd = s.windowEnd := by
  simp [hit, hw]

theorem hit_new (hw : ¬now < s.windowEnd) :
    (s.hit L now).hits = 1 ∧ (s.hit L now).windowEnd = now + L.ttl := by
  simp [hit, hw]

/-- The window stays, or a new one ends at least its length later. -/
theorem windowEnd_hit : (s.hit L now).windowEnd = s.windowEnd ∨
    s.windowEnd + L.ttl ≤ (s.hit L now).windowEnd := by
  by_cases hw : now < s.windowEnd
  · exact .inl (hit_same hw).2
  · rw [(hit_new hw).2]
    omega

theorem hit_blockEnd : (s.hit L now).blockEnd =
    if now < s.blockEnd then s.blockEnd
    else if (s.hit L now).hits > L.limit then now + L.block
    else s.blockEnd := rfl

theorem blockEnd_le : s.blockEnd ≤ (s.hit L now).blockEnd := by
  rw [hit_blockEnd]
  generalize (s.hit L now).hits = hits
  split
  · exact Nat.le_refl _
  · split <;> omega

/-- A request is let through when no block lasts and it is not over the limit. -/
theorem free_iff : (⟨now, s.hit L now⟩ : Hit).blocked = false ↔
    s.blockEnd ≤ now ∧ (s.hit L now).hits ≤ L.limit := by
  have hpos := L.block_pos
  show decide (now < (s.hit L now).blockEnd) = false ↔ _
  rw [decide_eq_false_iff_not, hit_blockEnd]
  generalize (s.hit L now).hits = hits
  by_cases hb : now < s.blockEnd
  · rw [if_pos hb]
    omega
  · by_cases hl : hits > L.limit
    · rw [if_neg hb, if_pos hl]
      omega
    · rw [if_neg hb, if_neg hl]
      omega

/-! ## Windows -/

theorem run_windowEnd (hh : h ∈ run L times s) : h.after.windowEnd = s.windowEnd ∨
    s.windowEnd + L.ttl ≤ h.after.windowEnd := by
  induction times generalizing s with
  | nil => simp at hh
  | cons now times ih =>
    have hw : (s.hit L now).windowEnd = s.windowEnd ∨
        s.windowEnd + L.ttl ≤ (s.hit L now).windowEnd := windowEnd_hit
    rcases List.mem_cons.mp hh with rfl | hh
    · exact hw
    · have := ih hh
      omega

/-- Two windows end at least their length apart. -/
def Apart (L : Limits) (h h' : Hit) : Prop :=
  h.after.windowEnd = h'.after.windowEnd ∨ h.after.windowEnd + L.ttl ≤ h'.after.windowEnd ∨
    h'.after.windowEnd + L.ttl ≤ h.after.windowEnd

theorem apart_of_mem (hh : h ∈ run L times s) (hh' : h' ∈ run L times s) : Apart L h h' := by
  have hrun : (run L times s).Pairwise (Apart L) := by
    clear hh hh'
    induction times generalizing s with
    | nil => exact .nil
    | cons now times ih =>
      refine .cons (fun h' hh' => ?_) ih
      rcases run_windowEnd hh' with he | he
      · exact .inl he.symm
      · exact .inr (.inl he)
  have : Std.Symm (Apart L) := ⟨fun h h' => by unfold Apart; omega⟩
  exact hrun.forall_of_forall (fun _ _ => .inl rfl) hh hh'

/-- A request is made in its window. -/
theorem run_time (ht : times.Pairwise (· ≤ ·)) (hs : ∀ t ∈ times, s.windowEnd ≤ t + L.ttl)
    (hh : h ∈ run L times s) :
    h.time < h.after.windowEnd ∧ h.after.windowEnd ≤ h.time + L.ttl := by
  have := L.ttl_pos
  induction times generalizing s with
  | nil => simp at hh
  | cons now times ih =>
    obtain ⟨hle, ht⟩ := List.pairwise_cons.mp ht
    have hnow := hs now (List.mem_cons_self ..)
    have hwin : now < (s.hit L now).windowEnd ∧ (s.hit L now).windowEnd ≤ now + L.ttl := by
      by_cases hw : now < s.windowEnd
      · rw [(hit_same hw).2]
        omega
      · rw [(hit_new hw).2]
        omega
    rcases List.mem_cons.mp hh with rfl | hh
    · exact hwin
    · refine ih ht (fun t hmem => ?_) hh
      have := hle t hmem
      omega

/-! ## How many requests are let through -/

/-- The number of requests let through, of those that satisfy `p`. -/
def free (p : Hit → Bool) (hs : List Hit) : Nat := hs.countP fun h => !h.blocked && p h

theorem free_cons {p : Hit → Bool} {hs : List Hit} :
    free p (h :: hs) = free p hs + if (!h.blocked && p h) = true then 1 else 0 :=
  List.countP_cons

theorem free_eq_zero {p : Hit → Bool} {hs : List Hit} (hp : ∀ h ∈ hs, p h = false) :
    free p hs = 0 := by
  rw [free, List.countP_eq_zero]
  intro h hh
  simp [hp h hh]

/-- Those of a union are at most those of both parts. -/
theorem free_le_add {p q r : Hit → Bool} {hs : List Hit}
    (hp : ∀ h ∈ hs, p h = true → q h = true ∨ r h = true) : free p hs ≤ free q hs + free r hs := by
  induction hs with
  | nil => simp [free]
  | cons h hs ih =>
    have ih := ih fun h' hh' => hp h' (List.mem_cons_of_mem _ hh')
    have hh := hp h (List.mem_cons_self ..)
    simp only [free_cons]
    cases hb : h.blocked <;> cases hph : p h <;> cases hq : q h <;> cases hr : r h <;>
      simp_all <;> omega

/-- A request that is let through is one of the first of its window. -/
theorem free_step {e k : Nat} {hs : List Hit}
    (hk : free (·.after.windowEnd == e) hs + min (s.hit L now).hits L.limit ≤ k)
    (hpos : 0 < (s.hit L now).hits) :
    free (·.after.windowEnd == e) (⟨now, s.hit L now⟩ :: hs) +
      min ((s.hit L now).hits - 1) L.limit ≤ k := by
  rw [free_cons]
  split
  · rename_i hf
    have hb : (⟨now, s.hit L now⟩ : Hit).blocked = false := by
      simpa using (Bool.and_eq_true_iff.mp hf).1
    have := (free_iff.mp hb).2
    omega
  · omega

/-- In one window, of which some requests have been counted before. -/
theorem free_window (times : List Nat) (s : Limiter) (e : Nat) :
    free (·.after.windowEnd == e) (run L times s) +
      (if e = s.windowEnd then min s.hits L.limit else 0) ≤ L.limit := by
  induction times generalizing s with
  | nil =>
    simp only [run_nil, free, List.countP_nil]
    split <;> omega
  | cons now times ih =>
    have ih := ih (s.hit L now)
    have hpos := L.ttl_pos
    have other (he : (s.hit L now).windowEnd ≠ e) : free (·.after.windowEnd == e)
        (⟨now, s.hit L now⟩ :: run L times (s.hit L now)) =
          free (·.after.windowEnd == e) (run L times (s.hit L now)) := by
      simp [free_cons, he]
    rw [run_cons]
    by_cases hw : now < s.windowEnd
    · obtain ⟨hh, he⟩ := hit_same (L := L) hw
      by_cases hs : e = s.windowEnd
      · rw [if_pos (hs.trans he.symm)] at ih
        have := free_step ih (by omega)
        rw [if_pos hs]
        rwa [hh, Nat.add_sub_cancel] at this
      · rw [if_neg (he ▸ hs)] at ih
        rw [if_neg hs, other (he ▸ Ne.symm hs)]
        exact ih
    · -- A new window: the one before it is never counted in again.
      obtain ⟨hh, he⟩ := hit_new (L := L) hw
      by_cases hn : e = (s.hit L now).windowEnd
      · rw [if_pos hn] at ih
        have := free_step ih (by omega)
        rw [if_neg (by omega)]
        rwa [hh, Nat.sub_self, Nat.zero_min] at this
      · rw [other (Ne.symm hn)]
        by_cases hs : e = s.windowEnd
        · have hzero : free (·.after.windowEnd == e) (run L times (s.hit L now)) = 0 := by
            refine free_eq_zero fun h hh => ?_
            have := run_windowEnd hh
            rw [beq_eq_false_iff_ne]
            omega
          rw [hzero, if_pos hs]
          omega
        · rw [if_neg hs]
          rw [if_neg hn] at ih
          exact ih

/-- At most `limit` requests of a window are let through. -/
theorem free_window_le (e : Nat) : free (·.after.windowEnd == e) (run L times s) ≤ L.limit := by
  have := free_window (L := L) times s e
  omega

/-- The requests of an interval as long as a window were made in at most two
windows. -/
theorem interval_windows (ht : times.Pairwise (· ≤ ·))
    (hs : ∀ t ∈ times, s.windowEnd ≤ t + L.ttl) (a : Nat) : ∃ e e', ∀ h ∈ run L times s,
      a ≤ h.time ∧ h.time < a + L.ttl → h.after.windowEnd = e ∨ h.after.windowEnd = e' := by
  by_cases hone : ∃ h ∈ run L times s, a ≤ h.time ∧ h.time < a + L.ttl
  · obtain ⟨h₀, hm₀, hi₀⟩ := hone
    by_cases htwo : ∃ h ∈ run L times s, (a ≤ h.time ∧ h.time < a + L.ttl) ∧
        h.after.windowEnd ≠ h₀.after.windowEnd
    · obtain ⟨h₁, hm₁, hi₁, hne⟩ := htwo
      refine ⟨h₀.after.windowEnd, h₁.after.windowEnd, fun h hm hi => ?_⟩
      have hw₀ := run_time ht hs hm₀
      have hw₁ := run_time ht hs hm₁
      have hw := run_time ht hs hm
      have h₀₁ := apart_of_mem hm₀ hm₁
      have h₀' := apart_of_mem hm₀ hm
      have h₁' := apart_of_mem hm₁ hm
      unfold Apart at h₀₁ h₀' h₁'
      -- Three windows that meet the interval would end twice their length apart.
      omega
    · refine ⟨h₀.after.windowEnd, 0, fun h hm hi => .inl ?_⟩
      by_contra hne
      exact htwo ⟨h, hm, hi, hne⟩
  · exact ⟨0, 0, fun h hm hi => absurd ⟨h, hm, hi⟩ hone⟩

theorem free_interval_le (ht : times.Pairwise (· ≤ ·))
    (hs : ∀ t ∈ times, s.windowEnd ≤ t + L.ttl) (a : Nat) :
    free (fun h => a ≤ h.time && h.time < a + L.ttl) (run L times s) ≤ 2 * L.limit := by
  obtain ⟨e, e', he⟩ := interval_windows ht hs a
  have hle : free (fun h => a ≤ h.time && h.time < a + L.ttl) (run L times s) ≤
      free (·.after.windowEnd == e) (run L times s) +
        free (·.after.windowEnd == e') (run L times s) := by
    refine free_le_add fun h hm hi => ?_
    simpa using he h hm (by simpa using hi)
  have h₁ : free (·.after.windowEnd == e) (run L times s) ≤ L.limit := free_window_le e
  have h₂ : free (·.after.windowEnd == e') (run L times s) ≤ L.limit := free_window_le e'
  omega

/-! ## Blocks -/

/-- A block never ends early. -/
theorem run_blockEnd (hh : h ∈ run L times s) : s.blockEnd ≤ h.after.blockEnd := by
  induction times generalizing s with
  | nil => simp at hh
  | cons now times ih =>
    rcases List.mem_cons.mp hh with rfl | hh
    · exact blockEnd_le
    · exact Nat.le_trans blockEnd_le (ih hh)

/-- A later request is blocked up to the end of a block. -/
theorem blocked_until : (run L times s).Pairwise fun h h' =>
    h'.time < h.after.blockEnd → h'.blocked = true := by
  induction times generalizing s with
  | nil => exact .nil
  | cons now times ih =>
    refine .cons (fun h' hh' hlt => ?_) ih
    have hle : (s.hit L now).blockEnd ≤ h'.after.blockEnd := run_blockEnd hh'
    have hlt : h'.time < (s.hit L now).blockEnd := hlt
    exact decide_eq_true (Nat.lt_of_lt_of_le hlt hle)

/-- A request, and the one after it. -/
theorem run_next {hs hs' : List Hit} (he : run L times s = hs ++ h :: h' :: hs') :
    h'.after = h.after.hit L h'.time := by
  induction hs generalizing times s with
  | nil =>
    match times, he with
    | now :: now' :: times, he =>
      simp only [run_cons, List.nil_append, List.cons.injEq] at he
      obtain ⟨rfl, rfl, -⟩ := he
      rfl
  | cons x hs ih =>
    match times, he with
    | now :: times, he => exact ih (List.cons.inj he).2

/-- After a block has ended, a request is let through if its window has room
for it. -/
theorem free_iff_room (hl : 1 ≤ L.limit) (hb : s.blockEnd ≤ now) :
    (⟨now, s.hit L now⟩ : Hit).blocked = false ↔ (now < s.windowEnd → s.hits < L.limit) := by
  rw [free_iff]
  by_cases hw : now < s.windowEnd
  · rw [(hit_same hw).1]
    omega
  · rw [(hit_new hw).1]
    omega

end Limiter

end Framework

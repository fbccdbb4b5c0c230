import AtlasAuth.Framework.Prog

/-!
# Loops

`forEach` runs a program for each element of a list. Where every iteration
keeps an invariant and brings about something that the later ones keep, the loop
keeps the invariant and brings about all of it (`run_forEach`); where every
iteration leaves the state as it is, so does the loop (`run_forEach_of_fixed`).
-/

namespace Framework.Prog

variable {σ Λ ε α : Type}

def forEach (f : α → Prog σ Λ ε Unit) : List α → Prog σ Λ ε Unit
  | [] => return ()
  | x :: xs => do
    f x
    forEach f xs

/-- `D x` is what the iteration for `x` brings about. -/
theorem run_forEach {f : α → Prog σ Λ ε Unit} {I : σ → Prop} {D : α → σ → Prop} {xs : List α}
    (step : ∀ x ∈ xs, ∀ s, I s → ∃ s', (f x).run s = (.ok (), s') ∧ I s' ∧ D x s')
    (keep : xs.Pairwise fun x y => ∀ s s', D x s → (f y).run s = (.ok (), s') → D x s')
    {s : σ} (hs : I s) :
    ∃ s', (forEach f xs).run s = (.ok (), s') ∧ I s' ∧ ∀ x ∈ xs, D x s' := by
  suffices h : ∀ ys, (∀ y, y ∈ ys → D y s ∧
        ∀ x ∈ xs, ∀ s s', D y s → (f x).run s = (.ok (), s') → D y s') →
      ∃ s', (forEach f xs).run s = (.ok (), s') ∧ I s' ∧ (∀ x ∈ xs, D x s') ∧ ∀ y ∈ ys, D y s' by
    obtain ⟨s', hr, hi, hd, -⟩ := h [] fun y hy => absurd hy List.not_mem_nil
    exact ⟨s', hr, hi, hd⟩
  induction xs generalizing s with
  | nil => exact fun ys hy => ⟨s, rfl, hs, by simp, fun y hm => (hy y hm).1⟩
  | cons x xs ih =>
    intro ys hy
    obtain ⟨hx, hkeep⟩ := List.pairwise_cons.mp keep
    obtain ⟨s₁, hr, hi, hd⟩ := step x List.mem_cons_self s hs
    -- What has been brought about so far, with this iteration.
    obtain ⟨s', hr', hi', hd', hy'⟩ := ih (fun x hm => step x (List.mem_cons_of_mem _ hm)) hkeep hi
      (x :: ys) (by
        intro y hm
        rcases List.mem_cons.mp hm with rfl | hm
        · exact ⟨hd, hx⟩
        · obtain ⟨hD, hk⟩ := hy y hm
          exact ⟨hk x List.mem_cons_self s s₁ hD hr, fun z hz => hk z (List.mem_cons_of_mem _ hz)⟩)
    refine ⟨s', (run_bind_of_ok hr).trans hr', hi', ?_, fun y hm => hy' y (List.mem_cons_of_mem _ hm)⟩
    intro z hz
    rcases List.mem_cons.mp hz with rfl | hz
    · exact hy' z List.mem_cons_self
    · exact hd' z hz

theorem run_forEach_of_fixed {f : α → Prog σ Λ ε Unit} {xs : List α} {s : σ}
    (h : ∀ x ∈ xs, (f x).run s = (.ok (), s)) : (forEach f xs).run s = (.ok (), s) := by
  induction xs with
  | nil => rfl
  | cons x xs ih =>
    exact (run_bind_of_ok (h x List.mem_cons_self)).trans
      (ih fun y hy => h y (List.mem_cons_of_mem _ hy))

end Framework.Prog

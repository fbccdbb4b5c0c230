import Mathlib.Data.List.Forall2

/-!
# Journals of a run

The steps of a run do deeds and write rows, and a row may record a deed. The
journal of the run is complete if its rows record the deeds one by one and in
their order. When each step either records its deeds so, or writes fewer rows
than it does deeds, the journal is complete if and only if no step is of the
second kind (`complete_iff`).
-/

namespace Framework

open List

variable {δ ρ ο : Type}

/-- What the steps of a run write and do, and which row records which deed. -/
structure Journal (δ ρ ο : Type) where
  rows : δ → List ρ
  deeds : δ → List ο
  Records : ρ → ο → Prop

namespace Journal

variable (J : Journal δ ρ ο)

/-- The rows of the run record its deeds. -/
def Complete (run : List δ) : Prop := Forall₂ J.Records (run.flatMap J.rows) (run.flatMap J.deeds)

/-- The rows of one step record its deeds. -/
def Faithful (d : δ) : Prop := Forall₂ J.Records (J.rows d) (J.deeds d)

/-- A step that leaves a deed out. -/
def Omits (d : δ) : Prop := (J.rows d).length < (J.deeds d).length

variable {J}

theorem Faithful.length_le {d : δ} (h : J.Faithful d) : (J.rows d).length ≤ (J.deeds d).length :=
  Nat.le_of_eq h.length_eq

theorem Omits.not_faithful {d : δ} (h : J.Omits d) : ¬J.Faithful d :=
  fun hf => Nat.ne_of_lt h hf.length_eq

/-- Rows that are no more than the deeds can only record them part by part. -/
theorem forall₂_append_iff {R : ρ → ο → Prop} {a b : List ρ} {c d : List ο}
    (ha : a.length ≤ c.length) (hb : b.length ≤ d.length) :
    Forall₂ R (a ++ b) (c ++ d) ↔ Forall₂ R a c ∧ Forall₂ R b d := by
  induction a generalizing c with
  | nil =>
    refine ⟨fun h => ?_, fun ⟨h, h'⟩ => forall₂_nil_left_iff.mp h ▸ h'⟩
    have hlen := h.length_eq
    simp only [nil_append, length_append] at hlen
    obtain rfl : c = [] := length_eq_zero_iff.mp (by omega)
    exact ⟨.nil, h⟩
  | cons x a ih =>
    cases c with
    | nil => simp at ha
    | cons y c =>
      simp only [cons_append, forall₂_cons, ih (Nat.le_of_succ_le_succ ha), and_assoc]

theorem length_flatMap_le {run : List δ} (h : ∀ d ∈ run, (J.rows d).length ≤ (J.deeds d).length) :
    (run.flatMap J.rows).length ≤ (run.flatMap J.deeds).length := by
  induction run with
  | nil => exact Nat.le_refl _
  | cons d run ih =>
    simp only [flatMap_cons, length_append]
    exact Nat.add_le_add (h d mem_cons_self) (ih fun d' hd' => h d' (mem_cons_of_mem _ hd'))

theorem complete_iff {run : List δ} (h : ∀ d ∈ run, J.Faithful d ∨ J.Omits d) :
    J.Complete run ↔ ∀ d ∈ run, ¬J.Omits d := by
  have hle (d : δ) (hd : d ∈ run) : (J.rows d).length ≤ (J.deeds d).length :=
    (h d hd).elim Faithful.length_le Nat.le_of_lt
  induction run with
  | nil => exact iff_of_true .nil fun _ hd => by cases hd
  | cons d run ih =>
    have hrun (d' : δ) (hd' : d' ∈ run) : d' ∈ d :: run := mem_cons_of_mem _ hd'
    have hd : J.Faithful d ↔ ¬J.Omits d :=
      ⟨fun hf ho => ho.not_faithful hf, (h d mem_cons_self).resolve_right⟩
    rw [Complete, flatMap_cons, flatMap_cons, forall₂_append_iff (hle d mem_cons_self)
      (length_flatMap_le fun d' hd' => hle d' (hrun d' hd')), forall_mem_cons]
    exact and_congr hd (ih (fun d' hd' => h d' (hrun d' hd')) fun d' hd' => hle d' (hrun d' hd'))

/-- A journal in which every step is faithful. -/
theorem complete_of_faithful {run : List δ} (h : ∀ d ∈ run, J.Faithful d) : J.Complete run :=
  (complete_iff fun d hd => .inl (h d hd)).mpr fun d hd ho => ho.not_faithful (h d hd)

end Journal

end Framework

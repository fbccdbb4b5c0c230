import AtlasAuth.Framework.Table

/-!
# Linear chains

`Linked key next rows` says that each row names the key of the one after it,
and the last row none. A chain grows by a row that its last one comes to name
(`Linked.extend`), and is unchanged by updates of other columns.
-/

namespace Framework

namespace Table

variable {ρ κ : Type} {key : ρ → κ} {next : ρ → Option κ} {rows : List ρ} {r a b : ρ}

def Linked (key : ρ → κ) (next : ρ → Option κ) : List ρ → Prop
  | [] => True
  | [r] => next r = none
  | r :: r' :: rows => next r = some (key r') ∧ Linked key next (r' :: rows)

theorem Linked.tail (h : Linked key next (r :: rows)) : Linked key next rows := by
  cases rows with
  | nil => trivial
  | cons r' rows => exact h.2

/-- Every row but the last names another one. -/
theorem Linked.isSome (h : Linked key next rows) : ∀ r ∈ rows.dropLast, (next r).isSome = true := by
  induction rows with
  | nil => exact fun _ => nofun
  | cons r rows ih =>
    cases rows with
    | nil => exact fun _ => nofun
    | cons r' rows =>
      intro x hx
      rcases List.mem_cons.mp hx with rfl | hx
      · rw [h.1]; rfl
      · exact ih h.2 x hx

/-- The row that names none is the last one. -/
theorem Linked.eq_concat (h : Linked key next rows) (hr : r ∈ rows) (hn : next r = none) :
    ∃ init, rows = init ++ [r] := by
  have hne : rows ≠ [] := List.ne_nil_of_mem hr
  have hsplit : rows.dropLast ++ [rows.getLast hne] = rows := List.dropLast_append_getLast hne
  rw [← hsplit] at hr
  rcases List.mem_append.mp hr with hr | hr
  · have := h.isSome r hr
    simp [hn] at this
  · obtain rfl := List.mem_singleton.mp hr
    exact ⟨_, hsplit.symm⟩

theorem Linked.eq_of_none (h : Linked key next rows) (ha : a ∈ rows) (hb : b ∈ rows)
    (hna : next a = none) (hnb : next b = none) : a = b := by
  obtain ⟨init, rfl⟩ := h.eq_concat ha hna
  obtain ⟨init', e⟩ := h.eq_concat hb hnb
  exact List.singleton_inj.mp (List.append_inj' e rfl).2

/-- The last row comes to name a new one. -/
theorem Linked.extend {init : List ρ} (h : Linked key next (init ++ [r])) (hk : key a = key r)
    (ha : next a = some (key b)) (hb : next b = none) : Linked key next (init ++ [a, b]) := by
  induction init with
  | nil => exact ⟨ha, hb⟩
  | cons x init ih =>
    have ih := ih h.tail
    cases init with
    | nil =>
      have hx : next x = some (key r) := h.1
      exact ⟨hk ▸ hx, ih⟩
    | cons y init => exact ⟨h.1, ih⟩

theorem Linked.map {f : ρ → ρ} (h : Linked key next rows) (hk : ∀ r, key (f r) = key r)
    (hn : ∀ r, next (f r) = next r) : Linked key next (rows.map f) := by
  induction rows with
  | nil => trivial
  | cons r rows ih =>
    cases rows with
    | nil => exact (hn r).trans h
    | cons r' rows => exact ⟨(hn r).trans (h.1.trans (congrArg some (hk r').symm)), ih h.2⟩

/-- An update of other columns. -/
theorem Linked.updateWhere {p : ρ → Bool} {f : ρ → ρ} (h : Linked key next rows)
    (hk : ∀ r, key (f r) = key r) (hn : ∀ r, next (f r) = next r) :
    Linked key next (updateWhere p f rows) := by
  refine h.map (fun r => ?_) fun r => ?_ <;> split
  · exact hk r
  · rfl
  · exact hn r
  · rfl

end Table

end Framework

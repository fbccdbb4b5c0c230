import Mathlib.Data.List.Nodup

/-!
# Tables

A table is a list of rows in the order of their creation. `updateWhere`
changes the rows that satisfy a condition in place, and new rows come at the
end. `Evolves K` says that a table has only changed so, each row that was
there being related by `K` to the row in its place: it is a preorder if `K`
is, so it relates the first and last tables of any run, and a lookup by a key
that `K` keeps finds the same row in both (`Evolves.find?`).

`Unique c` says that the column `c` has no value twice, so that a lookup by it
finds the row (`Unique.find?`), and `Minted c f n` that its values are among
the first `n` of a sequence `f`: the next value of an injective sequence is
then new (`Unique.append_minted`).
-/

namespace Framework

namespace Table

variable {ρ κ : Type}

/-- The rows that satisfy `p` changed by `f`. -/
def updateWhere (p : ρ → Bool) (f : ρ → ρ) (rows : List ρ) : List ρ :=
  rows.map fun r => if p r then f r else r

section updateWhere

variable {p q : ρ → Bool} {f g : ρ → ρ} {rows : List ρ} {r : ρ}

@[simp] theorem updateWhere_nil : updateWhere p f [] = [] := rfl

@[simp] theorem updateWhere_cons :
    updateWhere p f (r :: rows) = (if p r then f r else r) :: updateWhere p f rows := rfl

@[simp] theorem updateWhere_append {rows' : List ρ} :
    updateWhere p f (rows ++ rows') = updateWhere p f rows ++ updateWhere p f rows' := by
  simp [updateWhere]

theorem mem_updateWhere :
    r ∈ updateWhere p f rows ↔ ∃ r₀ ∈ rows, r = if p r₀ then f r₀ else r₀ := by
  simp only [updateWhere, List.mem_map, eq_comm]

theorem mem_updateWhere_of (hr : r ∈ rows) (hp : p r = true) : f r ∈ updateWhere p f rows :=
  mem_updateWhere.mpr ⟨r, hr, (if_pos hp).symm⟩

/-- The row that an updated row comes from. -/
theorem of_mem_updateWhere {K : ρ → ρ → Prop} (h : ∀ r, K r r) (hf : ∀ r, K r (f r))
    (hr : r ∈ updateWhere p f rows) : ∃ r₀ ∈ rows, K r₀ r := by
  obtain ⟨r₀, hr₀, rfl⟩ := mem_updateWhere.mp hr
  refine ⟨r₀, hr₀, ?_⟩
  split
  · exact hf r₀
  · exact h r₀

/-- A row that is there with some value in a column is still there. -/
theorem exists_updateWhere {c : ρ → κ} {k : κ} (hf : ∀ r, c (f r) = c r)
    (h : ∃ r ∈ rows, c r = k) : ∃ r ∈ updateWhere p f rows, c r = k := by
  obtain ⟨r, hr, rfl⟩ := h
  refine ⟨if p r then f r else r, mem_updateWhere.mpr ⟨r, hr, rfl⟩, ?_⟩
  split
  · exact hf r
  · rfl

/-- A row that is there with some value in a column was there before. -/
theorem exists_of_updateWhere {c : ρ → κ} {k : κ} (hf : ∀ r, c (f r) = c r)
    (h : ∃ r ∈ updateWhere p f rows, c r = k) : ∃ r ∈ rows, c r = k := by
  obtain ⟨r, hr, rfl⟩ := h
  obtain ⟨r₀, hr₀, rfl⟩ := mem_updateWhere.mp hr
  refine ⟨r₀, hr₀, ?_⟩
  split
  · exact (hf r₀).symm
  · rfl

/-- A lookup by a value that some row has in the column. -/
theorem find?_of_exists [BEq κ] [LawfulBEq κ] {c : ρ → κ} {k : κ} (h : ∃ r ∈ rows, c r = k) :
    ∃ r, rows.find? (c · == k) = some r := by
  obtain ⟨r, hr, rfl⟩ := h
  exact Option.isSome_iff_exists.mp (List.find?_isSome.mpr ⟨r, hr, beq_self_eq_true _⟩)

/-- What holds of every row, if the update keeps it. -/
theorem forall_updateWhere {P : ρ → Prop} (h : ∀ r ∈ rows, P r) (hf : ∀ r, p r = true → P r → P (f r)) :
    ∀ r ∈ updateWhere p f rows, P r := by
  intro r hr
  obtain ⟨r₀, hr₀, rfl⟩ := mem_updateWhere.mp hr
  split
  · exact hf r₀ ‹_› (h r₀ hr₀)
  · exact h r₀ hr₀

theorem updateWhere_of_none (h : ∀ r ∈ rows, p r = false) : updateWhere p f rows = rows := by
  induction rows with
  | nil => rfl
  | cons r rows ih =>
    rw [updateWhere_cons, ih fun x hx => h x (List.mem_cons_of_mem _ hx), h r (List.mem_cons_self ..)]
    rfl

/-- An update that leaves every row it is made on as it is. -/
theorem updateWhere_of_fixed (h : ∀ r ∈ rows, p r = true → f r = r) : updateWhere p f rows = rows := by
  refine (List.map_congr_left fun r hr => ?_).trans (List.map_id rows)
  split
  · exact h r hr ‹_›
  · rfl

theorem updateWhere_congr (h : ∀ r ∈ rows, p r = q r) : updateWhere p f rows = updateWhere q f rows :=
  List.map_congr_left fun r hr => by rw [h r hr]

/-- A column that the update keeps. -/
theorem map_updateWhere {c : ρ → κ} (h : ∀ r, p r = true → c (f r) = c r) :
    (updateWhere p f rows).map c = rows.map c := by
  simp only [updateWhere, List.map_map]
  refine List.map_congr_left fun r _ => ?_
  simp only [Function.comp_apply]
  split
  · exact h r ‹_›
  · rfl

/-- A lookup by a condition that the update keeps. -/
theorem find?_updateWhere (h : ∀ r, p r = true → q (f r) = q r) :
    (updateWhere p f rows).find? q = (rows.find? q).map fun r => if p r then f r else r := by
  induction rows with
  | nil => rfl
  | cons r rows ih =>
    have hq : q (if p r then f r else r) = q r := by
      split
      · exact h r ‹_›
      · rfl
    simp only [updateWhere_cons, List.find?_cons, hq]
    cases q r with
    | true => rfl
    | false => exact ih

/-- A selection by a condition that the update keeps. -/
theorem filter_updateWhere (h : ∀ r, p r = true → q (f r) = q r) :
    (updateWhere p f rows).filter q = updateWhere p f (rows.filter q) := by
  induction rows with
  | nil => rfl
  | cons r rows ih =>
    have hq : q (if p r then f r else r) = q r := by
      split
      · exact h r ‹_›
      · rfl
    simp only [updateWhere_cons, List.filter_cons, hq, ih]
    split <;> simp

/-- A selection of rows that the update does not change. -/
theorem filter_updateWhere_of_none (h : ∀ r, p r = true → q (f r) = q r)
    (hn : ∀ r ∈ rows, q r = true → p r = false) : (updateWhere p f rows).filter q = rows.filter q := by
  rw [filter_updateWhere h]
  refine updateWhere_of_none fun r hr => ?_
  obtain ⟨hr, hq⟩ := List.mem_filter.mp hr
  exact hn r hr hq

end updateWhere

/-- The rows are still there, in their places and related by `K`; any others
are new. -/
inductive Evolves (K : ρ → ρ → Prop) : List ρ → List ρ → Prop
  | new (rows : List ρ) : Evolves K [] rows
  | keep {a b : ρ} {rows rows' : List ρ} :
      K a b → Evolves K rows rows' → Evolves K (a :: rows) (b :: rows')

section Evolves

variable {K : ρ → ρ → Prop} {rows rows' rows'' : List ρ}

theorem Evolves.append (h : ∀ r, K r r) (rows new : List ρ) : Evolves K rows (rows ++ new) := by
  induction rows with
  | nil => exact .new new
  | cons r rows ih => exact .keep (h r) ih

theorem Evolves.refl (h : ∀ r, K r r) (rows : List ρ) : Evolves K rows rows := by
  simpa using Evolves.append h rows []

theorem Evolves.updateWhere {p : ρ → Bool} {f : ρ → ρ} (h : ∀ r, K r r) (hf : ∀ r, K r (f r))
    (rows : List ρ) : Evolves K rows (updateWhere p f rows) := by
  induction rows with
  | nil => exact .new _
  | cons r rows ih =>
    refine .keep ?_ ih
    show K r (if p r then f r else r)
    split
    · exact hf r
    · exact h r

/-- Rows with the same values in a column, in the same places. -/
theorem Evolves.of_map {c : ρ → κ} (hK : ∀ a b, c b = c a → K a b) (h : rows'.map c = rows.map c) :
    Evolves K rows rows' := by
  induction rows generalizing rows' with
  | nil => exact .new _
  | cons a rows ih =>
    cases rows' with
    | nil => cases h
    | cons b rows' =>
      rw [List.map_cons, List.map_cons, List.cons.injEq] at h
      exact .keep (hK a b h.1) (ih h.2)

theorem Evolves.trans (ht : ∀ a b c, K a b → K b c → K a c) (h : Evolves K rows rows')
    (h' : Evolves K rows' rows'') : Evolves K rows rows'' := by
  induction h generalizing rows'' with
  | new rows => exact .new _
  | keep hab _ ih =>
    cases h' with
    | keep hbc hrest => exact .keep (ht _ _ _ hab hbc) (ih hrest)

theorem Evolves.mem (h : Evolves K rows rows') {r : ρ} (hr : r ∈ rows) : ∃ r' ∈ rows', K r r' := by
  induction h with
  | new rows => cases hr
  | keep hab _ ih =>
    rcases List.mem_cons.mp hr with rfl | hr
    · exact ⟨_, List.mem_cons_self .., hab⟩
    · obtain ⟨r', hr', hK⟩ := ih hr
      exact ⟨r', List.mem_cons_of_mem _ hr', hK⟩

/-- A row found by a condition that `K` keeps is found in its place later. -/
theorem Evolves.find? {q : ρ → Bool} (hq : ∀ a b, K a b → q b = q a) (h : Evolves K rows rows')
    {r : ρ} (hr : rows.find? q = some r) : ∃ r', rows'.find? q = some r' ∧ K r r' := by
  induction h with
  | new rows => cases hr
  | @keep a b _ _ hab _ ih =>
    simp only [List.find?_cons, hq a b hab] at hr ⊢
    cases hqa : q a with
    | true =>
      simp only [hqa, Option.some.injEq] at hr
      exact ⟨b, rfl, hr ▸ hab⟩
    | false =>
      simp only [hqa] at hr
      exact ih hr

end Evolves

/-- No two rows have the same value in the column `c`. -/
def Unique (c : ρ → κ) (rows : List ρ) : Prop := (rows.map c).Nodup

/-- The values in the column `c` are among the first `n` of `f`. -/
def Minted (c : ρ → κ) (f : Nat → κ) (n : Nat) (rows : List ρ) : Prop :=
  ∀ r ∈ rows, ∃ k < n, c r = f k

section Unique

variable {c : ρ → κ} {f : Nat → κ} {n m : Nat} {rows : List ρ} {r r' : ρ}

theorem Unique.nil : Unique c [] := List.nodup_nil

theorem Unique.eq (h : Unique c rows) (hr : r ∈ rows) (hr' : r' ∈ rows) (e : c r = c r') : r = r' :=
  List.inj_on_of_nodup_map h hr hr' e

/-- A lookup by the column finds the row that has the value. -/
theorem Unique.find? [BEq κ] [LawfulBEq κ] (h : Unique c rows) {k : κ} :
    rows.find? (c · == k) = some r ↔ r ∈ rows ∧ c r = k := by
  constructor
  · intro hf
    exact ⟨List.mem_of_find?_eq_some hf, by simpa using List.find?_some hf⟩
  · rintro ⟨hr, rfl⟩
    cases hf : rows.find? (c · == c r) with
    | none => simpa using List.find?_eq_none.mp hf r hr
    | some x =>
      have hx : c x = c r := by simpa using List.find?_some hf
      rw [h.eq (List.mem_of_find?_eq_some hf) hr hx]

/-- A lookup by the column and by a condition that the row satisfies. -/
theorem Unique.find?_and [BEq κ] [LawfulBEq κ] {p : ρ → Bool} (h : Unique c rows) (hr : r ∈ rows)
    (hp : p r = true) : rows.find? (fun x => c x == c r && p x) = some r := by
  cases hf : rows.find? fun x => c x == c r && p x with
  | none => simpa [hp] using List.find?_eq_none.mp hf r hr
  | some x =>
    have hx := List.find?_some hf
    simp only [Bool.and_eq_true, beq_iff_eq] at hx
    rw [h.eq (List.mem_of_find?_eq_some hf) hr hx.1]

theorem Unique.filter {p : ρ → Bool} (h : Unique c rows) : Unique c (rows.filter p) :=
  h.sublist (List.filter_sublist.map c)

theorem Unique.append (h : Unique c rows) (hr : ∀ r' ∈ rows, c r' ≠ c r) :
    Unique c (rows ++ [r]) := by
  simp only [Unique, List.map_append, List.map_cons, List.map_nil]
  refine List.Nodup.append h (List.nodup_singleton _) ?_
  intro x hx hx'
  obtain ⟨r', hr', rfl⟩ := List.mem_map.mp hx
  exact hr r' hr' (List.mem_singleton.mp hx')

theorem Unique.ne_of_append (h : Unique c (rows ++ [r])) (hr' : r' ∈ rows) : c r' ≠ c r := by
  simp only [Unique, List.map_append, List.nodup_append] at h
  exact h.2.2 _ (List.mem_map_of_mem hr') _ (List.mem_singleton_self _)

theorem Unique.updateWhere {p : ρ → Bool} {g : ρ → ρ} (h : Unique c rows)
    (hg : ∀ r, p r = true → c (g r) = c r) : Unique c (updateWhere p g rows) := by
  rwa [Unique, map_updateWhere hg]

/-- An update that gives the row with one identifier a name that no other row
has. -/
theorem Unique.rename [BEq κ] [LawfulBEq κ] {κ' : Type} {name : ρ → κ'} {id : κ} {new : κ'}
    {g : ρ → ρ} (hc : Unique c rows) (hn : Unique name rows) (hg : ∀ r, name (g r) = new)
    (hnew : ∀ r ∈ rows, c r ≠ id → name r ≠ new) :
    Unique name (Table.updateWhere (c · == id) g rows) := by
  induction rows with
  | nil => exact .nil
  | cons r rows ih =>
    simp only [Unique, updateWhere_cons, List.map_cons, List.nodup_cons] at hc hn ⊢
    refine ⟨fun hm => ?_, ih hc.2 hn.2 fun x hx => hnew x (List.mem_cons_of_mem _ hx)⟩
    obtain ⟨x, hx, e⟩ := List.mem_map.mp hm
    obtain ⟨y, hy, rfl⟩ := mem_updateWhere.mp hx
    have hyc : c y ≠ c r := fun e => hc.1 (e ▸ List.mem_map_of_mem hy)
    have hyn : name y ≠ name r := fun e => hn.1 (e ▸ List.mem_map_of_mem hy)
    by_cases h₁ : c y = id <;> by_cases h₂ : c r = id <;> simp only [h₁, h₂, beq_self_eq_true,
      beq_iff_eq, if_true, if_false, hg] at e
    · exact hyc (h₁.trans h₂.symm)
    · exact hnew r (List.mem_cons_self ..) h₂ e.symm
    · exact hnew y (List.mem_cons_of_mem _ hy) h₁ e
    · exact hyn e

theorem Minted.nil : Minted c f n [] := fun _ h => absurd h List.not_mem_nil

theorem Minted.mono (h : Minted c f n rows) (hn : n ≤ m) : Minted c f m rows := fun r hr =>
  let ⟨k, hk, e⟩ := h r hr
  ⟨k, Nat.lt_of_lt_of_le hk hn, e⟩

theorem Minted.concat (h : Minted c f n rows) (hn : n ≤ m) {k : Nat} (hk : k < m)
    (hr : c r = f k) : Minted c f m (rows ++ [r]) := by
  intro x hx
  rcases List.mem_append.mp hx with hx | hx
  · exact h.mono hn x hx
  · exact ⟨k, hk, List.mem_singleton.mp hx ▸ hr⟩

theorem Minted.updateWhere {p : ρ → Bool} {g : ρ → ρ} (h : Minted c f n rows)
    (hg : ∀ r, p r = true → c (g r) = c r) : Minted c f n (updateWhere p g rows) :=
  forall_updateWhere h fun r hp ⟨k, hk, e⟩ => ⟨k, hk, (hg r hp).trans e⟩

theorem Minted.append (h : Minted c f n rows) (hr : c r = f n) :
    Minted c f (n + 1) (rows ++ [r]) :=
  h.concat (Nat.le_succ n) (Nat.lt_succ_self n) hr

/-- No row has a value that is yet to come. -/
theorem Minted.ne (h : Minted c f n rows) (hf : Function.Injective f) (hr : r ∈ rows)
    (hm : n ≤ m) : c r ≠ f m := by
  obtain ⟨k, hk, e⟩ := h r hr
  intro e'
  have := hf (e.symm.trans e')
  omega

theorem Unique.append_minted (h : Unique c rows) (hm : Minted c f n rows)
    (hf : Function.Injective f) (hr : c r = f n) : Unique c (rows ++ [r]) :=
  h.append fun _ hr' => hr ▸ hm.ne hf hr' (Nat.le_refl n)

end Unique

end Table

end Framework

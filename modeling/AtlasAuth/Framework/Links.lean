import AtlasAuth.Framework.Table

/-!
# Links: issued, superseded, redeemed

A link is issued under a key, and supersedes the links that were issued before
under the same key; its token can be redeemed. A history says which links were
issued and which tokens redeemed, and a link is `Outstanding` after a history
if it is the last one issued under its key and its token has not been
redeemed. So there is one at most for each key (`Outstanding.eq`).

A table of links has a row for each link, which is live or not. It `Agrees`
with a history if its live rows are the outstanding links. Issuing a link under
a key spends the live rows of the key and appends a row, and redeeming a token
spends its row: after each such step it still agrees (`Agrees.step`).
-/

namespace Framework

variable {κ τ π ρ : Type}

structure Link (κ τ π : Type) where
  key : κ
  token : τ
  expiresAt : Nat
  payload : π

inductive LinkEvent (κ τ π : Type)
  | issued (l : Link κ τ π)
  | redeemed (token : τ)

/-- The link that an event issues. -/
def LinkEvent.link? : LinkEvent κ τ π → Option (Link κ τ π)
  | .issued l => some l
  | .redeemed _ => none

/-- The last link that was issued under its key, if it has not been redeemed. -/
def Outstanding (h : List (LinkEvent κ τ π)) (l : Link κ τ π) : Prop :=
  (∃ before after, h = before ++ .issued l :: after ∧ ∀ l', .issued l' ∈ after → l'.key ≠ l.key) ∧
    .redeemed l.token ∉ h

section

variable {h : List (LinkEvent κ τ π)} {l l' l₀ : Link κ τ π} {x : τ}

theorem Outstanding.mem (ho : Outstanding h l) : .issued l ∈ h := by
  obtain ⟨⟨a, b, rfl, -⟩, -⟩ := ho
  simp

theorem Outstanding.eq (ho : Outstanding h l) (ho' : Outstanding h l') (hk : l.key = l'.key) :
    l = l' := by
  obtain ⟨⟨a, b, rfl, hb⟩, -⟩ := ho
  obtain ⟨⟨a', b', e, hb'⟩, -⟩ := ho'
  rcases List.append_eq_append_iff.mp e with ⟨c, -, hc⟩ | ⟨c, -, hc⟩
  · cases c with
    | nil => cases hc; rfl
    | cons y c =>
      obtain ⟨-, rfl⟩ : .issued l = y ∧ b = c ++ .issued l' :: b' := by simpa using hc
      exact absurd hk.symm (hb l' (by simp))
  · cases c with
    | nil => cases hc; rfl
    | cons y c =>
      obtain ⟨-, rfl⟩ : .issued l' = y ∧ b' = c ++ .issued l :: b := by simpa using hc
      exact absurd hk (hb' l (by simp))

theorem outstanding_issued :
    Outstanding (h ++ [.issued l₀]) l ↔
      l = l₀ ∧ .redeemed l₀.token ∉ h ∨ Outstanding h l ∧ l.key ≠ l₀.key := by
  have hmem (x : τ) : .redeemed x ∉ h ++ [.issued l₀] ↔ .redeemed x ∉ h := by simp
  constructor
  · rintro ⟨⟨a, b, e, hb⟩, hr⟩
    rw [hmem] at hr
    rcases List.eq_nil_or_concat b with rfl | ⟨b, y, rfl⟩
    · obtain ⟨-, e⟩ := List.append_inj' e rfl
      cases e
      exact .inl ⟨rfl, hr⟩
    · rw [List.concat_eq_append, ← List.cons_append, ← List.append_assoc] at e
      obtain ⟨rfl, e'⟩ := List.append_inj' e rfl
      cases e'
      exact .inr ⟨⟨⟨a, b, rfl, fun l' hl' => hb l' (by simp [hl'])⟩, hr⟩,
        (hb l₀ (by simp)).symm⟩
  · rintro (⟨rfl, hr⟩ | ⟨⟨⟨a, b, rfl, hb⟩, hr⟩, hk⟩)
    · exact ⟨⟨h, [], rfl, by simp⟩, (hmem _).mpr hr⟩
    · refine ⟨⟨a, b ++ [.issued l₀], by simp, fun l' hl' => ?_⟩, (hmem _).mpr hr⟩
      rcases List.mem_append.mp hl' with hl' | hl'
      · exact hb l' hl'
      · cases List.mem_singleton.mp hl'
        exact hk.symm

theorem outstanding_redeemed :
    Outstanding (h ++ [.redeemed x]) l ↔ Outstanding h l ∧ l.token ≠ x := by
  constructor
  · rintro ⟨⟨a, b, e, hb⟩, hr⟩
    have hne : l.token ≠ x := fun e => hr (by simp [e])
    rcases List.eq_nil_or_concat b with rfl | ⟨b, y, rfl⟩
    · obtain ⟨-, e⟩ := List.append_inj' e rfl
      cases e
    · rw [List.concat_eq_append, ← List.cons_append, ← List.append_assoc] at e
      obtain ⟨rfl, -⟩ := List.append_inj' e rfl
      exact ⟨⟨⟨a, b, rfl, fun l' hl' => hb l' (by simp [hl'])⟩, fun h => hr (List.mem_append_left _ h)⟩, hne⟩
  · rintro ⟨⟨⟨a, b, rfl, hb⟩, hr⟩, hne⟩
    refine ⟨⟨a, b ++ [.redeemed x], by simp, fun l' hl' => hb l' (by simpa using hl')⟩, ?_⟩
    simpa [hne] using hr

end

/-! ## Tables of links -/

section

open Table

variable (link : ρ → Link κ τ π) (live : ρ → Bool)

/-- What a request does to a table of links, and the events that it stands
for. -/
inductive LinkStep (rows : List ρ) : List ρ → List (LinkEvent κ τ π) → Prop
  | none : LinkStep rows rows []
  | issue {p : ρ → Bool} {f : ρ → ρ} {r₀ : ρ} (hf : ∀ r, link (f r) = link r ∧ live (f r) = false)
      (hp : ∀ r, p r = true ↔ (link r).key = (link r₀).key ∧ live r = true)
      (hlive : live r₀ = true) (hnew : ∀ r ∈ rows, (link r).token ≠ (link r₀).token) :
      LinkStep rows (updateWhere p f rows ++ [r₀]) [.issued (link r₀)]
  | redeem {p : ρ → Bool} {f : ρ → ρ} {r₁ : ρ} (hf : ∀ r, link (f r) = link r ∧ live (f r) = false)
      (hr₁ : r₁ ∈ rows) (hp : ∀ r ∈ rows, p r = true ↔ r = r₁) :
      LinkStep rows (updateWhere p f rows) [.redeemed (link r₁).token]

/-- The rows are the links that were issued, and the live ones the outstanding
links. -/
structure Agrees (rows : List ρ) (h : List (LinkEvent κ τ π)) : Prop where
  issued : rows.map link = h.filterMap LinkEvent.link?
  live : ∀ r ∈ rows, live r = true ↔ Outstanding h (link r)
  unique : Unique (fun r => (link r).token) rows
  redeemed : ∀ x, .redeemed x ∈ h → ∃ r ∈ rows, (link r).token = x

variable {link live} {rows rows' : List ρ} {h es : List (LinkEvent κ τ π)}

theorem Agrees.nil : Agrees link live [] ([] : List (LinkEvent κ τ π)) :=
  ⟨rfl, nofun, .nil, nofun⟩

/-- The outstanding links are the live rows. -/
theorem Agrees.outstanding_iff (ht : Agrees link live rows h) {l : Link κ τ π} :
    Outstanding h l ↔ ∃ r ∈ rows, live r = true ∧ link r = l := by
  constructor
  · intro ho
    have hl : l ∈ rows.map link :=
      ht.issued ▸ List.mem_filterMap.mpr ⟨.issued l, ho.mem, rfl⟩
    obtain ⟨r, hr, rfl⟩ := List.mem_map.mp hl
    exact ⟨r, hr, (ht.live r hr).mpr ho, rfl⟩
  · rintro ⟨r, hr, hl, rfl⟩
    exact (ht.live r hr).mp hl

/-- At most one row of a key is live. -/
theorem Agrees.live_eq (ht : Agrees link live rows h) {r r' : ρ} (hr : r ∈ rows) (hr' : r' ∈ rows)
    (hl : live r = true) (hl' : live r' = true) (hk : (link r).key = (link r').key) : r = r' := by
  refine ht.unique.eq hr hr' (congrArg Link.token ?_)
  exact ((ht.live r hr).mp hl).eq ((ht.live r' hr').mp hl') hk

theorem Agrees.step (ht : Agrees link live rows h) (hs : LinkStep link live rows rows' es) :
    Agrees link live rows' (h ++ es) := by
  cases hs with
  | none => rwa [List.append_nil]
  | @issue p f r₀ hf hp hlive hnew =>
    have hlink (r : ρ) (_ : p r = true) : link (f r) = link r := (hf r).1
    have hredeemed : .redeemed (link r₀).token ∉ h := fun hr => by
      obtain ⟨r, hr, e⟩ := ht.redeemed _ hr
      exact hnew r hr e
    refine ⟨?_, fun r hr => ?_, ?_, fun x hx => ?_⟩
    · simp [map_updateWhere hlink, ht.issued, LinkEvent.link?]
    · rw [outstanding_issued]
      rcases List.mem_append.mp hr with hr | hr
      · obtain ⟨r₁, hr₁, rfl⟩ := mem_updateWhere.mp hr
        have hne : link r₁ ≠ link r₀ := fun e => hnew r₁ hr₁ (congrArg Link.token e)
        have hl₁ := ht.live r₁ hr₁
        have hp₁ := hp r₁
        split
        · rename_i hp'
          simp [(hf r₁).1, (hf r₁).2, hne, (hp₁.mp hp').1]
        · rename_i hp'
          rw [hl₁]
          constructor
          · exact fun ho => .inr ⟨ho, fun e => hp' (hp₁.mpr ⟨e, hl₁.mpr ho⟩)⟩
          · rintro (⟨e, -⟩ | ⟨ho, -⟩)
            · exact absurd e hne
            · exact ho
      · rw [List.mem_singleton.mp hr]
        exact ⟨fun _ => .inl ⟨rfl, hredeemed⟩, fun _ => hlive⟩
    · refine (ht.unique.updateWhere fun r hr => by rw [hlink r hr]).append fun r hr => ?_
      obtain ⟨r₁, hr₁, rfl⟩ := mem_updateWhere.mp hr
      split
      · exact (hf r₁).1 ▸ hnew r₁ hr₁
      · exact hnew r₁ hr₁
    · obtain ⟨r, hr, rfl⟩ := ht.redeemed x (by simpa using hx)
      obtain ⟨r', hr', e⟩ := exists_updateWhere (c := fun r => (link r).token) (p := p)
        (fun r => by rw [(hf r).1]) ⟨r, hr, rfl⟩
      exact ⟨r', List.mem_append_left _ hr', e⟩
  | @redeem p f r₁ hf hr₁ hp =>
    have hlink (r : ρ) (_ : p r = true) : link (f r) = link r := (hf r).1
    refine ⟨?_, fun r hr => ?_, ht.unique.updateWhere fun r hr => by rw [hlink r hr], fun x hx => ?_⟩
    · simp [map_updateWhere hlink, ht.issued, LinkEvent.link?]
    · rw [outstanding_redeemed]
      obtain ⟨r₂, hr₂, rfl⟩ := mem_updateWhere.mp hr
      split
      · rename_i hp'
        obtain rfl := (hp r₂ hr₂).mp hp'
        simp [hf]
      · rename_i hp'
        have hne : (link r₂).token ≠ (link r₁).token := fun e =>
          hp' ((hp r₂ hr₂).mpr (ht.unique.eq hr₂ hr₁ e))
        simp [ht.live r₂ hr₂, hne]
    · have hex : ∃ r ∈ rows, (link r).token = x := by
        rcases List.mem_append.mp hx with hx | hx
        · exact ht.redeemed x hx
        · cases List.mem_singleton.mp hx
          exact ⟨r₁, hr₁, rfl⟩
      exact exists_updateWhere (fun r => by rw [(hf r).1]) hex

end

end Framework

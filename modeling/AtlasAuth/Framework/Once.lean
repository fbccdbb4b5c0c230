import AtlasAuth.Framework.Pool

/-!
# Look up, act, mark

A token that can be used once (`Once`): a request looks it up, acts on what it
found, and marks it as spent, each by a call of its own. Between the lookup
and the mark of one request another may look the token up, and find it unspent
as well.

A request whose lookup found the token unspent is a `Holder`, unless it has
failed without acting. As long as no request looks the token up while another
one is `Pending`, that is, may still act or has acted without marking the
token, the token has at most one holder in every state of a run
(`Once.oneHolder`). Only a holder acts, and only a holder succeeds.
-/

namespace Framework

open Prog (Entry)

/-- How a token is used: by which requests, which lookups find it unspent,
which calls act on it and which mark it, and the states in which it is spent. -/
structure Once (ι σ Λ : Type) where
  uses : ι → Prop
  finds : Entry σ Λ → Prop
  acts : Λ → Prop
  marks : Λ → Prop
  spent : σ → Prop

namespace Once

variable {ι μ σ Λ ε α : Type} (U : Once ι σ Λ)

def Found (log : List (Entry σ Λ)) : Prop := ∃ x ∈ log, U.finds x

def Acted (log : List (Entry σ Λ)) : Prop := ∃ x ∈ log, U.acts x.label

def Marked (log : List (Entry σ Λ)) : Prop := ∃ x ∈ log, U.marks x.label

/-- What a request does at each call: it looks the token up first, and finds it
unspent only if it is; it acts once, on what it found; and its mark leaves the
token spent. -/
def Call (r : ι) (log : List (Entry σ Λ)) (x : Entry σ Λ) : Prop :=
  U.uses r → (U.finds x → log = [] ∧ ¬U.spent x.before) ∧
    (U.acts x.label → U.Found log ∧ ¬U.Acted log) ∧ (U.marks x.label → U.spent x.after)

/-- What a request that succeeds has done. -/
def Done (r : ι) (log : List (Entry σ Λ)) (x : Except ε α) : Prop :=
  U.uses r → ∀ a, x = .ok a → U.Found log ∧ U.Marked log

/-- The labels of `L` belong to calls that have nothing to do with the token. -/
def Ignores (L : Λ → Prop) : Prop :=
  ∀ x : Entry σ Λ, L x.label → ¬U.finds x ∧ ¬U.acts x.label ∧ ¬U.marks x.label

/-- A request that found the token unspent and has not marked it, but may
still act or has done so. -/
def Pending (t : Thread ι σ Λ ε α) : Prop :=
  U.Found t.log ∧ ¬U.Marked t.log ∧ (t.outcome.isNone = true ∨ U.Acted t.log)

/-- A request looks the token up only while no other one is `Pending`. -/
def Apart (P : Pool ι σ Λ ε α) : Move ι μ ε → Prop
  | .call i => ∀ t ∈ P.threads[i]?, U.uses t.req → t.log.isEmpty = true →
      ∀ t' ∈ P.threads, U.uses t'.req → ¬U.Pending t'
  | _ => True

/-- A request that found the token unspent, and has not failed without
acting. -/
def Holder (t : Thread ι σ Λ ε α) : Prop :=
  U.uses t.req ∧ U.Found t.log ∧ ((∀ e, t.outcome ≠ some (.error e)) ∨ U.Acted t.log)

structure OneHolder (A : ι → List (Entry σ Λ) → σ → Prop) (P : Pool ι σ Λ ε α) : Prop where
  obeys : System.ObeyFrom A U.Call U.Done 0 P
  marked : ∀ t ∈ P.threads, U.uses t.req → U.Marked t.log → U.spent P.state
  one : ∀ {i j : Nat} {t t' : Thread ι σ Λ ε α}, P.threads[i]? = some t → P.threads[j]? = some t' →
    U.Holder t → U.Holder t' → i = j

variable {U}

section

variable {β : Type} {L : Λ → Prop} {r : ι} {log log' : List (Entry σ Λ)}
  {B : List (Entry σ Λ) → σ → Prop}

theorem Ignores.call (hL : U.Ignores L) {x : Entry σ Λ} (h : L x.label) : U.Call r log x := by
  obtain ⟨hf, ha, hm⟩ := hL x h
  exact fun _ => ⟨fun h => (hf h).elim, fun h => (ha h).elim, fun h => (hm h).elim⟩

theorem Ignores.not_acted (hL : U.Ignores L) (h : Prog.Extends L log log') (ha : ¬U.Acted log) :
    ¬U.Acted log' := by
  obtain ⟨new, rfl, hn⟩ := h
  rintro ⟨x, hx, hxa⟩
  rcases List.mem_append.mp hx with hx | hx
  · exact (hL x (hn x hx)).2.1 hxa
  · exact ha ⟨x, hx, hxa⟩

/-- A part of a request that has nothing to do with the token. -/
theorem Ignores.obeys_bind (hL : U.Ignores L) {p : Prog σ Λ ε β} {k : β → Prog σ Λ ε α}
    (hp : p.Calls L)
    (hk : ∀ b log', Prog.Extends L log log' → (k b).Obeys B (U.Call r) (U.Done r) log') :
    (p >>= k).Obeys B (U.Call r) (U.Done r) log :=
  hp.obeys_bind (fun _ _ _ => hL.call) (fun _ _ _ _ _ => nofun) hk

theorem obeys_throw (e : ε) : (Prog.throw e : Prog σ Λ ε α).Obeys B (U.Call r) (U.Done r) log :=
  fun _ _ => nofun

end

variable {S : System ι μ σ Λ ε α} {P P' : Pool ι σ Λ ε α} {m : Move ι μ ε}
  {A : ι → List (Entry σ Λ) → σ → Prop}

/-- Once a holder is no longer pending, the token is spent. -/
theorem OneHolder.spent (h : U.OneHolder A P) {i : Nat} {t : Thread ι σ Λ ε α}
    (ht : P.threads[i]? = some t) (hh : U.Holder t) (hp : ¬U.Pending t) : U.spent P.state := by
  obtain ⟨hu, hf, he⟩ := hh
  refine h.marked t (List.mem_of_getElem? ht) hu ?_
  by_contra hm
  refine hp ⟨hf, hm, ?_⟩
  rcases he with he | ha
  · cases ho : t.outcome with
    | none => exact .inl rfl
    | some r =>
      cases r with
      | error e => exact absurd ho (he e)
      | ok a => exact absurd (h.obeys.outcome (Nat.zero_le i) ht ho hu a rfl).2 hm
  · exact .inr ha

/-- A request that has acted has found the token. -/
theorem OneHolder.found (h : U.OneHolder A P) {i : Nat} {t : Thread ι σ Λ ε α}
    (ht : P.threads[i]? = some t) (hu : U.uses t.req) (ha : U.Acted t.log) : U.Found t.log := by
  obtain ⟨x, hx, hl⟩ := ha
  obtain ⟨log', hs, hc⟩ := (h.obeys i t (Nat.zero_le i) ht).2.mem hx
  obtain ⟨y, hy, hf⟩ := ((hc hu).2.1 hl).1
  exact ⟨y, (hs.trans (List.suffix_refl _)).subset (List.mem_cons_of_mem _ hy), hf⟩

/-- A holder was one before the move, or the move is its lookup. -/
theorem OneHolder.before (h : U.OneHolder A P) (hA : ∀ t ∈ P.threads, A t.req t.log P.state)
    (hs : S.step P m = some P') {i : Nat} {t : Thread ι σ Λ ε α} (ht : P'.threads[i]? = some t)
    (hh : U.Holder t) :
    (∃ t₀, P.threads[i]? = some t₀ ∧ U.Holder t₀) ∨
    (∃ t₀, m = .call i ∧ P.threads[i]? = some t₀ ∧ U.uses t₀.req ∧ t₀.log = [] ∧
      ¬U.spent P.state) := by
  obtain ⟨hu, hf, he⟩ := hh
  rcases System.thread_cases hs ht with ⟨r, -, -, rfl⟩ |
    ⟨r, log, l, next, eff, fail, rfl, hp, -, rfl⟩ | ⟨e, r, log, l, next, eff, fail, -, hp, rfl⟩ | hp
  · obtain ⟨x, hx, -⟩ := hf
    cases hx
  · obtain ⟨x, hx, hfx⟩ := hf
    rcases List.mem_cons.mp hx with rfl | hx
    · have hc := h.obeys.call (Nat.zero_le i) hp (hA _ (List.mem_of_getElem? hp))
      obtain ⟨hl, hn⟩ := (hc hu).1 hfx
      exact .inr ⟨_, rfl, hp, hu, hl, hn⟩
    · exact .inl ⟨_, hp, hu, ⟨x, hx, hfx⟩, .inl nofun⟩
  · exact .inl ⟨_, hp, hu, hf, .inl nofun⟩
  · exact .inl ⟨_, hp, hu, hf, he⟩

theorem OneHolder.step (h : U.OneHolder A P)
    (hprog : ∀ r, (S.program r).Obeys (A r) (U.Call r) (U.Done r) [])
    (hA : ∀ t ∈ P.threads, A t.req t.log P.state) (hspent : U.spent P.state → U.spent P'.state)
    (hm : U.Apart P m) (hs : S.step P m = some P') : U.OneHolder A P' := by
  have hobeys := h.obeys.step hprog (fun _ t _ ht => hA t (List.mem_of_getElem? ht)) hs
  refine ⟨hobeys, fun t ht hu hmk => ?_, fun {i j t t'} hi hj hh hh' => ?_⟩
  · obtain ⟨j, hj⟩ := List.getElem?_of_mem ht
    obtain ⟨x, hx, hl⟩ := hmk
    rcases System.thread_cases hs hj with ⟨r, -, -, rfl⟩ |
      ⟨r, log, l, next, eff, fail, -, hp, he, rfl⟩ | ⟨e, r, log, l, next, eff, fail, -, hp, rfl⟩ | hp
    · cases hx
    · rcases List.mem_cons.mp hx with rfl | hx
      · rw [he]
        exact (h.obeys.call (Nat.zero_le j) hp (hA _ (List.mem_of_getElem? hp)) hu).2.2 hl
      · exact hspent (h.marked _ (List.mem_of_getElem? hp) hu ⟨x, hx, hl⟩)
    · exact hspent (h.marked _ (List.mem_of_getElem? hp) hu ⟨x, hx, hl⟩)
    · exact hspent (h.marked _ (List.mem_of_getElem? hp) hu ⟨x, hx, hl⟩)
  · rcases h.before hA hs hi hh with ⟨t₀, hi₀, hh₀⟩ | ⟨t₀, rfl, hi₀, hu, hl, hn⟩ <;>
      rcases h.before hA hs hj hh' with ⟨t₀', hj₀, hh₀'⟩ | ⟨t₀', hm', hj₀, hu', hl', hn'⟩
    · exact h.one hi₀ hj₀ hh₀ hh₀'
    · subst hm'
      exact (hn' (h.spent hi₀ hh₀ (hm t₀' hj₀ hu' (by simp [hl']) t₀
        (List.mem_of_getElem? hi₀) hh₀.1))).elim
    · exact (hn (h.spent hj₀ hh₀' (hm t₀ hi₀ hu (by simp [hl]) t₀'
        (List.mem_of_getElem? hj₀) hh₀'.1))).elim
    · exact Move.call.inj hm'

/-- In a run in which nobody looks the token up while somebody is pending, the
token has at most one holder. -/
theorem oneHolder {I : Pool ι σ Λ ε α → Prop} (h : S.Run U.Apart P P') (hnone : P.threads = [])
    (hprog : ∀ r, (S.program r).Obeys (A r) (U.Call r) (U.Done r) []) (h0 : I P)
    (hI : ∀ {P m P'}, I P → S.step P m = some P' → I P' ∧ (U.spent P.state → U.spent P'.state))
    (hA : ∀ {P}, I P → ∀ t ∈ P.threads, A t.req t.log P.state) : U.OneHolder A P' := by
  have none {i : Nat} {t : Thread ι σ Λ ε α} (h : P.threads[i]? = some t) : False := by
    simp [hnone] at h
  refine (h.invariant (I := fun P => I P ∧ U.OneHolder A P) ⟨h0, ?_⟩ ?_).2
  · exact ⟨fun _ _ _ ht => (none ht).elim, fun t ht => by simp [hnone] at ht,
      fun ht => (none ht).elim⟩
  · rintro P m P' ⟨hp, hone⟩ hm hs
    exact ⟨(hI hp hs).1, hone.step hprog (hA hp) (hI hp hs).2 hm hs⟩

theorem OneHolder.holder_of_ok (h : U.OneHolder A P) {i : Nat} {t : Thread ι σ Λ ε α}
    (ht : P.threads[i]? = some t) (hu : U.uses t.req) {a : α} (ho : t.outcome = some (.ok a)) :
    U.Holder t :=
  ⟨hu, (h.obeys.outcome (Nat.zero_le i) ht ho hu a rfl).1, .inl (by simp [ho])⟩

theorem OneHolder.holder_of_acted (h : U.OneHolder A P) {i : Nat} {t : Thread ι σ Λ ε α}
    (ht : P.threads[i]? = some t) (hu : U.uses t.req) (ha : U.Acted t.log) : U.Holder t :=
  ⟨hu, h.found ht hu ha, .inr ha⟩

theorem OneHolder.pairwise (h : U.OneHolder A P) :
    P.threads.Pairwise fun t t' => ¬(U.Holder t ∧ U.Holder t') := by
  refine List.pairwise_iff_getElem.mpr fun i j hi hj hij ⟨hh, hh'⟩ => ?_
  have := h.one (List.getElem?_eq_getElem hi) (List.getElem?_eq_getElem hj) hh hh'
  omega

theorem countP_le_one {β : Type} {p : β → Bool} {l : List β}
    (h : l.Pairwise fun x y => ¬(p x = true ∧ p y = true)) : l.countP p ≤ 1 := by
  induction h with
  | nil => exact Nat.zero_le 1
  | @cons x l hx _ ih =>
    cases hp : p x with
    | false => simpa [hp] using ih
    | true =>
      have : l.countP p = 0 := List.countP_eq_zero.mpr fun y hy hpy => hx y hy ⟨hp, hpy⟩
      simp [hp, this]

/-- At most one request succeeds. -/
theorem OneHolder.succeeded_le_one [DecidablePred U.uses] (h : U.OneHolder A P) :
    (P.threads.countP fun t => decide (U.uses t.req) && t.succeeded) ≤ 1 := by
  have holder {t : Thread ι σ Λ ε α} (ht : t ∈ P.threads)
      (hp : (decide (U.uses t.req) && t.succeeded) = true) : U.Holder t := by
    obtain ⟨i, hi⟩ := List.getElem?_of_mem ht
    obtain ⟨hu, hs⟩ : U.uses t.req ∧ t.succeeded = true := by simpa using hp
    obtain ⟨a, ho⟩ := Thread.succeeded_eq_true.mp hs
    exact h.holder_of_ok hi hu ho
  exact countP_le_one (h.pairwise.imp_of_mem fun ht ht' hn ⟨hp, hp'⟩ =>
    hn ⟨holder ht hp, holder ht' hp'⟩)

/-- At most one call acts on what the token allows. -/
theorem OneHolder.acted_le_one [DecidablePred U.uses] [DecidablePred U.acts]
    (h : U.OneHolder A P) :
    ((P.threads.filter fun t => U.uses t.req).flatMap (·.log)).countP (fun x => U.acts x.label) ≤ 1 := by
  refine countP_le_one (List.pairwise_flatMap.mpr ⟨fun t ht => ?_, ?_⟩)
  · obtain ⟨hm, hu⟩ := List.mem_filter.mp ht
    obtain ⟨i, hi⟩ := List.getElem?_of_mem hm
    have hl := (h.obeys i t (Nat.zero_le i) hi).2
    have hu : U.uses t.req := by simpa using hu
    generalize t.log = log at hl
    induction log with
    | nil => exact .nil
    | cons x log ih =>
      refine .cons (fun y hy ⟨hx, hy'⟩ => ?_) (ih hl.2)
      exact ((hl.1 hu).2.1 (by simpa using hx)).2 ⟨y, hy, by simpa using hy'⟩
  · refine (h.pairwise.filter _).imp_of_mem fun {t t'} ht ht' hn x hx y hy ⟨ha, ha'⟩ => ?_
    have holder {t : Thread ι σ Λ ε α} {x : Entry σ Λ} (ht : t ∈ P.threads.filter fun t => U.uses t.req)
        (hx : x ∈ t.log) (ha : decide (U.acts x.label) = true) : U.Holder t := by
      obtain ⟨hm, hu⟩ := List.mem_filter.mp ht
      obtain ⟨i, hi⟩ := List.getElem?_of_mem hm
      exact h.holder_of_acted hi (by simpa using hu) ⟨x, hx, by simpa using ha⟩
    exact hn ⟨holder ht hx ha, holder ht' hy ha'⟩

instance [DecidablePred U.finds] [DecidablePred U.acts] [DecidablePred U.marks]
    (t : Thread ι σ Λ ε α) : Decidable (U.Pending t) :=
  inferInstanceAs (Decidable ((∃ x ∈ t.log, U.finds x) ∧ (¬∃ x ∈ t.log, U.marks x.label) ∧
    (t.outcome.isNone = true ∨ ∃ x ∈ t.log, U.acts x.label)))

instance [DecidablePred U.uses] [DecidablePred U.finds] [DecidablePred U.acts]
    [DecidablePred U.marks] : Decidable (U.Apart P m) :=
  match m with
  | .call i => inferInstanceAs (Decidable (∀ t ∈ P.threads[i]?, U.uses t.req →
      t.log.isEmpty = true → ∀ t' ∈ P.threads, U.uses t'.req → ¬U.Pending t'))
  | .start _ | .fault _ _ | .env _ => inferInstanceAs (Decidable True)

end Once

end Framework

import AtlasAuth.Framework.Pool

/-!
# A front end of a system

A front end serves its requests by passing each on, at most once, to a system
behind it: at first it only reads the state, and may give an answer of its own;
once it has passed a request on, its answer is computed from the result
(`Fronts`).

A run of the front end is a run of the system behind it, with the same states
(`Run.behind`). Each of its threads is one that has not passed on its request
yet, or it is paired with a thread behind, of which it is an image. So what
holds of every run of the system behind holds of the front end.
-/

namespace Framework

open Prog (Entry)

variable {ι κ μ σ Λ ε α β : Type}

namespace Prog

/-- The program with another result. -/
def map (f : α → β) (p : Prog σ Λ ε α) : Prog σ Λ ε β := p >>= fun a => .ret (f a)

@[simp] theorem map_ret (f : α → β) (a : α) : (Prog.ret a : Prog σ Λ ε α).map f = .ret (f a) := rfl

theorem map_bind {γ : Type} (f : α → β) (p : Prog σ Λ ε γ) (k : γ → Prog σ Λ ε α) :
    (p >>= k).map f = p >>= fun c => (k c).map f :=
  bind_bind ..

theorem map_eq_call {f : α → β} {p : Prog σ Λ ε α} {l : Λ} {next : σ → Prog σ Λ ε β}
    {eff : σ → σ} {fail : ε → Prog σ Λ ε β} (h : p.map f = .call l next eff fail) :
    ∃ next₀ fail₀, p = .call l next₀ eff fail₀ ∧ next = (fun s => (next₀ s).map f) ∧
      fail = fun e => (fail₀ e).map f := by
  cases p with
  | ret a => cases h
  | throw e => cases h
  | call l₀ next₀ eff₀ fail₀ =>
    obtain ⟨rfl, rfl, rfl, rfl⟩ := Prog.call.inj h
    exact ⟨next₀, fail₀, rfl, rfl, rfl⟩

end Prog

namespace System

/-- What is left of a request of the front end that has not been passed on: it
reads, it fails, or it passes on a request of `S` with a map for the result, as
`K` allows. Only where it passes on none does it return something by itself. -/
inductive Fronts (S : System ι μ σ Λ ε α) (K : ι → (α → β) → Prop) : Prog σ Λ ε β → Prop
  | ret (hK : ∀ i f, ¬K i f) (b : β) : Fronts S K (.ret b)
  | throw (e : ε) : Fronts S K (.throw e)
  | read {l : Λ} {next : σ → Prog σ Λ ε β} {eff : σ → σ} {fail : ε → Prog σ Λ ε β}
      (heff : ∀ s, eff s = s) (hn : ∀ s, Fronts S K (next s)) (hf : ∀ e, Fronts S K (fail e)) :
      Fronts S K (.call l next eff fail)
  | pass {i : ι} {f : α → β} (h : K i f) (hi : ∀ a, S.program i ≠ .ret a) :
      Fronts S K ((S.program i).map f)

section

variable {S : System ι μ σ Λ ε α} {K : ι → (α → β) → Prop}

/-- A part at the beginning that only reads. -/
theorem Fronts.bind {γ : Type} {p : Prog σ Λ ε γ} {k : γ → Prog σ Λ ε β}
    (hp : p.Always fun s s' => s' = s) (hk : ∀ c, Fronts S K (k c)) : Fronts S K (p >>= k) := by
  induction p with
  | ret c => exact hk c
  | throw e => exact .throw e
  | call l next eff fail ihn ihf =>
    exact .read (fun s => (hp.1 s).1) (fun s => ihn s (hp.1 s).2) fun e => ihf e (hp.2 e)

/-- What the requests behind guarantee of their calls, and every read, is
guaranteed of the calls of the front end. -/
theorem Fronts.obeys {A : List (Entry σ Λ) → σ → Prop} {J : List (Entry σ Λ) → Entry σ Λ → Prop}
    {p : Prog σ Λ ε β} (h : Fronts S K p) (hread : ∀ log l s, J log ⟨l, s, s⟩)
    (hK : ∀ i f, K i f → ∀ log, (S.program i).Obeys A J (fun _ _ => True) log)
    (log : List (Entry σ Λ)) : p.Obeys A J (fun _ _ => True) log := by
  induction h generalizing log with
  | ret | throw => trivial
  | read heff _ _ ihn ihf =>
    exact ⟨fun s _ => ⟨by rw [heff]; exact hread .., ihn s _⟩, fun e => ihf e log⟩
  | pass hk =>
    refine Prog.obeys_bind.mpr ((hK _ _ hk log).mono (fun _ _ h => h) (fun _ _ h => h) ?_)
    intro log r _
    cases r <;> trivial

theorem Fronts.always {G : σ → σ → Prop} [Std.Refl G] {p : Prog σ Λ ε β} (h : Fronts S K p)
    (hK : ∀ i f, K i f → (S.program i).Always G) : p.Always G :=
  (h.obeys (A := fun _ _ => True) (J := fun _ x => G x.before x.after) (fun _ _ s => refl s)
    (fun i f hk log => (hK i f hk).obeys log) []).always

end

variable {S : System ι μ σ Λ ε α} {T : System κ μ σ Λ ε β} {K : κ → ι → (α → β) → Prop}

/-- A thread of the front end, beside its partner among the threads behind. -/
def Stands (S : System ι μ σ Λ ε α) (K : κ → ι → (α → β) → Prop)
    (threads : List (Thread ι σ Λ ε α)) (t : Thread κ σ Λ ε β) : Option Nat → Prop
  | none => Fronts S (K t.req) t.prog
  | some j => ∃ t₀ f, threads[j]? = some t₀ ∧ K t.req t₀.req f ∧ t.prog = t₀.prog.map f

/-- `Q` behind a front end `P`: each thread of `P` has at most one partner, no
two have the same, and every thread of `Q` is one. -/
structure Behind (S : System ι μ σ Λ ε α) (K : κ → ι → (α → β) → Prop) (partner : Nat → Option Nat)
    (P : Pool κ σ Λ ε β) (Q : Pool ι σ Λ ε α) : Prop where
  state : Q.state = P.state
  stands : ∀ i t, P.threads[i]? = some t → Stands S K Q.threads t (partner i)
  ne : ∀ i i' j, partner i = some j → partner i' = some j → i = i'
  lt : ∀ i j, partner i = some j → i < P.threads.length ∧ j < Q.threads.length
  onto : ∀ j < Q.threads.length, ∃ i, partner i = some j

section

variable {partner : Nat → Option Nat} {P : Pool κ σ Λ ε β} {Q : Pool ι σ Λ ε α} {i j : Nat}

theorem Stands.mono {threads threads' : List (Thread ι σ Λ ε α)} {t : Thread κ σ Λ ε β}
    {o : Option Nat} (h : Stands S K threads t o)
    (hj : ∀ j, o = some j → threads'[j]? = threads[j]?) : Stands S K threads' t o := by
  cases o with
  | none => exact h
  | some j =>
    obtain ⟨t₀, f, ht₀, hk, hp⟩ := h
    exact ⟨t₀, f, (hj j rfl).trans ht₀, hk, hp⟩

/-- The thread's request begins behind. -/
theorem Behind.pass (h : Behind S K partner P Q) {t : Thread κ σ Λ ε β}
    (ht : P.threads[i]? = some t) (hi : partner i = none) {r : ι} {f : α → β} (hk : K t.req r f)
    (hp : t.prog = (S.program r).map f) :
    Behind S K (Function.update partner i (some Q.threads.length)) P
      ⟨Q.state, Q.threads ++ [⟨r, [], S.program r⟩]⟩ := by
  refine ⟨h.state, fun i' t' ht' => ?_, fun i₁ i₂ j h₁ h₂ => ?_, fun i' j hj => ?_, fun j hj => ?_⟩
  · by_cases e : i' = i
    · subst e
      obtain rfl := Option.some.inj (ht.symm.trans ht')
      rw [Function.update_self]
      exact ⟨_, f, List.getElem?_concat_length, hk, hp⟩
    · rw [Function.update_of_ne e]
      exact (h.stands i' t' ht').mono fun j hj => List.getElem?_append_left (h.lt i' j hj).2
  · -- No other thread has the new thread for a partner.
    by_cases e₁ : i₁ = i <;> by_cases e₂ : i₂ = i
    · rw [e₁, e₂]
    · subst e₁
      rw [Function.update_self] at h₁
      rw [Function.update_of_ne e₂] at h₂
      exact absurd (h.lt i₂ j h₂).2 (by rw [← Option.some.inj h₁]; exact Nat.lt_irrefl _)
    · subst e₂
      rw [Function.update_self] at h₂
      rw [Function.update_of_ne e₁] at h₁
      exact absurd (h.lt i₁ j h₁).2 (by rw [← Option.some.inj h₂]; exact Nat.lt_irrefl _)
    · rw [Function.update_of_ne e₁] at h₁
      rw [Function.update_of_ne e₂] at h₂
      exact h.ne i₁ i₂ j h₁ h₂
  · rw [List.length_append]
    by_cases e : i' = i
    · subst e
      rw [Function.update_self] at hj
      exact ⟨(List.getElem?_eq_some_iff.mp ht).1, by rw [← Option.some.inj hj]; simp⟩
    · rw [Function.update_of_ne e] at hj
      exact (h.lt i' j hj).imp_right fun h => Nat.lt_of_lt_of_le h (Nat.le_add_right _ _)
  · rw [List.length_append] at hj
    obtain hj | rfl := Nat.lt_succ_iff_lt_or_eq.mp hj
    · obtain ⟨i', hi'⟩ := h.onto j hj
      refine ⟨i', (Function.update_of_ne ?_ ..).trans hi'⟩
      rintro rfl
      rw [hi] at hi'
      cases hi'
    · exact ⟨i, Function.update_self ..⟩

/-- A thread that has a partner moves together with it. -/
theorem Behind.move (h : Behind S K partner P Q) (hi : partner i = some j) {r : κ} {r₀ : ι}
    {f : α → β} (hk : K r r₀ f) (p : Prog σ Λ ε α) (log log₀ : List (Entry σ Λ)) (s : σ) :
    Behind S K partner ⟨s, P.threads.set i ⟨r, log, p.map f⟩⟩ ⟨s, Q.threads.set j ⟨r₀, log₀, p⟩⟩ := by
  refine ⟨rfl, fun i' t' ht' => ?_, h.ne, fun i' j' hj' => by simpa using h.lt i' j' hj',
    fun j' hj' => h.onto j' (by simpa using hj')⟩
  by_cases e : i' = i
  · subst e
    have ht' : ⟨r, log, p.map f⟩ = t' := by simpa [(h.lt i' j hi).1] using ht'
    subst ht'
    rw [hi]
    exact ⟨⟨r₀, log₀, p⟩, f, by simp [(h.lt i' j hi).2], hk, rfl⟩
  · have ht' : P.threads[i']? = some t' := by simpa [List.getElem?_set_ne (Ne.symm e)] using ht'
    refine (h.stands i' t' ht').mono fun j' hj' => List.getElem?_set_ne fun ej => e ?_
    exact h.ne i' i j' hj' (ej ▸ hi)

/-- A thread that has none moves alone. -/
theorem Behind.read (h : Behind S K partner P Q) (hi : partner i = none) {t : Thread κ σ Λ ε β}
    (hf : Fronts S (K t.req) t.prog) : Behind S K partner ⟨P.state, P.threads.set i t⟩ Q := by
  refine ⟨h.state, fun i' t' ht' => ?_, h.ne, fun i' j' hj' => by simpa using h.lt i' j' hj', h.onto⟩
  by_cases e : i' = i
  · subst e
    rw [hi]
    by_cases hlt : i' < P.threads.length
    · have ht' : t = t' := by simpa [hlt] using ht'
      exact ht' ▸ hf
    · rw [List.getElem?_eq_none (by simpa using hlt)] at ht'
      cases ht'
  · exact h.stands i' t' (by simpa [List.getElem?_set_ne (Ne.symm e)] using ht')

theorem Behind.start (h : Behind S K partner P Q) {t : Thread κ σ Λ ε β}
    (hf : Fronts S (K t.req) t.prog) : Behind S K partner ⟨P.state, P.threads ++ [t]⟩ Q := by
  have hlt {i' j' : Nat} (hj' : partner i' = some j') : i' < P.threads.length := (h.lt i' j' hj').1
  refine ⟨h.state, fun i' t' ht' => ?_, h.ne, fun i' j' hj' => ?_, h.onto⟩
  · rcases Nat.lt_trichotomy i' P.threads.length with hi | rfl | hi
    · exact h.stands i' t' (by simpa [List.getElem?_append_left hi] using ht')
    · have ht' : t = t' := by simpa using ht'
      have hn : partner P.threads.length = none :=
        Option.eq_none_iff_forall_ne_some.mpr fun j hj => Nat.lt_irrefl _ (hlt hj)
      rw [hn]
      exact ht' ▸ hf
    · rw [List.getElem?_eq_none (by simp; omega)] at ht'
      cases ht'
  · rw [List.length_append]
    exact ⟨Nat.lt_of_lt_of_le (hlt hj') (Nat.le_add_right _ _), (h.lt i' j' hj').2⟩

/-- A call, or its failure, of a thread that has a partner is one of the
partner. -/
theorem Behind.step_paired (h : Behind S K partner P Q) (hi : partner i = some j) {r : κ}
    {log : List (Entry σ Λ)} {l : Λ} {next : σ → Prog σ Λ ε β} {eff : σ → σ}
    {fail : ε → Prog σ Λ ε β} (ht : P.threads[i]? = some ⟨r, log, .call l next eff fail⟩) :
    (∃ Q', S.step Q (.call j) = some Q' ∧ Behind S K partner
      ⟨eff P.state, P.threads.set i ⟨r, ⟨l, P.state, eff P.state⟩ :: log, next P.state⟩⟩ Q') ∧
    ∀ e, ∃ Q', S.step Q (.fault j e) = some Q' ∧
      Behind S K partner ⟨P.state, P.threads.set i ⟨r, log, fail e⟩⟩ Q' := by
  have hs := h.stands i _ ht
  rw [hi] at hs
  obtain ⟨⟨r₀, log₀, p₀⟩, f, hj, hk, hp⟩ := hs
  obtain ⟨next₀, fail₀, rfl, rfl, rfl⟩ := Prog.map_eq_call hp.symm
  constructor
  · let t : Thread ι σ Λ ε α := ⟨r₀, ⟨l, Q.state, eff Q.state⟩ :: log₀, next₀ Q.state⟩
    refine ⟨⟨eff Q.state, Q.threads.set j t⟩, by simp only [System.step, hj, t], ?_⟩
    simp only [t, h.state]
    exact h.move hi hk ..
  · intro e
    refine ⟨⟨Q.state, Q.threads.set j ⟨r₀, log₀, fail₀ e⟩⟩, by simp only [System.step, hj], ?_⟩
    rw [h.state]
    exact h.move hi hk ..

/-- A move of the front end is matched by at most two moves behind it: the
start of a request and its first call. -/
theorem Behind.step (hprog : ∀ r, Fronts S (K r) (T.program r)) (henv : T.env = S.env)
    {m : Move κ μ ε} {P' : Pool κ σ Λ ε β} (h : Behind S K partner P Q)
    (hs : T.step P m = some P') :
    ∃ partner' Q', S.Run (fun _ _ => True) Q Q' ∧ Behind S K partner' P' Q' := by
  rcases step_cases hs with ⟨r, rfl, rfl⟩ | ⟨i, r, log, l, next, eff, fail, rfl, ht, rfl⟩ |
    ⟨i, e, r, log, l, next, eff, fail, rfl, ht, rfl⟩ | ⟨x, rfl, rfl⟩
  · exact ⟨partner, Q, .refl, h.start (hprog r)⟩
  · cases hi : partner i with
    | some j =>
      obtain ⟨⟨Q', hs', hb⟩, -⟩ := h.step_paired hi ht
      exact ⟨partner, Q', .step .refl trivial hs', hb⟩
    | none =>
      have hf := h.stands i _ ht
      rw [hi] at hf
      generalize hp : Prog.call l next eff fail = p at hf
      cases hf with
      | ret | throw => cases hp
      | read heff hn =>
        obtain ⟨rfl, rfl, rfl, rfl⟩ := Prog.call.inj hp
        rw [heff]
        exact ⟨partner, Q, .refl, h.read hi (hn _)⟩
      | pass hk =>
        have hb := h.pass ht hi hk hp
        obtain ⟨⟨Q', hs', hb'⟩, -⟩ := hb.step_paired (Function.update_self ..) ht
        exact ⟨_, Q', .step (.step (m := .start _) .refl trivial rfl) trivial hs', hb'⟩
  · cases hi : partner i with
    | some j =>
      obtain ⟨Q', hs', hb⟩ := (h.step_paired hi ht).2 e
      exact ⟨partner, Q', .step .refl trivial hs', hb⟩
    | none =>
      have hf := h.stands i _ ht
      rw [hi] at hf
      generalize hp : Prog.call l next eff fail = p at hf
      cases hf with
      | ret | throw => cases hp
      | read heff hn hfail =>
        obtain ⟨rfl, rfl, rfl, rfl⟩ := Prog.call.inj hp
        exact ⟨partner, Q, .refl, h.read hi (hfail e)⟩
      | pass hk =>
        have hb := h.pass ht hi hk hp
        obtain ⟨Q', hs', hb'⟩ := (hb.step_paired (Function.update_self ..) ht).2 e
        exact ⟨_, Q', .step (.step (m := .start _) .refl trivial rfl) trivial hs', hb'⟩
  · refine ⟨partner, ⟨S.env x Q.state, Q.threads⟩, .step (m := .env x) .refl trivial rfl, ?_, h.stands,
      h.ne, h.lt, h.onto⟩
    show S.env x Q.state = T.env x P.state
    rw [henv, h.state]

/-- Behind every run of the front end there is a run of the system. -/
theorem Run.behind {ok : Pool κ σ Λ ε β → Move κ μ ε → Prop} {P' : Pool κ σ Λ ε β}
    (hr : T.Run ok P P') (hprog : ∀ r, Fronts S (K r) (T.program r)) (henv : T.env = S.env)
    (hnone : P.threads = []) :
    ∃ partner Q, S.Run (fun _ _ => True) ⟨P.state, []⟩ Q ∧ Behind S K partner P' Q := by
  refine hr.invariant (I := fun P' => ∃ partner Q, S.Run (fun _ _ => True) ⟨P.state, []⟩ Q ∧
    Behind S K partner P' Q) ⟨fun _ => none, _, .refl, rfl, ?_, nofun, nofun, nofun⟩ ?_
  · intro i t ht
    rw [hnone] at ht
    cases ht
  · rintro P₁ m P₂ ⟨partner, Q, hq, hb⟩ - hs
    obtain ⟨partner', Q', hq', hb'⟩ := hb.step hprog henv hs
    exact ⟨partner', Q', hq.trans hq', hb'⟩

/-- A thread that returns something has passed on its request, if it has one
to pass on. -/
theorem Stands.returned {threads : List (Thread ι σ Λ ε α)} {t : Thread κ σ Λ ε β} {o : Option Nat}
    (h : Stands S K threads t o) {b : β} (hb : t.outcome = some (.ok b)) {i : ι} {f : α → β}
    (hK : K t.req i f) : ∃ j, o = some j := by
  cases o with
  | some j => exact ⟨j, rfl⟩
  | none =>
    obtain ⟨r, log, p⟩ := t
    unfold Thread.outcome at hb
    replace h : Fronts S (K r) p := h
    cases h with
    | ret hn => exact absurd hK (hn i f)
    | throw | read => cases hb
    | @pass i₀ f₀ _ hi =>
      dsimp only at hb
      cases hp : S.program i₀ with
      | ret a => exact absurd hp (hi a)
      | throw e => rw [hp] at hb; cases hb
      | call l next eff fail => rw [hp] at hb; cases hb

/-- What a thread with a partner has come to is what the partner has. -/
theorem Stands.outcome {threads : List (Thread ι σ Λ ε α)} {t : Thread κ σ Λ ε β} {j : Nat}
    (h : Stands S K threads t (some j)) :
    ∃ t₀ f, threads[j]? = some t₀ ∧ K t.req t₀.req f ∧
      t.outcome = t₀.outcome.map (Except.map f) := by
  obtain ⟨t₀, f, hj, hk, hp⟩ := h
  refine ⟨t₀, f, hj, hk, ?_⟩
  unfold Thread.outcome
  rw [hp]
  cases t₀.prog <;> rfl

end

end System

end Framework

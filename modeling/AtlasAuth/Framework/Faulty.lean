import AtlasAuth.Framework.Sequential

/-!
# One request after the other, with failing calls

`Prog.ExecFailing F R` is a program that runs alone, as in `Prog.Exec R`, but
whose calls with a label in `F` may fail. The part of a program that makes no
such call runs as it does without failures (`Calls.execFailing`), so what is
known of it by `Ensures` is known of it here too, and `EnsuresFailing` needs
rules only for what surrounds it.

`System.FailingTrace` is `System.Trace` with such failures. Both are among the
interleavings of `System.Run` (`FailingTrace.run`, `Trace.run`).
-/

namespace Framework

variable {ι μ σ Λ ε α β : Type}

namespace Prog

/-- Alone but for `R` before each call, and with calls in `F` that may fail,
the program goes from the first state to the last with this outcome. -/
def ExecFailing (F : Λ → Prop) (R : σ → σ → Prop) : Prog σ Λ ε α → σ → Except ε α → σ → Prop
  | .ret a, s, r, s' => r = .ok a ∧ s' = s
  | .throw e, s, r, s' => r = .error e ∧ s' = s
  | .call l next eff fail, s, r, s' =>
      ∃ s₁, R s s₁ ∧ ((next s₁).ExecFailing F R (eff s₁) r s' ∨
        F l ∧ ∃ e, (fail e).ExecFailing F R s₁ r s')

section

variable {F : Λ → Prop} {R : σ → σ → Prop} {s s' : σ} {r : Except ε α}

theorem Exec.failing {p : Prog σ Λ ε α} (h : p.Exec R s r s') : p.ExecFailing F R s r s' := by
  induction p generalizing s with
  | ret a => exact h
  | throw e => exact h
  | call l next eff fail ih _ =>
    obtain ⟨s₁, hR, h⟩ := h
    exact ⟨s₁, hR, .inl (ih s₁ h)⟩

/-- A program none of whose calls can fail. -/
theorem Calls.execFailing {p : Prog σ Λ ε α} (hp : p.Calls fun l => ¬F l) :
    p.ExecFailing F R s r s' ↔ p.Exec R s r s' := by
  refine ⟨fun h => ?_, Exec.failing⟩
  induction p generalizing s with
  | ret a => exact h
  | throw e => exact h
  | call l next eff fail ih _ =>
    obtain ⟨s₁, hR, h | ⟨hF, -⟩⟩ := h
    · exact ⟨s₁, hR, ih s₁ (hp.2.1 s₁) h⟩
    · exact absurd hF hp.1

theorem execFailing_bind {p : Prog σ Λ ε β} {k : β → Prog σ Λ ε α} :
    (p >>= k).ExecFailing F R s r s' ↔
      (∃ b s₁, p.ExecFailing F R s (.ok b) s₁ ∧ (k b).ExecFailing F R s₁ r s') ∨
      (∃ e, p.ExecFailing F R s (.error e) s' ∧ r = .error e) := by
  show (p.bind k).ExecFailing F R s r s' ↔ _
  induction p generalizing s with
  | ret b => simp [bind, ExecFailing]
  | throw e => simp [bind, ExecFailing, and_comm]
  | call l next eff fail ihn ihf =>
    simp only [bind, ExecFailing, ihn, ihf]
    constructor
    · rintro ⟨s₁, hR, (⟨b, s₂, hp, hk⟩ | ⟨e, hp, rfl⟩) | ⟨hF, e, ⟨b, s₂, hp, hk⟩ | ⟨e', hp, rfl⟩⟩⟩
      · exact .inl ⟨b, s₂, ⟨s₁, hR, .inl hp⟩, hk⟩
      · exact .inr ⟨e, ⟨s₁, hR, .inl hp⟩, rfl⟩
      · exact .inl ⟨b, s₂, ⟨s₁, hR, .inr ⟨hF, e, hp⟩⟩, hk⟩
      · exact .inr ⟨e', ⟨s₁, hR, .inr ⟨hF, e, hp⟩⟩, rfl⟩
    · rintro (⟨b, s₂, ⟨s₁, hR, hp | ⟨hF, e, hp⟩⟩, hk⟩ | ⟨e', ⟨s₁, hR, hp | ⟨hF, e, hp⟩⟩, rfl⟩)
      · exact ⟨s₁, hR, .inl (.inl ⟨b, s₂, hp, hk⟩)⟩
      · exact ⟨s₁, hR, .inr ⟨hF, e, .inl ⟨b, s₂, hp, hk⟩⟩⟩
      · exact ⟨s₁, hR, .inl (.inr ⟨e', hp, rfl⟩)⟩
      · exact ⟨s₁, hR, .inr ⟨hF, e, .inr ⟨e', hp, rfl⟩⟩⟩

theorem execFailing_handle {p : Prog σ Λ ε α} {h : ε → Prog σ Λ ε α} :
    (p.handle h).ExecFailing F R s r s' ↔
      (∃ a, p.ExecFailing F R s (.ok a) s' ∧ r = .ok a) ∨
      (∃ e s₁, p.ExecFailing F R s (.error e) s₁ ∧ (h e).ExecFailing F R s₁ r s') := by
  induction p generalizing s with
  | ret a => simp [handle, ExecFailing, and_comm]
  | throw e => simp [handle, ExecFailing]
  | call l next eff fail ihn ihf =>
    simp only [handle, ExecFailing, ihn, ihf]
    constructor
    · rintro ⟨s₁, hR, (⟨a, hp, rfl⟩ | ⟨e, s₂, hp, hk⟩) | ⟨hF, e, ⟨a, hp, rfl⟩ | ⟨e', s₂, hp, hk⟩⟩⟩
      · exact .inl ⟨a, ⟨s₁, hR, .inl hp⟩, rfl⟩
      · exact .inr ⟨e, s₂, ⟨s₁, hR, .inl hp⟩, hk⟩
      · exact .inl ⟨a, ⟨s₁, hR, .inr ⟨hF, e, hp⟩⟩, rfl⟩
      · exact .inr ⟨e', s₂, ⟨s₁, hR, .inr ⟨hF, e, hp⟩⟩, hk⟩
    · rintro (⟨a, ⟨s₁, hR, hp | ⟨hF, e, hp⟩⟩, rfl⟩ | ⟨e', s₂, ⟨s₁, hR, hp | ⟨hF, e, hp⟩⟩, hk⟩)
      · exact ⟨s₁, hR, .inl (.inl ⟨a, hp, rfl⟩)⟩
      · exact ⟨s₁, hR, .inr ⟨hF, e, .inl ⟨a, hp, rfl⟩⟩⟩
      · exact ⟨s₁, hR, .inl (.inr ⟨e', s₂, hp, hk⟩)⟩
      · exact ⟨s₁, hR, .inr ⟨hF, e, .inr ⟨e', s₂, hp, hk⟩⟩⟩

/-- A part of the state that every call keeps, and that `R` keeps too. -/
theorem ExecFailing.keep {γ : Type} (get : σ → γ) {p : Prog σ Λ ε α}
    (h : p.ExecFailing F R s r s') (hp : p.Always fun s s' => get s' = get s)
    (hR : ∀ s s', R s s' → get s' = get s) : get s' = get s := by
  induction p generalizing s with
  | ret a => rw [h.2]
  | throw e => rw [h.2]
  | call l next eff fail ihn ihf =>
    obtain ⟨s₁, h₁, h | ⟨-, e, h⟩⟩ := h
    · obtain ⟨hg, hn⟩ := hp.1 s₁
      exact (ihn s₁ h hn).trans (hg.trans (hR _ _ h₁))
    · exact (ihf e h (hp.2 e)).trans (hR _ _ h₁)

end

/-- Running a program alone, with every call in `F` failing. -/
def runFailing (F : Λ → Prop) [DecidablePred F] (e : ε) : Prog σ Λ ε α → σ → Except ε α × σ
  | .ret a, s => (.ok a, s)
  | .throw e, s => (.error e, s)
  | .call l next eff fail, s =>
    if F l then (fail e).runFailing F e s else (next s).runFailing F e (eff s)

theorem execFailing_run {F : Λ → Prop} [DecidablePred F] {R : σ → σ → Prop} (hR : ∀ s, R s s) (e : ε)
    (p : Prog σ Λ ε α) (s : σ) :
    p.ExecFailing F R s (p.runFailing F e s).1 (p.runFailing F e s).2 := by
  induction p generalizing s with
  | ret a => exact ⟨rfl, rfl⟩
  | throw e => exact ⟨rfl, rfl⟩
  | call l next eff fail ihn ihf =>
    refine ⟨s, hR s, ?_⟩
    unfold runFailing
    split
    · exact .inr ⟨‹_›, e, ihf e s⟩
    · exact .inl (ihn s (eff s))

/-- Running a program alone, with the failures that `fault` says: a call fails
by its label and by the states before and after it. -/
def runWith (fault : Λ → σ → σ → Option ε) : Prog σ Λ ε α → σ → Except ε α × σ
  | .ret a, s => (.ok a, s)
  | .throw e, s => (.error e, s)
  | .call l next eff fail, s =>
    match fault l s (eff s) with
    | some e => (fail e).runWith fault s
    | none => (next s).runWith fault (eff s)

section

variable {fault : Λ → σ → σ → Option ε} {s s' : σ}

@[simp] theorem runWith_ret {a : α} :
    (Prog.ret a : Prog σ Λ ε α).runWith fault s = (.ok a, s) := rfl

@[simp] theorem runWith_ofExcept {r : Except ε α} :
    (ofExcept r : Prog σ Λ ε α).runWith fault s = (r, s) := by
  cases r <;> rfl

theorem runWith_atomic {l : Λ} {f : σ → Except ε α × σ} :
    (atomic l f).runWith fault s =
      match fault l s (f s).2 with
      | some e => (.error e, s)
      | none => f s := by
  unfold atomic runWith
  dsimp only
  cases fault l s (f s).2 with
  | some e => rfl
  | none => exact runWith_ofExcept

theorem runWith_bind {p : Prog σ Λ ε β} {k : β → Prog σ Λ ε α} :
    (p >>= k).runWith fault s =
      match p.runWith fault s with
      | (.ok b, s') => (k b).runWith fault s'
      | (.error e, s') => (.error e, s') := by
  show (p.bind k).runWith fault s = _
  induction p generalizing s with
  | ret b => rfl
  | throw e => rfl
  | call l next eff fail ihn ihf =>
    simp only [bind, runWith]
    cases fault l s (eff s) with
    | some e => exact ihf e
    | none => exact ihn s

end

/-- After every execution from the state `s`, with failures of the calls in
`F`, `Q` holds of its outcome and of the state it leaves. -/
def EnsuresFailing (F : Λ → Prop) (R : σ → σ → Prop) (Q : Except ε α → σ → Prop)
    (p : Prog σ Λ ε α) (s : σ) : Prop :=
  ∀ r s', p.ExecFailing F R s r s' → Q r s'

section EnsuresFailing

variable {F : Λ → Prop} {R : σ → σ → Prop} {Q : Except ε α → σ → Prop} {s : σ}

@[simp] theorem ensuresFailing_ret {a : α} :
    (Prog.ret a : Prog σ Λ ε α).EnsuresFailing F R Q s ↔ Q (.ok a) s := by
  simp [EnsuresFailing, ExecFailing]

@[simp] theorem ensuresFailing_throw {e : ε} :
    (Prog.throw e : Prog σ Λ ε α).EnsuresFailing F R Q s ↔ Q (.error e) s := by
  simp [EnsuresFailing, ExecFailing]

/-- A part that makes no call that can fail. -/
theorem Ensures.failing {p : Prog σ Λ ε α} (h : p.Ensures R Q s) (hp : p.Calls fun l => ¬F l) :
    p.EnsuresFailing F R Q s :=
  fun r s' he => h r s' (hp.execFailing.mp he)

/-- A single call. -/
theorem EnsuresFailing.atomic {l : Λ} {f : σ → Except ε α × σ}
    (h : ∀ s₁, R s s₁ → Q (f s₁).1 (f s₁).2 ∧ (F l → ∀ e, Q (.error e) s₁)) :
    (atomic l f).EnsuresFailing F R Q s := by
  rintro r s' ⟨s₁, hR, hn | ⟨hF, e, rfl, rfl⟩⟩
  · obtain ⟨rfl, rfl⟩ := exec_ofExcept.mp ((calls_ofExcept).execFailing.mp hn)
    exact (h s₁ hR).1
  · exact (h s' hR).2 hF e

theorem EnsuresFailing.bind {p : Prog σ Λ ε β} {k : β → Prog σ Λ ε α} {M : Except ε β → σ → Prop}
    (hp : p.EnsuresFailing F R M s) (hk : ∀ b s', M (.ok b) s' → (k b).EnsuresFailing F R Q s')
    (he : ∀ e s', M (.error e) s' → Q (.error e) s') : (p >>= k).EnsuresFailing F R Q s := by
  intro r s' h
  rcases execFailing_bind.mp h with ⟨b, s₁, hb, h⟩ | ⟨e, hb, rfl⟩
  · exact hk b s₁ (hp _ _ hb) r s' h
  · exact he e s' (hp _ _ hb)

/-- A program that succeeds, and what follows it. -/
theorem EnsuresFailing.bind_of_ok {p : Prog σ Λ ε β} {k : β → Prog σ Λ ε α} {M : β → σ → Prop}
    (hp : p.EnsuresFailing F R (fun r s' => ∃ b, r = .ok b ∧ M b s') s)
    (hk : ∀ b s', M b s' → (k b).EnsuresFailing F R Q s') : (p >>= k).EnsuresFailing F R Q s := by
  refine .bind hp ?_ ?_
  · rintro b s' ⟨_, e, hM⟩
    obtain rfl := Except.ok.inj e
    exact hk b s' hM
  · rintro e s' ⟨_, he, -⟩
    cases he

/-- A read that cannot fail, and what follows it. -/
theorem EnsuresFailing.query_bind {l : Λ} {f : σ → β} {k : β → Prog σ Λ ε α} (hl : ¬F l)
    (h : ∀ s', R s s' → (k (f s')).EnsuresFailing F R Q s') :
    (query l f >>= k).EnsuresFailing F R Q s := by
  refine .bind (M := fun r s' => R s s' ∧ r = .ok (f s'))
    (Ensures.failing (ensures_query.mpr fun s₁ hR => ⟨hR, rfl⟩) (calls_query.mpr hl)) ?_ ?_
  · rintro _ s' ⟨hR, ⟨⟩⟩
    exact h s' hR
  · rintro _ s' ⟨hR, ⟨⟩⟩

/-- A call that cannot fail, and what follows it when it succeeds. -/
theorem EnsuresFailing.atomic_bind {l : Λ} {f : σ → Except ε β × σ} {k : β → Prog σ Λ ε α}
    (hl : ¬F l) (h : ∀ s', R s s' → match (f s').1 with
      | .ok b => (k b).EnsuresFailing F R Q (f s').2
      | .error e => Q (.error e) (f s').2) : (Prog.atomic l f >>= k).EnsuresFailing F R Q s := by
  refine .bind (M := fun r s' => ∃ s₁, R s s₁ ∧ r = (f s₁).1 ∧ s' = (f s₁).2)
    (Ensures.failing (ensures_atomic.mpr fun s₁ hR => ⟨s₁, hR, rfl, rfl⟩) (calls_atomic.mpr hl))
    ?_ ?_
  · rintro b _ ⟨s₁, hR, e, rfl⟩
    simpa only [← e] using h s₁ hR
  · rintro e _ ⟨s₁, hR, e', rfl⟩
    simpa only [← e'] using h s₁ hR

theorem EnsuresFailing.handle {p : Prog σ Λ ε α} {h : ε → Prog σ Λ ε α}
    {M : Except ε α → σ → Prop} (hp : p.EnsuresFailing F R M s)
    (ha : ∀ a s', M (.ok a) s' → Q (.ok a) s')
    (he : ∀ e s', M (.error e) s' → (h e).EnsuresFailing F R Q s') :
    (p.handle h).EnsuresFailing F R Q s := by
  intro r s' hx
  rcases execFailing_handle.mp hx with ⟨a, hp', rfl⟩ | ⟨e, s₁, hp', hk⟩
  · exact ha a s' (hp _ _ hp')
  · exact he e s₁ (hp _ _ hp') r s' hk

theorem EnsuresFailing.mono {Q' : Except ε α → σ → Prop} {p : Prog σ Λ ε α}
    (h : p.EnsuresFailing F R Q s) (hQ : ∀ r s', Q r s' → Q' r s') : p.EnsuresFailing F R Q' s :=
  fun r s' he => hQ r s' (h r s' he)

end EnsuresFailing

end Prog

namespace System

/-- The completed requests, in their order, that lead from `s` to a state. The
calls in `F` may fail, and each request and its outcome satisfy `ok`. -/
inductive FailingTrace (S : System ι μ σ Λ ε α) (F : Λ → Prop) (ok : ι → Except ε α → Prop) (s : σ) :
    List (Done ι σ ε α) → σ → Prop
  | nil : FailingTrace S F ok s [] s
  | env {tr s₁} (m : μ) : FailingTrace S F ok s tr s₁ → FailingTrace S F ok s tr (S.env m s₁)
  | done {tr s₁ x s₂} {r : ι} : FailingTrace S F ok s tr s₁ →
      (S.program r).ExecFailing F S.lapse s₁ x s₂ → ok r x →
      FailingTrace S F ok s (tr ++ [⟨r, s₁, x, s₂⟩]) s₂

variable {S : System ι μ σ Λ ε α} {F : Λ → Prop} {s s' : σ} {tr : List (Done ι σ ε α)}

/-- The trace in which no call fails. -/
theorem Trace.failing {ok : Except ε α → Prop} {ok' : ι → Except ε α → Prop} (h : S.Trace ok s tr s')
    (hok : ∀ d ∈ tr, ok d.outcome → ok' d.req d.outcome) : S.FailingTrace F ok' s tr s' := by
  induction h with
  | nil => exact .nil
  | env m _ ih => exact .env m (ih hok)
  | done _ he hx ih =>
    refine .done (ih fun d hd => hok d (List.mem_append_left _ hd)) he.failing ?_
    exact hok _ (List.mem_append_right _ (List.mem_singleton_self _)) hx

/-! ## Traces are interleavings -/

section

variable {P : Pool ι σ Λ ε α} {i : Nat}

/-- A thread that runs alone to its outcome. -/
theorem Run.of_thread {r : ι} {log : List (Prog.Entry σ Λ)} {p : Prog σ Λ ε α} {x : Except ε α}
    (h : p.ExecFailing F S.lapse P.state x s') (hi : P.threads[i]? = some ⟨r, log, p⟩) :
    ∃ log', S.Run (fun _ _ => True) P ⟨s', P.threads.set i ⟨r, log', .ofExcept x⟩⟩ := by
  obtain ⟨hlt, hget⟩ := List.getElem?_eq_some_iff.mp hi
  induction p generalizing P log with
  | ret a =>
    obtain ⟨rfl, rfl⟩ := h
    refine ⟨log, ?_⟩
    rw [show Prog.ofExcept (.ok a) = Prog.ret a from rfl, ← hget, List.set_getElem_self]
    exact .refl
  | throw e =>
    obtain ⟨rfl, rfl⟩ := h
    refine ⟨log, ?_⟩
    rw [show Prog.ofExcept (.error e) = Prog.throw e from rfl, ← hget, List.set_getElem_self]
    exact .refl
  | call l next eff fail ihn ihf =>
    obtain ⟨s₁, ⟨m, rfl⟩, h⟩ := h
    have henv : S.Run (fun _ _ => True) P ⟨S.env m P.state, P.threads⟩ :=
      .step .refl trivial (m := .env m) rfl
    -- The call, made or failed, and then the rest of the program.
    rcases h with h | ⟨-, e, h⟩
    · let t : Thread ι σ Λ ε α :=
        ⟨r, ⟨l, S.env m P.state, eff (S.env m P.state)⟩ :: log, next (S.env m P.state)⟩
      obtain ⟨log', hr⟩ := @ihn _ ⟨eff (S.env m P.state), P.threads.set i t⟩ t.log h
        (by simp [hlt, t]) (by simp [hlt]) (by simp [t])
      refine ⟨log', ?_⟩
      rw [List.set_set] at hr
      refine (Run.step henv trivial (m := .call i) ?_).trans hr
      simp only [System.step, hi, t]
    · let t : Thread ι σ Λ ε α := ⟨r, log, fail e⟩
      obtain ⟨log', hr⟩ := @ihf e ⟨S.env m P.state, P.threads.set i t⟩ t.log h
        (by simp [hlt, t]) (by simp [hlt]) (by simp [t])
      refine ⟨log', ?_⟩
      rw [List.set_set] at hr
      refine (Run.step henv trivial (m := .fault i e) ?_).trans hr
      simp only [System.step, hi, t]

end

/-- A trace is an interleaving of its requests, with the same outcomes. -/
theorem FailingTrace.run {ok : ι → Except ε α → Prop} (h : S.FailingTrace F ok s tr s') :
    ∃ P : Pool ι σ Λ ε α, S.Run (fun _ _ => True) ⟨s, []⟩ P ∧ P.state = s' ∧
      P.threads.map (fun t => (t.req, t.outcome)) = tr.map fun d => (d.req, some d.outcome) := by
  induction h with
  | nil => exact ⟨_, .refl, rfl, rfl⟩
  | env m _ ih =>
    obtain ⟨P, hr, rfl, ht⟩ := ih
    exact ⟨_, .step hr trivial (m := .env m) rfl, rfl, ht⟩
  | @done tr s₁ x s₂ r _ he _ ih =>
    obtain ⟨P, hr, rfl, ht⟩ := ih
    let P₁ : Pool ι σ Λ ε α := ⟨P.state, P.threads ++ [⟨r, [], S.program r⟩]⟩
    have hi : P₁.threads[P.threads.length]? = some ⟨r, [], S.program r⟩ := by simp [P₁]
    obtain ⟨log, hs⟩ := Run.of_thread (P := P₁) he hi
    refine ⟨_, (Run.step hr trivial (m := .start r) rfl).trans hs, rfl, ?_⟩
    simp [P₁, ht]

theorem Trace.run {ok : Except ε α → Prop} (h : S.Trace ok s tr s') :
    ∃ P : Pool ι σ Λ ε α, S.Run (fun _ _ => True) ⟨s, []⟩ P ∧ P.state = s' ∧
      P.threads.map (fun t => (t.req, t.outcome)) = tr.map fun d => (d.req, some d.outcome) := by
  have hf : S.FailingTrace (fun _ => False) (fun _ _ => True) s tr s' :=
    h.failing fun _ _ _ => trivial
  exact hf.run

/-- What holds in the last state of every interleaving holds after a trace. -/
theorem FailingTrace.of_run {ok : ι → Except ε α → Prop} {I : σ → Prop}
    (h : S.FailingTrace F ok s tr s')
    (hI : ∀ P : Pool ι σ Λ ε α, S.Run (fun _ _ => True) ⟨s, []⟩ P → I P.state) : I s' := by
  obtain ⟨P, hr, rfl, -⟩ := h.run
  exact hI P hr

theorem Trace.of_run {ok : Except ε α → Prop} {I : σ → Prop} (h : S.Trace ok s tr s')
    (hI : ∀ P : Pool ι σ Λ ε α, S.Run (fun _ _ => True) ⟨s, []⟩ P → I P.state) : I s' := by
  obtain ⟨P, hr, rfl, -⟩ := h.run
  exact hI P hr

end System

end Framework

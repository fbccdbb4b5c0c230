import AtlasAuth.Framework.Pool

/-!
# What a program can return and throw

`Prog.Yields L A M E` is a contract that a program keeps whatever happens between
its calls: made in states that satisfy `A`, they lead to a value in `M` or to an
exception in `E`. A call may fail, with an exception in `E`. Once a call in `L`
has been made, the contract asks for nothing more.

Its rules follow the constructors. `Run.yields` carries the contracts of some
requests through a run, in which the other requests may do anything; `Run.alone`
is the run in which one thread goes on by itself.
-/

namespace Framework

variable {ι μ σ Λ ε α β : Type}

namespace Prog

def Yields (L : Λ → Prop) (A : σ → Prop) (M : α → Prop) (E : ε → Prop) : Prog σ Λ ε α → Prop
  | .ret a => M a
  | .throw e => E e
  | .call l next _ fail =>
    (¬L l → ∀ s, A s → (next s).Yields L A M E) ∧ ∀ e, E e → (fail e).Yields L A M E

variable {L : Λ → Prop} {A : σ → Prop} {M : α → Prop} {E : ε → Prop}

@[simp] theorem yields_ret {a : α} : (Prog.ret a : Prog σ Λ ε α).Yields L A M E ↔ M a := Iff.rfl
@[simp] theorem yields_throw {e : ε} : (Prog.throw e : Prog σ Λ ε α).Yields L A M E ↔ E e := Iff.rfl

@[simp] theorem yields_ofExcept {r : Except ε α} :
    (ofExcept r : Prog σ Λ ε α).Yields L A M E ↔ match r with
      | .ok a => M a
      | .error e => E e := by
  cases r <;> rfl

/-- A call that fails by itself does so as the contract allows. -/
@[simp] theorem yields_atomic {l : Λ} {f : σ → Except ε α × σ} :
    (atomic l f).Yields L A M E ↔ (¬L l → ∀ s, A s → match (f s).1 with
      | .ok a => M a
      | .error e => E e) := by
  simp only [atomic, Yields, yields_ofExcept]
  exact and_iff_left fun e he => he

@[simp] theorem yields_query {l : Λ} {f : σ → α} :
    (query l f).Yields L A M E ↔ (¬L l → ∀ s, A s → M (f s)) := by
  simp [query]

theorem Yields.bind {N : β → Prop} {p : Prog σ Λ ε β} {k : β → Prog σ Λ ε α} (hp : p.Yields L A N E)
    (hk : ∀ b, N b → (k b).Yields L A M E) : (p >>= k).Yields L A M E := by
  show (p.bind k).Yields L A M E
  induction p with
  | ret b => exact hk b hp
  | throw e => exact hp
  | call l next eff fail ihn ihf =>
    exact ⟨fun hl s hs => ihn s (hp.1 hl s hs), fun e he => ihf e (hp.2 e he)⟩

/-- A part whose value does not matter. -/
theorem Yields.seq {p : Prog σ Λ ε β} {k : β → Prog σ Λ ε α} (hp : p.Yields L A (fun _ => True) E)
    (hk : ∀ b, (k b).Yields L A M E) : (p >>= k).Yields L A M E :=
  hp.bind fun b _ => hk b

theorem Yields.ite {c : Prop} [Decidable c] {p q : Prog σ Λ ε α} (hp : c → p.Yields L A M E)
    (hq : ¬c → q.Yields L A M E) : (if c then p else q).Yields L A M E := by
  split
  · exact hp ‹_›
  · exact hq ‹_›

end Prog

namespace System

variable {S : System ι μ σ Λ ε α} {P P' : Pool ι σ Λ ε α}
  {ok : Pool ι σ Λ ε α → Move ι μ ε → Prop} {L : Λ → Prop} {A : σ → Prop} {M : α → Prop}
  {E : ε → Prop}

/-- The requests in `only` keep their contract, if calls are made in states that
satisfy `A` and fail with exceptions in `E`. -/
theorem Run.yields {only : ι → Prop} (h : S.Run ok P P') (hnone : P.threads = [])
    (hcall : ∀ {P i}, ok P (.call i) → A P.state) (hfault : ∀ {P i e}, ok P (.fault i e) → E e)
    (hprog : ∀ r, only r → (S.program r).Yields L A M E) :
    ∀ t ∈ P'.threads, only t.req → (∀ x ∈ t.log, ¬L x.label) → t.prog.Yields L A M E := by
  refine h.invariant
    (I := fun P => ∀ t ∈ P.threads, only t.req → (∀ x ∈ t.log, ¬L x.label) → t.prog.Yields L A M E)
    (by simp [hnone]) ?_
  intro P m P' ih hok hs t ht ho hl
  obtain ⟨j, hj⟩ := List.getElem?_of_mem ht
  rcases thread_cases hs hj with ⟨r, -, -, rfl⟩ | ⟨r, log, l, next, eff, fail, rfl, hp, -, rfl⟩ |
    ⟨e, r, log, l, next, eff, fail, rfl, hp, rfl⟩ | hp
  · exact hprog r ho
  · obtain ⟨hl, hlog⟩ := List.forall_mem_cons.mp hl
    exact (ih _ (List.mem_of_getElem? hp) ho hlog).1 hl _ (hcall hok)
  · exact (ih _ (List.mem_of_getElem? hp) ho hl).2 _ (hfault hok)
  · exact ih t (List.mem_of_getElem? hp) ho hl

/-- A thread that has thrown an exception has thrown one in `E`. -/
theorem error_of_yields {t : Thread ι σ Λ ε α} (h : t.prog.Yields L A M E) {e : ε}
    (he : t.outcome = some (.error e)) : E e := by
  unfold Thread.outcome at he
  split at he
  · cases he
  · rename_i hp
    rw [hp] at h
    cases he
    exact h
  · cases he

/-- A thread that goes on by itself, from a state that satisfies `A`, to its
outcome. It has made calls in `C` only. -/
theorem Run.alone {C : Λ → Prop} (hok : ∀ P i, A P.state → ok P (.call i)) {r : ι}
    {log : List (Prog.Entry σ Λ)} {p : Prog σ Λ ε α} {i : Nat} (hp : p.Always fun s s' => A s → A s')
    (hc : p.Calls C) (hlog : ∀ x ∈ log, C x.label) (hA : A P.state)
    (hi : P.threads[i]? = some ⟨r, log, p⟩) :
    ∃ log', (∀ x ∈ log', C x.label) ∧ S.Run ok P
      ⟨(p.run P.state).2, P.threads.set i ⟨r, log', .ofExcept (p.run P.state).1⟩⟩ := by
  obtain ⟨hlt, hget⟩ := List.getElem?_eq_some_iff.mp hi
  induction p generalizing P log with
  | ret a =>
    refine ⟨log, hlog, ?_⟩
    show S.Run ok P ⟨P.state, P.threads.set i ⟨r, log, .ret a⟩⟩
    rw [← hget, List.set_getElem_self]
    exact .refl
  | throw e =>
    refine ⟨log, hlog, ?_⟩
    show S.Run ok P ⟨P.state, P.threads.set i ⟨r, log, .throw e⟩⟩
    rw [← hget, List.set_getElem_self]
    exact .refl
  | call l next eff fail ihn _ =>
    obtain ⟨hG, hn⟩ := hp.1 P.state
    let t : Thread ι σ Λ ε α := ⟨r, ⟨l, P.state, eff P.state⟩ :: log, next P.state⟩
    obtain ⟨log', hlog', hr⟩ := @ihn _ ⟨eff P.state, P.threads.set i t⟩ t.log hn (hc.2.1 P.state)
      (List.forall_mem_cons.mpr ⟨hc.1, hlog⟩) (hG hA) (by simp [hlt, t]) (by simp [hlt]) (by simp [t])
    refine ⟨log', hlog', ?_⟩
    rw [List.set_set] at hr
    have hs : S.step P (.call i) = some ⟨eff P.state, P.threads.set i t⟩ := by
      simp only [System.step, hi, t]
    exact (Run.step .refl (hok P i hA) hs).trans hr

end System

end Framework

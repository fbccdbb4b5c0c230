import AtlasAuth.Framework.Rely

/-!
# With which exceptions a program can end

`Refuses A X` is a contract about the exceptions of a program: if its calls are
made where `A` holds, and fail with exceptions in `X` only, then the exception
that it ends with, if any, is in `X`. What its parts return may be known from
their specification (`Upholds`), so the rule for two parts takes both.

`Run.refuses` carries the contracts of all requests through a run.
-/

namespace Framework

open Prog (Entry)

variable {ι μ σ ν Λ ε α β : Type}

def Refuses (A : List (Entry σ Λ) → σ → Prop) (X : ε → Prop) :
    Prog σ Λ ε α → List (Entry σ Λ) → Prop
  | .ret _, _ => True
  | .throw e, _ => X e
  | .call l next eff fail, log =>
    (∀ s, A log s → Refuses A X (next s) (⟨l, s, eff s⟩ :: log)) ∧
      ∀ e, X e → Refuses A X (fail e) log

section

variable {A : List (Entry σ Λ) → σ → Prop} {X : ε → Prop} {log : List (Entry σ Λ)}

theorem Refuses.ret (a : α) : Refuses A X (.ret a : Prog σ Λ ε α) log := trivial

theorem Refuses.throw {e : ε} (h : X e) : Refuses A X (.throw e : Prog σ Λ ε α) log := h

theorem Refuses.ofExcept {r : Except ε α} (h : ∀ e, r = .error e → X e) :
    Refuses A X (.ofExcept r : Prog σ Λ ε α) log := by
  cases r with
  | ok a => trivial
  | error e => exact h e rfl

theorem Refuses.atomic {l : Λ} {f : σ → Except ε α × σ}
    (h : ∀ s, A log s → ∀ e, (f s).1 = .error e → X e) : Refuses A X (.atomic l f) log :=
  ⟨fun s hs => .ofExcept (h s hs), fun _ he => he⟩

/-- A call that answers in every state. -/
theorem Refuses.always {l : Λ} {f : σ → α} {g : σ → σ} :
    Refuses A X (.atomic l fun s => (.ok (f s), g s) : Prog σ Λ ε α) log :=
  .atomic fun _ _ => nofun

/-- A read, and what follows it. -/
theorem Refuses.query {l : Λ} {f : σ → α} {k : α → Prog σ Λ ε β}
    (h : ∀ s log', log <:+ log' → ⟨l, s, s⟩ ∈ log' → A log s → Refuses A X (k (f s)) log') :
    Refuses A X (.query l f >>= k) log :=
  ⟨fun s hs => h s _ (List.suffix_cons ..) (List.mem_cons_self ..) hs, fun _ he => he⟩

theorem Refuses.ite {c : Prop} [Decidable c] {p q : Prog σ Λ ε α} (hp : c → Refuses A X p log)
    (hq : ¬c → Refuses A X q log) : Refuses A X (if c then p else q) log := by
  split
  · exact hp ‹_›
  · exact hq ‹_›

/-- A part, whose values `N` is known of, and what follows it. -/
theorem Refuses.bind_of_obeys {J : List (Entry σ Λ) → Entry σ Λ → Prop}
    {N : List (Entry σ Λ) → α → Prop} {p : Prog σ Λ ε α} {k : α → Prog σ Λ ε β}
    (hp : Refuses A X p log) (hu : p.Obeys A J (fun log' r => ∀ a, r = .ok a → N log' a) log)
    (hk : ∀ a log', N log' a → Refuses A X (k a) log') : Refuses A X (p >>= k) log := by
  show Refuses A X (p.bind k) log
  induction p generalizing log with
  | ret a => exact hk a log (hu a rfl)
  | throw e => exact hp
  | call l next eff fail ihn ihf =>
    exact ⟨fun s hs => ihn s (hp.1 s hs) (hu.1 s hs).2, fun e he => ihf e (hp.2 e he) (hu.2 e)⟩

/-- Whatever the exceptions of `p`, only those of the handler leave it. -/
theorem Refuses.handle {Y : ε → Prop} {p : Prog σ Λ ε α} {k : ε → Prog σ Λ ε α}
    (hp : Refuses A Y p log) (hY : ∀ e, X e → Y e)
    (hk : ∀ e log', log <:+ log' → Y e → Refuses A X (k e) log') : Refuses A X (p.handle k) log := by
  induction p generalizing log with
  | ret a => trivial
  | throw e => exact hk e log (List.suffix_refl _) hp
  | call l next eff fail ihn ihf =>
    refine ⟨fun s hs => ihn s (hp.1 s hs) fun e log' hl => ?_, fun e he => ihf e (hp.2 e (hY e he)) hk⟩
    exact hk e log' ((List.suffix_cons ..).trans hl)

/-- Every exception is one that is not excluded. -/
theorem Refuses.any (p : Prog σ Λ ε α) : Refuses A (fun _ => True) p log := by
  induction p generalizing log with
  | ret a => trivial
  | throw e => trivial
  | call l next eff fail ihn ihf => exact ⟨fun s _ => ihn s, fun e _ => ihf e⟩

end

section

variable {R : Rely σ ν} {B : σ → Prop} {X : ε → Prop} {log : List (Entry σ Λ)}
  {J : List (Entry σ Λ) → Entry σ Λ → Prop} {N : List (Entry σ Λ) → α → Prop}

theorem Refuses.bind {p : Prog σ Λ ε α} {k : α → Prog σ Λ ε β} (hu : Upholds R J N p log)
    (hp : Refuses (fun log s => R.Known log s ∧ B s) X p log)
    (hk : ∀ a log', log <:+ log' → N log' a →
      Refuses (fun log s => R.Known log s ∧ B s) X (k a) log') :
    Refuses (fun log s => R.Known log s ∧ B s) X (p >>= k) log :=
  hp.bind_of_obeys (N := fun log' a => log <:+ log' ∧ N log' a)
    (hu.suffix.mono (fun _ _ h => h.1) (fun _ _ h => h) fun _ _ h a e => ⟨h.1, h.2 a e⟩)
    fun a log' h => hk a log' h.1 h.2

end

namespace System

variable {S : System ι μ σ Λ ε α} {P P' : Pool ι σ Λ ε α} {ok : Pool ι σ Λ ε α → Move ι μ ε → Prop}
  {A : List (Entry σ Λ) → σ → Prop} {X : ι → ε → Prop} {I : Pool ι σ Λ ε α → Prop}

/-- Over a run in which an invariant `I` implies the assumption of every call,
and in which calls fail as the contracts allow, a thread that ends with an
exception ends with one of its contract. -/
theorem Run.refuses (h : S.Run ok P P') (hnone : P.threads = [])
    (hprog : ∀ r, Refuses A (X r) (S.program r) []) (h0 : I P)
    (hI : ∀ {P m P'}, I P → ok P m → S.step P m = some P' → I P')
    (hcall : ∀ {P i}, I P → ok P (.call i) → ∀ t ∈ P.threads, A t.log P.state)
    (hfault : ∀ {P i e}, ok P (.fault i e) → ∀ r, X r e) {t : Thread ι σ Λ ε α} (ht : t ∈ P'.threads)
    {e : ε} (he : t.outcome = some (.error e)) : X t.req e := by
  have hall : I P' ∧ ∀ t ∈ P'.threads, Refuses A (X t.req) t.prog t.log := by
    refine h.invariant (I := fun P => I P ∧ ∀ t ∈ P.threads, Refuses A (X t.req) t.prog t.log)
      ⟨h0, by simp [hnone]⟩ ?_
    rintro P₁ m P₂ ⟨hi, ih⟩ hok hs
    refine ⟨hI hi hok hs, fun t ht => ?_⟩
    obtain ⟨j, hj⟩ := List.getElem?_of_mem ht
    rcases thread_cases hs hj with ⟨r, -, -, rfl⟩ | ⟨r, log, l, next, eff, fail, rfl, hp, -, rfl⟩ |
      ⟨e, r, log, l, next, eff, fail, rfl, hp, rfl⟩ | hp
    · exact hprog r
    · have hmem := List.mem_of_getElem? hp
      exact (ih _ hmem).1 _ (hcall hi hok _ hmem)
    · exact (ih _ (List.mem_of_getElem? hp)).2 e (hfault hok r)
    · exact ih t (List.mem_of_getElem? hp)
  have hp := hall.2 t ht
  unfold Thread.outcome at he
  split at he
  · cases he
  · rename_i hthrow
    rw [hthrow] at hp
    cases he
    exact hp
  · cases he

end System

end Framework

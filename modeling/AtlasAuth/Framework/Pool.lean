import AtlasAuth.Framework.Prog

/-!
# Interleavings of programs

A pool is a shared state with the programs running on it. A move starts a
request, lets one program make its next call, makes that call fail, or lets
the environment act; `System.step` is what each move does, and `System.Run`
any sequence of moves, each of which satisfies a side condition. No order of
moves is preferred, so a run is an arbitrary interleaving, at the granularity
of calls, of any number of requests.

`Run.invariant` is the induction over a run. `Run.obeys` carries the
specifications of the programs (`Prog.Obeys`) through a run: every thread
still satisfies what its program promised. `Run.always` is the case of a
guarantee without an assumption, which then relates the states of the whole
run, and the state after any logged call to the present one.
-/

namespace Framework

open Prog (Entry)

/-- A request in flight: the calls it has made (newest first), and what is
left of its program. -/
structure Thread (ι σ Λ ε α : Type) where
  req : ι
  log : List (Entry σ Λ)
  prog : Prog σ Λ ε α

/-- The outcome of a thread that has finished. -/
def Thread.outcome {ι σ Λ ε α : Type} (t : Thread ι σ Λ ε α) : Option (Except ε α) :=
  match t.prog with
  | .ret a => some (.ok a)
  | .throw e => some (.error e)
  | .call .. => none

@[simp] theorem Thread.outcome_ofExcept {ι σ Λ ε α : Type} {r : ι} {log : List (Entry σ Λ)}
    {x : Except ε α} : (⟨r, log, .ofExcept x⟩ : Thread ι σ Λ ε α).outcome = some x := by
  cases x <;> rfl

/-- Whether a thread has returned a value. -/
def Thread.succeeded {ι σ Λ ε α : Type} (t : Thread ι σ Λ ε α) : Bool := t.outcome.any (·.isOk)

theorem Thread.succeeded_eq_true {ι σ Λ ε α : Type} {t : Thread ι σ Λ ε α} :
    t.succeeded = true ↔ ∃ a, t.outcome = some (.ok a) := by
  unfold Thread.succeeded
  cases t.outcome with
  | none => simp
  | some r => cases r <;> simp [Except.isOk, Except.toBool]

/-- The label of the call that a thread makes next. -/
def Thread.next {ι σ Λ ε α : Type} (t : Thread ι σ Λ ε α) : Option Λ :=
  match t.prog with
  | .call l .. => some l
  | _ => none

/-- The shared state, and the requests in the order in which they started. -/
structure Pool (ι σ Λ ε α : Type) where
  state : σ
  threads : List (Thread ι σ Λ ε α)

inductive Move (ι μ ε : Type) : Type
  | start (r : ι)
  | call (i : Nat)
  | fault (i : Nat) (e : ε)
  | env (m : μ)

/-- The program of each request, and what the environment may do. -/
structure System (ι μ σ Λ ε α : Type) where
  program : ι → Prog σ Λ ε α
  env : μ → σ → σ

variable {ι μ σ Λ ε α : Type}

namespace System

variable (S : System ι μ σ Λ ε α)

def step (P : Pool ι σ Λ ε α) : Move ι μ ε → Option (Pool ι σ Λ ε α)
  | .start r => some { P with threads := P.threads ++ [⟨r, [], S.program r⟩] }
  | .call i =>
    match P.threads[i]? with
    | some ⟨r, log, .call l next eff _⟩ =>
      some ⟨eff P.state, P.threads.set i ⟨r, ⟨l, P.state, eff P.state⟩ :: log, next P.state⟩⟩
    | _ => none
  | .fault i e =>
    match P.threads[i]? with
    | some ⟨r, log, .call _ _ _ fail⟩ => some { P with threads := P.threads.set i ⟨r, log, fail e⟩ }
    | _ => none
  | .env m => some { P with state := S.env m P.state }

/-- The pool that the moves lead to, one after the other; those that cannot be
made are left out. -/
def after : List (Move ι μ ε) → Pool ι σ Λ ε α → Pool ι σ Λ ε α
  | [], P => P
  | m :: ms, P => after ms ((S.step P m).getD P)

/-- Whether each of the moves can be made, and satisfies `ok`. -/
def check (ok : Pool ι σ Λ ε α → Move ι μ ε → Prop) [∀ P m, Decidable (ok P m)] :
    List (Move ι μ ε) → Pool ι σ Λ ε α → Bool
  | [], _ => true
  | m :: ms, P => decide (ok P m) && (S.step P m).any (check ok ms)

/-- A run from `P`, each of whose moves satisfies `ok` where it is made. -/
inductive Run (ok : Pool ι σ Λ ε α → Move ι μ ε → Prop) (P : Pool ι σ Λ ε α) :
    Pool ι σ Λ ε α → Prop
  | refl : Run ok P P
  | step {P' P'' : Pool ι σ Λ ε α} {m : Move ι μ ε} :
      Run ok P P' → ok P' m → S.step P' m = some P'' → Run ok P P''

variable {S} {P P' P'' : Pool ι σ Λ ε α} {m : Move ι μ ε}
  {ok : Pool ι σ Λ ε α → Move ι μ ε → Prop}

/-- What a move does. -/
theorem step_cases (h : S.step P m = some P') :
    (∃ r, m = .start r ∧ P' = ⟨P.state, P.threads ++ [⟨r, [], S.program r⟩]⟩) ∨
    (∃ i r log l next eff fail, m = .call i ∧ P.threads[i]? = some ⟨r, log, .call l next eff fail⟩ ∧
      P' = ⟨eff P.state, P.threads.set i ⟨r, ⟨l, P.state, eff P.state⟩ :: log, next P.state⟩⟩) ∨
    (∃ i e r log l next eff fail, m = .fault i e ∧
      P.threads[i]? = some ⟨r, log, .call l next eff fail⟩ ∧
      P' = ⟨P.state, P.threads.set i ⟨r, log, fail e⟩⟩) ∨
    (∃ x, m = .env x ∧ P' = ⟨S.env x P.state, P.threads⟩) := by
  cases m with
  | start r => exact .inl ⟨r, rfl, (Option.some.inj h).symm⟩
  | call i =>
    simp only [step] at h
    split at h
    · rename_i r log l next eff fail ht
      exact .inr (.inl ⟨i, r, log, l, next, eff, fail, rfl, ht, (Option.some.inj h).symm⟩)
    · cases h
  | fault i e =>
    simp only [step] at h
    split at h
    · rename_i r log l next eff fail ht
      exact .inr (.inr (.inl ⟨i, e, r, log, l, next, eff, fail, rfl, ht, (Option.some.inj h).symm⟩))
    · cases h
  | env x => exact .inr (.inr (.inr ⟨x, rfl, (Option.some.inj h).symm⟩))

/-- A thread after a move: it has just started, it made the move, or it was
there before. -/
theorem thread_cases (h : S.step P m = some P') {j : Nat} {t : Thread ι σ Λ ε α}
    (ht : P'.threads[j]? = some t) :
    (∃ r, m = .start r ∧ j = P.threads.length ∧ t = ⟨r, [], S.program r⟩) ∨
    (∃ r log l next eff fail, m = .call j ∧ P.threads[j]? = some ⟨r, log, .call l next eff fail⟩ ∧
      P'.state = eff P.state ∧ t = ⟨r, ⟨l, P.state, eff P.state⟩ :: log, next P.state⟩) ∨
    (∃ e r log l next eff fail, m = .fault j e ∧
      P.threads[j]? = some ⟨r, log, .call l next eff fail⟩ ∧ t = ⟨r, log, fail e⟩) ∨
    P.threads[j]? = some t := by
  rcases step_cases h with ⟨r, rfl, rfl⟩ | ⟨i, r, log, l, next, eff, fail, rfl, hi, rfl⟩ |
    ⟨i, e, r, log, l, next, eff, fail, rfl, hi, rfl⟩ | ⟨x, rfl, rfl⟩
  · rcases Nat.lt_trichotomy j P.threads.length with hj | rfl | hj
    · simp only [List.getElem?_append_left hj] at ht
      exact .inr (.inr (.inr ht))
    · simp only [List.getElem?_concat_length, Option.some.injEq] at ht
      exact .inl ⟨r, rfl, rfl, ht.symm⟩
    · rw [List.getElem?_eq_none (by simp; omega)] at ht
      cases ht
  · by_cases e : i = j
    · subst e
      simp only [List.getElem?_set_self' , hi, Option.map_eq_map, Option.map_some,
        Function.const_apply, Option.some.injEq] at ht
      exact .inr (.inl ⟨r, log, l, next, eff, fail, rfl, hi, rfl, ht.symm⟩)
    · simp only [List.getElem?_set_ne e] at ht
      exact .inr (.inr (.inr ht))
  · by_cases e' : i = j
    · subst e'
      simp only [List.getElem?_set_self', hi, Option.map_eq_map, Option.map_some,
        Function.const_apply, Option.some.injEq] at ht
      exact .inr (.inr (.inl ⟨e, r, log, l, next, eff, fail, rfl, hi, ht.symm⟩))
    · simp only [List.getElem?_set_ne e'] at ht
      exact .inr (.inr (.inr ht))
  · exact .inr (.inr (.inr ht))

/-- A call in a log after a move: it was there before, or it is the move. -/
theorem entry_cases (h : S.step P m = some P') {i : Nat} {t : Thread ι σ Λ ε α}
    (ht : P'.threads[i]? = some t) {x : Entry σ Λ} (hx : x ∈ t.log) :
    (∃ t₀, P.threads[i]? = some t₀ ∧ x ∈ t₀.log) ∨
      (m = .call i ∧ x.before = P.state ∧ x.after = P'.state) := by
  rcases thread_cases h ht with ⟨r, -, -, rfl⟩ | ⟨r, log, l, next, eff, fail, rfl, hp, he, rfl⟩ |
    ⟨e, r, log, l, next, eff, fail, -, hp, rfl⟩ | hp
  · cases hx
  · rcases List.mem_cons.mp hx with rfl | hx
    · exact .inr ⟨rfl, rfl, he.symm⟩
    · exact .inl ⟨_, hp, hx⟩
  · exact .inl ⟨_, hp, hx⟩
  · exact .inl ⟨_, hp, hx⟩

theorem Run.invariant {I : Pool ι σ Λ ε α → Prop} (h : S.Run ok P P') (h0 : I P)
    (hstep : ∀ {P m P'}, I P → ok P m → S.step P m = some P' → I P') : I P' := by
  induction h with
  | refl => exact h0
  | step _ hok hs ih => exact hstep ih hok hs

theorem Run.trans (h : S.Run ok P P') (h' : S.Run ok P' P'') : S.Run ok P P'' := by
  induction h' with
  | refl => exact h
  | step _ hok hs ih => exact .step ih hok hs

theorem Run.mono {ok' : Pool ι σ Λ ε α → Move ι μ ε → Prop} (h : S.Run ok P P')
    (hok : ∀ P m, ok P m → ok' P m) : S.Run ok' P P' := by
  induction h with
  | refl => exact .refl
  | step _ hm hs ih => exact .step ih (hok _ _ hm) hs

/-- Moves that have been checked are a run. -/
theorem Run.after [∀ P m, Decidable (ok P m)] {ms : List (Move ι μ ε)}
    (h : S.check ok ms P = true) : S.Run ok P (S.after ms P) := by
  induction ms generalizing P with
  | nil => exact .refl
  | cons m ms ih =>
    simp only [check, Bool.and_eq_true, decide_eq_true_eq, Option.any_eq_true] at h
    obtain ⟨hm, P', hs, h⟩ := h
    refine (Run.step .refl hm hs).trans ?_
    simp only [System.after, hs, Option.getD_some]
    exact ih h

/-- A thread keeps its number, its request and the calls it has made. -/
theorem step_thread (h : S.step P m = some P') {i : Nat} {t : Thread ι σ Λ ε α}
    (ht : P.threads[i]? = some t) :
    ∃ t', P'.threads[i]? = some t' ∧ t'.req = t.req ∧ t.log <:+ t'.log := by
  obtain ⟨hlt, -⟩ := List.getElem?_eq_some_iff.mp ht
  have set {j : Nat} {t₁ : Thread ι σ Λ ε α}
      (hj : ∀ t, P.threads[j]? = some t → t₁.req = t.req ∧ t.log <:+ t₁.log) :
      ∃ t', (P.threads.set j t₁)[i]? = some t' ∧ t'.req = t.req ∧ t.log <:+ t'.log := by
    by_cases e : j = i
    · subst e
      exact ⟨t₁, by rw [List.getElem?_set_self hlt], hj t ht⟩
    · exact ⟨t, by rw [List.getElem?_set_ne e, ht], rfl, List.suffix_refl _⟩
  rcases step_cases h with ⟨_, _, rfl⟩ | ⟨_, _, _, _, _, _, _, _, hj, rfl⟩ |
    ⟨_, _, _, _, _, _, _, _, _, hj, rfl⟩ | ⟨_, _, rfl⟩
  · exact ⟨t, by rw [List.getElem?_append_left hlt, ht], rfl, List.suffix_refl _⟩
  · refine set fun t ht => ?_
    obtain rfl := Option.some.inj (hj.symm.trans ht)
    exact ⟨rfl, List.suffix_cons ..⟩
  · refine set fun t ht => ?_
    obtain rfl := Option.some.inj (hj.symm.trans ht)
    exact ⟨rfl, List.suffix_refl _⟩
  · exact ⟨t, ht, rfl, List.suffix_refl _⟩

theorem Run.thread (h : S.Run ok P P') {i : Nat} {t : Thread ι σ Λ ε α}
    (ht : P.threads[i]? = some t) :
    ∃ t', P'.threads[i]? = some t' ∧ t'.req = t.req ∧ t.log <:+ t'.log := by
  refine h.invariant (I := fun P' => ∃ t', P'.threads[i]? = some t' ∧ t'.req = t.req ∧
    t.log <:+ t'.log) ⟨t, ht, rfl, List.suffix_refl _⟩ ?_
  rintro P m P' ⟨t', ht', hr, hl⟩ - hs
  obtain ⟨t'', ht'', hr', hl'⟩ := step_thread hs ht'
  exact ⟨t'', ht'', hr'.trans hr, hl.trans hl'⟩

/-- A call in a log was made in a state of the run, by one of its moves. -/
theorem Run.entry (h : S.Run ok P P') (hnone : P.threads = []) {t : Thread ι σ Λ ε α}
    (ht : t ∈ P'.threads) {x : Entry σ Λ} (hx : x ∈ t.log) :
    ∃ Q m, S.Run ok P Q ∧ ok Q m ∧ S.Run ok Q P' ∧ Q.state = x.before := by
  induction h generalizing t with
  | refl => simp [hnone] at ht
  | @step Q Q' m hr hm hs ih =>
    obtain ⟨i, hi⟩ := List.getElem?_of_mem ht
    rcases entry_cases hs hi hx with ⟨t₀, ht₀, hx₀⟩ | ⟨-, hb, -⟩
    · obtain ⟨Q₀, m₀, h₀, hm₀, h₁, he⟩ := ih (List.mem_of_getElem? ht₀) hx₀
      exact ⟨Q₀, m₀, h₀, hm₀, .step h₁ hm hs, he⟩
    · exact ⟨Q, m, hr, hm, .step .refl hm hs, hb.symm⟩

/-- What holds at the end of a run and did not at its beginning came about by
a call, unless the environment brings it about. -/
theorem Run.cause {B : σ → Prop} (h : S.Run ok P P') (henv : ∀ m s, B (S.env m s) → B s)
    (h0 : ¬B P.state) (h1 : B P'.state) :
    ∃ (Q : Pool ι σ Λ ε α) (i : Nat) (r : ι) (log : List (Entry σ Λ)) (l : Λ)
      (next : σ → Prog σ Λ ε α) (eff : σ → σ) (fail : ε → Prog σ Λ ε α) (t : Thread ι σ Λ ε α),
      S.Run ok P Q ∧ Q.threads[i]? = some ⟨r, log, .call l next eff fail⟩ ∧ ¬B Q.state ∧
      B (eff Q.state) ∧ P'.threads[i]? = some t ∧ t.req = r ∧
      ⟨l, Q.state, eff Q.state⟩ :: log <:+ t.log := by
  induction h with
  | refl => exact absurd h1 h0
  | @step Q Q' m hr hm hs ih =>
    by_cases hB : B Q.state
    · obtain ⟨Q₀, i, r, log, l, next, eff, fail, t, h₁, h₂, h₃, h₄, ht, rfl, hl⟩ := ih hB
      obtain ⟨t', ht', hreq, hl'⟩ := step_thread hs ht
      exact ⟨Q₀, i, _, log, l, next, eff, fail, t', h₁, h₂, h₃, h₄, ht', hreq, hl.trans hl'⟩
    · rcases step_cases hs with ⟨_, _, rfl⟩ | ⟨i, r, log, l, next, eff, fail, -, hi, rfl⟩ |
        ⟨_, _, _, _, _, _, _, _, _, _, rfl⟩ | ⟨x, _, rfl⟩
      · exact absurd h1 hB
      · let t : Thread ι σ Λ ε α := ⟨r, ⟨l, Q.state, eff Q.state⟩ :: log, next Q.state⟩
        refine ⟨Q, i, r, log, l, next, eff, fail, t, hr, hi, hB, h1, ?_, rfl, List.suffix_refl _⟩
        exact List.getElem?_set_self (List.getElem?_eq_some_iff.mp hi).1
      · exact absurd h1 hB
      · exact absurd (henv x _ h1) hB

section Obeys

variable {A : ι → List (Entry σ Λ) → σ → Prop} {J : ι → List (Entry σ Λ) → Entry σ Λ → Prop}
  {Q : ι → List (Entry σ Λ) → Except ε α → Prop}

/-- The threads from number `n` on satisfy the specifications of their
requests, and so have their calls. -/
def ObeyFrom (A : ι → List (Entry σ Λ) → σ → Prop) (J : ι → List (Entry σ Λ) → Entry σ Λ → Prop)
    (Q : ι → List (Entry σ Λ) → Except ε α → Prop) (n : Nat) (P : Pool ι σ Λ ε α) : Prop :=
  ∀ i t, n ≤ i → P.threads[i]? = some t →
    t.prog.Obeys (A t.req) (J t.req) (Q t.req) t.log ∧ Prog.Logged (J t.req) t.log

/-- A move keeps the specifications of the threads, where their assumptions
hold. -/
theorem ObeyFrom.step (hprog : ∀ r, (S.program r).Obeys (A r) (J r) (Q r) []) {n : Nat}
    (h : ObeyFrom A J Q n P)
    (hA : ∀ i t, n ≤ i → P.threads[i]? = some t → A t.req t.log P.state)
    (hs : S.step P m = some P') : ObeyFrom A J Q n P' := by
  intro j t hj ht
  rcases thread_cases hs ht with ⟨r, -, -, rfl⟩ | ⟨r, log, l, next, eff, fail, -, hp, -, rfl⟩ |
    ⟨e, r, log, l, next, eff, fail, -, hp, rfl⟩ | hp
  · exact ⟨hprog r, trivial⟩
  · obtain ⟨ho, hl⟩ := h j _ hj hp
    obtain ⟨hJ, hn⟩ := ho.1 _ (hA j _ hj hp)
    exact ⟨hn, hJ, hl⟩
  · obtain ⟨ho, hl⟩ := h j _ hj hp
    exact ⟨ho.2 e, hl⟩
  · exact h j t hj hp

/-- The guarantee of the call that a thread is about to make. -/
theorem ObeyFrom.call {n : Nat} (h : ObeyFrom A J Q n P) {i : Nat} {r : ι}
    {log : List (Entry σ Λ)} {l : Λ} {next : σ → Prog σ Λ ε α} {eff : σ → σ}
    {fail : ε → Prog σ Λ ε α} (hi : n ≤ i)
    (ht : P.threads[i]? = some ⟨r, log, .call l next eff fail⟩) (hA : A r log P.state) :
    J r log ⟨l, P.state, eff P.state⟩ :=
  ((h i _ hi ht).1.1 _ hA).1

/-- What a finished thread promised of its outcome. -/
theorem ObeyFrom.outcome {n : Nat} (h : ObeyFrom A J Q n P) {i : Nat} {t : Thread ι σ Λ ε α}
    (hi : n ≤ i) (ht : P.threads[i]? = some t) {r : Except ε α} (hr : t.outcome = some r) :
    Q t.req t.log r := by
  have hp := (h i t hi ht).1
  unfold Thread.outcome at hr
  split at hr
  · rename_i a he; rw [he] at hp; cases hr; exact hp
  · rename_i e he; rw [he] at hp; cases hr; exact hp
  · cases hr

/-- Over a run in which an invariant `I` implies every assumption, the threads
started in it satisfy their specifications. -/
theorem Run.obeys {I : Pool ι σ Λ ε α → Prop} (h : S.Run ok P P')
    (hprog : ∀ r, (S.program r).Obeys (A r) (J r) (Q r) []) (h0 : I P)
    (hI : ∀ {P m P'}, I P → ok P m → S.step P m = some P' → I P')
    (hA : ∀ {P}, I P → ∀ t ∈ P.threads, A t.req t.log P.state) :
    ObeyFrom A J Q P.threads.length P' := by
  refine (h.invariant (I := fun P' => I P' ∧ ObeyFrom A J Q P.threads.length P') ⟨h0, ?_⟩ ?_).2
  · intro i t hi ht
    rw [List.getElem?_eq_none hi] at ht
    cases ht
  · rintro P m P' ⟨hp, ho⟩ hok hs
    exact ⟨hI hp hok hs,
      ho.step hprog (fun _ t _ ht => hA hp t (List.mem_of_getElem? ht)) hs⟩

/-- A property of states that each call maintains if it has held in every
state that the thread has met. -/
theorem Run.maintains {N : σ → Prop} (h : S.Run ok P P') (hnone : P.threads = [])
    (hprog : ∀ r, (S.program r).Obeys (fun log s => N s ∧ ∀ x ∈ log, N x.before) (J r) (Q r) [])
    (hJ : ∀ r log x, J r log x → N x.before → (∀ y ∈ log, N y.before) → N x.after)
    (henv : ∀ m s, N s → N (S.env m s)) (h0 : N P.state) :
    N P'.state ∧ ∀ t ∈ P'.threads, Prog.Logged (J t.req) t.log ∧ ∀ x ∈ t.log, N x.before := by
  let A (_ : ι) (log : List (Entry σ Λ)) (s : σ) : Prop := N s ∧ ∀ x ∈ log, N x.before
  have hinv : N P'.state ∧ (∀ t ∈ P'.threads, ∀ x ∈ t.log, N x.before) ∧ ObeyFrom A J Q 0 P' := by
    refine h.invariant (I := fun P' => N P'.state ∧ (∀ t ∈ P'.threads, ∀ x ∈ t.log, N x.before) ∧
      ObeyFrom A J Q 0 P') ⟨h0, by simp [hnone], fun i t _ ht => by simp [hnone] at ht⟩ ?_
    rintro P m P' ⟨hN, hlog, hobeys⟩ - hs
    have hA (i : Nat) (t : Thread ι σ Λ ε α) (ht : P.threads[i]? = some t) : A t.req t.log P.state :=
      ⟨hN, hlog t (List.mem_of_getElem? ht)⟩
    refine ⟨?_, fun t ht x hx => ?_, hobeys.step hprog (fun i t _ ht => hA i t ht) hs⟩
    · rcases step_cases hs with ⟨_, _, rfl⟩ | ⟨i, r, log, l, next, eff, fail, -, hi, rfl⟩ |
        ⟨_, _, _, _, _, _, _, _, _, _, rfl⟩ | ⟨x, _, rfl⟩
      · exact hN
      · exact hJ r log _ (hobeys.call (Nat.zero_le i) hi (hA i _ hi)) hN
          (hlog _ (List.mem_of_getElem? hi))
      · exact hN
      · exact henv x _ hN
    · obtain ⟨i, hi⟩ := List.getElem?_of_mem ht
      rcases entry_cases hs hi hx with ⟨t₀, ht₀, hx₀⟩ | ⟨-, hb, -⟩
      · exact hlog t₀ (List.mem_of_getElem? ht₀) x hx₀
      · exact hb ▸ hN
  obtain ⟨hN, hlog, hobeys⟩ := hinv
  refine ⟨hN, fun t ht => ?_⟩
  obtain ⟨i, hi⟩ := List.getElem?_of_mem ht
  exact ⟨(hobeys i t (Nat.zero_le i) hi).2, hlog t ht⟩

end Obeys

section Always

variable {G : σ → σ → Prop}

/-- Every thread's program only makes calls that satisfy `G`, and so have its
logged calls been. -/
def AllAlways (G : σ → σ → Prop) (P : Pool ι σ Λ ε α) : Prop :=
  ∀ t ∈ P.threads, t.prog.Always G ∧ ∀ x ∈ t.log, G x.before x.after ∧ G x.after P.state

theorem AllAlways.step [IsPreorder σ G] (hprog : ∀ r, (S.program r).Always G)
    (henv : ∀ m s, G s (S.env m s)) (h : AllAlways G P) (hs : S.step P m = some P') :
    G P.state P'.state ∧ AllAlways G P' := by
  have hG : G P.state P'.state := by
    rcases step_cases hs with ⟨_, _, rfl⟩ | ⟨i, r, log, l, next, eff, fail, -, ht, rfl⟩ |
      ⟨_, _, _, _, _, _, _, _, _, _, rfl⟩ | ⟨x, _, rfl⟩
    · exact refl _
    · exact ((h _ (List.mem_of_getElem? ht)).1.1 _).1
    · exact refl _
    · exact henv _ _
  refine ⟨hG, fun t ht => ?_⟩
  obtain ⟨j, hj⟩ := List.getElem?_of_mem ht
  have later {t : Thread ι σ Λ ε α} (ht : t ∈ P.threads) :
      ∀ x ∈ t.log, G x.before x.after ∧ G x.after P'.state := fun x hx =>
    ⟨((h t ht).2 x hx).1, IsTrans.trans _ _ _ ((h t ht).2 x hx).2 hG⟩
  rcases thread_cases hs hj with ⟨r, -, -, rfl⟩ | ⟨r, log, l, next, eff, fail, -, hp, he, rfl⟩ |
    ⟨e, r, log, l, next, eff, fail, -, hp, rfl⟩ | hp
  · exact ⟨hprog r, by simp⟩
  · have hp := List.mem_of_getElem? hp
    obtain ⟨hg, hn⟩ := (h _ hp).1.1 P.state
    refine ⟨hn, fun x hx => ?_⟩
    rcases List.mem_cons.mp hx with rfl | hx
    · exact ⟨hg, by rw [he]; exact refl _⟩
    · exact later hp x hx
  · have hp := List.mem_of_getElem? hp
    exact ⟨(h _ hp).1.2 e, fun x hx => later hp x hx⟩
  · have hp := List.mem_of_getElem? hp
    exact ⟨(h _ hp).1, later hp⟩

/-- A preorder that every call and the environment respect relates the states
of a run. -/
theorem Run.always [IsPreorder σ G] (h : S.Run ok P P') (hprog : ∀ r, (S.program r).Always G)
    (henv : ∀ m s, G s (S.env m s)) (h0 : AllAlways G P) :
    G P.state P'.state ∧ AllAlways G P' := by
  refine h.invariant (I := fun P' => G P.state P'.state ∧ AllAlways G P') ⟨Std.Refl.refl _, h0⟩ ?_
  rintro Q m Q' ⟨hg, ha⟩ - hs
  obtain ⟨hg', ha'⟩ := ha.step hprog henv hs
  exact ⟨IsTrans.trans _ _ _ hg hg', ha'⟩

/-- Two calls that increase a counter from the same value are of one thread. -/
def Counted (c : σ → Nat) (P : Pool ι σ Λ ε α) : Prop :=
  ∀ (i j : Nat) (t t' : Thread ι σ Λ ε α) (x y : Entry σ Λ), P.threads[i]? = some t →
    P.threads[j]? = some t' → x ∈ t.log → y ∈ t'.log → c x.before < c x.after →
    c y.before < c y.after → c x.before = c y.before → i = j

/-- A call adds to the counter what no call before it has added. -/
theorem Counted.step {c : σ → Nat} (h : Counted c P)
    (hlog : ∀ t ∈ P.threads, ∀ x ∈ t.log, c x.after ≤ c P.state) (hs : S.step P m = some P') :
    Counted c P' := by
  intro i j t t' x y hi hj hx hy hlt hlt' he
  -- A call before the move has left the counter at most where the move finds it.
  have old {j : Nat} {t : Thread ι σ Λ ε α} {y : Entry σ Λ} (ht : P.threads[j]? = some t)
      (hy : y ∈ t.log) : c y.after ≤ c P.state := hlog t (List.mem_of_getElem? ht) y hy
  rcases entry_cases hs hi hx with ⟨t₀, hi₀, hx₀⟩ | ⟨rfl, hb, -⟩ <;>
    rcases entry_cases hs hj hy with ⟨t₀', hj₀, hy₀⟩ | ⟨hm, hb', -⟩
  · exact h i j t₀ t₀' x y hi₀ hj₀ hx₀ hy₀ hlt hlt' he
  · have := old hi₀ hx₀
    rw [hb'] at he
    omega
  · have := old hj₀ hy₀
    rw [hb] at he
    omega
  · exact Move.call.inj hm

theorem Run.counted {c : σ → Nat} (h : S.Run ok P P') (hnone : P.threads = [])
    (hprog : ∀ r, (S.program r).Always fun s s' => c s ≤ c s')
    (henv : ∀ m s, c s ≤ c (S.env m s)) : Counted c P' := by
  have : IsPreorder σ fun s s' => c s ≤ c s' :=
    { refl := fun _ => Nat.le_refl _, trans := fun _ _ _ => Nat.le_trans }
  refine (h.invariant (I := fun P => AllAlways (fun s s' => c s ≤ c s') P ∧ Counted c P)
    ⟨fun t ht => by simp [hnone] at ht, fun _ _ _ _ _ _ hi => by simp [hnone] at hi⟩ ?_).2
  rintro P m P' ⟨ha, hc⟩ - hs
  exact ⟨(ha.step hprog henv hs).2, hc.step (fun t ht x hx => ((ha t ht).2 x hx).2) hs⟩

end Always

end System

end Framework

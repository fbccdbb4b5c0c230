import AtlasAuth.Framework.Pool

/-!
# What a program can rely on between its calls

Between the calls of a program, others make theirs. What it can rely on all
the same is said by a `Rely`: an invariant of the state; a preorder in which the
state only goes up, so that what is stable under it is known from the time on
at which one of the program's own calls has seen it (`Knows`); and that a name
which the program has made of a number drawn from a counter is not in use, as
long as the program has not brought it into use itself (`Unspent`).

Each call keeps this up for the other programs (`Rely.Keeps`), and `Run.rely`
carries it through an interleaving. `Upholds` is the specification of a program
under these assumptions, with one rule for each way of putting programs
together.
-/

namespace Framework

open Prog (Entry)

variable {ι μ σ ν Λ ε α β : Type}

structure Rely (σ ν : Type) where
  inv : σ → Prop
  grow : σ → σ → Prop
  counter : σ → Nat
  /-- The number that the name is made of. -/
  number : ν → Nat
  used : σ → ν → Prop
  refl : ∀ s, grow s s
  trans : ∀ {a b c}, grow a b → grow b c → grow a c
  counter_le : ∀ {s s'}, grow s s' → counter s ≤ counter s'
  used_lt : ∀ {s a}, inv s → used s a → number a < counter s

namespace Rely

variable (R : Rely σ ν)

/-- The call drew the number of the name. -/
def Drew (a : ν) (x : Entry σ Λ) : Prop :=
  R.counter x.before = R.number a ∧ R.number a < R.counter x.after

/-- The program has drawn the number of the name, and none of its calls has
brought it into use. -/
structure Unspent (a : ν) (log : List (Entry σ Λ)) : Prop where
  drew : ∃ x ∈ log, R.Drew a x
  unused : ∀ x ∈ log, R.used x.after a → R.used x.before a

/-- What is known of the state after the calls `log`. -/
structure Known (log : List (Entry σ Λ)) (s : σ) : Prop where
  inv : R.inv s
  past : ∀ x ∈ log, R.inv x.after ∧ R.grow x.after s
  unused : ∀ a, R.Unspent a log → ¬R.used s a

/-- A call that keeps up what the other programs rely on. -/
structure Keeps (log : List (Entry σ Λ)) (x : Entry σ Λ) : Prop where
  inv : R.inv x.before → R.inv x.after
  grow : R.grow x.before x.after
  used : ∀ a, R.used x.after a → R.used x.before a ∨ ∃ y ∈ log, R.Drew a y

variable {R}

theorem Unspent.cons {a : ν} {log : List (Entry σ Λ)} {x : Entry σ Λ} (h : R.Unspent a log)
    (hx : R.used x.after a → R.used x.before a) : R.Unspent a (x :: log) where
  drew := h.drew.imp fun _ h => ⟨List.mem_cons_of_mem _ h.1, h.2⟩
  unused := List.forall_mem_cons.mpr ⟨hx, h.unused⟩

/-- A name whose number has just been drawn. -/
theorem Known.unspent {log : List (Entry σ Λ)} {l : Λ} {s s' : σ} {a : ν} (h : R.Known log s)
    (ha : R.counter s = R.number a) (hlt : R.number a < R.counter s')
    (hx : R.used s' a → R.used s a) : R.Unspent a (⟨l, s, s'⟩ :: log) where
  drew := ⟨_, List.mem_cons_self .., ha, hlt⟩
  unused := by
    refine List.forall_mem_cons.mpr ⟨hx, fun y hy hu => ?_⟩
    -- A name in use at an earlier call was drawn before it.
    obtain ⟨hi, hg⟩ := h.past y hy
    exact absurd (R.used_lt hi hu) (Nat.not_lt.mpr (ha ▸ R.counter_le hg))

end Rely

/-- It held after one of the calls. -/
def Knows (N : σ → Prop) (log : List (Entry σ Λ)) : Prop := ∃ x ∈ log, N x.after

section

variable {R : Rely σ ν} {N : σ → Prop} {log log' : List (Entry σ Λ)}

theorem Knows.suffix (h : Knows N log) (hl : log <:+ log') : Knows N log' :=
  h.imp fun _ h => ⟨hl.subset h.1, h.2⟩

theorem Knows.imp {N' : σ → Prop} (h : Knows N log) (hN : ∀ s, N s → N' s) : Knows N' log :=
  Exists.imp (fun _ h => ⟨h.1, hN _ h.2⟩) h

/-- It held after a call of the program's own, which was `l`. -/
def Did (l : Λ) (N : σ → Prop) (log : List (Entry σ Λ)) : Prop := ∃ x ∈ log, x.label = l ∧ N x.after

theorem Did.suffix {l : Λ} (h : Did l N log) (hl : log <:+ log') : Did l N log' :=
  h.imp fun _ h => ⟨hl.subset h.1, h.2⟩

theorem Did.knows {l : Λ} (h : Did l N log) : Knows N log :=
  Exists.imp (fun _ h => ⟨h.1, h.2.2⟩) h

/-- What was seen is still so. -/
theorem Knows.now {s : σ} (h : Knows N log) (hk : R.Known log s)
    (hN : ∀ s s', R.grow s s' → N s → N s') : N s := by
  obtain ⟨x, hx, h⟩ := h
  exact hN _ _ (hk.past x hx).2 h

end

/-! ## Programs -/

/-- Where a program can rely on `R`, each of its calls satisfies `J`, and what it
returns `M`. -/
def Upholds (R : Rely σ ν) (J : List (Entry σ Λ) → Entry σ Λ → Prop)
    (M : List (Entry σ Λ) → α → Prop) (p : Prog σ Λ ε α) (log : List (Entry σ Λ)) : Prop :=
  p.Obeys R.Known J (fun log' r => ∀ a, r = .ok a → M log' a) log

section

variable {R : Rely σ ν} {J : List (Entry σ Λ) → Entry σ Λ → Prop} {log : List (Entry σ Λ)}
  {M : List (Entry σ Λ) → β → Prop} {N : List (Entry σ Λ) → α → Prop}

theorem Upholds.throw (e : ε) : Upholds R J M (.throw e : Prog σ Λ ε β) log := nofun

theorem Upholds.ret {b : β} (h : M log b) : Upholds R J M (.ret b : Prog σ Λ ε β) log := by
  rintro _ ⟨⟩
  exact h

theorem Upholds.ofExcept {r : Except ε β} (h : ∀ b, r = .ok b → M log b) :
    Upholds R J M (.ofExcept r : Prog σ Λ ε β) log :=
  Prog.obeys_ofExcept.mpr h

/-- The log of a program only grows. -/
theorem Upholds.suffix {p : Prog σ Λ ε α} (hp : Upholds R J N p log) :
    p.Obeys R.Known J (fun log' r => log <:+ log' ∧ ∀ a, r = .ok a → N log' a) log := by
  have hlog : p.Obeys (fun _ _ => True) (fun _ _ => True) (fun log' _ => log <:+ log') log :=
    .of_suffix (fun _ _ _ => trivial) fun _ _ h => h
  exact Prog.Obeys.mono (Prog.Obeys.and hp hlog) (fun _ _ h => ⟨h, trivial⟩) (fun _ _ h => h.1)
    fun _ _ h => h.symm

theorem Upholds.bind {p : Prog σ Λ ε α} {k : α → Prog σ Λ ε β} (hp : Upholds R J N p log)
    (hk : ∀ a log', log <:+ log' → N log' a → Upholds R J M (k a) log') :
    Upholds R J M (p >>= k) log := by
  refine Prog.obeys_bind.mpr (hp.suffix.mono (fun _ _ h => h) (fun _ _ h => h) fun log' r h => ?_)
  cases r with
  | ok a => exact hk a log' h.1 (h.2 a rfl)
  | error e => exact nofun

theorem Upholds.handle {p : Prog σ Λ ε β} {k : ε → Prog σ Λ ε β} (hp : Upholds R J M p log)
    (hk : ∀ e log', log <:+ log' → Upholds R J M (k e) log') : Upholds R J M (p.handle k) log := by
  refine Prog.obeys_handle.mpr (hp.suffix.mono (fun _ _ h => h) (fun _ _ h => h) fun log' r h => ?_)
  cases r with
  | ok b => exact h.2
  | error e => exact hk e log' h.1

theorem Upholds.atomic {l : Λ} {f : σ → Except ε α × σ}
    (h : ∀ s, R.Known log s → J log ⟨l, s, (f s).2⟩ ∧
      ∀ a, (f s).1 = .ok a → N (⟨l, s, (f s).2⟩ :: log) a) : Upholds R J N (.atomic l f) log :=
  Prog.obeys_atomic.mpr ⟨h, fun _ => nofun⟩

/-- A read, and what follows it. -/
theorem Upholds.query {l : Λ} {f : σ → α} {k : α → Prog σ Λ ε β} (hJ : ∀ log l s, J log ⟨l, s, s⟩)
    (h : ∀ s log', log <:+ log' → ⟨l, s, s⟩ ∈ log' → R.Known log s → Upholds R J M (k (f s)) log') :
    Upholds R J M (.query l f >>= k) log :=
  .query_bind (fun _ => nofun) fun s hs =>
    ⟨hJ .., h s _ (List.suffix_cons ..) (List.mem_cons_self ..) hs⟩

theorem Upholds.ite {c : Prop} [Decidable c] {p q : Prog σ Λ ε β} (hp : c → Upholds R J M p log)
    (hq : ¬c → Upholds R J M q log) : Upholds R J M (if c then p else q) log := by
  split
  · exact hp ‹_›
  · exact hq ‹_›

theorem Upholds.mono {M' : List (Entry σ Λ) → β → Prop} {p : Prog σ Λ ε β}
    (h : Upholds R J M p log) (hM : ∀ log' b, log <:+ log' → M log' b → M' log' b) :
    Upholds R J M' p log :=
  h.suffix.mono (fun _ _ h => h) (fun _ _ h => h) fun _ _ h b e => hM _ _ h.1 (h.2 b e)

/-- A name stays unspent over a part that does not bring it into use. -/
theorem Upholds.unspent {a : ν} {p : Prog σ Λ ε α} (h : Upholds R J N p log) (ha : R.Unspent a log)
    (hp : p.Always fun s s' => R.used s' a → R.used s a) :
    Upholds R J (fun log' b => N log' b ∧ R.Unspent a log') p log := by
  have hlog : p.Obeys (fun _ _ => True) (fun _ _ => True) (fun log' _ => R.Unspent a log') log := by
    clear h
    induction p generalizing log with
    | ret b => exact ha
    | throw e => exact ha
    | call l next eff fail ihn ihf =>
      exact ⟨fun s _ => ⟨trivial, ihn s (ha.cons (hp.1 s).1) (hp.1 s).2⟩, fun e => ihf e ha (hp.2 e)⟩
  exact Prog.Obeys.mono (Prog.Obeys.and h hlog) (fun _ _ h => ⟨h, trivial⟩) (fun _ _ h => h.1)
    fun _ _ h b e => ⟨h.1 b e, h.2⟩

/-- What is known of the values stays so with another guarantee. -/
theorem Upholds.instead {J' : List (Entry σ Λ) → Entry σ Λ → Prop} {G : σ → σ → Prop}
    {p : Prog σ Λ ε α} (h : Upholds R J N p log) (hp : p.Always G)
    (hJ : ∀ log l s s', G s s' → J' log ⟨l, s, s'⟩) : Upholds R J' N p log :=
  (Prog.Obeys.and h (hp.obeys log)).mono (fun _ _ h => ⟨h, trivial⟩) (fun _ _ h => hJ _ _ _ _ h.2)
    fun _ _ h => h.1

/-- A program of which every call satisfies `J` by itself. -/
theorem Upholds.always {G : σ → σ → Prop} {p : Prog σ Λ ε β} (hp : p.Always G)
    (hJ : ∀ log l s s', G s s' → J log ⟨l, s, s'⟩) :
    Upholds R J (fun _ _ => True) p log :=
  hp.guarantee (fun _ _ _ _ _ h => hJ _ _ _ _ h) fun _ _ _ _ _ => trivial

end

/-! ## Runs -/

namespace System

variable {S : System ι μ σ Λ ε α} {P P' : Pool ι σ Λ ε α} {ok : Pool ι σ Λ ε α → Move ι μ ε → Prop}

/-- What has become of the names: each name in use was in use from the
beginning, or was drawn and brought into use by one and the same thread. -/
structure Named (R : Rely σ ν) (n₀ : Nat) (P : Pool ι σ Λ ε α) : Prop where
  counted : Counted R.counter P
  start : n₀ ≤ R.counter P.state
  drew : ∀ t ∈ P.threads, ∀ x ∈ t.log, n₀ ≤ R.counter x.before
  past : ∀ t ∈ P.threads, ∀ x ∈ t.log, R.inv x.after ∧ R.grow x.after P.state
  spent : ∀ a, R.used P.state a → R.number a < n₀ ∨ ∃ t ∈ P.threads, (∃ x ∈ t.log, R.Drew a x) ∧
    ∃ y ∈ t.log, R.used y.after a ∧ ¬R.used y.before a

variable {R : Rely σ ν} {J : ι → List (Entry σ Λ) → Entry σ Λ → Prop}
  {Q : ι → List (Entry σ Λ) → Except ε α → Prop} {n₀ : Nat} {a : ν} {m : Move ι μ ε}

theorem Named.known (h : Named R n₀ P) (hi : R.inv P.state) {t : Thread ι σ Λ ε α}
    (ht : t ∈ P.threads) : R.Known t.log P.state where
  inv := hi
  past := h.past t ht
  unused a ha hu := by
    obtain ⟨x, hx, e, hlt⟩ := ha.drew
    rcases h.spent _ hu with hlt' | ⟨t', ht', ⟨x', hx', e', hlt'⟩, y, hy, hafter, hbefore⟩
    · exact absurd (h.drew t ht x hx) (Nat.not_le.mpr (e ▸ hlt'))
    · obtain ⟨i, hi⟩ := List.getElem?_of_mem ht
      obtain ⟨j, hj⟩ := List.getElem?_of_mem ht'
      -- Only one thread has drawn the number.
      obtain rfl := h.counted i j t t' x x' hi hj hx hx' (e ▸ hlt) (e' ▸ hlt') (e.trans e'.symm)
      obtain rfl := Option.some.inj (hi.symm.trans hj)
      exact hbefore (ha.unused y hy hafter)

/-- A name in use stays accounted for. -/
theorem Named.later (h : Named R n₀ P) (hs : S.step P m = some P') (hu : R.used P.state a) :
    R.number a < n₀ ∨ ∃ t ∈ P'.threads, (∃ x ∈ t.log, R.Drew a x) ∧
      ∃ y ∈ t.log, R.used y.after a ∧ ¬R.used y.before a := by
  refine (h.spent a hu).imp_right fun ⟨t, ht, ⟨x, hx, hd⟩, y, hy, hb⟩ => ?_
  obtain ⟨i, hi⟩ := List.getElem?_of_mem ht
  obtain ⟨t', ht', -, hl⟩ := step_thread hs hi
  exact ⟨t', List.mem_of_getElem? ht', ⟨x, hl.subset hx, hd⟩, y, hl.subset hy, hb⟩

/-- What a move does to the state, of which the calls keep up `R`. -/
structure Moves (R : Rely σ ν) (P P' : Pool ι σ Λ ε α) : Prop where
  inv : R.inv P'.state
  grow : R.grow P.state P'.state
  used : ∀ a, R.used P'.state a → R.used P.state a ∨ ∃ t ∈ P'.threads, (∃ x ∈ t.log, R.Drew a x) ∧
    ∃ y ∈ t.log, R.used y.after a ∧ ¬R.used y.before a

theorem Named.step (h : Named R n₀ P) (hm : Moves R P P') (hs : S.step P m = some P') :
    Named R n₀ P' where
  counted := h.counted.step (fun t ht x hx => R.counter_le (h.past t ht x hx).2) hs
  start := Nat.le_trans h.start (R.counter_le hm.grow)
  drew t ht x hx := by
    obtain ⟨i, hi⟩ := List.getElem?_of_mem ht
    rcases entry_cases hs hi hx with ⟨t₀, ht₀, hx₀⟩ | ⟨-, hb, -⟩
    · exact h.drew t₀ (List.mem_of_getElem? ht₀) x hx₀
    · exact hb ▸ h.start
  past t ht x hx := by
    obtain ⟨i, hi⟩ := List.getElem?_of_mem ht
    rcases entry_cases hs hi hx with ⟨t₀, ht₀, hx₀⟩ | ⟨-, -, ha⟩
    · exact (h.past t₀ (List.mem_of_getElem? ht₀) x hx₀).imp_right fun hg => R.trans hg hm.grow
    · rw [ha]
      exact ⟨hm.inv, R.refl _⟩
  spent a hu := by
    rcases hm.used a hu with hu | ht
    · exact h.later hs hu
    · exact .inr ht

/-- What holds of every pool that a run reaches. -/
structure Relied (R : Rely σ ν) (J : ι → List (Entry σ Λ) → Entry σ Λ → Prop)
    (Q : ι → List (Entry σ Λ) → Except ε α → Prop) (P : Pool ι σ Λ ε α) : Prop where
  inv : R.inv P.state
  known : ∀ t ∈ P.threads, R.Known t.log P.state
  obeys : ObeyFrom (fun _ => R.Known) (fun r log x => R.Keeps log x ∧ J r log x) Q 0 P

/-- Programs that keep up what they rely on can rely on it. -/
theorem Run.rely (h : S.Run ok P P') (hnone : P.threads = [])
    (hprog : ∀ r, (S.program r).Obeys R.Known (fun log x => R.Keeps log x ∧ J r log x) (Q r) [])
    (henv : ∀ m s, R.grow s (S.env m s) ∧ (R.inv s → R.inv (S.env m s)) ∧
      ∀ a, R.used (S.env m s) a → R.used s a)
    (h0 : R.inv P.state) : Relied R J Q P' := by
  suffices hI : Named R (R.counter P.state) P' ∧ Relied R J Q P' from hI.2
  refine h.invariant (I := fun P' => Named R (R.counter P.state) P' ∧ Relied R J Q P') ⟨?_, ?_⟩ ?_
  · exact ⟨fun _ _ _ _ _ _ hi => by simp [hnone] at hi, Nat.le_refl _, by simp [hnone],
      by simp [hnone], fun a hu => .inl (R.used_lt h0 hu)⟩
  · exact ⟨h0, by simp [hnone], fun i t _ ht => by simp [hnone] at ht⟩
  rintro P₁ m P₂ ⟨hnamed, hi, hknown, hobeys⟩ - hs
  have hA (i : Nat) (t : Thread ι σ Λ ε α) (ht : P₁.threads[i]? = some t) :
      R.Known t.log P₁.state := hknown t (List.mem_of_getElem? ht)
  have hm : Moves R P₁ P₂ := by
    rcases step_cases hs with ⟨_, _, rfl⟩ | ⟨i, r, log, l, next, eff, fail, -, ht, rfl⟩ |
      ⟨_, _, _, _, _, _, _, _, _, _, rfl⟩ | ⟨x, _, rfl⟩
    · exact ⟨hi, R.refl _, fun _ => .inl⟩
    · have hk := (hobeys.call (Nat.zero_le i) ht (hA i _ ht)).1
      refine ⟨hk.inv hi, hk.grow, fun a hu => ?_⟩
      by_cases hu₁ : R.used P₁.state a
      · exact .inl hu₁
      obtain ⟨y, hy, hd⟩ := (hk.used a hu).resolve_left hu₁
      refine .inr ⟨_, List.mem_of_getElem? (List.getElem?_set_self (List.getElem?_eq_some_iff.mp ht).1),
        ⟨y, List.mem_cons_of_mem _ hy, hd⟩, _, List.mem_cons_self .., hu, hu₁⟩
    · exact ⟨hi, R.refl _, fun _ => .inl⟩
    · exact ⟨(henv x _).2.1 hi, (henv x _).1, fun a hu => .inl ((henv x _).2.2 a hu)⟩
  have hnamed := hnamed.step hm hs
  exact ⟨hnamed, hm.inv, fun t ht => hnamed.known hm.inv ht,
    hobeys.step hprog (fun i t _ ht => hA i t ht) hs⟩

end System

end Framework

import AtlasAuth.Framework.Pool

/-!
# One request after the other

`Prog.Exec R` is a program that runs alone, but for what `R` lets happen to
the state before each of its calls; `Prog.run` is the case in which nothing
happens (`exec_run`). Its rules follow the constructors, so that what a
program did is read off its text; `Ensures` is what holds after every
execution, with the rules of a weakest precondition.

`System.Trace` is a sequence of requests each of which completes before the
next one begins, with the environment free to act at any time.
-/

namespace Framework

variable {ι μ σ Λ ε α β : Type}

namespace Prog

/-- Alone but for `R` before each call, the program goes from the first state
to the last with this outcome. -/
def Exec (R : σ → σ → Prop) : Prog σ Λ ε α → σ → Except ε α → σ → Prop
  | .ret a, s, r, s' => r = .ok a ∧ s' = s
  | .throw e, s, r, s' => r = .error e ∧ s' = s
  | .call _ next eff _, s, r, s' => ∃ s₁, R s s₁ ∧ (next s₁).Exec R (eff s₁) r s'

section Exec

variable {R : σ → σ → Prop} {s s' : σ} {r : Except ε α}

@[simp] theorem exec_ret {a : α} :
    (Prog.ret a : Prog σ Λ ε α).Exec R s r s' ↔ r = .ok a ∧ s' = s := Iff.rfl

@[simp] theorem exec_throw {e : ε} :
    (Prog.throw e : Prog σ Λ ε α).Exec R s r s' ↔ r = .error e ∧ s' = s := Iff.rfl

@[simp] theorem exec_ofExcept {x : Except ε α} :
    (ofExcept x : Prog σ Λ ε α).Exec R s r s' ↔ r = x ∧ s' = s := by
  cases x <;> rfl

@[simp] theorem exec_atomic {l : Λ} {f : σ → Except ε α × σ} :
    (atomic l f).Exec R s r s' ↔ ∃ s₁, R s s₁ ∧ r = (f s₁).1 ∧ s' = (f s₁).2 := by
  simp [atomic, Exec]

@[simp] theorem exec_query {l : Λ} {f : σ → α} :
    (query l f).Exec R s r s' ↔ R s s' ∧ r = .ok (f s') := by
  simp only [query, exec_atomic]
  constructor
  · rintro ⟨s₁, hR, rfl, rfl⟩
    exact ⟨hR, rfl⟩
  · rintro ⟨hR, rfl⟩
    exact ⟨s', hR, rfl, rfl⟩

theorem exec_bind {p : Prog σ Λ ε β} {k : β → Prog σ Λ ε α} :
    (p >>= k).Exec R s r s' ↔
      (∃ b s₁, p.Exec R s (.ok b) s₁ ∧ (k b).Exec R s₁ r s') ∨
      (∃ e, p.Exec R s (.error e) s' ∧ r = .error e) := by
  show (p.bind k).Exec R s r s' ↔ _
  induction p generalizing s with
  | ret b => simp [bind]
  | throw e => simp [bind, and_comm]
  | call l next eff fail ih _ =>
    simp only [bind, Exec, ih]
    constructor
    · rintro ⟨s₁, hR, ⟨b, s₂, hp, hk⟩ | ⟨e, hp, rfl⟩⟩
      · exact .inl ⟨b, s₂, ⟨s₁, hR, hp⟩, hk⟩
      · exact .inr ⟨e, ⟨s₁, hR, hp⟩, rfl⟩
    · rintro (⟨b, s₂, ⟨s₁, hR, hp⟩, hk⟩ | ⟨e, ⟨s₁, hR, hp⟩, rfl⟩)
      · exact ⟨s₁, hR, .inl ⟨b, s₂, hp, hk⟩⟩
      · exact ⟨s₁, hR, .inr ⟨e, hp, rfl⟩⟩

/-- A program whose result is only wrapped. -/
theorem exec_map {p : Prog σ Λ ε β} {f : β → α} :
    (p >>= fun b => .ret (f b)).Exec R s r s' ↔ ∃ x, p.Exec R s x s' ∧ r = x.map f := by
  rw [exec_bind]
  constructor
  · rintro (⟨b, _, hp, rfl, rfl⟩ | ⟨e, hp, rfl⟩)
    · exact ⟨_, hp, rfl⟩
    · exact ⟨_, hp, rfl⟩
  · rintro ⟨e | b, hp, rfl⟩
    · exact .inr ⟨e, hp, rfl⟩
    · exact .inl ⟨b, s', hp, rfl, rfl⟩

theorem exec_handle {p : Prog σ Λ ε α} {h : ε → Prog σ Λ ε α} :
    (p.handle h).Exec R s r s' ↔
      (∃ a, p.Exec R s (.ok a) s' ∧ r = .ok a) ∨
      (∃ e s₁, p.Exec R s (.error e) s₁ ∧ (h e).Exec R s₁ r s') := by
  induction p generalizing s with
  | ret a => simp [handle, and_comm]
  | throw e => simp [handle]
  | call l next eff fail ih _ =>
    simp only [handle, Exec, ih]
    constructor
    · rintro ⟨s₁, hR, ⟨a, hp, rfl⟩ | ⟨e, s₂, hp, hh⟩⟩
      · exact .inl ⟨a, ⟨s₁, hR, hp⟩, rfl⟩
      · exact .inr ⟨e, s₂, ⟨s₁, hR, hp⟩, hh⟩
    · rintro (⟨a, ⟨s₁, hR, hp⟩, rfl⟩ | ⟨e, s₂, ⟨s₁, hR, hp⟩, hh⟩)
      · exact ⟨s₁, hR, .inl ⟨a, hp, rfl⟩⟩
      · exact ⟨s₁, hR, .inr ⟨e, s₂, hp, hh⟩⟩

/-- The execution during which nothing else happens. -/
theorem exec_run (hR : ∀ s, R s s) (p : Prog σ Λ ε α) (s : σ) :
    p.Exec R s (p.run s).1 (p.run s).2 := by
  induction p generalizing s with
  | ret a => exact ⟨rfl, rfl⟩
  | throw e => exact ⟨rfl, rfl⟩
  | call l next eff fail ih _ => exact ⟨s, hR s, ih s (eff s)⟩

/-- A preorder that every call respects, and that `R` implies, relates the
first and the last state. -/
theorem Exec.always {G : σ → σ → Prop} [IsPreorder σ G] {p : Prog σ Λ ε α}
    (h : p.Exec R s r s') (hp : p.Always G) (hR : ∀ s s', R s s' → G s s') : G s s' := by
  induction p generalizing s with
  | ret a => exact h.2 ▸ Std.Refl.refl _
  | throw e => exact h.2 ▸ Std.Refl.refl _
  | call l next eff fail ih _ =>
    obtain ⟨s₁, h₁, h⟩ := h
    obtain ⟨hg, hn⟩ := hp.1 s₁
    exact IsTrans.trans _ _ _ (hR _ _ h₁) (IsTrans.trans _ _ _ hg (ih s₁ h hn))

theorem Exec.mono {R' : σ → σ → Prop} {p : Prog σ Λ ε α} (h : p.Exec R s r s')
    (hR : ∀ s s', R s s' → R' s s') : p.Exec R' s r s' := by
  induction p generalizing s with
  | ret a => exact h
  | throw e => exact h
  | call l next eff fail ih _ =>
    obtain ⟨s₁, h₁, h⟩ := h
    exact ⟨s₁, hR _ _ h₁, ih s₁ h⟩

/-- Every state in which a call is made comes before the last one. -/
theorem Exec.before {G : σ → σ → Prop} [IsPreorder σ G] {p : Prog σ Λ ε α}
    (h : p.Exec R s r s') (hp : p.Always G) (hR : ∀ s s', R s s' → G s s') :
    p.Exec (fun s s₁ => R s s₁ ∧ G s₁ s') s r s' := by
  induction p generalizing s with
  | ret a => exact h
  | throw e => exact h
  | call l next eff fail ih _ =>
    obtain ⟨s₁, h₁, h⟩ := h
    obtain ⟨hg, hn⟩ := hp.1 s₁
    exact ⟨s₁, ⟨h₁, IsTrans.trans _ _ _ hg (h.always hn hR)⟩, ih s₁ h hn⟩

end Exec

/-- After every execution from the state `s`, `Q` holds of its outcome and of
the state it leaves. -/
def Ensures (R : σ → σ → Prop) (Q : Except ε α → σ → Prop) (p : Prog σ Λ ε α) (s : σ) : Prop :=
  ∀ r s', p.Exec R s r s' → Q r s'

section Ensures

variable {R : σ → σ → Prop} {Q : Except ε α → σ → Prop} {s : σ}

@[simp] theorem ensures_ret {a : α} :
    (Prog.ret a : Prog σ Λ ε α).Ensures R Q s ↔ Q (.ok a) s := by
  simp [Ensures]

@[simp] theorem ensures_throw {e : ε} :
    (Prog.throw e : Prog σ Λ ε α).Ensures R Q s ↔ Q (.error e) s := by
  simp [Ensures]

@[simp] theorem ensures_ofExcept {x : Except ε α} :
    (ofExcept x : Prog σ Λ ε α).Ensures R Q s ↔ Q x s := by
  simp [Ensures]

@[simp] theorem ensures_atomic {l : Λ} {f : σ → Except ε α × σ} :
    (atomic l f).Ensures R Q s ↔ ∀ s₁, R s s₁ → Q (f s₁).1 (f s₁).2 := by
  simp only [Ensures, exec_atomic]
  constructor
  · exact fun h s₁ hR => h _ _ ⟨s₁, hR, rfl, rfl⟩
  · rintro h r s' ⟨s₁, hR, rfl, rfl⟩
    exact h s₁ hR

@[simp] theorem ensures_query {l : Λ} {f : σ → α} :
    (query l f).Ensures R Q s ↔ ∀ s₁, R s s₁ → Q (.ok (f s₁)) s₁ := by
  simp [query]

theorem ensures_bind {p : Prog σ Λ ε β} {k : β → Prog σ Λ ε α} :
    (p >>= k).Ensures R Q s ↔
      p.Ensures R (fun r s' => match r with
        | .ok b => (k b).Ensures R Q s'
        | .error e => Q (.error e) s') s := by
  simp only [Ensures, exec_bind]
  constructor
  · rintro h (e | b) s' hp
    · exact h _ _ (.inr ⟨e, hp, rfl⟩)
    · exact fun r s'' hk => h r s'' (.inl ⟨b, s', hp, hk⟩)
  · rintro h r s' (⟨b, s₁, hp, hk⟩ | ⟨e, hp, rfl⟩)
    · exact h (.ok b) s₁ hp r s' hk
    · exact h (.error e) s' hp

theorem Ensures.bind {p : Prog σ Λ ε β} {k : β → Prog σ Λ ε α} {M : Except ε β → σ → Prop}
    (hp : p.Ensures R M s) (hk : ∀ b s', M (.ok b) s' → (k b).Ensures R Q s')
    (he : ∀ e s', M (.error e) s' → Q (.error e) s') : (p >>= k).Ensures R Q s := by
  refine ensures_bind.mpr fun r s' h => ?_
  cases r with
  | ok b => exact hk b s' (hp _ _ h)
  | error e => exact he e s' (hp _ _ h)

/-- A program that succeeds, and what follows it. -/
theorem Ensures.bind_of_ok {p : Prog σ Λ ε β} {k : β → Prog σ Λ ε α} {M : β → σ → Prop}
    (hp : p.Ensures R (fun r s' => ∃ b, r = .ok b ∧ M b s') s)
    (hk : ∀ b s', M b s' → (k b).Ensures R Q s') : (p >>= k).Ensures R Q s := by
  refine ensures_bind.mpr fun r s' h => ?_
  obtain ⟨b, rfl, hM⟩ := hp r s' h
  exact hk b s' hM

/-- A read, and what follows it. -/
theorem Ensures.query_bind {l : Λ} {f : σ → β} {k : β → Prog σ Λ ε α}
    (h : ∀ s', R s s' → (k (f s')).Ensures R Q s') : (query l f >>= k).Ensures R Q s :=
  ensures_bind.mpr (ensures_query.mpr h)

/-- A call, and what follows it when it succeeds. -/
theorem Ensures.atomic_bind {l : Λ} {f : σ → Except ε β × σ} {k : β → Prog σ Λ ε α}
    (h : ∀ s', R s s' → match (f s').1 with
      | .ok b => (k b).Ensures R Q (f s').2
      | .error e => Q (.error e) (f s').2) : (atomic l f >>= k).Ensures R Q s :=
  ensures_bind.mpr (ensures_atomic.mpr h)

theorem ensures_handle {p : Prog σ Λ ε α} {h : ε → Prog σ Λ ε α} :
    (p.handle h).Ensures R Q s ↔
      p.Ensures R (fun r s' => match r with
        | .ok a => Q (.ok a) s'
        | .error e => (h e).Ensures R Q s') s := by
  simp only [Ensures, exec_handle]
  constructor
  · rintro H (e | a) s' hp
    · exact fun r s'' hk => H r s'' (.inr ⟨e, s', hp, hk⟩)
    · exact H _ _ (.inl ⟨a, hp, rfl⟩)
  · rintro H r s' (⟨a, hp, rfl⟩ | ⟨e, s₁, hp, hk⟩)
    · exact H (.ok a) s' hp
    · exact H (.error e) s₁ hp r s' hk

theorem Ensures.ite {c : Prop} [Decidable c] {p q : Prog σ Λ ε α} (hp : c → p.Ensures R Q s)
    (hq : ¬c → q.Ensures R Q s) : (if c then p else q).Ensures R Q s := by
  split
  · exact hp ‹_›
  · exact hq ‹_›

theorem Ensures.and {Q' : Except ε α → σ → Prop} {p : Prog σ Λ ε α} (h : p.Ensures R Q s)
    (h' : p.Ensures R Q' s) : p.Ensures R (fun r s' => Q r s' ∧ Q' r s') s :=
  fun r s' he => ⟨h r s' he, h' r s' he⟩

theorem Always.ensures {G : σ → σ → Prop} [IsPreorder σ G] {p : Prog σ Λ ε α} (hp : p.Always G)
    (hR : ∀ s s', R s s' → G s s') (s : σ) : p.Ensures R (fun _ s' => G s s') s :=
  fun _ _ h => h.always hp hR

theorem Returns.ensures {M : α → Prop} {p : Prog σ Λ ε α} (hp : p.Returns M) (s : σ) :
    p.Ensures R (fun r _ => ∀ a, r = .ok a → M a) s := by
  intro r s' h
  induction p generalizing s with
  | ret a => obtain ⟨rfl, -⟩ := h; rintro _ ⟨⟩; exact hp
  | throw e => obtain ⟨rfl, -⟩ := h; rintro _ ⟨⟩
  | call l next eff fail ih _ =>
    obtain ⟨s₁, -, h⟩ := h
    exact ih s₁ (hp.1 s₁) _ h

theorem Ensures.mono {Q' : Except ε α → σ → Prop} {p : Prog σ Λ ε α} (h : p.Ensures R Q s)
    (hQ : ∀ r s', Q r s' → Q' r s') : p.Ensures R Q' s :=
  fun r s' he => hQ r s' (h r s' he)

/-- If less may happen between the calls. -/
theorem Ensures.of_rel {R' : σ → σ → Prop} {p : Prog σ Λ ε α} (h : p.Ensures R Q s)
    (hR : ∀ s s', R' s s' → R s s') : p.Ensures R' Q s :=
  fun r s' he => h r s' (he.mono hR)

end Ensures

end Prog

/-- A request that has completed. -/
structure Done (ι σ ε α : Type) where
  req : ι
  before : σ
  outcome : Except ε α
  after : σ

namespace System

/-- What the environment may do between two calls. -/
def lapse (S : System ι μ σ Λ ε α) (s s' : σ) : Prop := ∃ m, s' = S.env m s

/-- The completed requests, in their order, that lead from `s` to a state; the
outcome of each satisfies `ok`. -/
inductive Trace (S : System ι μ σ Λ ε α) (ok : Except ε α → Prop) (s : σ) :
    List (Done ι σ ε α) → σ → Prop
  | nil : Trace S ok s [] s
  | env {tr s₁} (m : μ) : Trace S ok s tr s₁ → Trace S ok s tr (S.env m s₁)
  | done {tr s₁ x s₂} {r : ι} : Trace S ok s tr s₁ → (S.program r).Exec S.lapse s₁ x s₂ → ok x →
      Trace S ok s (tr ++ [⟨r, s₁, x, s₂⟩]) s₂

variable {S : System ι μ σ Λ ε α} {ok : Except ε α → Prop} {s s' s'' : σ}
  {tr tr' : List (Done ι σ ε α)}

theorem Trace.trans (h : S.Trace ok s tr s') (h' : S.Trace ok s' tr' s'') :
    S.Trace ok s (tr ++ tr') s'' := by
  induction h' with
  | nil => simpa using h
  | env m _ ih => exact .env m ih
  | done _ he hok ih => rw [← List.append_assoc]; exact .done ih he hok

theorem Trace.one {r : ι} {x : Except ε α} (h : (S.program r).Exec S.lapse s x s') (hok : ok x) :
    S.Trace ok s [⟨r, s, x, s'⟩] s' :=
  .done .nil h hok

/-- The induction over a trace. -/
theorem Trace.invariant {I : σ → Prop} (h : S.Trace ok s tr s') (h0 : I s)
    (henv : ∀ m s, I s → I (S.env m s))
    (hdone : ∀ r s x s', I s → (S.program r).Exec S.lapse s x s' → ok x → I s') : I s' := by
  induction h with
  | nil => exact h0
  | env m _ ih => exact henv m _ ih
  | done _ he hok ih => exact hdone _ _ _ _ ih he hok

theorem Trace.always {G : σ → σ → Prop} [IsPreorder σ G] (h : S.Trace ok s tr s')
    (hprog : ∀ r, (S.program r).Always G) (henv : ∀ m s, G s (S.env m s)) : G s s' := by
  refine h.invariant (I := G s) (Std.Refl.refl _)
    (fun m s₁ hg => IsTrans.trans _ _ _ hg (henv m s₁)) fun r s₁ x s₂ hg he _ => ?_
  refine IsTrans.trans _ _ _ hg (he.always (hprog r) ?_)
  rintro _ _ ⟨m, rfl⟩
  exact henv m _

/-- A request of a trace, with what came before it and what came after. -/
theorem Trace.mem (h : S.Trace ok s tr s') {d : Done ι σ ε α} (hd : d ∈ tr) :
    ∃ tr₁ tr₂, S.Trace ok s tr₁ d.before ∧
      (S.program d.req).Exec S.lapse d.before d.outcome d.after ∧ ok d.outcome ∧
      S.Trace ok d.after tr₂ s' := by
  induction h with
  | nil => cases hd
  | env m _ ih =>
    obtain ⟨tr₁, tr₂, h₁, he, hok, h₂⟩ := ih hd
    exact ⟨tr₁, tr₂, h₁, he, hok, .env m h₂⟩
  | done h he hok ih =>
    rcases List.mem_append.mp hd with hd | hd
    · obtain ⟨tr₁, tr₂, h₁, he', hok', h₂⟩ := ih hd
      exact ⟨tr₁, _, h₁, he', hok', .done h₂ he hok⟩
    · obtain rfl := List.mem_singleton.mp hd
      exact ⟨_, [], h, he, hok, .nil⟩

/-- A fact that some requests bring about, and that nothing else brings about or
undoes, holds if and only if one of them has completed. -/
theorem Trace.exists_iff {P : σ → Prop} {Q : Done ι σ ε α → Prop} (h : S.Trace ok s tr s')
    (h0 : ¬P s) (henv : ∀ m s, P (S.env m s) ↔ P s)
    (hdone : ∀ {tr s₁ r x s₂}, S.Trace ok s tr s₁ → (S.program r).Exec S.lapse s₁ x s₂ → ok x →
      (P s₂ ↔ P s₁ ∨ Q ⟨r, s₁, x, s₂⟩)) : P s' ↔ ∃ d ∈ tr, Q d := by
  induction h with
  | nil => exact iff_of_false h0 fun ⟨_, hd, _⟩ => by cases hd
  | env m _ ih => exact (henv m _).trans ih
  | done h he hok ih => simp [hdone h he hok, ih, or_and_right, exists_or]

/-- The requests one after the other, each after a move of the environment and
alone from then on. -/
def serve (S : System ι μ σ Λ ε α) : List (μ × ι) → σ → List (Done ι σ ε α) × σ
  | [], s => ([], s)
  | (m, r) :: rs, s =>
    let x := (S.program r).run (S.env m s)
    let rest := S.serve rs x.2
    (⟨r, S.env m s, x.1, x.2⟩ :: rest.1, rest.2)

theorem Trace.serve (henv : ∀ s, S.lapse s s) {rs : List (μ × ι)}
    (hok : ∀ d ∈ (S.serve rs s).1, ok d.outcome) :
    S.Trace ok s (S.serve rs s).1 (S.serve rs s).2 := by
  induction rs generalizing s with
  | nil => exact .nil
  | cons mr rs ih =>
    have hrest := ih fun d hd => hok d (List.mem_cons_of_mem _ hd)
    exact (Trace.done (.env mr.1 .nil) (Prog.exec_run henv _ _)
      (hok _ (List.mem_cons_self ..))).trans hrest

end System

end Framework

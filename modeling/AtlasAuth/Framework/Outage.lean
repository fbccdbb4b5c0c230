import AtlasAuth.Framework.Faulty

/-!
# Programs during an outage

`Prog.failing F e p` is the program `p` while every call with a label in `F`
fails with the exception `e`. It is again a program, and `failing` commutes
with what programs are made of, so that the rules of `Exec` and `Ensures`
follow its text as they follow that of `p`: at each call that is in `F` it
throws (`failing_atomic`).
-/

namespace Framework

variable {ι μ σ Λ ε α β : Type}

namespace Prog

def failing (F : Λ → Prop) [DecidablePred F] (e : ε) : Prog σ Λ ε α → Prog σ Λ ε α
  | .ret a => .ret a
  | .throw e' => .throw e'
  | .call l next eff fail =>
    if F l then (fail e).failing F e
    else .call l (fun s => (next s).failing F e) eff fun e' => (fail e').failing F e

section

variable {F : Λ → Prop} [DecidablePred F] {e : ε}

@[simp] theorem failing_ret {a : α} : (Prog.ret a : Prog σ Λ ε α).failing F e = .ret a := rfl
@[simp] theorem failing_throw {e' : ε} : (Prog.throw e' : Prog σ Λ ε α).failing F e = .throw e' := rfl

@[simp] theorem failing_ofExcept {r : Except ε α} :
    (ofExcept r : Prog σ Λ ε α).failing F e = ofExcept r := by
  cases r <;> rfl

theorem failing_atomic {l : Λ} {f : σ → Except ε α × σ} :
    (atomic l f).failing F e = if F l then .throw e else atomic l f := by
  simp only [atomic, failing, failing_ofExcept]

@[simp] theorem failing_bind {p : Prog σ Λ ε β} {k : β → Prog σ Λ ε α} :
    (p >>= k).failing F e = p.failing F e >>= fun b => (k b).failing F e := by
  show (p.bind k).failing F e = (p.failing F e).bind _
  induction p with
  | ret b => rfl
  | throw e' => rfl
  | call l next eff fail ihn ihf =>
    simp only [bind, failing]
    split
    · exact ihf e
    · simp only [bind, ihn, ihf]

@[simp] theorem failing_handle {p : Prog σ Λ ε α} {h : ε → Prog σ Λ ε α} :
    (p.handle h).failing F e = (p.failing F e).handle fun e' => (h e').failing F e := by
  induction p with
  | ret a => rfl
  | throw e' => rfl
  | call l next eff fail ihn ihf =>
    simp only [handle, failing]
    split
    · exact ihf e
    · simp only [handle, ihn, ihf]

theorem Always.failing {G : σ → σ → Prop} {p : Prog σ Λ ε α} (hp : p.Always G) :
    (p.failing F e).Always G := by
  induction p with
  | ret a => trivial
  | throw e' => trivial
  | call l next eff fail ihn ihf =>
    rw [Prog.failing]
    split
    · exact ihf e (hp.2 e)
    · exact ⟨fun s => ⟨(hp.1 s).1, ihn s (hp.1 s).2⟩, fun e' => ihf e' (hp.2 e')⟩

end

section

variable {F : Λ → Prop} [DecidablePred F] {e : ε} {R : σ → σ → Prop} {Q : Except ε α → σ → Prop}
  {s : σ}

/-- A call that may be down, and what follows it when it is not. -/
theorem Ensures.failing_atomic_bind {l : Λ} {f : σ → Except ε β × σ} {k : β → Prog σ Λ ε α}
    (he : F l → Q (.error e) s) (h : ¬F l → ∀ s', R s s' → match (f s').1 with
      | .ok b => ((k b).failing F e).Ensures R Q (f s').2
      | .error e => Q (.error e) (f s').2) :
    ((atomic l f >>= k).failing F e).Ensures R Q s := by
  rw [failing_bind, failing_atomic]
  split
  · exact ensures_throw.mpr (he ‹_›)
  · exact .atomic_bind (h ‹_›)

/-- A read that may be down, and what follows it. -/
theorem Ensures.failing_query_bind {l : Λ} {f : σ → β} {k : β → Prog σ Λ ε α}
    (he : F l → Q (.error e) s)
    (h : ¬F l → ∀ s', R s s' → ((k (f s')).failing F e).Ensures R Q s') :
    ((query l f >>= k).failing F e).Ensures R Q s :=
  .failing_atomic_bind he h

theorem Ensures.failing_atomic {l : Λ} {f : σ → Except ε α × σ} (he : F l → Q (.error e) s)
    (h : ¬F l → ∀ s', R s s' → Q (f s').1 (f s').2) :
    ((atomic l f).failing F e).Ensures R Q s := by
  rw [Prog.failing_atomic]
  split
  · exact ensures_throw.mpr (he ‹_›)
  · exact ensures_atomic.mpr (h ‹_›)

theorem Ensures.failing_bind {M : Except ε β → σ → Prop} {p : Prog σ Λ ε β} {k : β → Prog σ Λ ε α}
    (hp : (p.failing F e).Ensures R M s)
    (hk : ∀ b s', M (.ok b) s' → ((k b).failing F e).Ensures R Q s')
    (he : ∀ e' s', M (.error e') s' → Q (.error e') s') :
    ((p >>= k).failing F e).Ensures R Q s := by
  rw [Prog.failing_bind]
  exact hp.bind hk he

theorem Ensures.failing_ite {c : Prop} [Decidable c] {p q : Prog σ Λ ε α}
    (hp : c → (p.failing F e).Ensures R Q s) (hq : ¬c → (q.failing F e).Ensures R Q s) :
    ((if c then p else q).failing F e).Ensures R Q s := by
  split
  · exact hp ‹_›
  · exact hq ‹_›

end

end Prog

end Framework

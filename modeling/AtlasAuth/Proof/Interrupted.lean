import AtlasAuth.Framework.Outage
import AtlasAuth.Proof.Issuable

/-!
# Requests one call of which fails

`CompletesWithout l` is a request that completes while the call `l` fails,
with no effect of its own; the calls before it have taken effect. Whatever
such a request leaves, the state has only grown (`completesWithout_grows`).
-/

namespace AtlasAuth

open Framework Framework.Table Prog

variable {env : Env} {w w' : World} {n : Nat} {l : Call} {e : Exn}

/-- A request that completes while the call `l` fails with `e`, with the clock
free to advance meanwhile. -/
def CompletesWithout (env : Env) (l : Call) (e : Exn) (r : Request) (w : World)
    (x : Except Exn Response) (w' : World) : Prop :=
  ((program env r).failing (· = l) e).Exec (system env).lapse w x w'

/-- A program that runs alone up to the time `n` while the call `l` fails. -/
abbrev Without {α : Type} (env : Env) (n : Time) (l : Call) (e : Exn) (p : App α) (w : World)
    (Q : Except Exn α → World → Prop) : Prop :=
  (p.failing (· = l) e).Ensures (lapseUntil env n) Q w

/-- A single call that succeeds, unless it is the one that fails. -/
theorem without_call {α : Type} {l₀ : Call} {f : World → Except Exn α × World} {M : α → World → Prop}
    (h : Delivers env n (.atomic l₀ f) w M) :
    Without env n l e (.atomic l₀ f) w fun r w' =>
      (∃ a, r = .ok a ∧ M a w') ∨ l = l₀ ∧ r = .error e ∧ w' = w :=
  .failing_atomic (fun hl => .inr ⟨hl.symm, rfl, rfl⟩) fun _ w₁ h₁ =>
    .inl (ensures_atomic.mp h w₁ h₁)

/-- Such a call, and what follows it when it succeeds. -/
theorem without_call_bind {α β : Type} {l₀ : Call} {f : World → Except Exn β × World}
    {M : β → World → Prop} {k : β → App α} {Q : Except Exn α → World → Prop}
    (h : Delivers env n (.atomic l₀ f) w M) (he : l = l₀ → Q (.error e) w)
    (hk : ∀ b w', M b w' → Without env n l e (k b) w' Q) :
    Without env n l e (.atomic l₀ f >>= k) w Q := by
  refine .failing_bind (without_call h) ?_ ?_
  · rintro b w' (⟨_, hb, hM⟩ | ⟨-, hb, -⟩)
    · obtain rfl := Except.ok.inj hb
      exact hk b w' hM
    · cases hb
  · rintro e' w' (⟨_, hb, -⟩ | ⟨hl, hb, rfl⟩)
    · cases hb
    · obtain rfl := Except.error.inj hb
      exact he hl

variable {r : Request} {x : Except Exn Response}

/-- Whatever the calls that fail, the state has only grown. -/
theorem failing_grows {F : Call → Prop} [DecidablePred F]
    (h : ((program env r).failing F e).Exec (system env).lapse w x w') : GrowsFresh env w w' :=
  Exec.always h (grows_program r).failing fun _ _ ⟨d, e⟩ => e ▸ GrowsFresh.advance d _

theorem failing_until {F : Call → Prop} [DecidablePred F]
    (h : ((program env r).failing F e).Exec (system env).lapse w x w') (hn : w'.now ≤ n) :
    ((program env r).failing F e).Exec (lapseUntil env n) w x w' := by
  have hg := Exec.before h (grows_program r).failing fun _ _ ⟨d, e⟩ => e ▸ GrowsFresh.advance d _
  exact hg.mono fun _ _ h => ⟨h.1, h.2.1.now.trans hn⟩

theorem completesWithout_grows (h : CompletesWithout env l e r w x w') : GrowsFresh env w w' :=
  failing_grows h

theorem completesWithout_until (h : CompletesWithout env l e r w x w') (hn : w'.now ≤ n) :
    ((program env r).failing (· = l) e).Exec (lapseUntil env n) w x w' := failing_until h hn

theorem completesWithout_run (l : Call) (e : Exn) (r : Request) (w : World) :
    CompletesWithout env l e r w (((program env r).failing (· = l) e).run w).1
      (((program env r).failing (· = l) e).run w).2 :=
  exec_run (fun _ => ⟨0, rfl⟩) _ _

end AtlasAuth

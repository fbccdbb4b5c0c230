import AtlasAuth.Framework.Once
import AtlasAuth.Proof.Deeds
import AtlasAuth.Proof.PasswordCalls

/-!
# How often a password reset token is used

A password reset looks its token up, and marks it consumed only after it has
hashed the new password and updated the row of the user. Two resets that both
look the token up before either has marked it both succeed, and set the
password one after the other (`resetTwice_updates`). As long as no reset looks
the token up while another one is pending, at most one succeeds and at most
one sets the password (`reset_at_most_once`).
-/

namespace AtlasAuth

open Framework Framework.Table Prog

variable {env : Env} {P P' : AppPool} {token : String}

/-- The reset token that a request presents. -/
def Request.resets : Request → Option String
  | .resetPassword token _ _ => some token
  | _ => none

/-- The reset token with this hash is in the table, and consumed. -/
def ResetSpent (hash : String) (w : World) : Prop :=
  ∃ t, w.passwordResetTokens.find? (·.tokenHash == hash) = some t ∧ t.consumedAt.isSome = true

/-- A lookup that found the reset token not consumed. -/
def FindsReset (hash : String) (x : Entry World Call) : Prop :=
  x.label = .passwordResetFindByHash hash ∧
    ∃ t ∈ x.before.passwordResetTokens.find? (·.tokenHash == hash), t.consumedAt = none

def MarksReset : Call → Bool
  | .passwordResetMarkConsumed _ => true
  | _ => false

/-- A reset token is looked up, used to set a password, and marked consumed. -/
def resetOnce (env : Env) (token : String) : Once Request World Call where
  uses r := r.resets = some token
  finds := FindsReset (env.sha256 token)
  acts l := Updates l = true
  marks l := MarksReset l = true
  spent := ResetSpent (env.sha256 token)

/-- The calls that decide who uses a reset token. -/
def DecidesReset : Call → Bool
  | .passwordResetFindByHash _ => true
  | l => Updates l || MarksReset l

theorem resetOnce_ignores : (resetOnce env token).Ignores fun l => ¬DecidesReset l := by
  intro x hx
  refine ⟨fun hf => ?_, fun ha => ?_, fun hm => ?_⟩
  · rw [hf.1] at hx
    exact hx rfl
  · cases hl : x.label <;> rw [hl] at hx ha <;> first | exact hx rfl | cases ha
  · cases hl : x.label <;> rw [hl] at hx hm <;> first | exact hx rfl | cases hm

/-! ## The state -/

/-- Reset links evolve. -/
def ResetsEvolve (w w' : World) : Prop :=
  Evolves PasswordResetToken.Keeps w.passwordResetTokens w'.passwordResetTokens

instance : IsPreorder World ResetsEvolve where
  refl _ := .refl PasswordResetToken.Keeps.refl _
  trans _ _ _ h h' := h.trans PasswordResetToken.Keeps.trans h'

theorem resetsEvolve_program (r : Request) : (program env r).Always ResetsEvolve :=
  (does_program r).mono fun _ _ => Does.resets

theorem ResetsEvolve.find? {w w' : World} {hash : String} {t : PasswordResetToken}
    (h : ResetsEvolve w w') (ht : w.passwordResetTokens.find? (·.tokenHash == hash) = some t) :
    ∃ t', w'.passwordResetTokens.find? (·.tokenHash == hash) = some t' ∧ t.Keeps t' :=
  Evolves.find? (fun a b (hk : PasswordResetToken.Keeps a b) => by rw [hk.2.2.1]) h ht

theorem ResetSpent.evolves {w w' : World} {hash : String} (h : ResetSpent hash w)
    (he : ResetsEvolve w w') : ResetSpent hash w' := by
  obtain ⟨t, ht, hc⟩ := h
  obtain ⟨t', ht', hk⟩ := he.find? ht
  exact ⟨t', ht', hk.2.2.2.2 hc⟩

/-- Reset links have only evolved since each call of the request. -/
def ResetsSince (log : List (Entry World Call)) (w : World) : Prop :=
  ∀ x ∈ log, ResetsEvolve x.before x.after ∧ ResetsEvolve x.after w

/-! ## One reset -/

theorem calls_revokeAll {L : Call → Prop} (h₁ : ∀ u, L (.sessionsFindUnrevoked u))
    (h₂ : ∀ ids, L (.sessionsRevokeMany ids)) (h₃ : ∀ key, L (.redisSet key)) (h₄ : L .emit)
    (u : String) (c : RequestContext) (k : Option String) :
    (SessionsService.revokeAll env u c k).Calls L := by
  refine .bind (.bind (calls_query.mpr (h₁ _)) fun _ => .ite trivial
    (.bind (calls_atomic.mpr (h₂ _)) fun _ => trivial)) fun _ => .bind calls_ofExcept fun _ =>
    .bind (calls_promiseAll fun p hp => ?_) fun _ => .bind (calls_atomic.mpr h₄) fun _ => trivial
  obtain ⟨s, -, rfl⟩ := List.mem_map.mp hp
  exact calls_blacklistSession h₃ ..

/-- The mark, on a token that was looked up. -/
theorem resetSpent_mark {hash : String} {w : World} {t : PasswordResetToken} {now : Time}
    (ht : w.passwordResetTokens.find? (·.tokenHash == hash) = some t) :
    ResetSpent hash
      { w with passwordResetTokens := updateWhere (·.id == t.id)
                 (fun t => { t with consumedAt := some now }) w.passwordResetTokens } := by
  simp only [ResetSpent]
  rw [find?_updateWhere (by exact fun _ _ => rfl), ht]
  exact ⟨_, rfl, by simp⟩

theorem obeys_resetPassword_once {r : Request} (token new : String) (c : RequestContext) :
    (PasswordService.resetPassword env token new c).Obeys ResetsSince
      ((resetOnce env token).Call r) ((resetOnce env token).Done r) [] := by
  have hig : (resetOnce env token).Ignores fun l => ¬DecidesReset l := resetOnce_ignores
  refine .query_bind (fun _ _ _ => nofun) fun w _ => ⟨fun _ => ⟨fun hf => ⟨rfl, ?_⟩, nofun, nofun⟩, ?_⟩
  · obtain ⟨-, t, ht, hn⟩ := hf
    rintro ⟨t', ht', hc⟩
    obtain rfl := Option.some.inj (ht.symm.trans ht')
    simp [hn] at hc
  let x : Entry World Call := ⟨.passwordResetFindByHash (env.sha256 token), w, w⟩
  cases ht : w.passwordResetTokens.find? (·.tokenHash == env.sha256 token) with
  | none => exact Once.obeys_throw _
  | some t =>
    refine hig.obeys_bind (calls_query.mpr nofun) fun now log₁ h₁ => ?_
    split
    · exact Once.obeys_throw _
    rename_i hn
    refine hig.obeys_bind (calls_atomic.mpr nofun) fun hash log₂ h₂ => ?_
    have hlive : t.consumedAt = none := by
      cases hc : t.consumedAt with
      | none => rfl
      | some now => simp [hc] at hn
    have hx₂ : x ∈ log₂ := (h₁.trans h₂).subset (List.mem_singleton_self x)
    have hfound : (resetOnce env token).Found log₂ := ⟨x, hx₂, rfl, t, ht, hlive⟩
    have hacted : ¬(resetOnce env token).Acted log₂ := by
      refine hig.not_acted (h₁.trans h₂) ?_
      rintro ⟨y, hy, ha⟩
      rw [List.mem_singleton.mp hy] at ha
      cases ha
    refine obeys_bind.mpr (obeys_atomic.mpr ⟨fun w₃ hs₃ => ⟨fun _ => ⟨nofun, fun _ =>
      ⟨hfound, hacted⟩, nofun⟩, ?_⟩, fun _ _ _ => nofun⟩)
    split
    · refine obeys_bind.mpr (obeys_atomic.mpr ⟨fun w₄ hs₄ => ?_, fun _ _ _ => nofun⟩)
      -- The token that was looked up is still there, under its identifier.
      obtain ⟨hb, ha⟩ := hs₄ x (List.mem_cons_of_mem _ hx₂)
      obtain ⟨t', ht', hk⟩ := (IsTrans.trans _ _ _ hb ha : ResetsEvolve w w₄).find? ht
      have hid : (w₄.passwordResetTokens.find? (·.id == t.id)).isSome = true :=
        List.find?_isSome.mpr ⟨t', List.mem_of_find?_eq_some ht', by simp [hk.1]⟩
      obtain ⟨t'', hid⟩ := Option.isSome_iff_exists.mp hid
      simp only [hid]
      refine ⟨fun _ => ⟨nofun, nofun, fun _ => ?_⟩, ?_⟩
      · rw [← hk.1]
        exact resetSpent_mark ht'
      refine hig.obeys_bind (calls_revokeAll (fun _ => nofun) (fun _ => nofun) (fun _ => nofun)
        nofun ..) fun _ log₅ h₅ => ?_
      have he : (emit (.passwordChanged t.userId .reset c)).Calls fun l => ¬DecidesReset l :=
        calls_atomic.mpr nofun
      refine he.obeys (fun _ _ _ => hig.call) fun log₆ _ h₆ _ _ _ => ?_
      have hsub := (h₅.trans h₆).subset
      obtain ⟨y, hy, hf⟩ := hfound
      exact ⟨⟨y, hsub (List.mem_cons_of_mem _ (List.mem_cons_of_mem _ hy)), hf⟩,
        _, hsub (List.mem_cons_self ..), rfl⟩
    · exact fun _ _ => nofun

/-- The specification of a request: that of a reset of the token, if it is
one. -/
theorem obeys_program_resetOnce (token : String) (r : Request) :
    (program env r).Obeys ResetsSince ((resetOnce env token).Call r)
      ((resetOnce env token).Done r) [] := by
  by_cases h : r.resets = some token
  · cases r with
    | resetPassword token' new c =>
      obtain rfl : token' = token := Option.some.inj h
      refine obeys_bind.mpr ((obeys_resetPassword_once token' new c).mono (fun _ _ h => h)
        (fun _ _ h => h) ?_)
      rintro log (e | ⟨⟩) h
      · exact fun _ _ => nofun
      · exact fun hu _ _ => h hu _ rfl
    | _ => cases h
  · exact .of_forall (fun _ _ h' => absurd h' h) fun _ _ h' => absurd h' h

/-! ## Interleavings -/

instance : DecidablePred (resetOnce env token).uses :=
  fun r => inferInstanceAs (Decidable (r.resets = some token))

instance : DecidablePred (resetOnce env token).finds :=
  fun x => inferInstanceAs (Decidable (x.label = .passwordResetFindByHash (env.sha256 token) ∧
    ∃ t ∈ x.before.passwordResetTokens.find? (·.tokenHash == env.sha256 token), t.consumedAt = none))

instance : DecidablePred (resetOnce env token).acts :=
  fun l => inferInstanceAs (Decidable (Updates l = true))

instance : DecidablePred (resetOnce env token).marks :=
  fun l => inferInstanceAs (Decidable (MarksReset l = true))

/-- How many resets that present the token have succeeded. -/
def AppPool.resetsSucceeded (token : String) (P : AppPool) : Nat :=
  P.threads.countP fun th => decide (th.req.resets = some token) && th.succeeded

/-- How many times the resets that present the token have set a password. -/
def AppPool.resetUpdates (token : String) (P : AppPool) : Nat :=
  ((P.threads.filter fun th => th.req.resets = some token).flatMap (·.log)).countP
    fun x => decide (Updates x.label = true)

/-- As long as no reset looks the token up while another one that has found it
is pending, at most one reset of the token succeeds, and together they set the
password at most once. -/
theorem reset_at_most_once {t : Time}
    (h : (system env).Run (resetOnce env token).Apart (AppPool.init t) P) :
    P.resetsSucceeded token ≤ 1 ∧ P.resetUpdates token ≤ 1 := by
  have hone : (resetOnce env token).OneHolder (fun _ => ResetsSince) P := by
    refine Once.oneHolder (I := System.AllAlways ResetsEvolve) h rfl (obeys_program_resetOnce token)
      (fun _ h => absurd h List.not_mem_nil) (fun hI hs => ?_) fun hI th hth x hx => (hI th hth).2 x hx
    obtain ⟨he, hI'⟩ := hI.step resetsEvolve_program (fun _ _ => .refl PasswordResetToken.Keeps.refl _) hs
    exact ⟨hI', fun hsp => ResetSpent.evolves hsp he⟩
  exact ⟨hone.succeeded_le_one, hone.acted_le_one⟩

/-- A registration, and a request for a reset link, whose token is `unary 8`. -/
def resetLinkSent : List (Move Request Time Exn) :=
  .start (.register ⟨"a@b.co", "Passw0rd!", none, none⟩ ⟨none, none⟩) :: List.replicate 14 (.call 0) ++
    .start (.forgotPassword "a@b.co") :: List.replicate 6 (.call 1)

/-- Two resets of one token, one after the other. -/
def resetAgain : AppPool :=
  (system .sample).after
    (resetLinkSent ++ .start (.resetPassword (unary 8) "N3wPass!" ⟨none, none⟩) ::
      List.replicate 10 (.call 2) ++
      .start (.resetPassword (unary 8) "N3werPass!" ⟨none, none⟩) :: List.replicate 2 (.call 3))
    (AppPool.init 0)

theorem resetAgain_resets :
    resetAgain.resetsSucceeded (unary 8) = 1 ∧ resetAgain.resetUpdates (unary 8) = 1 ∧
    (resetAgain.resetsSucceeded (unary 8) ≤ 1 ∧ resetAgain.resetUpdates (unary 8) ≤ 1) :=
  ⟨by decide +kernel, by decide +kernel,
    @reset_at_most_once .sample resetAgain (unary 8) 0 (.after (by decide +kernel))⟩

/-- Two resets of one token, each of which looks it up before the other has
marked it. -/
def resetTwice : AppPool :=
  (system .sample).after
    (resetLinkSent ++ [.start (.resetPassword (unary 8) "N3wPass!" ⟨none, none⟩), .call 2,
        .start (.resetPassword (unary 8) "N3werPass!" ⟨none, none⟩), .call 3] ++
      List.replicate 9 (.call 2) ++ List.replicate 7 (.call 3))
    (AppPool.init 0)

/-- Both succeed, and each sets the password. -/
theorem resetTwice_updates :
    Interleaving .sample (.init 0) resetTwice ∧
    resetTwice.resetsSucceeded (unary 8) = 2 ∧ resetTwice.resetUpdates (unary 8) = 2 ∧
    resetTwice.state.outbox.map (·.token) = [unary 8] ∧
    resetTwice.state.users.map (fun u => Env.sample.argon2Verify u.passwordHash "N3werPass!") = [true] :=
  ⟨.after (by decide +kernel), by decide +kernel, by decide +kernel, by decide +kernel,
    by decide +kernel⟩

end AtlasAuth

import AtlasAuth.Proof.RedisOutage
import AtlasAuth.Proof.Reset

/-!
# A password reset that is interrupted

A reset changes the password, consumes the link, revokes the sessions of the
user in the database and blacklists them, in this order. A call that fails
leaves what the calls before it have done (`reset_interrupted`): a link that
can be used again, or a new password with the old sessions, or sessions that
are revoked but not blacklisted.
-/

namespace AtlasAuth

open Framework Framework.Table Prog

variable {env : Env} {w w' w'' : World} {n ttl : Nat} {l : Call} {e : Exn}

/-- The user has the new password. -/
def PasswordSet (env : Env) (u new : String) (w w' : World) : Prop :=
  ∃ k, w'.users = updateWhere (·.id == u) (User.withPassword (env.argon2Hash k new)) w.users

def LinkConsumed (id : String) (w w' : World) : Prop :=
  ∃ now, w'.passwordResetTokens =
    updateWhere (·.id == id) (fun t => { t with consumedAt := some now }) w.passwordResetTokens

/-- Sessions, refresh tokens and the blacklist are as they were. -/
structure SessionsKept (w w' : World) : Prop where
  sessions : w'.sessions = w.sessions
  refreshTokens : w'.refreshTokens = w.refreshTokens
  redis : w'.redis = w.redis

/-- What a reset with the link `r` leaves whose call `l` has failed. -/
def ResetInterrupted (env : Env) (ttl : Nat) (r : PasswordResetToken) (new : String) (l : Call)
    (w w' : World) : Prop :=
  match l with
  | .passwordResetMarkConsumed _ =>
    PasswordSet env r.userId new w w' ∧ w'.passwordResetTokens = w.passwordResetTokens ∧
      SessionsKept w w'
  | .sessionsFindUnrevoked _ | .sessionsRevokeMany _ =>
    PasswordSet env r.userId new w w' ∧ LinkConsumed r.id w w' ∧ SessionsKept w w'
  | .redisSet key =>
    PasswordSet env r.userId new w w' ∧ LinkConsumed r.id w w' ∧
      Swept (liveSessionsOf w r.userId none)
        (((liveSessionsOf w r.userId none).map keyOf).filter (· ≠ key)) (w.now + ttl) w w'
  | .emit =>
    PasswordSet env r.userId new w w' ∧ LinkConsumed r.id w w' ∧
      Swept (liveSessionsOf w r.userId none) ((liveSessionsOf w r.userId none).map keyOf)
        (w.now + ttl) w w'
  | _ => w'.users = w.users ∧ w'.passwordResetTokens = w.passwordResetTokens ∧ SessionsKept w w'

theorem SessionsKept.swept {ids keys : List String} {d d' : Nat} (h : SessionsKept w w')
    (hd : d' ≤ d) (h' : Swept ids keys d w' w'') : Swept ids keys d' w w'' where
  sessions := h.sessions ▸ h'.sessions
  refreshTokens := h.refreshTokens ▸ h'.refreshTokens
  others := h.redis ▸ h'.others
  keys := fun k hk => by
    obtain ⟨x, hx, e⟩ := h'.keys k hk
    exact ⟨x, hd.trans hx, e⟩

theorem keysUp_redisSet (key : String) (ids : List String) :
    keysUp (· = .redisSet key) ids = (ids.map keyOf).filter (· ≠ key) := by
  simp [keysUp]

theorem keysUp_emit (ids : List String) : keysUp (· = .emit) ids = ids.map keyOf := by
  simp [keysUp]

theorem delivers_updatePassword {id : String}
    (h : (w.users.find? (·.id == id)).isSome = true) (hash : String) :
    Delivers env n (UsersRepository.updatePassword id hash) w fun _ w' => ∃ w₁,
      (system env).lapse w w₁ ∧
        w' = { w₁ with users := updateWhere (·.id == id) (User.withPassword hash) w₁.users } := by
  obtain ⟨u, hu⟩ := Option.isSome_iff_exists.mp h
  refine ensures_atomic.mpr fun w₁ h₁ => ?_
  rw [lapse_users h₁.1, hu, ← lapse_users h₁.1]
  exact ⟨_, rfl, w₁, h₁.1, rfl⟩

theorem delivers_passwordResetMarkConsumed {id : String}
    (h : (w.passwordResetTokens.find? (·.id == id)).isSome = true) :
    Delivers env n (PasswordResetRepository.markConsumed id) w fun _ w' => ∃ w₁,
      (system env).lapse w w₁ ∧
        w' = { w₁ with passwordResetTokens := updateWhere (·.id == id)
                         (fun t => { t with consumedAt := some w₁.now }) w₁.passwordResetTokens } := by
  obtain ⟨t, ht⟩ := Option.isSome_iff_exists.mp h
  refine ensures_atomic.mpr fun w₁ h₁ => ?_
  have hlinks : w₁.passwordResetTokens = w.passwordResetTokens := by
    obtain ⟨d, rfl⟩ := h₁.1
    rfl
  rw [hlinks, ht, ← hlinks]
  exact ⟨_, rfl, w₁, h₁.1, rfl⟩

/-- The end of a reset, after the link has been consumed. -/
theorem without_evict (h : Accepted env n ttl) {r : PasswordResetToken} {new : String}
    (hp : PasswordSet env r.userId new w w') (hc : LinkConsumed r.id w w') (hk : SessionsKept w w')
    (hn : w.now ≤ w'.now) (c : RequestContext) :
    Without env n l e (do
      let _ ← SessionsService.revokeAllSessions env r.userId c
      emit (.passwordChanged r.userId .reset c)) w' fun x w'' =>
        ∀ e', x = .error e' → ResetInterrupted env ttl r new l w w'' := by
  have hids : liveSessionsOf w' r.userId none = liveSessionsOf w r.userId none :=
    liveSessionsOf_congr hk.sessions _ _
  have hr := failing_revokeAll (F := (· = l)) (e := e) (w := w') h r.userId c none
  rw [hids] at hr
  -- The rest of the tables are not touched any more.
  have swept {keys : List String} {v : World}
      (hs : Sweeps (liveSessionsOf w r.userId none) keys (w'.now + ttl) w' v) :
      PasswordSet env r.userId new w v ∧ LinkConsumed r.id w v ∧
        Swept (liveSessionsOf w r.userId none) keys (w.now + ttl) w v := by
    rw [PasswordSet, LinkConsumed, show v.users = w'.users by rw [hs.rest],
      show v.passwordResetTokens = w'.passwordResetTokens by rw [hs.rest]]
    exact ⟨hp, hc, hk.swept (Nat.add_le_add_right hn ttl) hs.toSwept⟩
  have emitted {v : World} (hs : Sweeps (liveSessionsOf w r.userId none)
      (keysUp (· = .emit) (liveSessionsOf w r.userId none)) (w'.now + ttl) w' v) :
      ResetInterrupted env ttl r new .emit w v := by
    rw [keysUp_emit] at hs
    exact swept hs
  refine .failing_bind hr ?_ ?_
  · rintro _ w₁ (⟨hb, -⟩ | ⟨hs, -⟩)
    · cases hb
    · refine .failing_atomic (fun hl _ _ => ?_) fun _ _ _ _ hx => by cases hx
      subst hl
      exact emitted hs
  · rintro e' w₁ (⟨-, ⟨t, rfl⟩, hl⟩ | ⟨hs, ⟨-, hl⟩ | ⟨hb, -⟩⟩) _ -
    · rcases hl with rfl | rfl <;> exact ⟨hp, hc, hk.sessions, hk.refreshTokens, hk.redis⟩
    · rcases hl with ⟨id, -, rfl⟩ | rfl
      · rw [keysUp_redisSet] at hs
        exact swept hs
      · exact emitted hs
    · cases hb

theorem without_resetPassword (h : Accepted env n ttl) {token new : String} {r : PasswordResetToken}
    (hr : w.passwordResetTokens.find? (·.tokenHash == env.sha256 token) = some r)
    (hc : r.consumedAt = none) (hexp : n ≤ r.expiresAt)
    (hu : (w.users.find? (·.id == r.userId)).isSome = true) (c : RequestContext) :
    Without env n l e (PasswordService.resetPassword env token new c) w fun x w' =>
      ∀ e', x = .error e' → ResetInterrupted env ttl r new l w w' := by
  refine .failing_query_bind ?_ fun _ w₁ h₁ => ?_
  · rintro rfl _ -
    exact ⟨rfl, rfl, rfl, rfl, rfl⟩
  obtain ⟨⟨d₁, rfl⟩, -⟩ := h₁
  rw [show ((system env).env d₁ w).passwordResetTokens = w.passwordResetTokens from rfl, hr]
  refine .failing_query_bind ?_ fun _ w₂ h₂ => ?_
  · rintro rfl _ -
    exact ⟨rfl, rfl, rfl, rfl, rfl⟩
  obtain ⟨⟨d₂, rfl⟩, hn₂⟩ := h₂
  refine .failing_ite (fun hbad => ?_) fun _ => ?_
  · rcases hbad with hbad | hbad
    · simp [hc] at hbad
    · exact absurd hbad (Nat.not_lt.mpr (Nat.le_trans hn₂ hexp))
  refine .failing_atomic_bind ?_ fun _ w₃ h₃ => ?_
  · rintro rfl _ -
    exact ⟨rfl, rfl, rfl, rfl, rfl⟩
  obtain ⟨⟨d₃, rfl⟩, -⟩ := h₃
  refine without_call_bind (delivers_updatePassword (by exact hu) _) ?_ ?_
  · rintro rfl _ -
    exact ⟨rfl, rfl, rfl, rfl, rfl⟩
  rintro - _ ⟨_, ⟨d₄, rfl⟩, rfl⟩
  refine without_call_bind (delivers_passwordResetMarkConsumed ?_) ?_ ?_
  · exact List.find?_isSome.mpr ⟨r, List.mem_of_find?_eq_some hr, by simp⟩
  · rintro rfl _ -
    exact ⟨⟨_, rfl⟩, rfl, rfl, rfl, rfl⟩
  rintro - _ ⟨_, ⟨d₅, rfl⟩, rfl⟩
  refine without_evict h ?_ ?_ ?_ ?_ c
  · exact ⟨_, rfl⟩
  · exact ⟨_, rfl⟩
  · exact ⟨rfl, rfl, rfl⟩
  · simp only [system, World.advance, Nat.add_assoc]
    exact Nat.le_add_right _ _

/-- A reset with a valid link, one call of which fails, leaves what the calls
before it have done. -/
theorem reset_interrupted {token new : String} {c : RequestContext} {e' : Exn}
    {r : PasswordResetToken}
    (hfail : CompletesWithout env l e (.resetPassword token new c) w (.error e') w')
    (hr : w.passwordResetTokens.find? (·.tokenHash == env.sha256 token) = some r)
    (hc : r.consumedAt = none) (hexp : w'.now ≤ r.expiresAt)
    (hu : (w.users.find? (·.id == r.userId)).isSome = true) (h : Accepted env w'.now ttl) :
    ResetInterrupted env ttl r new l w w' := by
  have hd : Without env w'.now l e (program env (.resetPassword token new c)) w fun x w' =>
      ∀ e', x = .error e' → ResetInterrupted env ttl r new l w w' :=
    .failing_bind (without_resetPassword h hr hc hexp hu c)
      (fun _ _ _ => ensures_ret.mpr fun _ he => by cases he)
      fun _ _ h _ he => h _ (congrArg Except.error (Except.error.inj he))
  exact hd _ _ (completesWithout_until hfail (Nat.le_refl _)) _ rfl

/-- A registration, and a link to reset the password. -/
def linkRequested : List (Done Request World Exn Response) × World :=
  (system .sample).serve
    [(0, .register ⟨"a@b.co", "Passw0rd!", none, none⟩ ⟨none, none⟩), (1000, .forgotPassword "a@b.co")]
    { now := 0 }

/-- A reset with that link, while the call `l` fails. -/
def interruptedReset (l : Call) : Except Exn Response × World :=
  ((program .sample (.resetPassword (unary 8) "N3wPass!" ⟨none, none⟩)).failing (· = l)
    (.error "connection lost")).run linkRequested.2

theorem interruptedReset_fails {l : Call}
    (h : (interruptedReset l).1 = .error (.error "connection lost")) :
    CompletesWithout .sample l (.error "connection lost")
      (.resetPassword (unary 8) "N3wPass!" ⟨none, none⟩) linkRequested.2
      (.error (.error "connection lost")) (interruptedReset l).2 :=
  h ▸ completesWithout_run _ _ _ _

theorem interruptedReset_unlisted :
    ∃ r ∈ linkRequested.2.passwordResetTokens.find? (·.tokenHash == Env.sample.sha256 (unary 8)),
      ResetInterrupted .sample 900000 r "N3wPass!" (.redisSet (keyOf (unary 4))) linkRequested.2
        (interruptedReset (.redisSet (keyOf (unary 4)))).2 := by
  obtain ⟨r, hr⟩ := Option.isSome_iff_exists.mp (by decide +kernel :
    (linkRequested.2.passwordResetTokens.find? (·.tokenHash == Env.sample.sha256 (unary 8))).isSome =
      true)
  have hrow : ∀ r ∈ linkRequested.2.passwordResetTokens, r.consumedAt = none ∧
      (interruptedReset (.redisSet (keyOf (unary 4)))).2.now ≤ r.expiresAt ∧
      (linkRequested.2.users.find? (·.id == r.userId)).isSome = true := by decide +kernel
  obtain ⟨hc, hexp, hu⟩ := hrow r (List.mem_of_find?_eq_some hr)
  exact ⟨r, hr, reset_interrupted (interruptedReset_fails (by decide +kernel)) hr hc hexp hu
    (accepted_sample (by decide +kernel))⟩

/-- When the sessions cannot be looked up, the password is new and the session
is not revoked; when the link cannot be consumed, the password is new and the
link can be used again. -/
theorem interruptedReset_halfway :
    History .sample { now := 0 } linkRequested.1 linkRequested.2 ∧
    (let w := (interruptedReset (.sessionsFindUnrevoked (unary 1))).2
     CompletesWithout .sample (.sessionsFindUnrevoked (unary 1)) (.error "connection lost")
      (.resetPassword (unary 8) "N3wPass!" ⟨none, none⟩) linkRequested.2
      (.error (.error "connection lost")) w ∧
     w.users.map (·.passwordHash) ≠ linkRequested.2.users.map (·.passwordHash) ∧
     (w.sessions.find? (·.id == unary 4)).map (fun s => (s.userId, s.isRevoked)) =
      some (unary 1, false)) ∧
    (let w := (interruptedReset (.passwordResetMarkConsumed (unary 9))).2
     CompletesWithout .sample (.passwordResetMarkConsumed (unary 9)) (.error "connection lost")
      (.resetPassword (unary 8) "N3wPass!" ⟨none, none⟩) linkRequested.2
      (.error (.error "connection lost")) w ∧
     w.users.map (·.passwordHash) ≠ linkRequested.2.users.map (·.passwordHash) ∧
     (w.passwordResetTokens.find? (·.tokenHash == Env.sample.sha256 (unary 8))).map (·.consumedAt) =
      some none) :=
  ⟨history_serve (by decide +kernel),
    ⟨interruptedReset_fails (by decide +kernel), by decide +kernel, by decide +kernel⟩,
    interruptedReset_fails (by decide +kernel), by decide +kernel, by decide +kernel⟩

end AtlasAuth

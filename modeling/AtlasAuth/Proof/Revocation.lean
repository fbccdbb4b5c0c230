import AtlasAuth.Proof.Grows

/-!
# A revoked session stays revoked

In any interleaving of requests a session that is revoked stays revoked, and a
refresh that starts after that returns no tokens for it. A refresh already in
flight may insert an unrevoked refresh token later and may update the
session's row, but neither undoes the revocation: a later refresh looks up the
session of whatever token it is given, and finds it revoked
(`obeys_refresh`).
-/

namespace AtlasAuth

open Framework Framework.Table Prog

variable {env : Env} {P P' : AppPool}

/-! ## What the requests return -/

theorem returns_signAccessToken (sub email : String) (rs ps : List String) (sid : String) :
    (TokenService.signAccessToken env sub email rs ps sid).Returns fun a => a.token.sub = sub ∧
      a.token.email = email ∧ a.token.roles = rs ∧ a.token.permissions = ps ∧
      a.token.sessionId = sid := by
  refine .seq fun jti => .seq fun ttl => .bind (M := fun p => p.sub = sub ∧ p.email = email ∧
    p.roles = rs ∧ p.permissions = ps ∧ p.sessionId = sid) ?_ fun p hp =>
    .seq fun _ => returns_ret.mpr hp
  refine returns_atomic.mpr fun w p hp => ?_
  simp only at hp
  split at hp
  · cases hp
  · cases hp; exact ⟨rfl, rfl, rfl, rfl, rfl⟩

theorem returns_signAccessTokenForUser (u : User) (sid : String) :
    (AuthService.signAccessTokenForUser env u sid).Returns
      fun a => a.token.sub = u.id ∧ a.token.sessionId = sid :=
  .seq fun _ => (returns_signAccessToken ..).mono fun _ h => ⟨h.1, h.2.2.2.2⟩

/-- The guard lets the presented token through, or nothing. -/
theorem returns_canActivate (bearer : JwtPayload) :
    (JwtAuthGuard.canActivate bearer).Returns (· = bearer) := by
  refine .bind (M := (· = bearer)) (returns_atomic.mpr fun w p hp => ?_) fun p hp =>
    .seq fun _ => .seq fun _ => .ite (fun _ => trivial) fun _ => returns_ret.mpr hp
  split at hp
  · exact (Except.ok.inj hp).symm
  · cases hp

/-- The tokens of a rotation are those of the user and the session. -/
theorem returns_rotate (t : RefreshToken) (s : Session) (u : User) (c : RequestContext) :
    (AuthService.rotate env t s u c).Returns fun (u', tokens) =>
      u' = u ∧ tokens.sessionId = s.id ∧ tokens.accessToken.token.sub = u.id ∧
        tokens.accessToken.token.sessionId = s.id :=
  .seq fun _ => .seq fun _ => .seq fun _ => .seq fun _ =>
    .bind (returns_signAccessTokenForUser ..) fun _ ha => .seq fun _ =>
      returns_ret.mpr ⟨rfl, rfl, ha⟩

/-! ## The invariant -/

/-- The session `sid` is known to be revoked. -/
def SessionRevoked (sid : String) (w : World) : Prop :=
  ∃ s, w.sessions.find? (·.id == sid) = some s ∧ s.isRevoked = true

theorem SessionRevoked.grows {sid : String} {w w' : World} (h : SessionRevoked sid w)
    (hg : Grows w w') : SessionRevoked sid w' := by
  obtain ⟨s, hs, hr⟩ := h
  obtain ⟨s', hs', -, -, hk⟩ := hg.session hs
  exact ⟨s', hs', hk hr⟩

/-- An update that revokes the session. -/
theorem find?_revoke {rows : List Session} {id : String} {s : Session} {p : Session → Bool}
    (t : Time) (hs : rows.find? (·.id == id) = some s) (hp : p s = true) :
    (updateWhere p (Session.revoke t) rows).find? (·.id == id) = some (s.revoke t) := by
  rw [find?_updateWhere (by exact fun _ _ => rfl), hs]
  simp [hp]

/-- A refresh that runs while the session is revoked returns no tokens for it,
whichever refresh token it presents. -/
theorem obeys_refresh (sid t : String) (c : RequestContext) (log : List (Entry World Call)) :
    (AuthService.refresh env t c).Obeys (fun _ => SessionRevoked sid) (fun _ _ => True)
      (fun _ r => ∀ u tokens, r = .ok (u, tokens) →
        tokens.sessionId ≠ sid ∧ tokens.accessToken.token.sessionId ≠ sid) log := by
  refine .query_bind (fun _ _ _ => nofun) fun w _ => ⟨trivial, ?_⟩
  cases w.refreshTokens.find? (·.tokenHash == TokenService.hashRefreshToken env t) with
  | none => exact fun _ _ => nofun
  | some existing =>
    dsimp only
    split
    · have h : (AuthService.reuseDetected existing c : App (User × SessionTokens)).Returns
          fun _ => False := .seq fun _ => .seq fun _ => .seq fun _ => trivial
      exact (h.obeys _).mono (fun _ _ _ => trivial) (fun _ _ h => h) fun _ _ h _ _ e => (h _ e).elim
    refine .query_bind (fun _ _ _ => nofun) fun w₁ _ => ⟨trivial, ?_⟩
    split
    · exact fun _ _ => nofun
    refine .query_bind (fun _ _ _ => nofun) fun w₂ hrev => ⟨trivial, ?_⟩
    cases hs : w₂.sessions.find? (·.id == existing.sessionId) with
    | none => exact fun _ _ => nofun
    | some session =>
      dsimp only
      split
      · exact fun _ _ => nofun
      rename_i hn
      -- The session that was found is not revoked, so it is another one.
      have hid : session.id ≠ sid := by
        rintro rfl
        obtain ⟨s, hs', hr⟩ := hrev
        have he : session.id = existing.sessionId := by simpa using List.find?_some hs
        rw [he, hs, Option.some.injEq] at hs'
        exact hn (hs' ▸ hr)
      refine .query_bind (fun _ _ _ => nofun) fun w₃ _ => ⟨trivial, ?_⟩
      cases w₃.users.find? fun u => u.id == existing.userId && u.deletedAt.isNone with
      | none => exact fun _ _ => nofun
      | some user =>
        refine ((returns_rotate existing session user c).obeys _).mono (fun _ _ _ => trivial)
          (fun _ _ h => h) fun log r h u tokens e => ?_
        obtain ⟨-, h₁, -, h₂⟩ := h _ e
        exact ⟨h₁ ▸ hid, h₂ ▸ hid⟩

/-- The tokens of a response are not of the session `sid`. -/
def NoTokensFor (sid : String) (x : Except Exn Response) : Prop :=
  ∀ u tokens, x = .ok (.session u tokens) →
    tokens.sessionId ≠ sid ∧ tokens.accessToken.token.sessionId ≠ sid

theorem obeys_program_refresh (sid : String) (r : Request) :
    (program env r).Obeys (fun _ => SessionRevoked sid) (fun _ _ => True)
      (fun _ x => ∀ cookie c, r = .refresh cookie c → NoTokensFor sid x) [] := by
  by_cases h : ∃ cookie c, r = .refresh cookie c
  · obtain ⟨cookie, c, rfl⟩ := h
    refine obeys_bind.mpr ?_
    unfold AuthController.refresh
    split
    · rename_i t ht
      refine (obeys_refresh sid t c []).mono (fun _ _ h => h) (fun _ _ h => h) ?_
      rintro log (e | ⟨u, tokens⟩) h
      · rintro _ _ - _ _ ⟨⟩
      · rintro _ _ - _ _ ⟨⟩
        exact h u tokens rfl
    · rintro _ _ - _ _ ⟨⟩
  · exact .of_forall (fun _ _ => trivial) fun _ _ cookie c e => absurd ⟨cookie, c, e⟩ h

/-! ## Interleavings -/

/-- Once a session is revoked it stays so, and no refresh that starts after
that returns tokens for it. -/
theorem revoked_forever {t : Time} (h₀ : Interleaving env (.init t) P) (h : Interleaving env P P')
    {s : Session} (hs : s ∈ P.state.sessions) (hr : s.isRevoked = true) :
    (∃ s' ∈ P'.state.sessions, s'.id = s.id) ∧
    (∀ s' ∈ P'.state.sessions, s'.id = s.id → s'.isRevoked = true) ∧
    ∀ i th, P.threads.length ≤ i → P'.threads[i]? = some th →
      ∀ cookie c, th.req = .refresh cookie c → ∀ x, th.outcome = some x → NoTokensFor s.id x := by
  obtain ⟨hf, ha⟩ := h₀.fresh
  obtain ⟨hg, -⟩ := h.grows ha
  have hrev : SessionRevoked s.id P.state := ⟨s, hf.sessionId.find?.mpr ⟨hs, rfl⟩, hr⟩
  have hrev' := hrev.grows hg.1
  refine ⟨?_, fun s' hs' he => ?_, fun i th hi hth cookie c hreq x hx => ?_⟩
  · obtain ⟨s', hs', -⟩ := hrev'
    exact ⟨s', List.mem_of_find?_eq_some hs', by simpa using List.find?_some hs'⟩
  · obtain ⟨s'', hs'', hr''⟩ := hrev'
    obtain ⟨hm, he'⟩ := (hg.2 hf).sessionId.find?.mp hs''
    rwa [(hg.2 hf).sessionId.eq hs' hm (he.trans he'.symm)]
  · have ho := h.obeys (I := fun P' => SessionRevoked s.id P'.state ∧
        System.AllAlways (GrowsFresh env) P') (obeys_program_refresh s.id) ⟨hrev, ha⟩
      (fun hI _ hs => by
        obtain ⟨hg, ha⟩ := hI.2.step grows_program .advance hs
        exact ⟨hI.1.grows hg.1, ha⟩)
      fun hI _ _ => hI.1
    exact ho.outcome hi hth hx cookie c hreq

/-- A registration, and a refresh of its session that has looked up its user
when all the sessions of that user are revoked. -/
def refreshInFlight : AppPool :=
  (system .sample).after
    (.start (.register ⟨"a@b.co", "Passw0rd!", none, none⟩ ⟨none, none⟩) :: List.replicate 14 (.call 0) ++
      .start (.refresh (some (unary 3)) ⟨none, none⟩) :: List.replicate 4 (.call 1) ++
      .start (.revokeAllSessions (unary 1) ⟨none, none⟩) :: List.replicate 2 (.call 2))
    (AppPool.init 0)

/-- The refresh goes on to insert its refresh token, which another one
presents. -/
def refreshAfterwards : AppPool :=
  (system .sample).after
    (List.replicate 10 (.call 1) ++
      .start (.refresh (some (unary 8)) ⟨none, none⟩) :: List.replicate 3 (.call 3))
    refreshInFlight

theorem refreshAfterwards_session :
    (∃ s ∈ refreshInFlight.state.sessions, s.id = unary 4 ∧ s.isRevoked = true) ∧
    (∀ s ∈ refreshAfterwards.state.sessions, s.id = unary 4 → s.isRevoked = true) ∧
    ∀ i th, 3 ≤ i → refreshAfterwards.threads[i]? = some th →
      ∀ cookie c, th.req = .refresh cookie c → ∀ x, th.outcome = some x → NoTokensFor (unary 4) x := by
  have hs : ∃ s ∈ refreshInFlight.state.sessions, s.id = unary 4 ∧ s.isRevoked = true := by decide
  have h₁ : Interleaving .sample (.init 0) refreshInFlight := .after (by decide)
  have h₂ : Interleaving .sample refreshInFlight refreshAfterwards := .after (by decide)
  obtain ⟨s, hm, he, hr⟩ := hs
  exact ⟨⟨s, hm, he, hr⟩, he ▸ (revoked_forever h₁ h₂ hm hr).2⟩

end AtlasAuth

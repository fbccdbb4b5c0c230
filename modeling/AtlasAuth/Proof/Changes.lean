import AtlasAuth.Proof.Accounts

/-!
# What a completed request changes

A request that runs alone and is answered either changes nothing that matters
to sessions and tokens (`Calm`), or issues a session, or rotates a refresh
token, or revokes sessions and refresh tokens (`Change`). What an invariant
over histories needs to know about the requests it learns from the
constructors of `Change`.
-/

namespace AtlasAuth

open Framework Framework.Table Prog

variable {env : Env} {w w' w'' : World} {x : Except Exn Response}

/-- What a request that runs alone relies on. -/
structure Ready (env : Env) (w : World) : Prop where
  fresh : Fresh env w
  hashMinted : HashMinted env w
  tokenSession : ∀ t ∈ w.refreshTokens, (w.sessions.find? (·.id == t.sessionId)).isSome = true
  signedSession : ∀ p ∈ w.signed, (w.sessions.find? (·.id == p.sessionId)).isSome = true

/-- The request was refused, and nothing has happened. -/
def Refused (w : World) (x : Except Exn Response) (w' : World) : Prop :=
  (∃ e, x = .error e) ∧ Quiet w w'

/-! ## The requests -/

theorem completes_ends {β : Type} {p : App β} {f : β → Response} {M : β → World → Prop}
    (hp : Leaves env p w (Ends w M))
    (h : (p >>= fun b => .ret (f b)).Exec (system env).lapse w x w') (hx : Answered x) :
    (∃ b, x = .ok (f b) ∧ M b w') ∨ Refused w x w' := by
  obtain ⟨r, hr, rfl⟩ := exec_map.mp h
  have hm := hp r w' hr
  cases r with
  | ok b => exact .inl ⟨b, rfl, hm⟩
  | error e =>
    obtain ⟨m, rfl⟩ | q := hm
    · exact absurd rfl (hx m)
    · exact .inr ⟨⟨e, rfl⟩, q⟩

theorem completes_register (hr : Ready env w) {dto : RegisterDto} {c : RequestContext}
    (h : Completes env (.register dto c) w x w') (hx : Answered x) :
    (∃ b : User × SessionTokens, x = .ok (.session b.1 b.2) ∧
      ∃ w₁ s t, Calm w w₁ ∧ b.1 ∈ w₁.users ∧ b.2.sessionId = s.id ∧
        Issued env b.1.id s t b.2.accessToken.token w₁ w') ∨ Refused w x w' :=
  completes_ends (leaves_register hr.hashMinted dto c) h hx

theorem completes_login (hr : Ready env w) {dto : LoginDto} {c : RequestContext}
    (h : Completes env (.login dto c) w x w') :
    ∃ r, LoggedIn env dto w w' r ∧ x = r.map fun b => .session b.1 b.2 := by
  obtain ⟨r, hl, e⟩ := exec_map.mp h
  exact ⟨r, leaves_login hr.hashMinted hr.fresh dto c r w' hl, e⟩

theorem completes_refresh (hr : Ready env w) {cookie : Option String} {c : RequestContext}
    (h : Completes env (.refresh cookie c) w x w') :
    (truthy cookie = none ∧ Refused w x w') ∨
      ∃ token, truthy cookie = some token ∧
        ∃ r, Refreshed env token w w' r ∧ x = r.map fun b => .session b.1 b.2 := by
  obtain ⟨r, hl, rfl⟩ := exec_map.mp h
  unfold AuthController.refresh at hl
  cases ht : truthy cookie with
  | none =>
    rw [ht] at hl
    obtain ⟨rfl, rfl⟩ := hl
    exact .inl ⟨rfl, ⟨_, rfl⟩, .refl _⟩
  | some token =>
    rw [ht] at hl
    exact .inr ⟨token, rfl, r, leaves_refresh hr.hashMinted hr.fresh hr.tokenSession token c r w' hl,
      rfl⟩

theorem completes_logout (hr : Ready env w) {bearer : JwtPayload} {cookie : Option String}
    {c : RequestContext} (h : Completes env (.logout bearer cookie c) w x w') (hx : Answered x) :
    (x = .ok .done ∧ LoggedOut env bearer cookie w w') ∨ Refused w x w' :=
  (completes_ends (leaves_logout hr.signedSession bearer cookie c) h hx).imp_left
    fun ⟨_, h⟩ => h

theorem completes_resetPassword {token new : String} {c : RequestContext}
    (h : Completes env (.resetPassword token new c) w x w') (hx : Answered x) :
    (x = .ok .done ∧ ∃ r ∈ w.passwordResetTokens.find? (·.tokenHash == env.sha256 token),
      PasswordChanged env r.userId new none w w') ∨ Refused w x w' :=
  (completes_ends (leaves_resetPassword token new c) h hx).imp_left fun ⟨_, h⟩ => h

theorem completes_changePassword {bearer : JwtPayload} {current new : String} {c : RequestContext}
    (h : Completes env (.changePassword bearer current new c) w x w') (hx : Answered x) :
    (x = .ok .done ∧ bearer ∈ w.signed ∧
      PasswordChanged env bearer.sub new (some bearer.sessionId) w w') ∨ Refused w x w' :=
  (completes_ends (leaves_changePassword bearer current new c) h hx).imp_left fun ⟨_, h⟩ => h

/-! ## The revocations of `SessionsService` -/

/-- The sessions that a request revokes through `SessionsService` when it
succeeds. -/
def Request.evicts (env : Env) (w : World) : Request → Option (List String)
  | .deleteSession _ id _ | .revokeSession _ id _ => some [id]
  | .deleteOtherSessions bearer _ | .changePassword bearer _ _ _ =>
    some (liveSessionsOf w bearer.sub (some bearer.sessionId))
  | .revokeAllOtherSessions u id _ => some (liveSessionsOf w u (some id))
  | .revokeAllSessions u _ => some (liveSessionsOf w u none)
  | .resetPassword token _ _ =>
    (w.passwordResetTokens.find? (·.tokenHash == env.sha256 token)).map fun r =>
      liveSessionsOf w r.userId none
  | _ => none

theorem SessionsEvicted.after {ids : List String} (q : Quiet w w')
    (h : SessionsEvicted env ids w' w'') : SessionsEvicted env ids w w'' := by
  obtain ⟨ttl, httl, hk⟩ := h.redis
  exact {
    now := q.now.trans h.now
    drawn := q.drawn.trans h.drawn
    users := h.users.trans q.users
    sessions := q.sessions ▸ h.sessions
    refreshTokens := q.refreshTokens ▸ h.refreshTokens
    signed := h.signed.trans q.signed
    redis := ⟨ttl, httl, q.redis ▸ hk.mono (Nat.add_le_add_right q.now _) (Nat.le_refl _)⟩ }

theorem leaves_authenticated {β : Type} {bearer : JwtPayload} {k : JwtPayload → App β}
    {M : β → World → Prop}
    (hk : ∀ w₁, Quiet w w₁ → bearer ∈ w.signed → Leaves env (k bearer) w₁ (Ends w M)) :
    Leaves env (JwtAuthGuard.canActivate bearer >>= k) w (Ends w M) := by
  refine (leaves_canActivate bearer).bind (fun p w₁ ⟨q₁, h⟩ => ?_) fun _ _ h => .inr h.1
  obtain ⟨rfl, hm⟩ := h p rfl
  exact hk w₁ q₁ hm

theorem Ends.after {α : Type} {M N : α → World → Prop} {r : Except Exn α} (q : Quiet w w')
    (h : Ends w' M r w'') (hM : ∀ a v, M a v → N a v) : Ends w N r w'' := by
  cases r with
  | ok a => exact hM a w'' h
  | error e => exact h.imp_right q.trans

/-- Sessions that are there have been revoked, by `SessionsService`. -/
def EvictsFound (env : Env) (ids : List String) (w w' : World) : Prop :=
  (∀ id ∈ ids, (w.sessions.find? (·.id == id)).isSome = true) ∧ SessionsEvicted env ids w w'

theorem evicts_revokeSession (q : Quiet w w') (u id : String) (c : RequestContext) :
    Leaves env (SessionsService.revokeSession env u id c) w'
      (Ends w fun _ w'' => EvictsFound env [id] w w'') := by
  refine (leaves_sessionsRevokeSession u id c).mono fun r w'' h => h.after q ?_
  rintro _ v ⟨⟨s, hs, -⟩, he⟩
  have hs : w'.sessions.find? (·.id == id) = some s := hs
  refine ⟨fun id' hid' => ?_, he.after q⟩
  obtain rfl := List.mem_singleton.mp hid'
  rw [← q.sessions, hs]
  rfl

theorem find?_liveSessionsOf {u id : String} {k : Option String} (h : id ∈ liveSessionsOf w u k) :
    (w.sessions.find? (·.id == id)).isSome = true := by
  obtain ⟨s, hs, rfl⟩ := List.mem_map.mp h
  exact List.find?_isSome.mpr ⟨s, List.mem_of_mem_filter hs, by simp⟩

theorem evicts_revokeAll (q : Quiet w w') (u : String) (c : RequestContext) (k : Option String) :
    Leaves env (SessionsService.revokeAll env u c k) w'
      (Ends w fun _ w'' => EvictsFound env (liveSessionsOf w u k) w w'') := by
  refine ends_of_succeeds ((leaves_revokeAll u c k).mono fun r w'' h => ?_)
  cases r with
  | error e => exact h
  | ok a =>
    have h : SessionsEvicted env (liveSessionsOf w' u k) w' w'' := h.2
    exact ⟨fun _ => find?_liveSessionsOf, (liveSessionsOf_congr q.sessions u k ▸ h).after q⟩

/-- Sessions have been revoked, after a change of credentials perhaps. -/
def Evicts (env : Env) (ids : List String) (w w' : World) : Prop :=
  ∃ w₁, Calm w w₁ ∧ EvictsFound env ids w₁ w'

theorem EvictsFound.evicts {ids : List String} (h : EvictsFound env ids w w') : Evicts env ids w w' :=
  ⟨w, (Quiet.refl w).calm, h⟩

theorem PasswordChanged.evicts {u new : String} {kept : Option String}
    (h : PasswordChanged env u new kept w w') : Evicts env (liveSessionsOf w u kept) w w' := by
  obtain ⟨w₁, h₁, h₂⟩ := h
  have hs := liveSessionsOf_congr h₁.calm.sessions u kept
  exact ⟨w₁, h₁.calm, fun id hid => find?_liveSessionsOf (hs ▸ hid), h₂⟩

theorem completes_evicts {r : Request} {ids : List String} (hids : r.evicts env w = some ids)
    (h : Completes env r w x w') (hx : Answered x) :
    ((∃ a, x = .ok a) ∧ Evicts env ids w w') ∨ Refused w x w' := by
  have wrap {β : Type} {p : App β} {f : β → Response}
      (hp : Leaves env p w (Ends w fun _ w' => EvictsFound env ids w w'))
      (h : (p >>= fun b => .ret (f b)).Exec (system env).lapse w x w') :
      ((∃ a, x = .ok a) ∧ Evicts env ids w w') ∨ Refused w x w' :=
    (completes_ends hp h hx).imp_left fun ⟨b, hb, h⟩ => ⟨⟨f b, hb⟩, h.evicts⟩
  cases r with
  | deleteSession bearer id c =>
    cases hids
    exact wrap (leaves_authenticated fun _ q _ => evicts_revokeSession q _ _ c) h
  | revokeSession u id c =>
    cases hids
    exact wrap (evicts_revokeSession (.refl w) _ _ c) h
  | deleteOtherSessions bearer c =>
    cases hids
    exact wrap (leaves_authenticated fun _ q _ => evicts_revokeAll q _ c _) h
  | revokeAllOtherSessions u id c =>
    cases hids
    exact wrap (evicts_revokeAll (.refl w) _ c _) h
  | revokeAllSessions u c =>
    cases hids
    exact wrap (evicts_revokeAll (.refl w) _ c _) h
  | changePassword bearer current new c =>
    cases hids
    exact (completes_changePassword h hx).imp_left fun ⟨ho, _, h⟩ => ⟨⟨_, ho⟩, h.evicts⟩
  | resetPassword token new c =>
    refine (completes_resetPassword h hx).imp_left fun ⟨ho, r, hr, h⟩ => ⟨⟨_, ho⟩, ?_⟩
    obtain ⟨r', hr', rfl⟩ := Option.map_eq_some_iff.mp hids
    obtain rfl := Option.some.inj (hr'.symm.trans hr)
    exact h.evicts
  | _ => cases hids

/-! ## Changes -/

/-- What may happen to a key of the blacklist: it is set for an access token,
or for a session that is revoked. -/
inductive KeyChange (env : Env) (w w' : World) (k : String) : Prop
  | kept (h : w'.redis k = w.redis k)
  | token {p : JwtPayload} {e : Nat} (hp : p ∈ w.signed) (hk : k = JTI_PREFIX ++ p.jti)
      (he : p.deadline ≤ e) (h : w'.redis k = some ⟨"1", some e⟩)
  | session {sid : String} {ttl : Double} {e : Nat} (hs : SessionRevoked sid w')
      (hk : k = SESSION_PREFIX ++ sid) (httl : parseDurationToMs env.accessExpiresIn = .ok ttl)
      (he : w.now + ttl.toNat ≤ e) (h : w'.redis k = some ⟨"1", some e⟩)

/-- The revocation of the sessions `p`, and of refresh tokens `q` that were
not revoked. -/
structure Revoked (env : Env) (p : Session → Bool) (q : RefreshToken → Bool) (w w' : World) :
    Prop where
  now : w.now ≤ w'.now
  drawn : w.drawn ≤ w'.drawn
  users : Evolves User.SameIdentity w.users w'.users
  sessions : ∃ now, w'.sessions = updateWhere p (Session.revoke now) w.sessions
  refreshTokens : ∃ now, w'.refreshTokens = updateWhere q (RefreshToken.revoke now) w.refreshTokens
  live : ∀ t, q t = true → t.revokedAt = none
  signed : w'.signed = w.signed
  redis : ∀ k, KeyChange env w w' k

/-- What a completed request changes. -/
inductive Change (env : Env) (w w' : World) : Prop
  | calm (h : Calm w w')
  | issued {w₁ : World} {u : User} {s : Session} {t : RefreshToken} {p : JwtPayload}
      (hc : Calm w w₁) (hu : u ∈ w₁.users) (h : Issued env u.id s t p w₁ w')
  | rotated {t₀ t : RefreshToken} {s : Session} {u : User} {p : JwtPayload}
      (ht : t₀ ∈ w.refreshTokens) (hr : t₀.revokedAt = none)
      (hs : w.sessions.find? (·.id == t₀.sessionId) = some s) (hsr : s.isRevoked = false)
      (hu : u ∈ w.users) (huid : u.id = t₀.userId) (h : Rotated env t₀ t p w w')
  | revoked {p : Session → Bool} {q : RefreshToken → Bool} (h : Revoked env p q w w')

theorem Refused.change (h : Refused w x w') : Change env w w' := .calm h.2.calm

theorem live_of_liveInFamily {f : String} {t : RefreshToken} (h : liveInFamily f t = true) :
    t.revokedAt = none := by
  simpa using (Bool.and_eq_true_iff.mp h).2

theorem LoggedOut.change {bearer : JwtPayload} {cookie : Option String}
    (h : LoggedOut env bearer cookie w w') : Change env w w' := by
  refine .revoked {
    h with
    users := evolves_of_credentials h.users
    live := fun t ht => ?_
    redis := fun k => ?_ }
  · obtain ⟨t', -, ht⟩ := (Option.any_eq_true _ _).mp ht
    exact live_of_liveInFamily ht
  · by_cases hk : k = JTI_PREFIX ++ bearer.jti
    · rcases h.redis.keys k (by simp [hk]) with ⟨-, h'⟩ | ⟨e, he, h'⟩
      · exact .kept h'
      · exact .token h.valid hk he h'
    · exact .kept (h.redis.others k (by simpa using hk))

theorem SessionsEvicted.sessionRevoked {ids : List String} (h : SessionsEvicted env ids w w')
    {id : String} (hid : id ∈ ids) (hs : (w.sessions.find? (·.id == id)).isSome = true) :
    SessionRevoked id w' := by
  obtain ⟨s, hs⟩ := Option.isSome_iff_exists.mp hs
  obtain ⟨now, hsess⟩ := h.sessions
  have he : s.id = id := by simpa using List.find?_some hs
  exact ⟨s.revoke now, hsess ▸ find?_revoke now hs (by simpa [he] using hid), rfl⟩

theorem Evicts.change {ids : List String} (h : Evicts env ids w w') : Change env w w' := by
  obtain ⟨w₁, hc, hf, h⟩ := h
  obtain ⟨ttl, httl, hk⟩ := h.redis
  obtain ⟨now, hsess⟩ := h.sessions
  obtain ⟨now', htokens⟩ := h.refreshTokens
  refine .revoked {
    now := hc.now.trans h.now
    drawn := hc.drawn.trans h.drawn
    users := hc.users.trans User.SameIdentity.trans (evolves_of_credentials h.users)
    sessions := ⟨now, hc.sessions ▸ hsess⟩
    refreshTokens := ⟨now', hc.refreshTokens ▸ htokens⟩
    live := fun t ht => ?_
    signed := h.signed.trans hc.signed
    redis := fun k => ?_ }
  · simpa using (Bool.and_eq_true_iff.mp ht).2
  · by_cases hmem : k ∈ ids.map (SESSION_PREFIX ++ ·)
    · rcases hk.keys k hmem with ⟨-, h'⟩ | ⟨e, he, h'⟩
      · exact .kept (h'.trans (congrFun hc.redis k))
      · obtain ⟨id, hid, rfl⟩ := List.mem_map.mp hmem
        refine .session (h.sessionRevoked hid (hf id hid)) rfl httl ?_ h'
        exact (Nat.add_le_add_right hc.now _).trans he
    · exact .kept ((hk.others k hmem).trans (congrFun hc.redis k))

theorem LoggedIn.change {dto : LoginDto} {r : Except Exn (User × SessionTokens)}
    (h : LoggedIn env dto w w' r) (hr : ∀ m, r ≠ .error (.error m)) : Change env w w' := by
  cases h with
  | unknown _ h _ => exact .calm h.calm
  | locked _ _ _ h _ => exact .calm h.calm
  | wrong _ _ _ _ _ h _ => exact .calm h
  | right hu _ _ _ _ hc _ h =>
    obtain ⟨u', hu', hid, -⟩ := hc.users.mem (List.mem_of_find?_eq_some hu)
    exact .issued hc hu' (hid ▸ h)
  | broken => exact absurd rfl (hr _)

theorem Refreshed.change (hf : Fresh env w) {token : String} {r : Except Exn (User × SessionTokens)}
    (h : Refreshed env token w w' r) (hr : ∀ m, r ≠ .error (.error m)) : Change env w w' := by
  cases h with
  | refused _ h => exact .calm h.calm
  | broken => exact absurd rfl (hr _)
  | reused _ _ h =>
    exact .revoked {
      h with
      users := evolves_of_credentials h.users
      live := fun t => live_of_liveInFamily
      redis := fun k => .kept (congrFun h.redis k) }
  | rotated ht hrev hs hsr hu huid _ h =>
    exact .rotated (hf.tokenHash.find?.mp ht).1 hrev hs hsr hu huid h

theorem change_program (hr : Ready env w) {r : Request} (h : Completes env r w x w')
    (hx : Answered x) : Change env w w' := by
  cases r with
  | register dto c =>
    rcases completes_register hr h hx with ⟨b, -, w₁, s, t, hc, hu, -, h'⟩ | h'
    · exact .issued hc hu h'
    · exact h'.change
  | login dto c =>
    obtain ⟨r, h', rfl⟩ := completes_login hr h
    exact h'.change fun m => by rintro rfl; exact hx m rfl
  | refresh cookie c =>
    rcases completes_refresh hr h with ⟨-, h'⟩ | ⟨token, -, r, h', rfl⟩
    · exact h'.change
    · exact h'.change hr.fresh fun m => by rintro rfl; exact hx m rfl
  | logout bearer cookie c =>
    rcases completes_logout hr h hx with ⟨-, h'⟩ | h' <;> exact h'.change
  | resetPassword token new c =>
    rcases completes_resetPassword h hx with ⟨-, r, -, h'⟩ | h'
    · exact h'.evicts.change
    · exact h'.change
  | changePassword | deleteSession | deleteOtherSessions | revokeSession | revokeAllOtherSessions
  | revokeAllSessions =>
    rcases completes_evicts rfl h hx with ⟨-, h'⟩ | h' <;> exact h'.change
  | _ => exact .calm (leaves_minor (minor_program rfl) x w' h).calm

end AtlasAuth

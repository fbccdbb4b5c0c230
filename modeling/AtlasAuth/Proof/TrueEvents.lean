import AtlasAuth.Proof.AuditTrail
import AtlasAuth.Proof.Refusals

/-!
# What is reported is true

An event that a route emits says what the route has seen or done before, in its
own calls (`Event.Holds`): the user and the session that it has made, the
password that it has checked, the sessions that it has revoked. So it is of
every event in every interleaving of routes and with any failures of calls, and
the user that the event names is there, so that the rows that the audit trail
writes for it refer to a user (`events_true`).
-/

namespace AtlasAuth

open Framework Framework.Table Prog

variable {env : Env} {α β : Type} {route : Route} {u sid : String} {w w' : World}
  {log log' : List (Entry World Call)}

/-! ## What the events say -/

/-- The session of the user, revoked. -/
def RevokedSession (u sid : String) (w : World) : Prop :=
  ∃ s ∈ w.sessions, s.id = sid ∧ s.userId = u ∧ s.isRevoked = true

/-- A user of this address who is locked out. -/
def LockedAt (email u : String) (w : World) : Prop :=
  ∃ v ∈ w.users, v.id = u ∧ v.deletedAt = none ∧ v.email = email ∧ ∃ t, v.lockedUntil = some t ∧ w.now < t

/-- A user of this address, of whom it is not the password. -/
def WrongPasswordOf (env : Env) (email password u : String) (w : World) : Prop :=
  ∃ v ∈ w.users, v.id = u ∧ v.deletedAt = none ∧ v.email = email ∧
    env.argon2Verify v.passwordHash password = false

/-- The password of the user is a hash of this one. -/
def HashedFor (env : Env) (password u : String) (w : World) : Prop :=
  ∃ v ∈ w.users, v.id = u ∧ ∃ n, v.passwordHash = env.argon2Hash n password

/-- A refresh token of the session that was revoked before it was presented. -/
def RevokedCookieOf (env : Env) (cookie u familyId sid : String) (w : World) : Prop :=
  ∃ t ∈ w.refreshTokens, t.userId = u ∧ t.familyId = familyId ∧ t.sessionId = sid ∧
    t.tokenHash = env.sha256 cookie ∧ t.revokedAt.isSome = true

def FamilyRevoked (familyId : String) (w : World) : Prop :=
  ∀ t ∈ w.refreshTokens, t.familyId = familyId → t.revokedAt.isSome = true

/-- The refresh token has been exchanged for another one of its session. -/
def Exchanged (env : Env) (cookie u sid : String) (w : World) : Prop :=
  ∃ t ∈ w.refreshTokens, t.userId = u ∧ t.sessionId = sid ∧ t.tokenHash = env.sha256 cookie ∧
    t.revokedAt.isSome = true ∧ ∃ new, t.replacedByTokenHash = some (env.sha256 new) ∧
      RefreshOf u sid (env.sha256 new) w

/-- The link of a mail to the user, as it was presented. -/
def LinkOf (env : Env) (token u : String) (type : EmailTokenType) (w : World) : Prop :=
  ∃ t ∈ w.emailVerificationTokens, t.userId = u ∧ t.type = type ∧ t.tokenHash = env.sha256 token ∧
    t.consumedAt = none ∧ w.now ≤ t.expiresAt

/-- The link of a mail to the user, once it has been used. -/
def UsedLinkOf (env : Env) (token u : String) (w : World) : Prop :=
  ∃ t ∈ w.emailVerificationTokens, t.userId = u ∧ t.tokenHash = env.sha256 token ∧
    t.consumedAt.isSome = true

def IsVerified (u : String) (w : World) : Prop := ∃ v ∈ w.users, v.id = u ∧ v.isEmailVerified = true

def AddressOf (email u : String) (w : World) : Prop := ∃ v ∈ w.users, v.id = u ∧ v.email = email

/-- All sessions of the user that were found unrevoked, `count` of them, have
been revoked. -/
def AllRevoked (u : String) (kept : Option String) (count : Nat) (log : List (Entry World Call)) : Prop :=
  ∃ ids, ids.length = count ∧ Knows (fun w => liveSessionsOf w u kept = ids) log ∧
    ∀ sid ∈ ids, Did (.sessionsRevokeMany ids) (RevokedSession u sid) log

/-- The route is one that revokes the sessions of the user, but for one that is
kept. -/
def SweepsSessions (env : Env) (route : Route) (log : List (Entry World Call)) (u : String)
    (kept : Option String) (c : RequestContext) : Prop :=
  (∃ token new, route = .resetPassword token new c ∧ kept = none ∧
      Knows (ResetLinkOf env token u) log) ∨
    ∃ bearer, bearer.sub = u ∧ kept = some bearer.sessionId ∧ Admitted bearer log ∧
      (route = .revokeAllOtherSessions bearer c ∨
        ∃ current new, route = .changePassword bearer current new c)

/-- What the event says is so, of a route that emits it after the calls `log`. -/
def Event.Holds (env : Env) (route : Route) (log : List (Entry World Call)) : Event → Prop
  | .userRegistered u email c => ∃ dto, route = .register dto c ∧ email = env.toLowerCase dto.email ∧
      ∃ x ∈ log, ¬IsUser u x.before ∧ AddressOf email u x.after
  | .userLoggedIn u email sid c => ∃ dto, route = .login dto c ∧ email = env.toLowerCase dto.email ∧
      Knows (CredentialsOf env email dto.password u) log ∧ MadeSession u sid log
  | .userLoggedOut u sid c => ∃ bearer cookie, route = .logout bearer cookie c ∧ bearer.sub = u ∧
      bearer.sessionId = sid ∧ Admitted bearer log ∧ Did (.revokeSession sid) (RevokedSession u sid) log
  | .loginFailed email status c user => ∃ dto, route = .login dto c ∧
      email = env.toLowerCase dto.email ∧ match status, user with
        | .FAILED_NOT_FOUND, none => Knows (fun w => ∀ u, ¬Addressee email u w) log
        | .FAILED_LOCKED, some u => Knows (LockedAt email u) log
        | .FAILED_PASSWORD, some u => Knows (WrongPasswordOf env email dto.password u) log
        | _, _ => False
  | .tokenRefreshed u sid c => ∃ cookie id, route = .refresh (some cookie) c ∧
      Knows (LiveCookieOf env cookie u) log ∧
      Did (.revokeRefreshToken id) (Exchanged env cookie u sid) log
  | .tokenReuseDetected u familyId c => ∃ cookie sid, route = .refresh (some cookie) c ∧
      Knows (RevokedCookieOf env cookie u familyId sid) log ∧
      Did (.revokeRefreshTokenFamily familyId) (FamilyRevoked familyId) log ∧
      Did (.revokeSession sid) (RevokedSession u sid) log
  | .emailVerified u email type c => ∃ token id, route = .verifyEmail token c ∧
      Knows (LinkOf env token u type) log ∧
      Did (.emailVerificationMarkConsumed id) (UsedLinkOf env token u) log ∧
      (∃ l ∈ [.usersMarkEmailVerified u, .usersUpdateEmail u], Did l (IsVerified u) log) ∧
      Knows (AddressOf email u) log
  | .passwordChanged u .reset c => ∃ token new, route = .resetPassword token new c ∧
      Knows (ResetLinkOf env token u) log ∧ Did (.usersUpdatePassword u) (HashedFor env new u) log
  | .passwordChanged u .change c => ∃ bearer current new, route = .changePassword bearer current new c ∧
      bearer.sub = u ∧ Admitted bearer log ∧ Knows (PasswordOf env current u) log ∧
      Did (.usersUpdatePassword u) (HashedFor env new u) log
  | .sessionRevoked u sid c => ∃ bearer, route = .revokeSession bearer sid c ∧ bearer.sub = u ∧
      Admitted bearer log ∧ Did (.sessionsRevoke sid) (RevokedSession u sid) log
  | .allSessionsRevoked u count kept c =>
    AllRevoked u kept count log ∧ SweepsSessions env route log u kept c

/-- The call emits no event, or one that holds. -/
def Tells (env : Env) (route : Route) (log : List (Entry World Call)) (x : Entry World Call) : Prop :=
  x.after.events = x.before.events ∨
    ∃ e : Event, x.after.events = x.before.events ++ [e] ∧ e.Holds env route log

/-- The program emits events that hold, and what it returns satisfies `M`. -/
abbrev Told (env : Env) (route : Route) (M : List (Entry World Call) → α → Prop) (p : App α)
    (log : List (Entry World Call)) : Prop :=
  Upholds (reliance env) (Tells env route) M p log

theorem Admitted.suffix {bearer : JwtPayload} (h : Admitted bearer log) (hl : log <:+ log') :
    Admitted bearer log' where
  checked := h.checked.suffix hl
  signed := h.signed.suffix hl
  session := h.session.suffix hl
  user := h.user.suffix hl

/-! ## Parts -/

section

variable {N : List (Entry World Call) → α → Prop} {M : List (Entry World Call) → β → Prop}

theorem tells_silent (log : List (Entry World Call)) (l : Call) (w w' : World) (h : Silent w w') :
    Tells env route log ⟨l, w, w'⟩ := .inl h

theorem told_silent {p : App α} (hp : p.Always Silent) : Told env route (fun _ _ => True) p log :=
  .always hp tells_silent

theorem told_seq {p : App α} {k : α → App β} (hp : p.Always Silent)
    (hk : ∀ a log', log <:+ log' → Told env route M (k a) log') : Told env route M (p >>= k) log :=
  (told_silent hp).bind fun a log' hl _ => hk a log' hl

/-- A part that emits nothing, and of which it is known what it returns. -/
theorem told_bind {p : App α} {k : α → App β} (hu : Upheld env Anything N p log) (hp : p.Always Silent)
    (hk : ∀ a log', log <:+ log' → N log' a → Told env route M (k a) log') :
    Told env route M (p >>= k) log :=
  Upholds.bind (Upholds.instead hu hp tells_silent) hk

theorem told_query {l : Call} {f : World → α} {k : α → App β}
    (h : ∀ s log', log <:+ log' → ⟨l, s, s⟩ ∈ log' → (reliance env).Known log s →
      Told env route M (k (f s)) log') : Told env route M (.query l f >>= k) log :=
  .query (fun _ _ _ => .inl rfl) h

theorem told_emit {e : Event} (he : e.Holds env route log) :
    Told env route (fun _ _ => True) (emit e) log :=
  .atomic fun _ _ => ⟨.inr ⟨e, rfl, he⟩, fun _ _ => trivial⟩

theorem told_canActivate {bearer : JwtPayload} {k : JwtPayload → App β}
    (hk : ∀ log', log <:+ log' → Admitted bearer log' → Told env route M (k bearer) log') :
    Told env route M (JwtAuthGuard.canActivate bearer >>= k) log :=
  told_bind upheld_authGuard (silent_of_made env (made_canActivate bearer)) fun _ log' hl hb =>
    hb.1 ▸ hk log' hl hb.2

end

/-! ## Calls -/

theorem told_hash (p : String) :
    Told env route (fun _ h => ∃ n, h = env.argon2Hash n p) (HashingService.hash env p) log := by
  refine .atomic fun s _ => ⟨.inl rfl, ?_⟩
  rintro _ ⟨⟩
  exact ⟨_, rfl⟩

theorem told_update {call : Call} {id : String} {data : Time → User → User}
    (hid : ∀ now v, (data now v).id = v.id) :
    Told env route (fun log' v => Did call (fun w => v ∈ w.users ∧ v.id = id) log' ∧
      ∃ now v₀, v = data now v₀)
      (UsersRepository.update call id data) log := by
  refine .atomic fun s _ => ?_
  split
  · exact ⟨.inl rfl, nofun⟩
  · rename_i user hf
    refine ⟨.inl rfl, ?_⟩
    rintro _ ⟨⟩
    have huid := List.find?_some hf
    exact ⟨⟨_, .head _, rfl, mem_updateWhere_of (List.mem_of_find?_eq_some hf) huid,
      (hid _ user).trans (beq_iff_eq.mp huid)⟩, _, _, rfl⟩

theorem told_updateEmail (id email : String) :
    Told env route (fun log' _ => Did (.usersUpdateEmail id) (IsVerified id) log' ∧
      Knows (AddressOf email id) log') (UsersRepository.updateEmail id email) log := by
  refine .atomic fun s _ => ?_
  dsimp only
  split
  · exact ⟨.inl rfl, nofun⟩
  · rename_i user hf
    split
    · exact ⟨.inl rfl, nofun⟩
    · refine ⟨.inl rfl, fun _ _ => ?_⟩
      have huid := List.find?_some hf
      have hmem := mem_updateWhere_of (p := (·.id == id))
        (f := fun u : User => { u with email, isEmailVerified := true })
        (List.mem_of_find?_eq_some hf) huid
      exact ⟨⟨_, .head _, rfl, _, hmem, beq_iff_eq.mp huid, rfl⟩, _, .head _, _, hmem,
        beq_iff_eq.mp huid, rfl⟩

theorem RevokedSession.of_revoke {p : Session → Bool} (h : HasSession u sid w)
    (hp : ∀ s, s.id = sid → p s = true) (now : Time) :
    ∃ s ∈ updateWhere p (Session.revoke now) w.sessions,
      s.id = sid ∧ s.userId = u ∧ s.isRevoked = true := by
  obtain ⟨s, hs, rfl, rfl⟩ := h
  exact ⟨_, mem_updateWhere_of hs (hp s rfl), rfl, rfl, rfl⟩

theorem told_revokeSession (hs : Knows (HasSession u sid) log) :
    Told env route (fun log' _ => Did (.revokeSession sid) (RevokedSession u sid) log')
      (AuthRepository.revokeSession sid) log := by
  refine .atomic fun s hk => ?_
  split
  · exact ⟨.inl rfl, nofun⟩
  · exact ⟨.inl rfl, fun _ _ => ⟨_, .head _, rfl,
      .of_revoke (hs.now hk fun _ _ => HasSession.later) (fun _ e => beq_iff_eq.mpr e) _⟩⟩

theorem told_sessionsRevoke (hs : Knows (HasSession u sid) log) :
    Told env route (fun log' _ => Did (.sessionsRevoke sid) (RevokedSession u sid) log')
      (SessionsRepository.revoke sid) log := by
  refine .atomic fun s hk => ?_
  split
  · exact ⟨.inl rfl, nofun⟩
  · exact ⟨.inl rfl, fun _ _ => ⟨_, .head _, rfl,
      .of_revoke (hs.now hk fun _ _ => HasSession.later) (fun _ e => beq_iff_eq.mpr e) _⟩⟩

theorem told_revokeAllExcept (kept : Option String) :
    Told env route (fun log' ids => AllRevoked u kept ids.length log')
      (SessionsRepository.revokeAllExcept u kept) log := by
  refine told_query fun w log₁ h₁ hw hk => .ite (fun hnone => .ret ?_) fun _ => ?_
  · exact ⟨[], rfl, ⟨_, hw, List.length_eq_zero_iff.mp hnone⟩, fun _ => nofun⟩
  · have revoked : Told env route (fun log' _ => ∀ sid ∈ liveSessionsOf w u kept,
        Did (.sessionsRevokeMany (liveSessionsOf w u kept)) (RevokedSession u sid) log')
        (SessionsRepository.revokeMany (liveSessionsOf w u kept)) log₁ := by
      refine .atomic fun s hs => ⟨.inl rfl, fun _ _ sid hsid => ⟨_, .head _, rfl, ?_⟩⟩
      obtain ⟨x, hx, rfl⟩ := List.mem_map.mp hsid
      obtain ⟨hx, hu⟩ := List.mem_filter.mp hx
      simp only [Bool.and_eq_true, beq_iff_eq] at hu
      have hses := HasSession.later (hs.past _ hw).2 ⟨x, hx, rfl, hu.1.1⟩
      refine .of_revoke hses (fun s e => List.contains_iff_mem.mpr ?_) _
      exact e ▸ hsid
    exact Upholds.bind revoked fun _ log₂ h₂ hrev => .ret ⟨_, rfl, ⟨_, h₂.subset hw, rfl⟩, hrev⟩

theorem told_revokeRefreshTokenFamily (familyId : String) :
    Told env route (fun log' _ => Did (.revokeRefreshTokenFamily familyId) (FamilyRevoked familyId) log')
      (AuthRepository.revokeRefreshTokenFamily familyId) log := by
  refine .atomic fun s _ => ⟨.inl rfl, fun _ _ => ⟨_, .head _, rfl, fun t ht hf => ?_⟩⟩
  obtain ⟨t₀, ht₀, rfl⟩ := mem_updateWhere.mp ht
  split
  · rfl
  · rename_i h
    rw [if_neg h] at hf
    simpa [hf, Option.isSome_iff_ne_none] using h

theorem RefreshOf.later {hash : String} (h : Later w w') (hr : RefreshOf u sid hash w) :
    RefreshOf u sid hash w' := by
  obtain ⟨t, ht, rfl, rfl, rfl⟩ := hr
  obtain ⟨t', ht', hk⟩ := h.grows.refreshTokens.mem ht
  exact ⟨t', ht', hk.2.1, hk.2.2.1, hk.2.2.2.2.1⟩

theorem told_revokeRefreshToken {t : RefreshToken} {cookie new : String}
    (hhash : t.tokenHash = env.sha256 cookie) (ht : Knows (HasToken t) log)
    (hr : Knows (RefreshOf t.userId t.sessionId (env.sha256 new)) log) :
    Told env route (fun log' _ => Did (.revokeRefreshToken t.id)
      (Exchanged env cookie t.userId t.sessionId) log')
      (AuthRepository.revokeRefreshToken t.id (env.sha256 new)) log := by
  refine .atomic fun s hk => ?_
  obtain ⟨t', ht', hid, hu, hsid, -, hh, -⟩ := ht.now hk fun _ _ => HasToken.later
  obtain ⟨r, hr, hr'⟩ := hr.now hk fun _ _ => RefreshOf.later
  split
  · exact ⟨.inl rfl, nofun⟩
  · refine ⟨.inl rfl, fun _ _ => ⟨_, .head _, rfl, _, mem_updateWhere_of ht' (beq_iff_eq.mpr hid), hu,
      hsid, hh.trans hhash, rfl, new, rfl, _, mem_updateWhere.mpr ⟨r, hr, rfl⟩, ?_⟩⟩
    split <;> exact hr'

theorem told_markConsumed {t : EmailVerificationToken} {token : String}
    (hhash : t.tokenHash = env.sha256 token) (ht : Knows (HasLink t) log) :
    Told env route (fun log' _ => Did (.emailVerificationMarkConsumed t.id)
      (UsedLinkOf env token t.userId) log')
      (EmailVerificationRepository.markConsumed t.id) log := by
  refine .atomic fun s hk => ?_
  obtain ⟨t', ht', hid, hu, hh, -⟩ := ht.now hk fun _ _ => HasLink.later
  split
  · exact ⟨.inl rfl, nofun⟩
  · exact ⟨.inl rfl, fun _ _ => ⟨_, .head _, rfl, _, mem_updateWhere_of ht' (beq_iff_eq.mpr hid), hu,
      hh.trans hhash, rfl⟩⟩

/-! ## Routes -/

theorem told_register (dto : RegisterDto) (c : RequestContext) :
    Told env (.register dto c) (fun _ _ => True) (AuthService.register env dto c) log := by
  refine told_query fun w log₁ _ _ _ => .ite (fun _ => .throw _) fun _ => ?_
  refine told_seq (silent_hash _) fun _ log₂ _ => ?_
  refine told_bind (upheld_usersCreate ..) (silent_usersCreate ..) fun v log₃ _ ⟨hemail, hv⟩ => ?_
  refine Upholds.bind (told_emit ⟨dto, rfl, hemail, ?_⟩) fun _ _ _ _ =>
    told_seq (silent_of_made env (made_issueSession nofun nofun ..)) fun _ _ _ => .ret trivial
  exact hv.imp fun _ h => ⟨h.1, h.2.1, v, h.2.2, rfl, rfl⟩

theorem told_login (dto : LoginDto) (c : RequestContext) :
    Told env (.login dto c) (fun _ _ => True) (AuthService.login env dto c) log := by
  refine told_query fun w log₁ h₁ hw _ => ?_
  cases hf : w.users.find? fun v => v.email == env.toLowerCase dto.email && v.deletedAt.isNone with
  | none =>
    refine Upholds.bind (told_emit ⟨dto, rfl, rfl, _, hw, ?_⟩) fun _ _ _ _ => .throw _
    rintro u ⟨v, hv, -, hd, he⟩
    exact List.find?_eq_none.mp hf v hv (by simp [hd, he])
  | some user =>
    have hmem := List.mem_of_find?_eq_some hf
    obtain ⟨he, hd⟩ : user.email = env.toLowerCase dto.email ∧ user.deletedAt = none := by
      simpa using List.find?_some hf
    refine told_query fun w₂ log₂ h₂ hw₂ hk₂ => .ite (fun hlocked => ?_) fun _ => ?_
    · obtain ⟨t, ht, hlt⟩ := (Option.any_eq_true ..).mp hlocked
      have hnow := Nat.lt_of_le_of_lt (hk₂.past _ hw).2.grows.now (of_decide_eq_true hlt)
      exact Upholds.bind (told_emit ⟨dto, rfl, rfl, _, h₂.subset hw, user, hmem, rfl, hd, he, t, ht,
        hnow⟩) fun _ _ _ _ => .throw _
    refine told_bind (upheld_verify ..) (silent_verify ..) fun ok log₃ h₃ hok => ?_
    have hw₃ := (h₂.trans h₃).subset hw
    refine .ite (fun hwrong => ?_) fun hright => ?_
    · have hp : env.argon2Verify user.passwordHash dto.password = false := by simpa [hok] using hwrong
      refine told_seq (silent_of_made env (made_registerFailedLoginAttempt nofun ..))
        fun _ log₄ h₄ => Upholds.bind (told_emit ⟨dto, rfl, rfl, ?_⟩) fun _ _ _ _ => .throw _
      exact ⟨_, h₄.subset hw₃, user, hmem, rfl, hd, he, hp⟩
    · have hp : env.argon2Verify user.passwordHash dto.password = true := by simpa [hok] using hright
      refine told_seq (silent_usersUpdate ..) fun _ log₄ h₄ => ?_
      refine told_bind (upheld_issueSession ⟨_, h₄.subset hw₃, user, hmem, rfl⟩ allows_anything _)
        (silent_of_made env (made_issueSession nofun nofun ..)) fun tokens log₅ h₅ ht => ?_
      refine Upholds.bind (told_emit ⟨dto, rfl, he, ?_, ht.2⟩) fun _ _ _ _ => .ret trivial
      exact ⟨_, (h₄.trans h₅).subset hw₃, user, hmem, rfl, hd, rfl, hp⟩

theorem told_rotate {cookie : String} {t : RefreshToken} {session : Session} {user : User}
    {c : RequestContext} (hcookie : Knows (LiveCookieOf env cookie t.userId) log)
    (hhash : t.tokenHash = env.sha256 cookie) (ht : Knows (HasToken t) log)
    (hs : Knows (HasSession t.userId t.sessionId) log) (hsid : session.id = t.sessionId)
    (hu : user.id = t.userId) :
    Told env (.refresh (some cookie) c) (fun _ _ => True) (AuthService.rotate env t session user c)
      log := by
  refine told_bind upheld_generateRefreshToken (silent_of_made env made_generateRefreshToken)
    fun _ log₁ h₁ hnew => ?_
  obtain ⟨token, expiresAt, rfl, hnew, -⟩ := hnew
  rw [hu, hsid]
  refine told_bind (upheld_createRefreshToken trivial (hs.suffix h₁)
    (.inr ⟨t, rfl, rfl, ht.suffix h₁⟩) hnew ..) (silent_createRefreshToken ..) fun _ log₂ h₂ hr => ?_
  refine Upholds.bind (told_revokeRefreshToken hhash (ht.suffix (h₁.trans h₂)) hr)
    fun _ log₃ h₃ hex => told_seq (silent_touchSession ..) fun _ log₄ h₄ => ?_
  refine told_seq (silent_of_made env (made_signAccessTokenForUser nofun ..)) fun _ log₅ h₅ => ?_
  have hl := h₁.trans (h₂.trans (h₃.trans (h₄.trans h₅)))
  exact Upholds.bind (told_emit ⟨cookie, t.id, rfl, hcookie.suffix hl, hex.suffix (h₄.trans h₅)⟩)
    fun _ _ _ _ => .ret trivial

theorem told_refresh (cookie : Option String) (c : RequestContext) :
    Told env (.refresh cookie c) (fun _ _ => True) (AuthController.refresh env cookie c) log := by
  unfold AuthController.refresh
  split
  · rename_i token hc
    obtain rfl := (Option.filter_eq_some_iff.mp hc).1
    refine told_query fun w log₁ h₁ hw hk => ?_
    cases hf : w.refreshTokens.find? (·.tokenHash == TokenService.hashRefreshToken env token) with
    | none => exact .throw _
    | some t =>
      have hmem := List.mem_of_find?_eq_some hf
      have hhash : t.tokenHash = env.sha256 token := beq_iff_eq.mp (List.find?_some hf :)
      have hs : Knows (HasSession t.userId t.sessionId) log₁ :=
        ⟨_, hw, hk.inv.joined.tokenSession t hmem⟩
      refine .ite (fun hrevoked => ?_) fun hrevoked => ?_
      · refine Upholds.bind (told_revokeRefreshTokenFamily _) fun _ log₂ h₂ hfamily => ?_
        refine Upholds.bind (told_revokeSession (hs.suffix h₂)) fun _ log₃ h₃ hsession => ?_
        refine Upholds.bind (told_emit ⟨token, t.sessionId, rfl, ?_, hfamily.suffix h₃, hsession⟩)
          fun _ _ _ _ => .throw _
        exact ⟨_, (h₂.trans h₃).subset hw, t, hmem, rfl, rfl, rfl, hhash, hrevoked⟩
      · refine told_query fun w₂ log₂ h₂ hw₂ hk₂ => .ite (fun _ => .throw _) fun hexp => ?_
        have hlive : LiveCookieOf env token t.userId w := by
          refine ⟨t, hmem, rfl, hhash, by simpa using hrevoked, ?_⟩
          exact Nat.le_trans (hk₂.past _ hw).2.grows.now (Nat.not_lt.mp hexp)
        refine told_query fun w₃ log₃ h₃ hw₃ _ => ?_
        cases hsess : w₃.sessions.find? (·.id == t.sessionId) with
        | none => exact .throw _
        | some session =>
          refine .ite (fun _ => .throw _) fun _ => told_query fun w₄ log₄ h₄ hw₄ _ => ?_
          cases huser : w₄.users.find? fun v => v.id == t.userId && v.deletedAt.isNone with
          | none => exact .throw _
          | some user =>
            have huid := List.find?_some huser
            simp only [Bool.and_eq_true, beq_iff_eq] at huid
            have hl := h₂.trans (h₃.trans h₄)
            exact told_rotate ⟨_, hl.subset hw, hlive⟩ hhash ⟨_, hl.subset hw, t, hmem, .refl t⟩
              (hs.suffix hl) (beq_iff_eq.mp (List.find?_some hsess :)) huid.1
  · exact .throw _

theorem told_logout {bearer : JwtPayload} (hb : Admitted bearer log) (cookie : Option String)
    (c : RequestContext) :
    Told env (.logout bearer cookie c) (fun _ _ => True)
      (AuthService.logout env bearer.sub bearer.sessionId cookie bearer.jti (some bearer.exp) c)
      log := by
  have rest (log' : List (Entry World Call)) (hl : log <:+ log') :
      Told env (.logout bearer cookie c) (fun _ _ => True) (do
        let _ ← AuthRepository.revokeSession bearer.sessionId
        let ttl ← AuthService.remainingTtlMs env (some bearer.exp)
        TokenBlacklistService.blacklist bearer.jti ttl
        emit (.userLoggedOut bearer.sub bearer.sessionId c)) log' := by
    refine Upholds.bind (told_revokeSession (hb.session.suffix hl)) fun _ log₁ h₁ hrev => ?_
    refine told_seq (silent_of_made env (made_remainingTtlMs _)) fun _ log₂ h₂ => ?_
    refine told_seq (silent_of_made env (made_blacklist nofun ..)) fun _ log₃ h₃ => told_emit ?_
    exact ⟨bearer, cookie, rfl, rfl, rfl, hb.suffix (hl.trans (h₁.trans (h₂.trans h₃))),
      hrev.suffix (h₂.trans h₃)⟩
  unfold AuthService.logout
  cases hc : truthy cookie with
  | none => exact rest log (List.suffix_refl _)
  | some token =>
    refine told_query fun w log₁ h₁ _ _ => ?_
    cases hf : w.refreshTokens.find? (·.tokenHash == TokenService.hashRefreshToken env token) with
    | none => exact rest log₁ h₁
    | some t =>
      exact told_seq (silent_revokeRefreshTokenFamily _) fun _ log₂ h₂ => rest log₂ (h₁.trans h₂)

theorem told_deleteSession {bearer : JwtPayload} (hb : Admitted bearer log) (sid : String)
    (c : RequestContext) :
    Told env (.revokeSession bearer sid c) (fun _ _ => True)
      (SessionsService.revokeSession env bearer.sub sid c) log := by
  refine told_query fun w log₁ h₁ hw _ => ?_
  cases hf : w.sessions.find? (·.id == sid) with
  | none => exact .throw _
  | some session =>
    refine .ite (fun _ => .throw _) fun _ => .ite (fun _ => .throw _) fun hu => ?_
    have hs : Knows (HasSession bearer.sub sid) log₁ := ⟨_, hw, session,
      List.mem_of_find?_eq_some hf, beq_iff_eq.mp (List.find?_some hf :), Decidable.not_not.mp hu⟩
    refine Upholds.bind (told_sessionsRevoke hs) fun _ log₂ h₂ hrev => ?_
    refine told_seq always_ofExcept fun _ log₃ h₃ => ?_
    refine told_seq (silent_of_made env (made_blacklistSession nofun ..)) fun _ log₄ h₄ => told_emit ?_
    exact ⟨bearer, rfl, rfl, hb.suffix (h₁.trans (h₂.trans (h₃.trans h₄))),
      hrev.suffix (h₃.trans h₄)⟩

theorem AllRevoked.suffix {kept : Option String} {count : Nat} (h : AllRevoked u kept count log)
    (hl : log <:+ log') : AllRevoked u kept count log' := by
  obtain ⟨ids, hlen, hlive, hrev⟩ := h
  exact ⟨ids, hlen, hlive.suffix hl, fun sid hsid => (hrev sid hsid).suffix hl⟩

theorem SweepsSessions.suffix {kept : Option String} {c : RequestContext}
    (h : SweepsSessions env route log u kept c) (hl : log <:+ log') :
    SweepsSessions env route log' u kept c := by
  obtain ⟨token, new, hr, hk, h⟩ | ⟨bearer, hu, hk, h, hr⟩ := h
  · exact .inl ⟨token, new, hr, hk, h.suffix hl⟩
  · exact .inr ⟨bearer, hu, hk, h.suffix hl, hr⟩

theorem told_revokeAll {kept : Option String} {c : RequestContext}
    (h : SweepsSessions env route log u kept c) :
    Told env route (fun _ _ => True) (SessionsService.revokeAll env u c kept) log := by
  refine Upholds.bind (told_revokeAllExcept kept) fun ids log₁ h₁ hids => ?_
  refine told_seq always_ofExcept fun ttl log₂ h₂ => ?_
  refine told_seq (silent_of_made env (made_promiseAll fun p hp => ?_)) fun _ log₃ h₃ => ?_
  · obtain ⟨id, -, rfl⟩ := List.mem_map.mp hp
    exact made_blacklistSession nofun ..
  · refine Upholds.bind (told_emit ⟨hids.suffix (h₂.trans h₃), ?_⟩) fun _ _ _ _ => .ret trivial
    exact h.suffix (h₁.trans (h₂.trans h₃))

/-- A new password, and its hash. -/
theorem told_updatePassword {id hash password : String} {n : Nat}
    (hh : hash = env.argon2Hash n password) :
    Told env route (fun log' _ => Did (.usersUpdatePassword id) (HashedFor env password id) log')
      (UsersRepository.updatePassword id hash) log := by
  refine (told_update (by exact fun _ _ => rfl)).mono fun log' v _ ⟨hv, now, v₀, e⟩ => ?_
  exact hv.imp fun w h => ⟨h.1, h.2.1, v, h.2.2.1, h.2.2.2, n, e ▸ hh⟩

theorem told_resetPassword (token new : String) (c : RequestContext) :
    Told env (.resetPassword token new c) (fun _ _ => True)
      (PasswordService.resetPassword env token new c) log := by
  refine told_query fun w log₁ h₁ hw _ => ?_
  cases hf : w.passwordResetTokens.find? (·.tokenHash == env.sha256 token) with
  | none => exact .throw _
  | some t =>
    refine told_query fun w₂ log₂ h₂ _ hk₂ => .ite (fun _ => .throw _) fun hlive => ?_
    obtain ⟨hc, hexp⟩ := not_or.mp hlive
    have hlink : Knows (ResetLinkOf env token t.userId) log₂ := by
      refine ⟨_, h₂.subset hw, t, List.mem_of_find?_eq_some hf, rfl,
        beq_iff_eq.mp (List.find?_some hf :), by simpa using hc, ?_⟩
      exact Nat.le_trans (hk₂.past _ hw).2.grows.now (Nat.not_lt.mp hexp)
    refine Upholds.bind (told_hash new) fun hash log₃ h₃ ⟨n, hh⟩ => ?_
    refine Upholds.bind (told_updatePassword hh) fun _ log₄ h₄ hhashed => ?_
    refine told_seq (silent_passwordResetMarkConsumed _) fun _ log₅ h₅ => ?_
    have hl := h₃.trans (h₄.trans h₅)
    refine Upholds.bind (told_revokeAll (.inl ⟨token, new, rfl, rfl, hlink.suffix hl⟩))
      fun _ log₆ h₆ _ => told_emit ?_
    exact ⟨token, new, rfl, hlink.suffix (hl.trans h₆), hhashed.suffix (h₅.trans h₆)⟩

theorem told_changePassword {bearer : JwtPayload} (hb : Admitted bearer log) (current new : String)
    (c : RequestContext) :
    Told env (.changePassword bearer current new c) (fun _ _ => True)
      (PasswordService.changePassword env bearer.sub bearer.sessionId current new c) log := by
  refine told_query fun w log₁ h₁ hw _ => ?_
  cases hf : w.users.find? fun v => v.id == bearer.sub && v.deletedAt.isNone with
  | none => exact .throw _
  | some user =>
    obtain ⟨hid, hd⟩ : user.id = bearer.sub ∧ user.deletedAt = none := by
      simpa using List.find?_some hf
    refine told_bind (upheld_verify ..) (silent_verify ..) fun ok log₂ h₂ hok => ?_
    refine .ite (fun _ => .throw _) fun hright => ?_
    have hp : env.argon2Verify user.passwordHash current = true := by simpa [hok] using hright
    have hpw : Knows (PasswordOf env current bearer.sub) log₂ :=
      ⟨_, h₂.subset hw, user, List.mem_of_find?_eq_some hf, hid, hd, hp⟩
    refine Upholds.bind (told_hash new) fun hash log₃ h₃ ⟨n, hh⟩ => ?_
    refine Upholds.bind (told_updatePassword hh) fun _ log₄ h₄ hhashed => ?_
    have hl := h₃.trans h₄
    have hadmitted := hb.suffix (h₁.trans (h₂.trans hl))
    refine Upholds.bind (told_revokeAll (.inr ⟨bearer, rfl, rfl, hadmitted, .inr ⟨current, new, rfl⟩⟩))
      fun _ log₅ h₅ _ => told_emit ?_
    exact ⟨bearer, current, new, rfl, rfl, hadmitted.suffix h₅, hpw.suffix (hl.trans h₅),
      hhashed.suffix h₅⟩

theorem told_applyToken {t : EmailVerificationToken} {user : User}
    (hu : Knows (AddressOf user.email user.id) log) :
    Told env route (fun log' email => (∃ l ∈ [.usersMarkEmailVerified user.id, .usersUpdateEmail user.id],
        Did l (IsVerified user.id) log') ∧ Knows (AddressOf email user.id) log')
      (EmailVerificationService.applyToken t user) log := by
  unfold EmailVerificationService.applyToken
  split
  · split
    · refine told_query fun _ log₁ _ _ _ => .ite (fun _ => .throw _) fun _ => ?_
      exact Upholds.bind (told_updateEmail ..) fun _ log₂ _ h => .ret ⟨⟨_, .tail _ (.head _), h.1⟩, h.2⟩
    · exact .throw _
  · refine Upholds.bind (told_update (by exact fun _ _ => rfl)) fun v log₁ h₁ ⟨hv, now, v₀, e⟩ => .ret ?_
    exact ⟨⟨_, .head _, hv.imp fun w h => ⟨h.1, h.2.1, v, h.2.2.1, h.2.2.2, by rw [e]⟩⟩, hu.suffix h₁⟩

theorem told_verifyEmail (token : String) (c : RequestContext) :
    Told env (.verifyEmail token c) (fun _ _ => True) (EmailVerificationService.verify env token c)
      log := by
  refine told_query fun w log₁ h₁ hw _ => ?_
  cases hf : w.emailVerificationTokens.find? (·.tokenHash == env.sha256 token) with
  | none => exact .throw _
  | some t =>
    have hmem := List.mem_of_find?_eq_some hf
    have hhash : t.tokenHash = env.sha256 token := beq_iff_eq.mp (List.find?_some hf :)
    refine told_query fun w₂ log₂ h₂ _ hk₂ => .ite (fun _ => .throw _) fun hlive => ?_
    obtain ⟨hc, hexp⟩ := not_or.mp hlive
    have hlink : LinkOf env token t.userId t.type w := by
      refine ⟨t, hmem, rfl, rfl, hhash, by simpa using hc, ?_⟩
      exact Nat.le_trans (hk₂.past _ hw).2.grows.now (Nat.not_lt.mp hexp)
    refine told_query fun w₃ log₃ h₃ hw₃ _ => ?_
    cases huser : w₃.users.find? fun v => v.id == t.userId && v.deletedAt.isNone with
    | none => exact .throw _
    | some user =>
      have huid := List.find?_some huser
      simp only [Bool.and_eq_true, beq_iff_eq] at huid
      have hu : Knows (AddressOf user.email user.id) log₃ :=
        ⟨_, hw₃, user, List.mem_of_find?_eq_some huser, rfl, rfl⟩
      refine Upholds.bind (told_applyToken hu) fun email log₄ h₄ ⟨⟨l, hl, hverified⟩, haddress⟩ => ?_
      have hlog := h₂.trans (h₃.trans h₄)
      refine Upholds.bind (told_markConsumed hhash ⟨_, hlog.subset hw, t, hmem, .refl t⟩)
        fun _ log₅ h₅ hused => told_emit ?_
      exact ⟨token, t.id, rfl, ⟨_, (hlog.trans h₅).subset hw, huid.1 ▸ hlink⟩, huid.1 ▸ hused,
        ⟨l, hl, hverified.suffix h₅⟩, haddress.suffix h₅⟩

/-- A route of which the request emits nothing. -/
theorem silent_route (h : ∀ r, route.request = some r → r.isSilent = true) :
    (route.program env).Always Silent :=
  (fronts_route route).always fun r _ hK => silent_program (h r hK.1)

theorem told_route (route : Route) : Told env route (fun _ _ => True) (route.program env) [] := by
  have done {β : Type} {p : App β} {f : β → Reply} (h : Told env route (fun _ _ => True) p []) :
      Told env route (fun _ _ => True) (p >>= fun b => return f b) [] :=
    Upholds.bind h fun _ _ _ _ => .ret trivial
  cases route with
  | register dto c => exact done (told_register dto c)
  | login dto c => exact done (told_login dto c)
  | refresh cookie c => exact done (told_refresh cookie c)
  | verifyEmail token c => exact done (told_verifyEmail token c)
  | resetPassword token new c => exact done (told_resetPassword token new c)
  | changePassword bearer current new c =>
    exact done (told_canActivate fun _ _ hb => told_changePassword hb current new c)
  | logout bearer cookie c => exact done (told_canActivate fun _ _ hb => told_logout hb cookie c)
  | revokeSession bearer id c => exact done (told_canActivate fun _ _ hb => told_deleteSession hb id c)
  | revokeAllOtherSessions bearer c =>
    exact done (told_canActivate fun _ _ hb =>
      told_revokeAll (.inr ⟨bearer, rfl, rfl, hb, .inl rfl⟩))
  | listSessions | findOne => exact told_silent (silent_route fun _ => nofun)
  | _ =>
    refine told_silent (silent_route ?_)
    rintro _ ⟨⟩
    rfl

/-! ## Runs -/

theorem SweepsSessions.user {kept : Option String} {c : RequestContext}
    (h : SweepsSessions env route log u kept c) (ho : ∀ x ∈ log, Orderly env x.after) :
    Knows (IsUser u) log := by
  obtain ⟨token, new, -, -, x, hx, t, ht, rfl, -⟩ | ⟨bearer, rfl, -, hb, -⟩ := h
  · exact ⟨x, hx, (ho x hx).joined.resetUser t ht⟩
  · exact hb.user

theorem RevokedSession.user (h : Knows (RevokedSession u sid) log)
    (ho : ∀ x ∈ log, Orderly env x.after) : Knows (IsUser u) log := by
  obtain ⟨x, hx, s, hs, hid, hu, -⟩ := h
  exact ⟨x, hx, (ho x hx).joined.sessionUser ⟨s, hs, hid, hu⟩⟩

/-- The user that an event names has been seen. -/
theorem Event.Holds.user {e : Event} (h : e.Holds env route log)
    (ho : ∀ x ∈ log, Orderly env x.after) (hu : e.rowUser = some u) : Knows (IsUser u) log := by
  cases e with
  | userRegistered =>
    cases hu
    obtain ⟨dto, -, -, x, hx, -, v, hv, hid, -⟩ := h
    exact ⟨x, hx, v, hv, hid⟩
  | userLoggedIn =>
    cases hu
    obtain ⟨dto, -, -, h, -⟩ := h
    exact h.imp fun _ ⟨v, hv, hid, _⟩ => ⟨v, hv, hid⟩
  | userLoggedOut =>
    cases hu
    obtain ⟨bearer, cookie, -, -, -, -, h⟩ := h
    exact RevokedSession.user h.knows ho
  | loginFailed email status c user =>
    obtain rfl : user = some u := hu
    obtain ⟨dto, -, -, h⟩ := h
    cases status with
    | FAILED_LOCKED | FAILED_PASSWORD => exact h.imp fun _ ⟨v, hv, hid, _⟩ => ⟨v, hv, hid⟩
    | SUCCESS | FAILED_UNVERIFIED | FAILED_NOT_FOUND => exact h.elim
  | tokenRefreshed => cases hu
  | tokenReuseDetected =>
    cases hu
    obtain ⟨cookie, sid, -, -, -, h⟩ := h
    exact RevokedSession.user h.knows ho
  | emailVerified =>
    cases hu
    obtain ⟨token, id, -, -, -, ⟨l, -, h⟩, -⟩ := h
    exact h.knows.imp fun _ ⟨v, hv, hid, _⟩ => ⟨v, hv, hid⟩
  | passwordChanged u' method =>
    cases hu
    cases method with
    | reset =>
      obtain ⟨token, new, -, -, h⟩ := h
      exact h.knows.imp fun _ ⟨v, hv, hid, _⟩ => ⟨v, hv, hid⟩
    | change =>
      obtain ⟨bearer, current, new, -, -, -, -, h⟩ := h
      exact h.knows.imp fun _ ⟨v, hv, hid, _⟩ => ⟨v, hv, hid⟩
  | sessionRevoked =>
    cases hu
    obtain ⟨bearer, -, -, -, h⟩ := h
    exact RevokedSession.user h.knows ho
  | allSessionsRevoked =>
    cases hu
    exact h.2.user ho

/-- The `n`th event is one that a call of a thread has emitted, and it held of
the calls that the thread had made before. -/
def ApiPool.Attests (env : Env) (P : ApiPool) (n : Nat) (e : Event) : Prop :=
  ∃ th ∈ P.threads, ∃ x log, x :: log <:+ th.log ∧ x.before.events.length = n ∧
    x.after.events = x.before.events ++ [e] ∧ e.Holds env th.req log

variable {w₀ : World} {P P' : ApiPool} {ok : ApiPool → Move Route Time Exn → Prop} {n : Nat} {e : Event}

theorem ApiPool.Attests.step {m : Move Route Time Exn} (h : P.Attests env n e)
    (hs : (api env).step P m = some P') : P'.Attests env n e := by
  obtain ⟨th, hth, x, log, hl, hn, hx, he⟩ := h
  obtain ⟨i, hi⟩ := List.getElem?_of_mem hth
  obtain ⟨th', hi', hreq, hl'⟩ := System.step_thread hs hi
  exact ⟨th', List.mem_of_getElem? hi', x, log, hl.trans hl', hn, hx, hreq ▸ he⟩

/-- The events of a run are those of its threads. -/
theorem attested_run (ho : Orderly env w₀) (h : (api env).Run ok ⟨w₀, []⟩ P) (hn : w₀.events.length ≤ n)
    (he : P.state.events[n]? = some e) : P.Attests env n e := by
  induction h with
  | refl =>
    rw [List.getElem?_eq_none hn] at he
    cases he
  | @step P₁ P₂ m hr hok hs ih =>
    have hobeys := hr.obeys (I := fun P => (api env).Run ok ⟨w₀, []⟩ P) told_route .refl (.step · · ·)
      fun h' t ht => (relied_api ho h').known t ht
    have kept (heq : P₂.state.events = P₁.state.events) : ApiPool.Attests env P₂ n e :=
      (ih (heq ▸ he)).step hs
    rcases System.step_cases hs with ⟨_, -, hP⟩ | ⟨i, r, log, l, next, eff, fail, -, ht, hP⟩ |
      ⟨_, _, _, _, _, _, _, _, -, -, hP⟩ | ⟨_, -, hP⟩
    · exact kept (hP ▸ rfl)
    · have hmem := List.mem_of_getElem? ht
      rcases hobeys.call (Nat.zero_le i) ht ((relied_api ho hr).known _ hmem) with heq | ⟨e₀, heq, hholds⟩
      · exact kept (hP ▸ heq)
      · have hevents : P₂.state.events = P₁.state.events ++ [e₀] := hP ▸ heq
        rw [hevents, List.getElem?_append] at he
        split at he
        · exact (ih he).step hs
        · -- The event is that of the thread whose call this is.
          obtain ⟨hlast, rfl⟩ : n - P₁.state.events.length = 0 ∧ e₀ = e := by
            simpa [List.getElem?_singleton] using he
          obtain ⟨hlt, -⟩ := List.getElem?_eq_some_iff.mp ht
          have hmem' : ⟨r, ⟨l, P₁.state, eff P₁.state⟩ :: log, next P₁.state⟩ ∈ P₂.threads := by
            rw [hP]
            exact List.mem_of_getElem? (List.getElem?_set_self hlt)
          exact ⟨_, hmem', _, log, List.suffix_refl _, by dsimp only; omega, heq, hholds⟩
    · exact kept (hP ▸ rfl)
    · exact kept (hP ▸ rfl)

/-- Whatever runs, in any order of the calls and with any failures: each event
that is emitted says what the route that emits it has seen and done, and the
user of its rows in the audit trail is there. -/
theorem events_true (ho : Orderly env w₀) (h : (api env).Run ok ⟨w₀, []⟩ P) (hn : w₀.events.length ≤ n)
    (he : P.state.events[n]? = some e) :
    references P.state.users e.rowUser = true ∧ P.Attests env n e := by
  have hattests := attested_run ho h hn he
  refine ⟨?_, hattests⟩
  obtain ⟨th, hth, x, log, hl, -, -, hholds⟩ := hattests
  have hl : log <:+ th.log := (List.suffix_cons ..).trans hl
  cases hu : e.rowUser with
  | none => rfl
  | some u =>
    have hk := (relied_api ho h).known th hth
    have huser := hholds.user (fun x hx => (hk.past x (hl.subset hx)).1) hu
    exact references_some.mpr ((huser.suffix hl).now hk fun _ _ => IsUser.later)

/-- A login of the user who has registered. -/
def loggedIn : ApiPool :=
  (api .sample).after
    (.start (.login ⟨"a@b.co", "Passw0rd!"⟩ ⟨none, none⟩) :: List.replicate 15 (.call 0))
    ⟨registeredAndListed.state, []⟩

theorem loggedIn_attested :
    ∃ e, (∃ sid, e = .userLoggedIn (unary 1) "a@b.co" sid ⟨none, none⟩) ∧
      references loggedIn.state.users e.rowUser = true ∧ loggedIn.Attests .sample 1 e := by
  have h : ApiRun .sample ⟨registeredAndListed.state, []⟩ loggedIn := .after (by decide)
  have he : loggedIn.state.events[1]? =
      some (.userLoggedIn (unary 1) "a@b.co" (unary 9) ⟨none, none⟩) := by
    decide
  exact ⟨_, ⟨_, rfl⟩, events_true registeredAndListed_orderly h (by decide) he⟩

end AtlasAuth

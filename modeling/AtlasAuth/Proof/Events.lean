import AtlasAuth.Proof.Changes
import AtlasAuth.Model.Audit

/-!
# The events of a request

Every call but `emit` is `Silent`. A request emits its events last, or with
nothing after them that can refuse it, so what it has emitted when it has
completed is a function of what it was, of the state in which it began and of
its outcome: `Request.events`, which `events_program` proves.
-/

namespace AtlasAuth

open Framework Framework.Table Prog

variable {env : Env} {w w' w'' : World} {x : Except Exn Response}

/-- No event has been emitted. -/
def Silent (w w' : World) : Prop := w'.events = w.events

instance : IsPreorder World Silent where
  refl _ := rfl
  trans _ _ _ h h' := Eq.trans h' h

theorem lapse_events (h : (system env).lapse w w') : w'.events = w.events := by
  obtain ⟨d, rfl⟩ := h
  rfl

/-! ## Single calls -/

theorem silent_randomUUID : (randomUUID env).Always Silent := always_atomic.mpr fun _ => rfl
theorem silent_randomBytes : (randomBytes env).Always Silent := always_atomic.mpr fun _ => rfl
theorem silent_hash (p : String) : (HashingService.hash env p).Always Silent :=
  always_atomic.mpr fun _ => rfl
theorem silent_verify (h p : String) : (HashingService.verify env h p).Always Silent :=
  always_atomic.mpr fun _ => rfl
theorem silent_send (r : String) (k : MailKind) (t : String) :
    (MailService.send r k t).Always Silent := always_atomic.mpr fun _ => rfl

theorem silent_usersCreate (email hash : String) (first last : Option String) :
    (UsersRepository.create env email hash first last).Always Silent :=
  always_atomic.mpr fun w => by split <;> rfl

theorem silent_usersUpdate (call : Call) (id : String) (data : Time → User → User) :
    (UsersRepository.update call id data).Always Silent :=
  always_usersUpdate fun _ => rfl

theorem silent_findUniqueOrThrow (id : String) :
    (UsersRepository.findUniqueOrThrow id).Always Silent :=
  always_atomic.mpr fun w => by split <;> rfl

theorem silent_updateEmail (id email : String) :
    (UsersRepository.updateEmail id email).Always Silent := by
  refine always_atomic.mpr fun w => ?_
  split
  · rfl
  · split <;> rfl

theorem silent_upsertDevice (u f : String) (ua ip : Option String) :
    (AuthRepository.upsertDevice env u f ua ip).Always Silent := by
  refine always_atomic.mpr fun w => ?_
  dsimp only
  split <;> rfl

theorem silent_createSession (u d : String) (ip ua : Option String) (e : JsDate) :
    (AuthRepository.createSession env u d ip ua e).Always Silent :=
  always_atomic.mpr fun w => by split <;> rfl

theorem silent_revokeSession (id : String) : (AuthRepository.revokeSession id).Always Silent :=
  always_atomic.mpr fun w => by split <;> rfl

theorem silent_touchSession (id : String) (e : JsDate) :
    (AuthRepository.touchSession id e).Always Silent :=
  always_atomic.mpr fun w => by split <;> rfl

theorem silent_createRefreshToken (u s f h : String) (e : JsDate) (ip : Option String) :
    (AuthRepository.createRefreshToken env u s f h e ip).Always Silent := by
  refine always_atomic.mpr fun w => ?_
  split
  · rfl
  · split <;> rfl

theorem silent_revokeRefreshToken (id h : String) :
    (AuthRepository.revokeRefreshToken id h).Always Silent :=
  always_atomic.mpr fun w => by split <;> rfl

theorem silent_revokeRefreshTokenFamily (f : String) :
    (AuthRepository.revokeRefreshTokenFamily f).Always Silent :=
  always_atomic.mpr fun _ => rfl

theorem silent_sessionsRevoke (id : String) : (SessionsRepository.revoke id).Always Silent :=
  always_atomic.mpr fun w => by split <;> rfl

theorem silent_revokeMany (ids : List String) :
    (SessionsRepository.revokeMany ids).Always Silent :=
  always_atomic.mpr fun _ => rfl

theorem silent_passwordResetCreate (u h : String) (e : JsDate) :
    (PasswordResetRepository.create env u h e).Always Silent := by
  refine always_atomic.mpr fun w => ?_
  split
  · rfl
  · split <;> rfl

theorem silent_passwordResetMarkConsumed (id : String) :
    (PasswordResetRepository.markConsumed id).Always Silent :=
  always_atomic.mpr fun w => by split <;> rfl

theorem silent_passwordResetInvalidate (u : String) :
    (PasswordResetRepository.invalidateOutstanding u).Always Silent :=
  always_atomic.mpr fun _ => rfl

theorem silent_emailVerificationCreate (u h : String) (t : EmailTokenType) (n : Option String)
    (e : JsDate) : (EmailVerificationRepository.create env u h t n e).Always Silent := by
  refine always_atomic.mpr fun w => ?_
  split
  · rfl
  · split <;> rfl

theorem silent_emailVerificationMarkConsumed (id : String) :
    (EmailVerificationRepository.markConsumed id).Always Silent :=
  always_atomic.mpr fun w => by split <;> rfl

theorem silent_emailVerificationInvalidate (u : String) (t : EmailTokenType) :
    (EmailVerificationRepository.invalidateOutstanding u t).Always Silent :=
  always_atomic.mpr fun _ => rfl

theorem silent_rbacCall {α : Type} (call : Call) (f : World → Except Exn (α × Rbac)) :
    (rbacCall call f).Always Silent :=
  always_atomic.mpr fun w => by split <;> rfl

theorem silent_jwtSign (sub email : String) (rs ps : List String) (sid jti : String) (d : Double) :
    (TokenService.jwtSign sub email rs ps sid jti d).Always Silent := by
  refine always_atomic.mpr fun w => ?_
  dsimp only
  split <;> rfl

theorem silent_redisSet (k v : String) (d : Double) : (RedisService.set k v d).Always Silent := by
  refine always_atomic.mpr fun w => ?_
  split
  · split <;> rfl
  · rfl

theorem silent_jwtVerify (bearer : JwtPayload) : (JwtStrategy.verify bearer).Always Silent :=
  always_atomic.mpr fun w => by split <;> rfl

/-! ## Requests -/

theorem silent_call {α : Type} {p : App α} (h : SingleCall env (· ≠ .event) p) :
    p.Always Silent := by
  cases h with
  | randomUUID => exact silent_randomUUID
  | randomBytes => exact silent_randomBytes
  | hash p => exact silent_hash p
  | verify h p => exact silent_verify h p
  | jwtVerify bearer => exact silent_jwtVerify bearer
  | jwtSign => exact silent_jwtSign ..
  | redisSet => exact silent_redisSet ..
  | emit hA | emitRegistered hA => exact absurd rfl hA
  | send => exact silent_send ..
  | usersCreate => exact silent_usersCreate ..
  | markEmailVerified | updateProfile | recordSuccessfulLogin | updatePassword =>
    exact silent_usersUpdate ..
  | updateFailedLogin _ _ _ t => exact always_updateFailedLogin (fun _ _ => rfl) t
  | updateEmail => exact silent_updateEmail ..
  | findUniqueOrThrow id => exact silent_findUniqueOrThrow id
  | upsertDevice => exact silent_upsertDevice ..
  | createSession => exact silent_createSession ..
  | revokeSession _ id => exact silent_revokeSession id
  | touchSession => exact silent_touchSession ..
  | createRefreshToken => exact silent_createRefreshToken ..
  | revokeRefreshToken => exact silent_revokeRefreshToken ..
  | revokeRefreshTokenFamily _ f => exact silent_revokeRefreshTokenFamily f
  | sessionsRevoke _ id => exact silent_sessionsRevoke id
  | revokeMany _ ids => exact silent_revokeMany ids
  | passwordResetCreate => exact silent_passwordResetCreate ..
  | passwordResetMarkConsumed _ id => exact silent_passwordResetMarkConsumed id
  | passwordResetInvalidate _ u => exact silent_passwordResetInvalidate u
  | emailVerificationCreate => exact silent_emailVerificationCreate ..
  | emailVerificationMarkConsumed _ id => exact silent_emailVerificationMarkConsumed id
  | emailVerificationInvalidate => exact silent_emailVerificationInvalidate ..
  | rolesCreate | rolesUpdate | rolesDelete | rolesAssignPermission | rolesRevokePermission
  | rolesAssignToUser | rolesRevokeFromUser | permissionsCreate | permissionsDelete =>
    exact silent_rbacCall ..

theorem silent_of_made (env : Env) {α : Type} {p : App α} (h : Made env (· ≠ .event) p) :
    p.Always Silent :=
  h.always fun _ _ => silent_call

theorem silent_program {r : Request} (h : r.isSilent = true) : (program env r).Always Silent := by
  refine silent_of_made env (made_program ?_)
  rintro k hk rfl
  exact absurd (h.symm.trans hk) (by decide)

/-! ## What is announced -/

/-- The refresh token of a cookie. -/
def cookieRow (env : Env) (w : World) (cookie : Option String) : Option RefreshToken :=
  (truthy cookie).bind fun token => w.refreshTokens.find? (·.tokenHash == env.sha256 token)

/-- The link that a password reset presents. -/
def resetRow (env : Env) (w : World) (token : String) : Option PasswordResetToken :=
  w.passwordResetTokens.find? (·.tokenHash == env.sha256 token)

/-- The link that a verification presents, with its user. -/
def emailRow (env : Env) (w : World) (token : String) : Option (EmailVerificationToken × User) :=
  (w.emailVerificationTokens.find? (·.tokenHash == env.sha256 token)).bind fun l =>
    (w.users.find? fun u => u.id == l.userId && u.deletedAt.isNone).map (l, ·)

/-- The address that a link verifies. -/
def verifiedAddress (l : EmailVerificationToken) (u : User) : String :=
  match l.type with
  | .EMAIL_CHANGE => l.newEmail.getD ""
  | .REGISTRATION => u.email

/-- The events of a request that succeeds. -/
def Request.announces (env : Env) (w : World) : Request → Response → List Event
  | .register _ c, .session u _ => [.userRegistered u.id u.email c]
  | .login _ c, .session u tokens => [.userLoggedIn u.id u.email tokens.sessionId c]
  | .refresh _ c, .session u tokens => [.tokenRefreshed u.id tokens.sessionId c]
  | .logout bearer _ c, _ => [.userLoggedOut bearer.sub bearer.sessionId c]
  | .verifyEmail token c, _ =>
    (emailRow env w token).toList.map fun (l, u) =>
      .emailVerified u.id (verifiedAddress l u) l.type c
  | .resetPassword token _ c, _ =>
    (resetRow env w token).toList.flatMap fun l =>
      [.allSessionsRevoked l.userId (liveSessionsOf w l.userId none).length none c,
       .passwordChanged l.userId .reset c]
  | .changePassword bearer _ _ c, _ =>
    [.allSessionsRevoked bearer.sub
        (liveSessionsOf w bearer.sub (some bearer.sessionId)).length (some bearer.sessionId) c,
     .passwordChanged bearer.sub .change c]
  | .deleteSession bearer id c, _ => [.sessionRevoked bearer.sub id c]
  | .revokeSession u id c, _ => [.sessionRevoked u id c]
  | .deleteOtherSessions bearer c, _ =>
    [.allSessionsRevoked bearer.sub
      (liveSessionsOf w bearer.sub (some bearer.sessionId)).length (some bearer.sessionId) c]
  | .revokeAllOtherSessions u id c, _ =>
    [.allSessionsRevoked u (liveSessionsOf w u (some id)).length (some id) c]
  | .revokeAllSessions u c, _ =>
    [.allSessionsRevoked u (liveSessionsOf w u none).length none c]
  | _, _ => []

/-- Why a login was refused. -/
def refusalStatus (user : Option User) (e : Exn) : LoginStatus :=
  match user with
  | none => .FAILED_NOT_FOUND
  | some _ => if e = AuthService.accountLocked then .FAILED_LOCKED else .FAILED_PASSWORD

/-- The events of a request that is refused. -/
def Request.alarms (env : Env) (w : World) : Request → Exn → List Event
  | .login dto c, e =>
    [.loginFailed (env.toLowerCase dto.email) (refusalStatus (loginRow env w dto) e) c
      ((loginRow env w dto).map (·.id))]
  | .refresh cookie c, _ =>
    ((cookieRow env w cookie).filter (·.revokedAt.isSome)).toList.map fun t =>
      .tokenReuseDetected t.userId t.familyId c
  | _, _ => []

/-- The events of a request that completes. -/
def Request.events (env : Env) (w : World) (r : Request) : Except Exn Response → List Event
  | .ok a => r.announces env w a
  | .error e => r.alarms env w e

/-- The events of a program that announces its success, and nothing else. -/
def Announces {α : Type} (w : World) (f : α → List Event) : Except Exn α → World → Prop
  | .ok a, w' => w'.events = w.events ++ f a
  | .error e, w' => (∃ m, e = .error m) ∨ w'.events = w.events

section

variable {α β : Type} {f : α → List Event}

theorem leaves_silent {p : App α} (h : p.Always Silent) :
    Leaves env p w fun _ w' => w'.events = w.events :=
  h.ensures (fun _ _ => lapse_events) w

theorem announces_bind {p : App β} {k : β → App α} (hp : p.Always Silent)
    (he : w'.events = w.events)
    (hk : ∀ b w'', w''.events = w.events → Leaves env (k b) w'' (Announces w f)) :
    Leaves env (p >>= k) w' (Announces w f) :=
  (leaves_silent hp).bind (fun b w'' h => hk b w'' (h.trans he)) fun _ _ h => .inr (h.trans he)

theorem announces_throw (he : w'.events = w.events) (e : Exn) :
    Leaves env (.throw e : App α) w' (Announces w f) :=
  ensures_throw.mpr (.inr he)

theorem announces_emit (he : w'.events = w.events) (e : Event) :
    Leaves env (emit e) w' (Announces w fun _ => [e]) :=
  ensures_atomic.mpr fun _ h => congrArg (· ++ [e]) ((lapse_events h).trans he)

/-- The end of a request that announces its value. -/
theorem announces_emit_ret (he : w'.events = w.events) {e : Event} {a : α} (ha : f a = [e]) :
    Leaves env (emit e >>= fun _ => .ret a) w' (Announces w f) :=
  .atomic_bind fun _ h => ensures_ret.mpr
    ((congrArg (· ++ [e]) ((lapse_events h).trans he)).trans (congrArg (w.events ++ ·) ha.symm))

/-- A request behind the guard. -/
theorem announces_authenticated {bearer : JwtPayload} {k : JwtPayload → App α}
    (hk : ∀ w', Quiet w w' → w'.events = w.events → Leaves env (k bearer) w' (Announces w f)) :
    Leaves env (JwtAuthGuard.canActivate bearer >>= k) w (Announces w f) := by
  have hs := silent_of_made env (made_canActivate bearer)
  refine ((leaves_canActivate bearer).and (leaves_silent hs)).bind ?_ fun _ _ h => .inr h.2
  rintro p w' ⟨⟨q, h⟩, he⟩
  obtain ⟨rfl, -⟩ := h p rfl
  exact hk w' q he

end

/-! ## The requests -/

theorem announces_issueSession (hw : HashMinted env w') (u : User) (c : RequestContext) :
    Leaves env (AuthService.issueSession env u c) w' (Succeeds fun _ w'' => w''.events = w'.events) := by
  have hs := silent_of_made env (made_issueSession nofun nofun u c)
  refine ((leaves_issueSession hw u c).and (leaves_silent hs)).mono ?_
  rintro (e | tokens) w'' ⟨h, he⟩
  · exact h
  · exact he

theorem announces_register (hw : HashMinted env w) (dto : RegisterDto) (c : RequestContext) :
    Leaves env (AuthService.register env dto c) w
      (Announces w fun b => [.userRegistered b.1.id b.1.email c]) := by
  refine .query_bind fun w₁ h₁ => .ite (fun _ => announces_throw (lapse_events h₁) _) fun _ => ?_
  refine .atomic_bind fun w₂ h₂ => ?_
  have q₂ := (Quiet.lapse h₁).trans ((Quiet.lapse h₂).trans (Minor.quiet .draw))
  have e₂ : w₂.events = w.events := (lapse_events h₂).trans (lapse_events h₁)
  refine ((leaves_usersCreate q₂ _ _ _ _).and (leaves_silent (silent_usersCreate _ _ _ _))).bind ?_
    fun _ _ h => .inr (h.2.trans e₂)
  rintro u _ ⟨⟨-, w₃, q₃, rfl⟩, e₃⟩
  refine .atomic_bind fun w₄ h₄ => ?_
  have q₄ := Quiet.lapse h₄
  have hw₄ : HashMinted env w₄ := by
    rw [HashMinted, q₄.refreshTokens]
    exact (hw.calm q₃.calm).mono ((Nat.le_succ _).trans q₄.drawn)
  have e₄ : w₄.events = w.events := (lapse_events h₄).trans (e₃.trans e₂)
  refine (announces_issueSession (by exact hw₄) u c).bind (fun tokens w₅ h₅ => ensures_ret.mpr ?_)
    fun _ _ h => .inl h
  exact h₅.trans (congrArg (· ++ [.userRegistered u.id u.email c]) e₄)

/-- What a login announces, unless it fails. -/
def LoginAnnounced (env : Env) (dto : LoginDto) (c : RequestContext) (w : World) :
    Except Exn (User × SessionTokens) → World → Prop
  | .ok b, w' => w'.events = w.events ++ [.userLoggedIn b.1.id b.1.email b.2.sessionId c]
  | .error e, w' => (∃ m, e = .error m) ∨ w'.events = w.events ++
      [.loginFailed (env.toLowerCase dto.email) (refusalStatus (loginRow env w dto) e) c
        ((loginRow env w dto).map (·.id))]

theorem announces_login (hw : HashMinted env w) (hf : Fresh env w) (dto : LoginDto)
    (c : RequestContext) :
    Leaves env (AuthService.login env dto c) w (LoginAnnounced env dto c w) := by
  have refused {w' : World} {e : Exn} {status : LoginStatus} {u : Option String}
      (he : w'.events = w.events) (hs : refusalStatus (loginRow env w dto) e = status)
      (hu : (loginRow env w dto).map (·.id) = u) :
      Leaves env (emit (.loginFailed (env.toLowerCase dto.email) status c u) >>= fun _ => .throw e)
        w' (LoginAnnounced env dto c w) := by
    subst hs hu
    exact .atomic_bind fun _ h => ensures_throw.mpr (.inr (congrArg (· ++ _) ((lapse_events h).trans he)))
  refine .query_bind fun w₁ h₁ => ?_
  rw [lapse_users h₁]
  cases hu : w.users.find? fun u => u.email == env.toLowerCase dto.email && u.deletedAt.isNone with
  | none =>
    have hu : loginRow env w dto = none := hu
    exact refused (lapse_events h₁) (by simp [refusalStatus, hu]) (by simp [hu])
  | some u =>
    have hu : loginRow env w dto = some u := hu
    have hid : w.users.find? (·.id == u.id) = some u :=
      hf.userId.find?.mpr ⟨List.mem_of_find?_eq_some hu, rfl⟩
    refine .query_bind fun w₂ h₂ => ?_
    have e₂ := (lapse_events h₂).trans (lapse_events h₁)
    refine .ite (fun _ => refused e₂ (by simp [refusalStatus, hu]) (by simp [hu])) fun _ => ?_
    refine .atomic_bind fun w₃ h₃ => ?_
    have q₃ : Quiet w { w₃ with verified := w₃.verified ++ [(u.passwordHash, dto.password)] } :=
      (Quiet.lapse h₁).trans ((Quiet.lapse h₂).trans ((Quiet.lapse h₃).trans (Minor.quiet (.verify ..))))
    have e₃ : w₃.events = w.events := (lapse_events h₃).trans e₂
    have hid₃ : w₃.users.find? (·.id == u.id) = some u := by
      rw [lapse_users h₃, lapse_users h₂, lapse_users h₁, hid]
    refine .ite (fun _ => ?_) fun _ => ?_
    · have hs := silent_of_made env
        (made_registerFailedLoginAttempt nofun u.id env.maxAttempts env.durationMinutes)
      refine ((leaves_registerFailedLoginAttempt (by exact hid₃)).and (leaves_silent hs)).bind
        (fun _ w₄ h₄ => ?_) fun _ _ h => .inl h.1
      refine refused (h₄.2.trans e₃) ?_ (by simp [hu])
      simp [refusalStatus, hu, AuthService.accountLocked]
    · refine .atomic_bind fun w₄ h₄ => ?_
      have hid₄ : w₄.users.find? (·.id == u.id) = some u := by
        rw [lapse_users h₄]
        exact hid₃
      have hw₄ : HashMinted env w₄ := hw.calm (q₃.trans (.lapse h₄)).calm
      simp only [hid₄]
      refine (announces_issueSession (by exact hw₄) u c).bind (fun tokens w₅ h₅ => ?_)
        fun _ _ h => .inl h
      refine .atomic_bind fun w₆ h₆ => ensures_ret.mpr ?_
      exact congrArg (· ++ _) ((lapse_events h₆).trans (h₅.trans ((lapse_events h₄).trans e₃)))

theorem announces_rotate (he : w'.events = w.events) (t : RefreshToken) (s : Session) (u : User)
    (c : RequestContext) :
    Leaves env (AuthService.rotate env t s u c) w'
      (Announces w fun b => [.tokenRefreshed b.1.id b.2.sessionId c]) :=
  announces_bind (silent_of_made env made_generateRefreshToken) he fun _ _ he =>
    announces_bind (silent_createRefreshToken ..) he fun _ _ he =>
    announces_bind (silent_revokeRefreshToken ..) he fun _ _ he =>
    announces_bind (silent_touchSession ..) he fun _ _ he =>
    announces_bind (silent_of_made env (made_signAccessTokenForUser nofun ..)) he fun _ _ he =>
    announces_emit_ret he rfl

/-- What a refresh announces, unless it fails. -/
def RefreshAnnounced (env : Env) (token : String) (c : RequestContext) (w : World) :
    Except Exn (User × SessionTokens) → World → Prop
  | .ok b, w' => w'.events = w.events ++ [.tokenRefreshed b.1.id b.2.sessionId c]
  | .error e, w' => (∃ m, e = .error m) ∨ w'.events = w.events ++
      ((w.refreshTokens.find? (·.tokenHash == env.sha256 token)).filter
        (·.revokedAt.isSome)).toList.map fun t => .tokenReuseDetected t.userId t.familyId c

theorem announces_refresh
    (hs : ∀ t ∈ w.refreshTokens, (w.sessions.find? (·.id == t.sessionId)).isSome = true)
    (token : String) (c : RequestContext) :
    Leaves env (AuthService.refresh env token c) w (RefreshAnnounced env token c w) := by
  refine .query_bind fun w₁ h₁ => ?_
  have q₁ := Quiet.lapse h₁
  have e₁ := lapse_events h₁
  rw [show TokenService.hashRefreshToken env token = env.sha256 token from rfl, q₁.refreshTokens]
  cases ht : w.refreshTokens.find? (·.tokenHash == env.sha256 token) with
  | none => exact ensures_throw.mpr (.inr (by simpa [ht] using e₁))
  | some t =>
    refine .ite (fun hr => ?_) fun hr => ?_
    · obtain ⟨s, hs⟩ := Option.isSome_iff_exists.mp (hs t (List.mem_of_find?_eq_some ht))
      refine .atomic_bind fun w₂ h₂ => .atomic_bind fun w₃ h₃ => ?_
      have hs₃ : w₃.sessions.find? (·.id == t.sessionId) = some s := by
        rw [(Quiet.lapse h₃).sessions]
        exact (congrArg (List.find? _) ((Quiet.lapse h₂).sessions.trans q₁.sessions)).trans hs
      simp only [hs₃]
      refine .atomic_bind fun w₄ h₄ => ensures_throw.mpr (.inr ?_)
      have e₄ : w₄.events = w.events :=
        (lapse_events h₄).trans ((lapse_events h₃).trans ((lapse_events h₂).trans e₁))
      simp [ht, hr, e₄, Option.filter_some]
    · have refused {w' : World} (he : w'.events = w.events) (e : Exn) :
          RefreshAnnounced env token c w (.error e) w' :=
        .inr (by simpa [ht, hr, Option.filter_some] using he)
      refine .query_bind fun w₂ h₂ => .ite (fun _ => ?_) fun _ => .query_bind fun w₃ h₃ => ?_
      · exact ensures_throw.mpr (refused ((lapse_events h₂).trans e₁) _)
      have e₃ := (lapse_events h₃).trans ((lapse_events h₂).trans e₁)
      split
      · refine .ite (fun _ => ensures_throw.mpr (refused e₃ _)) fun _ => .query_bind fun w₄ h₄ => ?_
        have e₄ := (lapse_events h₄).trans e₃
        split
        · refine (announces_rotate e₄ t _ _ c).mono fun r w' h => ?_
          cases r with
          | ok b => exact h
          | error e => exact h.imp_right fun h => by simpa [ht, hr, Option.filter_some] using h
        · exact ensures_throw.mpr (refused e₄ _)
      · exact ensures_throw.mpr (refused e₃ _)

theorem announces_logout (bearer : JwtPayload) (cookie : Option String) (c : RequestContext) :
    Leaves env (AuthController.logout env bearer cookie c) w
      (Announces w fun _ => [.userLoggedOut bearer.sub bearer.sessionId c]) := by
  have rest {w' : World} (he : w'.events = w.events) : Leaves env (do
      let _ ← AuthRepository.revokeSession bearer.sessionId
      let ttl ← AuthService.remainingTtlMs env (some bearer.exp)
      TokenBlacklistService.blacklist bearer.jti ttl
      emit (.userLoggedOut bearer.sub bearer.sessionId c)) w'
        (Announces w fun _ => [.userLoggedOut bearer.sub bearer.sessionId c]) :=
    announces_bind (silent_revokeSession _) he fun _ _ he =>
      announces_bind (silent_of_made env (made_remainingTtlMs _)) he fun _ _ he =>
      announces_bind (silent_of_made env (made_blacklist nofun ..)) he fun _ _ he =>
      announces_emit he _
  refine announces_authenticated fun w₁ _ e₁ => ?_
  unfold AuthService.logout
  cases truthy cookie with
  | none => exact rest e₁
  | some token =>
    refine announces_bind always_query e₁ fun existing w₂ e₂ => ?_
    cases existing with
    | none => exact rest e₂
    | some existing =>
      exact announces_bind (silent_revokeRefreshTokenFamily _) e₂ fun _ _ he => rest he

theorem announces_revokeSession (he : w'.events = w.events) (u id : String) (c : RequestContext) :
    Leaves env (SessionsService.revokeSession env u id c) w'
      (Announces w fun _ => [.sessionRevoked u id c]) := by
  refine announces_bind always_query he fun session w₁ he => ?_
  cases session with
  | none => exact announces_throw he _
  | some session =>
    exact .ite (fun _ => announces_throw he _) fun _ => .ite (fun _ => announces_throw he _) fun _ =>
      announces_bind (silent_sessionsRevoke _) he fun _ _ he =>
      announces_bind always_ofExcept he fun _ _ he =>
      announces_bind (silent_of_made env (made_blacklistSession nofun ..)) he fun _ _ he =>
      announces_emit he _

theorem announces_revokeAll (he : w'.events = w.events) (hs : w'.sessions = w.sessions) (u : String)
    (c : RequestContext) (k : Option String) :
    Leaves env (SessionsService.revokeAll env u c k) w' (Announces w fun _ =>
      [.allSessionsRevoked u (liveSessionsOf w u k).length k c]) := by
  have h : Leaves env (SessionsService.revokeAll env u c k) w' (Announces w fun n =>
      [.allSessionsRevoked u n k c]) := by
    refine announces_bind (silent_of_made env (made_revokeAllExcept nofun ..)) he fun ids _ he =>
      announces_bind always_ofExcept he fun _ _ he =>
      announces_bind (silent_of_made env (made_promiseAll fun p hp => ?_)) he fun _ _ he =>
      announces_emit_ret he rfl
    obtain ⟨id, -, rfl⟩ := List.mem_map.mp hp
    exact made_blacklistSession nofun ..
  refine ((leaves_revokeAll u c k).and h).mono fun r w'' h => ?_
  cases r with
  | error e => exact .inl h.1
  | ok n =>
    obtain ⟨⟨rfl, -⟩, h⟩ := h
    exact liveSessionsOf_congr hs u k ▸ h

/-- The end of a password change. -/
theorem announces_evictUser (he : w'.events = w.events) (hs : w'.sessions = w.sessions) (u : String)
    (c : RequestContext) (k : Option String) (e : Event) :
    Leaves env (do
      let _ ← SessionsService.revokeAll env u c k
      emit e) w' (Announces w fun _ =>
        [.allSessionsRevoked u (liveSessionsOf w u k).length k c, e]) := by
  refine (announces_revokeAll he hs u c k).bind (fun _ w₁ h₁ => ?_) fun _ _ h => h
  refine ensures_atomic.mpr fun w₂ h₂ => ?_
  exact (congrArg (· ++ [e]) ((lapse_events h₂).trans h₁)).trans (List.append_assoc ..)

theorem announces_resetPassword (token new : String) (c : RequestContext) :
    Leaves env (PasswordService.resetPassword env token new c) w (Announces w fun _ =>
      (resetRow env w token).toList.flatMap fun l =>
        [.allSessionsRevoked l.userId (liveSessionsOf w l.userId none).length none c,
         .passwordChanged l.userId .reset c]) := by
  refine .query_bind fun w₁ h₁ => ?_
  have hrow : w₁.passwordResetTokens.find? (·.tokenHash == env.sha256 token) = resetRow env w token := by
    obtain ⟨d, rfl⟩ := h₁
    rfl
  rw [hrow]
  cases hr : resetRow env w token with
  | none => exact announces_throw (lapse_events h₁) _
  | some l =>
    refine .query_bind fun w₂ h₂ => ?_
    have e₂ := (lapse_events h₂).trans (lapse_events h₁)
    refine .ite (fun _ => announces_throw e₂ _) fun _ => .atomic_bind fun w₃ h₃ => ?_
    have q₃ : Quiet w { w₃ with drawn := w₃.drawn + 1 } :=
      (Quiet.lapse h₁).trans ((Quiet.lapse h₂).trans ((Quiet.lapse h₃).trans (Minor.quiet .draw)))
    have e₃ : w₃.events = w.events := (lapse_events h₃).trans e₂
    refine ((leaves_updatePassword q₃).and (leaves_silent (silent_usersUpdate ..))).bind
      (fun _ w₄ h₄ => ?_) fun _ _ h => .inr (h.2.trans e₃)
    refine ((leaves_minor (minor_passwordResetMarkConsumed l.id)).and
      (leaves_silent (silent_passwordResetMarkConsumed l.id))).bind (fun _ w₅ h₅ => ?_)
      fun _ _ h => .inr (h.2.trans (h₄.2.trans e₃))
    have hs₅ : w₅.sessions = w.sessions := h₅.1.sessions.trans h₄.1.1.calm.sessions
    exact announces_evictUser (h₅.2.trans (h₄.2.trans e₃)) hs₅ l.userId c none _

theorem announces_changePassword (bearer : JwtPayload) (current new : String) (c : RequestContext) :
    Leaves env (AuthController.changePassword env bearer current new c) w (Announces w fun _ =>
      [.allSessionsRevoked bearer.sub
          (liveSessionsOf w bearer.sub (some bearer.sessionId)).length (some bearer.sessionId) c,
       .passwordChanged bearer.sub .change c]) := by
  refine announces_authenticated fun w₁ q₁ e₁ => .query_bind fun w₂ h₂ => ?_
  have e₂ := (lapse_events h₂).trans e₁
  split
  · rename_i user _
    refine .atomic_bind fun w₃ h₃ => ?_
    have e₃ : w₃.events = w.events := (lapse_events h₃).trans e₂
    refine .ite (fun _ => announces_throw (by exact e₃) _) fun _ => .atomic_bind fun w₄ h₄ => ?_
    have q₃ := (Quiet.lapse h₂).trans
      ((Quiet.lapse h₃).trans (Minor.quiet (.verify user.passwordHash current)))
    have q₄ : Quiet w { w₄ with drawn := w₄.drawn + 1 } :=
      q₁.trans (q₃.trans ((Quiet.lapse h₄).trans (Minor.quiet .draw)))
    have e₄ : w₄.events = w.events := (lapse_events h₄).trans e₃
    refine ((leaves_updatePassword q₄).and (leaves_silent (silent_usersUpdate ..))).bind
      (fun _ w₅ h₅ => ?_) fun _ _ h => .inr (h.2.trans e₄)
    exact announces_evictUser (h₅.2.trans e₄) h₅.1.1.calm.sessions bearer.sub c _ _
  · exact announces_throw e₂ _

theorem returns_applyToken (l : EmailVerificationToken) (u : User) :
    (EmailVerificationService.applyToken l u).Returns (· = verifiedAddress l u) := by
  unfold EmailVerificationService.applyToken
  split
  · rename_i ht
    split
    · rename_i e he
      have ha : e = verifiedAddress l u := by
        simp [verifiedAddress, ht, Option.eq_some_of_filter_eq_some he]
      exact .seq fun _ => .ite (fun _ => trivial) fun _ => .seq fun _ => returns_ret.mpr ha
    · trivial
  · rename_i ht
    exact .seq fun _ => returns_ret.mpr (by simp [verifiedAddress, ht])

theorem announces_verify (token : String) (c : RequestContext) :
    Leaves env (EmailVerificationService.verify env token c) w (Announces w fun _ =>
      (emailRow env w token).toList.map fun (l, u) =>
        .emailVerified u.id (verifiedAddress l u) l.type c) := by
  refine .query_bind fun w₁ h₁ => ?_
  have hrow : w₁.emailVerificationTokens.find? (·.tokenHash == env.sha256 token) =
      w.emailVerificationTokens.find? (·.tokenHash == env.sha256 token) := by
    obtain ⟨d, rfl⟩ := h₁
    rfl
  rw [hrow]
  cases hl : w.emailVerificationTokens.find? (·.tokenHash == env.sha256 token) with
  | none => exact announces_throw (lapse_events h₁) _
  | some l =>
    refine .query_bind fun w₂ h₂ => ?_
    have e₂ := (lapse_events h₂).trans (lapse_events h₁)
    refine .ite (fun _ => announces_throw e₂ _) fun _ => .query_bind fun w₃ h₃ => ?_
    have e₃ := (lapse_events h₃).trans e₂
    rw [lapse_users h₃, lapse_users h₂, lapse_users h₁]
    cases hu : w.users.find? fun u => u.id == l.userId && u.deletedAt.isNone with
    | none => exact announces_throw e₃ _
    | some u =>
      have hrow : emailRow env w token = some (l, u) := by simp [emailRow, hl, hu]
      rw [hrow]
      have hs := silent_of_made env (made_applyToken nofun l u)
      refine (((returns_applyToken l u).ensures w₃).and (leaves_silent hs)).bind (fun a w₄ h₄ => ?_)
        fun _ _ h => .inr (h.2.trans e₃)
      obtain rfl := h₄.1 a rfl
      exact announces_bind (silent_emailVerificationMarkConsumed _) (h₄.2.trans e₃) fun _ _ he =>
        announces_emit he _

/-- The events that a request has emitted when it has been answered. -/
theorem events_program (hr : Ready env w) {r : Request} (h : Completes env r w x w')
    (hx : Answered x) : w'.events = w.events ++ r.events env w x := by
  have wrap {β : Type} {p : App β} {g : β → Response} {f : β → List Event} {r : Request}
      (hp : Leaves env p w (Announces w f))
      (h : (p >>= fun b => .ret (g b)).Exec (system env).lapse w x w')
      (hf : ∀ b, r.announces env w (g b) = f b) (ha : ∀ e, r.alarms env w e = []) :
      w'.events = w.events ++ r.events env w x := by
    obtain ⟨y, hy, rfl⟩ := exec_map.mp h
    have hy := hp y w' hy
    cases y with
    | ok b => exact hy.trans (congrArg _ (hf b).symm)
    | error e =>
      obtain ⟨m, rfl⟩ | he := hy
      · exact absurd rfl (hx m)
      · exact he.trans ((List.append_nil _).symm.trans (congrArg _ (ha e).symm))
  have silent {r : Request} (hs : r.isSilent = true) (h : Completes env r w x w')
      (ha : ∀ a, r.announces env w a = []) (he : ∀ e, r.alarms env w e = []) :
      w'.events = w.events ++ r.events env w x := by
    have hw : w'.events = w.events := leaves_silent (silent_program hs) x w' h
    cases x with
    | ok a => exact hw.trans ((List.append_nil _).symm.trans (congrArg _ (ha a).symm))
    | error e => exact hw.trans ((List.append_nil _).symm.trans (congrArg _ (he e).symm))
  cases r with
  | register dto c => exact wrap (announces_register hr.hashMinted dto c) h (fun _ => rfl) fun _ => rfl
  | login dto c =>
    obtain ⟨y, hy, rfl⟩ := exec_map.mp h
    have hy := announces_login hr.hashMinted hr.fresh dto c y w' hy
    cases y with
    | ok b => exact hy
    | error e => exact hy.resolve_left fun ⟨m, he⟩ => hx m (congrArg Except.error he)
  | refresh cookie c =>
    obtain ⟨y, hy, rfl⟩ := exec_map.mp h
    unfold AuthController.refresh at hy
    cases ht : truthy cookie with
    | none =>
      rw [ht] at hy
      obtain ⟨rfl, rfl⟩ := hy
      change _ = _ ++ Request.alarms env w' (.refresh cookie c) (.unauthorized "Missing refresh token")
      simp [Request.alarms, cookieRow, ht]
    | some token =>
      rw [ht] at hy
      have hy := announces_refresh hr.tokenSession token c y w' hy
      cases y with
      | ok b => exact hy
      | error e =>
        have he := hy.resolve_left fun ⟨m, he⟩ => hx m (congrArg Except.error he)
        change _ = _ ++ Request.alarms env w (.refresh cookie c) e
        simpa [Request.alarms, cookieRow, ht] using he
  | logout bearer cookie c =>
    exact wrap (announces_logout bearer cookie c) h (fun _ => rfl) fun _ => rfl
  | verifyEmail token c => exact wrap (announces_verify token c) h (fun _ => rfl) fun _ => rfl
  | resetPassword token new c =>
    exact wrap (announces_resetPassword token new c) h (fun _ => rfl) fun _ => rfl
  | changePassword bearer current new c =>
    exact wrap (announces_changePassword bearer current new c) h (fun _ => rfl) fun _ => rfl
  | deleteSession bearer id c =>
    exact wrap (announces_authenticated fun _ _ he => announces_revokeSession he bearer.sub id c) h
      (fun _ => rfl) fun _ => rfl
  | deleteOtherSessions bearer c =>
    exact wrap (announces_authenticated fun _ q he =>
      announces_revokeAll he q.sessions bearer.sub c (some bearer.sessionId)) h (fun _ => rfl) fun _ => rfl
  | revokeSession u id c =>
    exact wrap (announces_revokeSession rfl u id c) h (fun _ => rfl) fun _ => rfl
  | revokeAllOtherSessions u id c =>
    exact wrap (announces_revokeAll rfl rfl u c (some id)) h (fun _ => rfl) fun _ => rfl
  | revokeAllSessions u c =>
    exact wrap (announces_revokeAll rfl rfl u c none) h (fun _ => rfl) fun _ => rfl
  | _ => exact silent rfl h (fun _ => rfl) fun _ => rfl

theorem emittedSince_completes (hr : Ready env w) {r : Request} (h : Completes env r w x w')
    (hx : Answered x) : w'.emittedSince w = r.events env w x := by
  rw [World.emittedSince, events_program hr h hx, List.drop_left]

end AtlasAuth

import AtlasAuth.Model.App

/-!
# Which calls a request makes

The services are put together from single calls (`SingleCall`), some kinds of
which (`Kind`) only some requests make. `made_program` says so of every
request. What every single call guarantees, every call of a request does
(`MadeOf.always`), so that the text of the services is gone through here and
not for each guarantee again.
-/

namespace AtlasAuth

open Framework Prog

/-- The kinds of change that only some requests make. -/
inductive Deed
  | account
  | address
  | resetLink
  | emailLink
  | sign
  | grant
  | withdraw
  deriving DecidableEq

def MailKind.deed : MailKind → Deed
  | .passwordReset => .resetLink
  | .verification | .emailChange => .emailLink

/-- The kinds of call that only some requests make. -/
inductive Kind
  | deed (d : Deed)
  | lockout
  | password
  | session
  | event
  deriving DecidableEq

/-- The single calls that the services are put together from, with what the
services make sure of; the kinds are those that `A` allows. -/
inductive SingleCall (env : Env) (A : Kind → Prop) : ∀ ⦃α : Type⦄, App α → Prop
  | randomUUID : SingleCall env A (randomUUID env)
  | randomBytes : SingleCall env A (randomBytes env)
  | hash (p : String) : SingleCall env A (HashingService.hash env p)
  | verify (h p : String) : SingleCall env A (HashingService.verify env h p)
  | jwtVerify (bearer : JwtPayload) : SingleCall env A (JwtStrategy.verify bearer)
  | jwtSign (hA : A (.deed .sign)) (sub email : String) (rs ps : List String) (sid jti : String)
      (d : Double) : SingleCall env A (TokenService.jwtSign sub email rs ps sid jti d)
  | redisSet (hA : A .session) (k v : String) (d : Double) : SingleCall env A (RedisService.set k v d)
  | emit (hA : A .event) {e : Event} (he : ∀ u a c, e ≠ .userRegistered u a c) :
      SingleCall env A (emit e)
  | emitRegistered (hA : A .event) (hA' : A (.deed .account)) (u e : String) (c : RequestContext) :
      SingleCall env A (emit (.userRegistered u e c))
  | send {k : MailKind} (hA : A (.deed k.deed)) (r t : String) :
      SingleCall env A (MailService.send r k t)
  | usersCreate (hA : A (.deed .account)) (email hash : String) (first last : Option String) :
      SingleCall env A (UsersRepository.create env (env.toLowerCase email) hash first last)
  | markEmailVerified (hA : A (.deed .address)) (id : String) :
      SingleCall env A (UsersRepository.markEmailVerified id)
  | updateEmail (hA : A (.deed .address)) (id email : String) :
      SingleCall env A (UsersRepository.updateEmail id email)
  | updateProfile (id : String) (first last avatar : Option String) :
      SingleCall env A (UsersRepository.updateProfile id first last avatar)
  | recordSuccessfulLogin (hA : A .lockout) (id : String) :
      SingleCall env A (UsersRepository.recordSuccessfulLogin id)
  | findUniqueOrThrow (id : String) : SingleCall env A (UsersRepository.findUniqueOrThrow id)
  | updateFailedLogin (hA : A .lockout) (id : String) (n : Nat) (t : Except Exn (Option Time)) :
      SingleCall env A (UsersRepository.updateFailedLogin id n t)
  | updatePassword (hA : A .password) (id hash : String) :
      SingleCall env A (UsersRepository.updatePassword id hash)
  | upsertDevice (u f : String) (ua ip : Option String) :
      SingleCall env A (AuthRepository.upsertDevice env u f ua ip)
  | createSession (hA : A .session) (u d : String) (ip ua : Option String) (e : JsDate) :
      SingleCall env A (AuthRepository.createSession env u d ip ua e)
  | revokeSession (hA : A .session) (id : String) : SingleCall env A (AuthRepository.revokeSession id)
  | touchSession (hA : A .session) (id : String) (e : JsDate) :
      SingleCall env A (AuthRepository.touchSession id e)
  | createRefreshToken (hA : A .session) (u s f h : String) (e : JsDate) (ip : Option String) :
      SingleCall env A (AuthRepository.createRefreshToken env u s f h e ip)
  | revokeRefreshToken (hA : A .session) (id h : String) :
      SingleCall env A (AuthRepository.revokeRefreshToken id h)
  | revokeRefreshTokenFamily (hA : A .session) (f : String) :
      SingleCall env A (AuthRepository.revokeRefreshTokenFamily f)
  | sessionsRevoke (hA : A .session) (id : String) : SingleCall env A (SessionsRepository.revoke id)
  | revokeMany (hA : A .session) (ids : List String) :
      SingleCall env A (SessionsRepository.revokeMany ids)
  | passwordResetCreate (hA : A (.deed .resetLink)) (u h : String) (e : JsDate) :
      SingleCall env A (PasswordResetRepository.create env u h e)
  | passwordResetMarkConsumed (hA : A (.deed .resetLink)) (id : String) :
      SingleCall env A (PasswordResetRepository.markConsumed id)
  | passwordResetInvalidate (hA : A (.deed .resetLink)) (u : String) :
      SingleCall env A (PasswordResetRepository.invalidateOutstanding u)
  | emailVerificationCreate (hA : A (.deed .emailLink)) (u h : String) (t : EmailTokenType)
      {n : Option String} (hn : ∀ e ∈ n, ∃ s, e = env.toLowerCase s) (e : JsDate) :
      SingleCall env A (EmailVerificationRepository.create env u h t n e)
  | emailVerificationMarkConsumed (hA : A (.deed .emailLink)) (id : String) :
      SingleCall env A (EmailVerificationRepository.markConsumed id)
  | emailVerificationInvalidate (hA : A (.deed .emailLink)) (u : String) (t : EmailTokenType) :
      SingleCall env A (EmailVerificationRepository.invalidateOutstanding u t)
  | rolesCreate (hA : A (.deed .grant)) (name : String) (d : Option String) :
      SingleCall env A (RolesRepository.create env name d)
  | rolesUpdate (hA : A (.deed .grant)) (id : String) (name d : Option String) :
      SingleCall env A (RolesRepository.update id name d)
  | rolesDelete (hA : A (.deed .withdraw)) (id : String) :
      SingleCall env A (RolesRepository.delete id)
  | rolesAssignPermission (hA : A (.deed .grant)) (roleId permissionId : String) :
      SingleCall env A (RolesRepository.assignPermission roleId permissionId)
  | rolesRevokePermission (hA : A (.deed .withdraw)) (roleId permissionId : String) :
      SingleCall env A (RolesRepository.revokePermission roleId permissionId)
  | rolesAssignToUser (hA : A (.deed .grant)) (userId roleId : String) :
      SingleCall env A (RolesRepository.assignToUser userId roleId)
  | rolesRevokeFromUser (hA : A (.deed .withdraw)) (userId roleId : String) :
      SingleCall env A (RolesRepository.revokeFromUser userId roleId)
  | permissionsCreate (hA : A (.deed .grant)) (name : String) (d : Option String) :
      SingleCall env A (PermissionsRepository.create env name d)
  | permissionsDelete (hA : A (.deed .withdraw)) (id : String) :
      SingleCall env A (PermissionsRepository.delete id)

/-- A part of a service, which makes calls of the kinds `A` only. -/
abbrev Made (env : Env) (A : Kind → Prop) {α : Type} (p : App α) : Prop :=
  p.MadeOf (SingleCall env A)

variable {env : Env} {A : Kind → Prop}

/-! ## Services -/

theorem made_registerFailedLoginAttempt (hA : A .lockout) (id : String) (n d : Nat) :
    Made env A (UsersRepository.registerFailedLoginAttempt id n d) :=
  .bind (.one (.findUniqueOrThrow id)) fun _ => .ite
    (fun _ => .bind (.query ..) fun _ => .one (.updateFailedLogin hA ..))
    fun _ => .one (.updateFailedLogin hA ..)

theorem made_revokeAllExcept (hA : A .session) (u : String) (k : Option String) :
    Made env A (SessionsRepository.revokeAllExcept u k) :=
  .bind (.query ..) fun _ => .ite (fun _ => .ret _) fun _ =>
    .bind (.one (.revokeMany hA _)) fun _ => .ret _

theorem made_signAccessTokenForUser (hA : A (.deed .sign)) (u : User) (s : String) :
    Made env A (AuthService.signAccessTokenForUser env u s) :=
  .bind (.query ..) fun _ => .bind (.one .randomUUID) fun _ => .bind .ofExcept fun _ =>
    .bind (.one (.jwtSign hA ..)) fun _ => .bind (.query ..) fun _ => .ret _

theorem made_generateRefreshToken : Made env A (TokenService.generateRefreshToken env) :=
  .bind (.one .randomBytes) fun _ => .bind .ofExcept fun _ => .bind (.query ..) fun _ => .ret _

theorem made_blacklist (hA : A .session) (jti : String) (d : Double) :
    Made env A (TokenBlacklistService.blacklist jti d) :=
  .ite (fun _ => .ret _) fun _ => .one (.redisSet hA ..)

theorem made_blacklistSession (hA : A .session) (s : String) (d : Double) :
    Made env A (TokenBlacklistService.blacklistSession s d) :=
  .ite (fun _ => .ret _) fun _ => .one (.redisSet hA ..)

theorem made_canActivate (bearer : JwtPayload) : Made env A (JwtAuthGuard.canActivate bearer) :=
  .bind (.one (.jwtVerify _)) fun _ => .bind (.query ..) fun _ => .bind (.query ..) fun _ =>
    .ite (fun _ => .throw _) fun _ => .ret _

theorem made_issueSession (hS : A .session) (hJ : A (.deed .sign)) (u : User) (c : RequestContext) :
    Made env A (AuthService.issueSession env u c) :=
  .bind (.one (.upsertDevice ..)) fun _ => .bind made_generateRefreshToken fun _ =>
    .bind (.one (.createSession hS ..)) fun _ => .bind (made_signAccessTokenForUser hJ ..) fun _ =>
    .bind (.one .randomUUID) fun _ => .bind (.one (.createRefreshToken hS ..)) fun _ => .ret _

theorem made_register (hA : A (.deed .account)) (hS : A .session) (hJ : A (.deed .sign))
    (hE : A .event) (dto : RegisterDto) (c : RequestContext) :
    Made env A (AuthService.register env dto c) :=
  .bind (.query ..) fun _ => .ite (fun _ => .throw _) fun _ => .bind (.one (.hash _)) fun _ =>
    .bind (.one (.usersCreate hA ..)) fun _ => .bind (.one (.emitRegistered hE hA ..)) fun _ =>
    .bind (made_issueSession hS hJ ..) fun _ => .ret _

theorem made_login (hL : A .lockout) (hS : A .session) (hJ : A (.deed .sign)) (hE : A .event)
    (dto : LoginDto) (c : RequestContext) : Made env A (AuthService.login env dto c) := by
  refine .bind (.query ..) fun user => ?_
  cases user with
  | none => exact .bind (.one (.emit hE nofun)) fun _ => .throw _
  | some user =>
    refine .bind (.query ..) fun _ =>
      .ite (fun _ => .bind (.one (.emit hE nofun)) fun _ => .throw _) fun _ => ?_
    refine .bind (.one (.verify ..)) fun _ => .ite (fun _ => ?_) fun _ => ?_
    · exact .bind (made_registerFailedLoginAttempt hL ..) fun _ =>
        .bind (.one (.emit hE nofun)) fun _ => .throw _
    · exact .bind (.one (.recordSuccessfulLogin hL _)) fun _ => .bind (made_issueSession hS hJ ..)
        fun _ => .bind (.one (.emit hE nofun)) fun _ => .ret _

theorem made_reuseDetected {α : Type} (hS : A .session) (hE : A .event) (t : RefreshToken)
    (c : RequestContext) : Made env A (AuthService.reuseDetected t c : App α) :=
  .bind (.one (.revokeRefreshTokenFamily hS _)) fun _ => .bind (.one (.revokeSession hS _)) fun _ =>
    .bind (.one (.emit hE nofun)) fun _ => .throw _

theorem made_rotate (hS : A .session) (hJ : A (.deed .sign)) (hE : A .event) (t : RefreshToken)
    (s : Session) (u : User) (c : RequestContext) : Made env A (AuthService.rotate env t s u c) :=
  .bind made_generateRefreshToken fun _ => .bind (.one (.createRefreshToken hS ..)) fun _ =>
    .bind (.one (.revokeRefreshToken hS ..)) fun _ => .bind (.one (.touchSession hS ..)) fun _ =>
    .bind (made_signAccessTokenForUser hJ ..) fun _ => .bind (.one (.emit hE nofun)) fun _ => .ret _

theorem made_refresh (hS : A .session) (hJ : A (.deed .sign)) (hE : A .event) (t : String)
    (c : RequestContext) : Made env A (AuthService.refresh env t c) := by
  refine .bind (.query ..) fun existing => ?_
  cases existing with
  | none => exact .throw _
  | some existing =>
    refine .ite (fun _ => made_reuseDetected hS hE ..) fun _ => .bind (.query ..) fun _ =>
      .ite (fun _ => .throw _) fun _ => .bind (.query ..) fun session => ?_
    cases session with
    | none => exact .throw _
    | some session =>
      refine .ite (fun _ => .throw _) fun _ => .bind (.query ..) fun user => ?_
      cases user with
      | none => exact .throw _
      | some user => exact made_rotate hS hJ hE ..

theorem made_remainingTtlMs (exp : Option Nat) : Made env A (AuthService.remainingTtlMs env exp) := by
  unfold AuthService.remainingTtlMs
  split
  · exact .bind (.query ..) fun _ => .ret _
  · exact .ofExcept

theorem made_logout (hS : A .session) (hE : A .event) (sub sid : String) (t : Option String)
    (jti : String) (exp : Option Nat) (c : RequestContext) :
    Made env A (AuthService.logout env sub sid t jti exp c) := by
  have rest : Made env A (do
      let _ ← AuthRepository.revokeSession sid
      let ttl ← AuthService.remainingTtlMs env exp
      TokenBlacklistService.blacklist jti ttl
      emit (.userLoggedOut sub sid c)) :=
    .bind (.one (.revokeSession hS _)) fun _ => .bind (made_remainingTtlMs _) fun _ =>
      .bind (made_blacklist hS ..) fun _ => .one (.emit hE nofun)
  unfold AuthService.logout
  cases truthy t with
  | none => exact rest
  | some t =>
    refine .bind (.query ..) fun existing => ?_
    cases existing with
    | none => exact rest
    | some existing => exact .bind (.one (.revokeRefreshTokenFamily hS _)) fun _ => rest

theorem made_promiseAll {ps : List (App Unit)} (h : ∀ p ∈ ps, Made env A p) :
    Made env A (SessionsService.promiseAll ps) := by
  induction ps with
  | nil => exact .ret _
  | cons p ps ih =>
    have rest := ih fun q hq => h q (List.mem_cons_of_mem _ hq)
    exact .bind (.handle (h p (List.mem_cons_self ..)) fun _ =>
      .bind (.handle rest fun _ => .ret _) fun _ => .throw _) fun _ => rest

theorem made_sessionsRevokeSession (hS : A .session) (hE : A .event) (u s : String)
    (c : RequestContext) : Made env A (SessionsService.revokeSession env u s c) := by
  refine .bind (.query ..) fun session => ?_
  cases session with
  | none => exact .throw _
  | some session =>
    exact .ite (fun _ => .throw _) fun _ => .ite (fun _ => .throw _) fun _ =>
      .bind (.one (.sessionsRevoke hS _)) fun _ => .bind .ofExcept fun _ =>
      .bind (made_blacklistSession hS ..) fun _ => .one (.emit hE nofun)

theorem made_revokeAll (hS : A .session) (hE : A .event) (u : String) (c : RequestContext)
    (k : Option String) : Made env A (SessionsService.revokeAll env u c k) := by
  refine .bind (made_revokeAllExcept hS ..) fun _ => .bind .ofExcept fun _ =>
    .bind (made_promiseAll fun p hp => ?_) fun _ => .bind (.one (.emit hE nofun)) fun _ => .ret _
  obtain ⟨s, -, rfl⟩ := List.mem_map.mp hp
  exact made_blacklistSession hS ..

theorem made_requestReset (hR : A (.deed .resetLink)) (e : String) :
    Made env A (PasswordService.requestReset env e) := by
  refine .bind (.query ..) fun user => ?_
  cases user with
  | none => exact .ret _
  | some user =>
    exact .bind (.one (.passwordResetInvalidate hR _)) fun _ => .bind (.one .randomBytes) fun _ =>
      .bind (.query ..) fun _ => .bind (.one (.passwordResetCreate hR ..)) fun _ =>
      .one (.send hR ..)

theorem made_resetPassword (hR : A (.deed .resetLink)) (hP : A .password) (hS : A .session)
    (hE : A .event) (t p : String) (c : RequestContext) :
    Made env A (PasswordService.resetPassword env t p c) := by
  refine .bind (.query ..) fun record => ?_
  cases record with
  | none => exact .throw _
  | some record =>
    exact .bind (.query ..) fun _ => .ite (fun _ => .throw _) fun _ => .bind (.one (.hash _)) fun _ =>
      .bind (.one (.updatePassword hP ..)) fun _ =>
      .bind (.one (.passwordResetMarkConsumed hR _)) fun _ => .bind (made_revokeAll hS hE ..) fun _ =>
      .one (.emit hE nofun)

theorem made_changePassword (hP : A .password) (hS : A .session) (hE : A .event)
    (u s p q : String) (c : RequestContext) :
    Made env A (PasswordService.changePassword env u s p q c) := by
  refine .bind (.query ..) fun user => ?_
  cases user with
  | none => exact .throw _
  | some user =>
    exact .bind (.one (.verify ..)) fun _ => .ite (fun _ => .throw _) fun _ =>
      .bind (.one (.hash _)) fun _ => .bind (.one (.updatePassword hP ..)) fun _ =>
      .bind (made_revokeAll hS hE ..) fun _ => .one (.emit hE nofun)

theorem made_issueToken (hL : A (.deed .emailLink)) (u : String) (t : EmailTokenType)
    {n : Option String} (hn : ∀ e ∈ n, ∃ s, e = env.toLowerCase s) :
    Made env A (EmailVerificationService.issueToken env u t n) :=
  .bind (.one (.emailVerificationInvalidate hL ..)) fun _ => .bind (.one .randomBytes) fun _ =>
    .bind (.query ..) fun _ => .bind (.one (.emailVerificationCreate hL _ _ _ hn _)) fun _ => .ret _

theorem made_sendRegistrationVerification (hL : A (.deed .emailLink)) (u e : String) :
    Made env A (EmailVerificationService.sendRegistrationVerification env u e) :=
  .bind (.query ..) fun _ => .ite (fun _ => .throw _) fun _ =>
    .bind (made_issueToken hL _ _ nofun) fun _ => .one (.send hL ..)

theorem made_requestEmailChange (hL : A (.deed .emailLink)) (u e : String) :
    Made env A (EmailVerificationService.requestEmailChange env u e) :=
  .bind (.query ..) fun _ => .ite (fun _ => .throw _) fun _ =>
    .bind (made_issueToken hL _ _ fun _ h => ⟨e, (Option.mem_some.mp h).symm⟩) fun _ =>
    .one (.send hL ..)

theorem made_applyToken (hA : A (.deed .address)) (t : EmailVerificationToken) (u : User) :
    Made env A (EmailVerificationService.applyToken t u) := by
  unfold EmailVerificationService.applyToken
  split
  · split
    · exact .bind (.query ..) fun _ => .ite (fun _ => .throw _) fun _ =>
        .bind (.one (.updateEmail hA ..)) fun _ => .ret _
    · exact .throw _
  · exact .bind (.one (.markEmailVerified hA _)) fun _ => .ret _

theorem made_verifyEmail (hA : A (.deed .address)) (hL : A (.deed .emailLink)) (hE : A .event)
    (t : String) (c : RequestContext) : Made env A (EmailVerificationService.verify env t c) := by
  refine .bind (.query ..) fun record => ?_
  cases record with
  | none => exact .throw _
  | some record =>
    refine .bind (.query ..) fun _ => .ite (fun _ => .throw _) fun _ => .bind (.query ..) fun user => ?_
    cases user with
    | none => exact .throw _
    | some user =>
      exact .bind (made_applyToken hA ..) fun _ =>
        .bind (.one (.emailVerificationMarkConsumed hL _)) fun _ => .one (.emit hE nofun)

theorem made_getProfile (u : String) : Made env A (UsersService.getProfile u) := by
  refine .bind (.query ..) fun user => ?_
  cases user with
  | none => exact .throw _
  | some user => exact .ret _

theorem made_assertPasswordMatches (u password : String) :
    Made env A (UsersService.assertPasswordMatches env u password) :=
  .bind (made_getProfile u) fun _ => .bind (.one (.verify ..)) fun _ =>
    .ite (fun _ => .throw _) fun _ => .ret _

theorem made_findByIdOrThrow (id : String) : Made env A (RolesService.findByIdOrThrow id) := by
  refine .bind (.query ..) fun role => ?_
  cases role with
  | none => exact .throw _
  | some role => exact .ret _

/-! ## Requests -/

/-- The requests that leave sessions, refresh tokens and credentials alone. -/
def Request.isMinor : Request → Bool
  | .register .. | .login .. | .refresh .. | .logout .. | .resetPassword .. | .changePassword ..
  | .deleteSession .. | .deleteOtherSessions .. | .revokeSession .. | .revokeAllOtherSessions ..
  | .revokeAllSessions .. => false
  | _ => true

def Request.isLogin : Request → Bool
  | .login .. => true
  | _ => false

def Request.updatesPassword : Request → Bool
  | .resetPassword .. | .changePassword .. => true
  | _ => false

/-- The kinds of change that a request may make. -/
def Request.deeds : Request → List Deed
  | .register .. => [.account, .sign]
  | .login .. | .refresh .. => [.sign]
  | .verifyEmail .. => [.address, .emailLink]
  | .resendVerification .. | .requestEmailChange .. | .userRegistered .. => [.emailLink]
  | .forgotPassword .. | .resetPassword .. => [.resetLink]
  | .createRole .. | .updateRole .. | .assignPermission .. | .assignToUser ..
  | .createPermission .. => [.grant]
  | .removeRole .. | .revokePermission .. | .revokeFromUser .. | .removePermission .. => [.withdraw]
  | _ => []

/-- The requests of which nothing is announced. -/
def Request.isSilent : Request → Bool
  | .resendVerification .. | .forgotPassword .. | .getMe .. | .updateMe .. | .requestEmailChange ..
  | .userRegistered .. | .createRole .. | .updateRole .. | .removeRole .. | .assignPermission ..
  | .revokePermission .. | .assignToUser .. | .revokeFromUser .. | .createPermission ..
  | .removePermission .. => true
  | _ => false

/-- The kinds of call that a request makes. -/
def Request.Makes (r : Request) : Kind → Prop
  | .deed d => d ∈ r.deeds
  | .lockout => r.isLogin = true
  | .password => r.updatesPassword = true
  | .session => r.isMinor = false
  | .event => r.isSilent = false

/-- Every request is put together from calls of its kinds. -/
theorem made_program {r : Request} (hA : ∀ k, r.Makes k → A k) : Made env A (program env r) := by
  have deed (d : Deed) (h : d ∈ r.deeds) : A (.deed d) := hA (.deed d) h
  cases r with
  | register dto c =>
    exact .bind (made_register (deed _ (.head _)) (hA .session rfl) (deed _ (.tail _ (.head _)))
      (hA .event rfl) ..) fun _ => .ret _
  | login dto c =>
    exact .bind (made_login (hA .lockout rfl) (hA .session rfl) (deed _ (.head _))
      (hA .event rfl) ..) fun _ => .ret _
  | refresh cookie c =>
    refine .bind ?_ fun _ => .ret _
    unfold AuthController.refresh
    split
    · exact made_refresh (hA .session rfl) (deed _ (.head _)) (hA .event rfl) ..
    · exact .throw _
  | logout bearer cookie c =>
    exact .bind (.bind (made_canActivate _) fun _ =>
      made_logout (hA .session rfl) (hA .event rfl) ..) fun _ => .ret _
  | verifyEmail token c =>
    exact .bind (made_verifyEmail (deed _ (.head _)) (deed _ (.tail _ (.head _)))
      (hA .event rfl) ..) fun _ => .ret _
  | resendVerification bearer =>
    exact .bind (.bind (made_canActivate _) fun _ =>
      made_sendRegistrationVerification (deed _ (.head _)) ..) fun _ => .ret _
  | forgotPassword email => exact .bind (made_requestReset (deed _ (.head _)) _) fun _ => .ret _
  | resetPassword token new c =>
    exact .bind (made_resetPassword (deed _ (.head _)) (hA .password rfl) (hA .session rfl)
      (hA .event rfl) ..) fun _ => .ret _
  | changePassword bearer current new c =>
    exact .bind (.bind (made_canActivate _) fun _ => made_changePassword (hA .password rfl)
      (hA .session rfl) (hA .event rfl) ..) fun _ => .ret _
  | getMe bearer =>
    exact .bind (.bind (made_canActivate _) fun _ => made_getProfile _) fun _ => .ret _
  | updateMe bearer first last avatar =>
    exact .bind (.bind (made_canActivate _) fun _ => .bind (made_getProfile _) fun _ =>
      .one (.updateProfile ..)) fun _ => .ret _
  | requestEmailChange bearer email password =>
    exact .bind (.bind (made_canActivate _) fun _ => .bind (made_assertPasswordMatches ..) fun _ =>
      made_requestEmailChange (deed _ (.head _)) ..) fun _ => .ret _
  | deleteSession bearer id c =>
    exact .bind (.bind (made_canActivate _) fun _ =>
      made_sessionsRevokeSession (hA .session rfl) (hA .event rfl) ..) fun _ => .ret _
  | deleteOtherSessions bearer c =>
    exact .bind (.bind (made_canActivate _) fun _ =>
      made_revokeAll (hA .session rfl) (hA .event rfl) ..) fun _ => .ret _
  | revokeSession u s c =>
    exact .bind (made_sessionsRevokeSession (hA .session rfl) (hA .event rfl) ..) fun _ => .ret _
  | revokeAllOtherSessions | revokeAllSessions =>
    exact .bind (made_revokeAll (hA .session rfl) (hA .event rfl) ..) fun _ => .ret _
  | userRegistered u e c =>
    exact .bind (.bind (.query ..) fun _ => .ite
      (fun _ => .handle (made_sendRegistrationVerification (deed _ (.head _)) ..) fun _ => .ret _)
      fun _ => .ret _) fun _ => .ret _
  | createRole name d =>
    exact .bind (.bind (.query ..) fun _ => .ite (fun _ => .throw _) fun _ =>
      .bind (.one (.rolesCreate (deed _ (.head _)) ..)) fun _ => made_findByIdOrThrow _) fun _ => .ret _
  | updateRole id name d =>
    exact .bind (.bind (made_findByIdOrThrow _) fun _ =>
      .bind (.one (.rolesUpdate (deed _ (.head _)) ..)) fun _ => made_findByIdOrThrow _) fun _ => .ret _
  | removeRole id =>
    exact .bind (.bind (made_findByIdOrThrow _) fun _ =>
      .bind (.one (.rolesDelete (deed _ (.head _)) _)) fun _ => .ret _) fun _ => .ret _
  | assignPermission r p =>
    refine .bind (.bind (made_findByIdOrThrow _) fun _ => .bind (.query ..) fun permission => ?_)
      fun _ => .ret _
    cases permission with
    | none => exact .throw _
    | some _ =>
      exact .bind (.one (.rolesAssignPermission (deed _ (.head _)) ..)) fun _ =>
        made_findByIdOrThrow _
  | revokePermission r p =>
    exact .bind (.bind (made_findByIdOrThrow _) fun _ =>
      .bind (.one (.rolesRevokePermission (deed _ (.head _)) ..)) fun _ => made_findByIdOrThrow _)
      fun _ => .ret _
  | assignToUser u r =>
    refine .bind (.bind (.query ..) fun user => ?_) fun _ => .ret _
    cases user with
    | none => exact .throw _
    | some _ =>
      exact .bind (made_findByIdOrThrow _) fun _ => .one (.rolesAssignToUser (deed _ (.head _)) ..)
  | revokeFromUser u r =>
    exact .bind (.one (.rolesRevokeFromUser (deed _ (.head _)) ..)) fun _ => .ret _
  | createPermission name d =>
    exact .bind (.bind (.query ..) fun _ => .ite (fun _ => .throw _) fun _ =>
      .one (.permissionsCreate (deed _ (.head _)) ..)) fun _ => .ret _
  | removePermission id =>
    refine .bind (.bind (.query ..) fun permission => ?_) fun _ => .ret _
    cases permission with
    | none => exact .throw _
    | some _ => exact .bind (.one (.permissionsDelete (deed _ (.head _)) _)) fun _ => .ret _

end AtlasAuth

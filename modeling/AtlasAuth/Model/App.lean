import AtlasAuth.Framework.Sequential
import AtlasAuth.Model.AccountServices

/-!
# The service as a system

A request is a route of a controller, the delivery of a registration event to
its listener, or a call of a service that has no route of its own. A route
that is not public first authenticates the access token of its caller.
`system` is the service with a clock as its environment. An `Interleaving` is
any order of the calls of any requests, some of which may fail; a `History` is
a sequence of requests each of which completes, without a failure, before the
next one begins.
-/

namespace AtlasAuth

open Framework

inductive Request
  -- Routes of `AuthController`.
  | register (dto : RegisterDto) (context : RequestContext)
  | login (dto : LoginDto) (context : RequestContext)
  | refresh (cookie : Option String) (context : RequestContext)
  | logout (bearer : JwtPayload) (cookie : Option String) (context : RequestContext)
  | verifyEmail (token : String) (context : RequestContext)
  | resendVerification (bearer : JwtPayload)
  | forgotPassword (email : String)
  | resetPassword (token newPassword : String) (context : RequestContext)
  | changePassword (bearer : JwtPayload) (currentPassword newPassword : String)
      (context : RequestContext)
  -- Routes of `UsersController`.
  | getMe (bearer : JwtPayload)
  | updateMe (bearer : JwtPayload) (firstName lastName avatarUrl : Option String)
  | requestEmailChange (bearer : JwtPayload) (newEmail password : String)
  -- Routes of `SessionsController`.
  | deleteSession (bearer : JwtPayload) (id : String) (context : RequestContext)
  | deleteOtherSessions (bearer : JwtPayload) (context : RequestContext)
  -- Calls of `SessionsService`.
  | revokeSession (userId sessionId : String) (context : RequestContext)
  | revokeAllOtherSessions (userId currentSessionId : String) (context : RequestContext)
  | revokeAllSessions (userId : String) (context : RequestContext)
  -- The listener of `auth.user.registered`.
  | userRegistered (userId email : String) (context : RequestContext)
  -- Calls of `RolesService` and `PermissionsService`.
  | createRole (name : String) (description : Option String)
  | updateRole (id : String) (name description : Option String)
  | removeRole (id : String)
  | assignPermission (roleId permissionId : String)
  | revokePermission (roleId permissionId : String)
  | assignToUser (userId roleId : String)
  | revokeFromUser (userId roleId : String)
  | createPermission (name : String) (description : Option String)
  | removePermission (id : String)
  deriving DecidableEq

/-- What a request returns. -/
inductive Response
  | session (user : User) (tokens : SessionTokens)
  | user (user : User)
  | revokedCount (n : Nat)
  | role (role : RoleWithPermissions)
  | permission (permission : Permission)
  | done
  deriving DecidableEq

section

variable (env : Env)

namespace AuthController

def refresh (cookie : Option String) (context : RequestContext) : App (User × SessionTokens) := do
  let some refreshTokenPlain := truthy cookie | throw (.unauthorized "Missing refresh token")
  AuthService.refresh env refreshTokenPlain context

def logout (bearer : JwtPayload) (cookie : Option String) (context : RequestContext) :
    App Unit := do
  let user ← JwtAuthGuard.canActivate bearer
  AuthService.logout env user.sub user.sessionId cookie user.jti (some user.exp) context

def resendVerification (bearer : JwtPayload) : App Unit := do
  let user ← JwtAuthGuard.canActivate bearer
  EmailVerificationService.sendRegistrationVerification env user.sub user.email

def changePassword (bearer : JwtPayload) (currentPassword newPassword : String)
    (context : RequestContext) : App Unit := do
  let user ← JwtAuthGuard.canActivate bearer
  PasswordService.changePassword env user.sub user.sessionId currentPassword newPassword context

end AuthController

namespace UsersController

def getMe (bearer : JwtPayload) : App User := do
  let user ← JwtAuthGuard.canActivate bearer
  UsersService.getProfile user.sub

def updateMe (bearer : JwtPayload) (firstName lastName avatarUrl : Option String) : App User := do
  let user ← JwtAuthGuard.canActivate bearer
  UsersService.updateProfile user.sub firstName lastName avatarUrl

def requestEmailChange (bearer : JwtPayload) (newEmail password : String) : App Unit := do
  let user ← JwtAuthGuard.canActivate bearer
  let _ ← UsersService.assertPasswordMatches env user.sub password
  EmailVerificationService.requestEmailChange env user.sub newEmail

end UsersController

namespace SessionsController

def revokeSession (bearer : JwtPayload) (id : String) (context : RequestContext) : App Unit := do
  let user ← JwtAuthGuard.canActivate bearer
  SessionsService.revokeSession env user.sub id context

def revokeAllOtherSessions (bearer : JwtPayload) (context : RequestContext) : App Nat := do
  let user ← JwtAuthGuard.canActivate bearer
  SessionsService.revokeAllOtherSessions env user.sub user.sessionId context

end SessionsController

/-- The delivery of an event to `RegistrationListener`: it happens only for an
event that was emitted. -/
def deliverUserRegistered (userId email : String) (context : RequestContext) : App Unit := do
  let emitted ← Prog.query .deliver fun w : World =>
    w.events.contains (.userRegistered userId email context)
  if emitted then
    RegistrationListener.handleUserRegistered env userId email

def program : Request → App Response
  | .register dto context => do
    let (user, tokens) ← AuthService.register env dto context
    return .session user tokens
  | .login dto context => do
    let (user, tokens) ← AuthService.login env dto context
    return .session user tokens
  | .refresh cookie context => do
    let (user, tokens) ← AuthController.refresh env cookie context
    return .session user tokens
  | .logout bearer cookie context => do
    AuthController.logout env bearer cookie context
    return .done
  | .verifyEmail token context => do
    EmailVerificationService.verify env token context
    return .done
  | .resendVerification bearer => do
    AuthController.resendVerification env bearer
    return .done
  | .forgotPassword email => do
    PasswordService.requestReset env email
    return .done
  | .resetPassword token newPassword context => do
    PasswordService.resetPassword env token newPassword context
    return .done
  | .changePassword bearer currentPassword newPassword context => do
    AuthController.changePassword env bearer currentPassword newPassword context
    return .done
  | .getMe bearer => do
    return .user (← UsersController.getMe bearer)
  | .updateMe bearer firstName lastName avatarUrl => do
    return .user (← UsersController.updateMe bearer firstName lastName avatarUrl)
  | .requestEmailChange bearer newEmail password => do
    UsersController.requestEmailChange env bearer newEmail password
    return .done
  | .deleteSession bearer id context => do
    SessionsController.revokeSession env bearer id context
    return .done
  | .deleteOtherSessions bearer context => do
    return .revokedCount (← SessionsController.revokeAllOtherSessions env bearer context)
  | .revokeSession userId sessionId context => do
    SessionsService.revokeSession env userId sessionId context
    return .done
  | .revokeAllOtherSessions userId currentSessionId context => do
    return .revokedCount
      (← SessionsService.revokeAllOtherSessions env userId currentSessionId context)
  | .revokeAllSessions userId context => do
    return .revokedCount (← SessionsService.revokeAllSessions env userId context)
  | .userRegistered userId email context => do
    deliverUserRegistered env userId email context
    return .done
  | .createRole name description => do
    return .role (← RolesService.create env name description)
  | .updateRole id name description => do
    return .role (← RolesService.update id name description)
  | .removeRole id => do
    RolesService.remove id
    return .done
  | .assignPermission roleId permissionId => do
    return .role (← RolesService.assignPermission roleId permissionId)
  | .revokePermission roleId permissionId => do
    return .role (← RolesService.revokePermission roleId permissionId)
  | .assignToUser userId roleId => do
    RolesService.assignToUser userId roleId
    return .done
  | .revokeFromUser userId roleId => do
    RolesService.revokeFromUser userId roleId
    return .done
  | .createPermission name description => do
    return .permission (← PermissionsService.create env name description)
  | .removePermission id => do
    PermissionsService.remove id
    return .done

/-- The service: its requests, and a clock that advances. -/
def system : System Request Time World Call Exn Response where
  program := program env
  env := World.advance

abbrev AppThread := Thread Request World Call Exn Response

abbrev AppPool := Pool Request World Call Exn Response

/-- No request in flight, and an empty database. -/
def AppPool.init (t : Time) : AppPool := ⟨{ now := t }, []⟩

/-- The request that was started as number `i`. -/
def AppPool.request (P : AppPool) (i : Nat) : Option Request := P.threads[i]?.map (·.req)

/-- The user and the tokens that request number `i` has returned. -/
def AppPool.returned (P : AppPool) (i : Nat) : Option (User × SessionTokens) :=
  P.threads[i]?.bind fun th =>
    match th.outcome with
    | some (.ok (.session user tokens)) => some (user, tokens)
    | _ => none

def Interleaving (P P' : AppPool) : Prop := (system env).Run (fun _ _ => True) P P'

/-- An outcome that is an answer: a response or the refusal of the request,
not an error of the configuration, the database driver or Redis. -/
def Answered (r : Except Exn Response) : Prop := ∀ m, r ≠ .error (.error m)

abbrev History (w : World) (tr : List (Done Request World Exn Response)) (w' : World) : Prop :=
  (system env).Trace Answered w tr w'

/-- The states that completed requests lead to. -/
def Reachable (w : World) : Prop := ∃ t tr, History env { now := t } tr w

/-- A request that completes, with the clock free to advance meanwhile. -/
def Completes (r : Request) (w : World) (x : Except Exn Response) (w' : World) : Prop :=
  (program env r).Exec (system env).lapse w x w'

end

end AtlasAuth

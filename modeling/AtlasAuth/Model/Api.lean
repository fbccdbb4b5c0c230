import AtlasAuth.Model.App
import AtlasAuth.Model.Guards

/-!
# The HTTP interface

The routes of the controllers: the guards that stand before a handler, the
service that the handler calls, and the reply it makes of the result. What a
reply shows of a row is what its response DTO exposes, without `createdAt` and
the name of a device, which is always `null`. `JwtAuthGuard` is global, so it
comes before the `PermissionsGuard` of a controller. The listener of a
registration is no route, but it runs with them. `api` is the service as its
clients see it: no request of `RolesService` or `PermissionsService` without
its guards, and none of `SessionsService` that no route makes.
-/

namespace AtlasAuth

open Framework

/-! ## Replies -/

structure UserResponseDto where
  id : String
  email : String
  firstName : Option String
  lastName : Option String
  avatarUrl : Option String
  isEmailVerified : Bool
  deriving DecidableEq

def UserResponseDto.ofUser (user : User) : UserResponseDto where
  id := user.id
  email := user.email
  firstName := user.firstName
  lastName := user.lastName
  avatarUrl := user.avatarUrl
  isEmailVerified := user.isEmailVerified

structure SessionResponseDto where
  id : String
  ipAddress : Option String
  userAgent : Option String
  isCurrent : Bool
  lastActiveAt : Time
  expiresAt : Time
  deriving DecidableEq

def SessionResponseDto.ofSession (session : SessionWithDevice) (currentSessionId : String) :
    SessionResponseDto where
  id := session.session.id
  ipAddress := session.session.ipAddress
  userAgent := session.session.userAgent
  isCurrent := session.session.id == currentSessionId
  lastActiveAt := session.session.lastActiveAt
  expiresAt := session.session.expiresAt

structure RoleResponseDto where
  id : String
  name : String
  description : Option String
  permissions : List String
  deriving DecidableEq

def RoleResponseDto.ofRole (role : RoleWithPermissions) : RoleResponseDto where
  id := role.role.id
  name := role.role.name
  description := role.role.description
  permissions := role.permissions.map (·.name)

structure PermissionResponseDto where
  id : String
  name : String
  description : Option String
  deriving DecidableEq

def PermissionResponseDto.ofPermission (permission : Permission) : PermissionResponseDto where
  id := permission.id
  name := permission.name
  description := permission.description

inductive ReplyBody
  | auth (accessToken : JwtPayload) (expiresAt : JsDate) (user : UserResponseDto)
  | user (user : UserResponseDto)
  | sessions (sessions : List SessionResponseDto)
  | revokedCount (n : Nat)
  | role (role : RoleResponseDto)
  | permission (permission : PermissionResponseDto)
  | message (message : String)
  | empty
  deriving DecidableEq

/-- What a reply does to the refresh cookie of the client. -/
inductive RefreshCookie
  | set (token : String) (expires : JsDate)
  | clear
  deriving DecidableEq

structure Reply where
  status : Nat
  body : ReplyBody
  cookie : Option RefreshCookie := none
  deriving DecidableEq

/-- `setRefreshCookie` and `AuthResponseDto`. -/
def Reply.auth (status : Nat) (user : User) (tokens : SessionTokens) : Reply where
  status
  body := .auth tokens.accessToken.token tokens.accessToken.expiresAt (.ofUser user)
  cookie := some (.set tokens.refreshToken.token tokens.refreshToken.expiresAt)

/-! ## Routes -/

inductive Route
  -- `AuthController`.
  | register (dto : RegisterDto) (context : RequestContext)
  | login (dto : LoginDto) (context : RequestContext)
  | refresh (cookie : Option String) (context : RequestContext)
  | verifyEmail (token : String) (context : RequestContext)
  | resendVerification (bearer : JwtPayload)
  | forgotPassword (email : String)
  | resetPassword (token newPassword : String) (context : RequestContext)
  | changePassword (bearer : JwtPayload) (currentPassword newPassword : String)
      (context : RequestContext)
  | logout (bearer : JwtPayload) (cookie : Option String) (context : RequestContext)
  -- `UsersController`.
  | getMe (bearer : JwtPayload)
  | updateMe (bearer : JwtPayload) (firstName lastName avatarUrl : Option String)
  | requestEmailChange (bearer : JwtPayload) (newEmail password : String)
  -- `SessionsController`.
  | listSessions (bearer : JwtPayload)
  | revokeSession (bearer : JwtPayload) (id : String) (context : RequestContext)
  | revokeAllOtherSessions (bearer : JwtPayload) (context : RequestContext)
  -- `RolesController`.
  | findOne (bearer : JwtPayload) (id : String)
  | createRole (bearer : JwtPayload) (name : String) (description : Option String)
  | updateRole (bearer : JwtPayload) (id : String) (name description : Option String)
  | removeRole (bearer : JwtPayload) (id : String)
  | assignPermission (bearer : JwtPayload) (id permissionId : String)
  | revokePermission (bearer : JwtPayload) (id permissionId : String)
  | assignToUser (bearer : JwtPayload) (id userId : String)
  | revokeFromUser (bearer : JwtPayload) (id userId : String)
  -- `PermissionsController`.
  | createPermission (bearer : JwtPayload) (name : String) (description : Option String)
  | removePermission (bearer : JwtPayload) (id : String)
  -- `RegistrationListener`.
  | userRegistered (userId email : String) (context : RequestContext)
  deriving DecidableEq

/-- `@RequirePermissions`. -/
def Route.requiredPermissions : Route → Option (List String)
  | .findOne .. => some ["roles:read"]
  | .createRole .. | .updateRole .. | .removeRole .. | .assignPermission ..
  | .revokePermission .. => some ["roles:write"]
  | .assignToUser .. | .revokeFromUser .. => some ["roles:assign"]
  | .createPermission .. | .removePermission .. => some ["permissions:write"]
  | _ => none

section

variable (env : Env)

/-- The guards of a route of `RolesController` or `PermissionsController`. -/
def Route.guards (route : Route) (bearer : JwtPayload) : App JwtPayload := do
  let user ← JwtAuthGuard.canActivate bearer
  let _ ← (Prog.ofExcept (PermissionsGuard.canActivate route.requiredPermissions (some user)) :
    App Bool)
  return user

def SessionsController.listSessions (bearer : JwtPayload) : App (List SessionResponseDto) := do
  let user ← JwtAuthGuard.canActivate bearer
  let sessions ← SessionsService.listActive user.sub
  return sessions.map fun session => .ofSession session user.sessionId

def Route.program (route : Route) : App Reply :=
  match route with
  | .register dto context => do
    let (user, tokens) ← AuthService.register env dto context
    return .auth 201 user tokens
  | .login dto context => do
    let (user, tokens) ← AuthService.login env dto context
    return .auth 200 user tokens
  | .refresh cookie context => do
    let (user, tokens) ← AuthController.refresh env cookie context
    return .auth 200 user tokens
  | .verifyEmail token context => do
    EmailVerificationService.verify env token context
    return { status := 200, body := .message "Email verified successfully" }
  | .resendVerification bearer => do
    AuthController.resendVerification env bearer
    return { status := 202, body := .message "Verification email sent" }
  | .forgotPassword email => do
    PasswordService.requestReset env email
    return { status := 202
             body := .message "If an account with that email exists, a reset link has been sent" }
  | .resetPassword token newPassword context => do
    PasswordService.resetPassword env token newPassword context
    return { status := 200, body := .message "Password reset successfully. Please log in again." }
  | .changePassword bearer currentPassword newPassword context => do
    AuthController.changePassword env bearer currentPassword newPassword context
    return { status := 200, body := .message "Password changed successfully" }
  | .logout bearer cookie context => do
    AuthController.logout env bearer cookie context
    return { status := 204, body := .empty, cookie := some .clear }
  | .getMe bearer => do
    return { status := 200, body := .user (.ofUser (← UsersController.getMe bearer)) }
  | .updateMe bearer firstName lastName avatarUrl => do
    return { status := 200
             body := .user (.ofUser (← UsersController.updateMe bearer firstName lastName avatarUrl)) }
  | .requestEmailChange bearer newEmail password => do
    UsersController.requestEmailChange env bearer newEmail password
    return { status := 202, body := .message "Confirmation email sent to the new address" }
  | .listSessions bearer => do
    return { status := 200, body := .sessions (← SessionsController.listSessions bearer) }
  | .revokeSession bearer id context => do
    SessionsController.revokeSession env bearer id context
    return { status := 204, body := .empty }
  | .revokeAllOtherSessions bearer context => do
    let revokedCount ← SessionsController.revokeAllOtherSessions env bearer context
    return { status := 200, body := .revokedCount revokedCount }
  | .findOne bearer id => do
    let _ ← route.guards bearer
    return { status := 200, body := .role (.ofRole (← RolesService.findByIdOrThrow id)) }
  | .createRole bearer name description => do
    let _ ← route.guards bearer
    return { status := 201, body := .role (.ofRole (← RolesService.create env name description)) }
  | .updateRole bearer id name description => do
    let _ ← route.guards bearer
    return { status := 200, body := .role (.ofRole (← RolesService.update id name description)) }
  | .removeRole bearer id => do
    let _ ← route.guards bearer
    RolesService.remove id
    return { status := 204, body := .empty }
  | .assignPermission bearer id permissionId => do
    let _ ← route.guards bearer
    return { status := 201
             body := .role (.ofRole (← RolesService.assignPermission id permissionId)) }
  | .revokePermission bearer id permissionId => do
    let _ ← route.guards bearer
    return { status := 200
             body := .role (.ofRole (← RolesService.revokePermission id permissionId)) }
  | .assignToUser bearer id userId => do
    let _ ← route.guards bearer
    RolesService.assignToUser userId id
    return { status := 204, body := .empty }
  | .revokeFromUser bearer id userId => do
    let _ ← route.guards bearer
    RolesService.revokeFromUser userId id
    return { status := 204, body := .empty }
  | .createPermission bearer name description => do
    let _ ← route.guards bearer
    return { status := 201
             body := .permission (.ofPermission (← PermissionsService.create env name description)) }
  | .removePermission bearer id => do
    let _ ← route.guards bearer
    PermissionsService.remove id
    return { status := 204, body := .empty }
  | .userRegistered userId email context => do
    deliverUserRegistered env userId email context
    return { status := 200, body := .empty }

/-- The service as its clients see it. -/
def api : System Route Time World Call Exn Reply where
  program := Route.program env
  env := World.advance

abbrev ApiPool := Pool Route World Call Exn Reply

/-- No request in flight, and an empty database. -/
def ApiPool.init (t : Time) : ApiPool := ⟨{ now := t }, []⟩

/-- Any order of the calls of any requests, some of which may fail. -/
def ApiRun (P P' : ApiPool) : Prop := (api env).Run (fun _ _ => True) P P'

end

end AtlasAuth

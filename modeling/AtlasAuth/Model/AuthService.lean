import AtlasAuth.Model.Rbac
import AtlasAuth.Model.Tokens

/-!
# Registration, login, refresh and logout

`AuthService`, with what it uses of `UsersService`.
-/

namespace AtlasAuth

open Framework

structure RegisterDto where
  email : String
  password : String
  firstName : Option String
  lastName : Option String
  deriving DecidableEq

structure LoginDto where
  email : String
  password : String
  deriving DecidableEq

/-- `new Set(...)` of a list, in order of insertion. -/
def setOf (xs : List String) : List String :=
  xs.foldl (fun s x => if s.contains x then s else s ++ [x]) []

/-- The names of the user's roles, and of the permissions they grant. -/
def UsersService.extractRolesAndPermissions (user : UserWithAccess) : List String × List String :=
  (user.userRoles.map (·.role.name), setOf (user.userRoles.flatMap fun r => r.permissions.map (·.name)))

section

variable (env : Env)

/-- `sha256` of the user agent. -/
def computeDeviceFingerprint (userAgent : Option String) : String :=
  env.sha256 (userAgent.getD "unknown")

namespace AuthService

def signAccessTokenForUser (user : User) (sessionId : String) : App SignedAccessToken := do
  let userWithAccess ← UsersRepository.findWithAccessById user.id
  let (roles, permissions) :=
    match userWithAccess with
    | some u => UsersService.extractRolesAndPermissions u
    | none => ([], [])
  TokenService.signAccessToken env user.id user.email roles permissions sessionId

def issueSession (user : User) (context : RequestContext) : App SessionTokens := do
  let fingerprint := computeDeviceFingerprint env context.userAgent
  let device ←
    AuthRepository.upsertDevice env user.id fingerprint context.userAgent context.ipAddress
  let refreshToken ← TokenService.generateRefreshToken env
  let session ← AuthRepository.createSession env user.id device.id context.ipAddress
    context.userAgent refreshToken.expiresAt
  let accessToken ← signAccessTokenForUser env user session.id
  let familyId ← randomUUID env
  let _ ← AuthRepository.createRefreshToken env user.id session.id familyId refreshToken.tokenHash
    refreshToken.expiresAt context.ipAddress
  return { accessToken, refreshToken, sessionId := session.id }

def register (dto : RegisterDto) (context : RequestContext) : App (User × SessionTokens) := do
  let existing ← UsersRepository.findByEmail (env.toLowerCase dto.email)
  if existing.isSome then
    throw (.conflict "An account with this email already exists")
  let passwordHash ← HashingService.hash env dto.password
  let user ← UsersRepository.create env (env.toLowerCase dto.email) passwordHash dto.firstName
    dto.lastName
  emit (.userRegistered user.id user.email context)
  let tokens ← issueSession env user context
  return (user, tokens)

/-- The exception of `login` while the account is locked. -/
def accountLocked : Exn :=
  .unauthorized "Account temporarily locked due to too many failed login attempts"

def login (dto : LoginDto) (context : RequestContext) : App (User × SessionTokens) := do
  let email := env.toLowerCase dto.email
  let some user ← UsersRepository.findByEmail email
    | do
      emit (.loginFailed email .FAILED_NOT_FOUND context none)
      throw (.unauthorized "Invalid credentials")
  let now ← dateNow
  if user.lockedUntil.any (now < ·) then
    emit (.loginFailed email .FAILED_LOCKED context (some user.id))
    throw accountLocked
  let passwordMatches ← HashingService.verify env user.passwordHash dto.password
  if !passwordMatches then
    let _ ← UsersRepository.registerFailedLoginAttempt user.id env.maxAttempts env.durationMinutes
    emit (.loginFailed email .FAILED_PASSWORD context (some user.id))
    throw (.unauthorized "Invalid credentials")
  let _ ← UsersRepository.recordSuccessfulLogin user.id
  let tokens ← issueSession env user context
  emit (.userLoggedIn user.id user.email tokens.sessionId context)
  return (user, tokens)

/-- A token that was already revoked: its family and its session are revoked. -/
def reuseDetected {α : Type} (existing : RefreshToken) (context : RequestContext) : App α := do
  AuthRepository.revokeRefreshTokenFamily existing.familyId
  let _ ← AuthRepository.revokeSession existing.sessionId
  emit (.tokenReuseDetected existing.userId existing.familyId context)
  throw (.unauthorized "Refresh token reuse detected; session revoked")

/-- The successor of a token that `refresh` accepted. -/
def rotate (existing : RefreshToken) (session : Session) (user : User) (context : RequestContext) :
    App (User × SessionTokens) := do
  let newRefreshToken ← TokenService.generateRefreshToken env
  let _ ← AuthRepository.createRefreshToken env user.id session.id existing.familyId
    newRefreshToken.tokenHash newRefreshToken.expiresAt context.ipAddress
  let _ ← AuthRepository.revokeRefreshToken existing.id newRefreshToken.tokenHash
  let _ ← AuthRepository.touchSession session.id newRefreshToken.expiresAt
  let accessToken ← signAccessTokenForUser env user session.id
  emit (.tokenRefreshed user.id session.id context)
  return (user, { accessToken, refreshToken := newRefreshToken, sessionId := session.id })

def refresh (refreshTokenPlain : String) (context : RequestContext) :
    App (User × SessionTokens) := do
  let tokenHash := TokenService.hashRefreshToken env refreshTokenPlain
  let some existing ← AuthRepository.findRefreshTokenByHash tokenHash
    | throw (.unauthorized "Invalid refresh token")
  if existing.revokedAt.isSome then
    reuseDetected existing context
  else
    let now ← dateNow
    if existing.expiresAt < now then
      throw (.unauthorized "Refresh token expired")
    let some session ← AuthRepository.findSessionById existing.sessionId
      | throw (.unauthorized "Session has been revoked")
    if session.isRevoked then
      throw (.unauthorized "Session has been revoked")
    let some user ← UsersRepository.findById existing.userId
      | throw (.unauthorized "User not found")
    rotate env existing session user context

/-- How long the presented access token still lives: up to its `exp`, or the
configured lifetime if it has none. -/
def remainingTtlMs (accessTokenExp : Option Nat) : App Double := do
  match accessTokenExp.filter (· ≠ 0) with
  | some exp =>
    let now ← dateNow
    return ((Double.int exp).mul 1000).sub now
  | none => TokenService.getAccessTokenTtlMs env

def logout (sub sessionId : String) (refreshTokenPlain : Option String) (accessTokenJti : String)
    (accessTokenExp : Option Nat) (context : RequestContext) : App Unit := do
  if let some token := truthy refreshTokenPlain then
    let existing ←
      AuthRepository.findRefreshTokenByHash (TokenService.hashRefreshToken env token)
    if let some existing := existing then
      AuthRepository.revokeRefreshTokenFamily existing.familyId
  let _ ← AuthRepository.revokeSession sessionId
  let ttl ← remainingTtlMs env accessTokenExp
  TokenBlacklistService.blacklist accessTokenJti ttl
  emit (.userLoggedOut sub sessionId context)

end AuthService

end

end AtlasAuth

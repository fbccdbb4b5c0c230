import AtlasAuth.Model.AuthService

/-!
# Sessions, passwords, e-mail addresses and profiles

`SessionsService`, `PasswordService`, `EmailVerificationService`,
`UsersService` and `RegistrationListener`.
-/

namespace AtlasAuth

open Framework

section

variable (env : Env)

namespace SessionsService

def listActive (userId : String) : App (List SessionWithDevice) :=
  SessionsRepository.findActiveByUser userId

def revokeSession (userId sessionId : String) (context : RequestContext) : App Unit := do
  let some session ← SessionsRepository.findById sessionId
    | throw (.notFound "Session not found")
  if session.isRevoked then
    throw (.notFound "Session not found")
  if session.userId ≠ userId then
    throw (.forbidden "You can only revoke your own sessions")
  SessionsRepository.revoke sessionId
  let ttl ← TokenService.getAccessTokenTtlMs env
  TokenBlacklistService.blacklistSession sessionId ttl
  emit (.sessionRevoked userId sessionId context)

/-- `Promise.all`: every call is made, also after one has failed. -/
def promiseAll : List (App Unit) → App Unit
  | [] => return ()
  | p :: ps => do
    tryCatch p fun e => do
      tryCatch (promiseAll ps) fun _ => return ()
      throw e
    promiseAll ps

def revokeAll (userId : String) (context : RequestContext) (exceptSessionId : Option String) :
    App Nat := do
  let revokedIds ← SessionsRepository.revokeAllExcept userId exceptSessionId
  let accessTtl ← TokenService.getAccessTokenTtlMs env
  promiseAll (revokedIds.map fun sessionId =>
    TokenBlacklistService.blacklistSession sessionId accessTtl)
  emit (.allSessionsRevoked userId revokedIds.length exceptSessionId context)
  return revokedIds.length

/-- Revokes every other active session ("log out other devices"). -/
def revokeAllOtherSessions (userId currentSessionId : String) (context : RequestContext) :
    App Nat :=
  revokeAll env userId context (some currentSessionId)

/-- Revokes every active session for the user, e.g. after a password reset. -/
def revokeAllSessions (userId : String) (context : RequestContext) : App Nat :=
  revokeAll env userId context none

end SessionsService

namespace PasswordService

/-- Always succeeds from the caller's perspective — never reveals whether the email exists. -/
def requestReset (email : String) : App Unit := do
  let some user ← UsersRepository.findByEmail (env.toLowerCase email) | return
  PasswordResetRepository.invalidateOutstanding user.id
  let token ← randomBytes env
  let now ← dateNow
  let _ ← PasswordResetRepository.create env user.id (env.sha256 token)
    (JsDate.after now (minutesToMs env.passwordResetMinutes))
  MailService.send user.email .passwordReset token

def resetPassword (tokenPlain newPassword : String) (context : RequestContext) : App Unit := do
  let invalid : Exn := .badRequest "Invalid or expired reset token"
  let some record ← PasswordResetRepository.findByHash (env.sha256 tokenPlain) | throw invalid
  let now ← dateNow
  if record.consumedAt.isSome ∨ record.expiresAt < now then
    throw invalid
  let passwordHash ← HashingService.hash env newPassword
  let _ ← UsersRepository.updatePassword record.userId passwordHash
  let _ ← PasswordResetRepository.markConsumed record.id
  -- A password reset means the account may have been compromised — kill every session.
  let _ ← SessionsService.revokeAllSessions env record.userId context
  emit (.passwordChanged record.userId .reset context)

def changePassword (userId currentSessionId currentPassword newPassword : String)
    (context : RequestContext) : App Unit := do
  let some user ← UsersRepository.findById userId | throw (.unauthorized "Unauthorized")
  let passwordMatches ← HashingService.verify env user.passwordHash currentPassword
  if !passwordMatches then
    throw (.unauthorized "Current password is incorrect")
  let passwordHash ← HashingService.hash env newPassword
  let _ ← UsersRepository.updatePassword userId passwordHash
  -- Keep the session the user is actively using; kill every other one.
  let _ ← SessionsService.revokeAllOtherSessions env userId currentSessionId context
  emit (.passwordChanged userId .change context)

end PasswordService

namespace EmailVerificationService

def issueToken (userId : String) (type : EmailTokenType) (newEmail : Option String) :
    App String := do
  EmailVerificationRepository.invalidateOutstanding userId type
  let token ← randomBytes env
  let now ← dateNow
  let _ ← EmailVerificationRepository.create env userId (env.sha256 token) type newEmail
    (JsDate.after now (minutesToMs env.emailVerificationMinutes))
  return token

def sendRegistrationVerification (userId email : String) : App Unit := do
  let user ← UsersRepository.findById userId
  if user.any (·.isEmailVerified) then
    throw (.badRequest "Email is already verified")
  let token ← issueToken env userId .REGISTRATION none
  MailService.send email .verification token

def requestEmailChange (userId newEmail : String) : App Unit := do
  let normalized := env.toLowerCase newEmail
  let taken ← UsersRepository.findByEmail normalized
  if taken.isSome then
    throw (.conflict "An account with this email already exists")
  let token ← issueToken env userId .EMAIL_CHANGE (some normalized)
  MailService.send normalized .emailChange token

/-- The effect of a verified token on the user: the address that is now
verified. -/
def applyToken (record : EmailVerificationToken) (user : User) : App String := do
  match record.type with
  | .EMAIL_CHANGE =>
    let some newEmail := truthy record.newEmail
      | throw (.badRequest "Invalid or expired verification token")
    let taken ← UsersRepository.findByEmail newEmail
    if taken.any (·.id ≠ user.id) then
      throw (.conflict "An account with this email already exists")
    let _ ← UsersRepository.updateEmail user.id newEmail
    return newEmail
  | .REGISTRATION =>
    let _ ← UsersRepository.markEmailVerified user.id
    return user.email

def verify (tokenPlain : String) (context : RequestContext) : App Unit := do
  let invalid : Exn := .badRequest "Invalid or expired verification token"
  let some record ← EmailVerificationRepository.findByHash (env.sha256 tokenPlain) | throw invalid
  let now ← dateNow
  if record.consumedAt.isSome ∨ record.expiresAt < now then
    throw invalid
  let some user ← UsersRepository.findById record.userId | throw invalid
  let verifiedEmail ← applyToken record user
  let _ ← EmailVerificationRepository.markConsumed record.id
  emit (.emailVerified user.id verifiedEmail record.type context)

end EmailVerificationService

namespace UsersService

def getProfile (userId : String) : App User := do
  let some user ← UsersRepository.findById userId | throw (.notFound "User not found")
  return user

def updateProfile (userId : String) (firstName lastName avatarUrl : Option String) : App User := do
  let _ ← getProfile userId
  UsersRepository.updateProfile userId firstName lastName avatarUrl

/-- Confirms the caller knows the account password before sensitive changes. -/
def assertPasswordMatches (userId password : String) : App User := do
  let user ← getProfile userId
  let passwordMatches ← HashingService.verify env user.passwordHash password
  if !passwordMatches then
    throw (.unauthorized "Incorrect password")
  return user

end UsersService

/-- The listener logs every error of `sendRegistrationVerification`:
registration must not fail because the mail provider is down. -/
def RegistrationListener.handleUserRegistered (userId email : String) : App Unit :=
  tryCatch (EmailVerificationService.sendRegistrationVerification env userId email) fun _ => return ()

end

end AtlasAuth

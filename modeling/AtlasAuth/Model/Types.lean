import AtlasAuth.Framework.Double

/-!
# The data of the service

The rows of the database (`prisma/schema.prisma`), the claims of an access
token, the domain events, and what a request can throw. A row keeps the
columns that some modelled function reads or writes; `createdAt` and
`updatedAt` are left out. A date is the number of milliseconds since the epoch;
`JsDate` is a JavaScript `Date`, which may be invalid.
-/

namespace AtlasAuth

open Framework

abbrev Time := Nat

/-- The greatest time value of a JavaScript `Date`. -/
def maxTime : Nat := 8640000000000000

/-- A JavaScript `Date` after the epoch, or `Invalid Date`. -/
abbrev JsDate := Option Time

/-- `new Date(Date.now() + ms)`. -/
def JsDate.after (now : Time) (ms : Double) : JsDate :=
  match (Double.int now).add ms with
  | .int t => if 0 ≤ t ∧ t ≤ maxTime then some t.toNat else none
  | .infinity => none

/-- `minutes * 60 * 1000`. -/
def minutesToMs (minutes : Nat) : Double := ((Double.ofNat minutes).mul 60).mul 1000

/-- The truth value of an optional string: absent and empty are false. -/
def truthy (s : Option String) : Option String := s.filter (· ≠ "")

structure RequestContext where
  ipAddress : Option String
  userAgent : Option String
  deriving DecidableEq

/-! ## Rows -/

structure User where
  id : String
  email : String
  passwordHash : String
  firstName : Option String := none
  lastName : Option String := none
  avatarUrl : Option String := none
  isEmailVerified : Bool := false
  failedLoginAttempts : Nat := 0
  lockedUntil : Option Time := none
  lastLoginAt : Option Time := none
  deletedAt : Option Time := none
  deriving DecidableEq

structure Device where
  id : String
  userId : String
  fingerprint : String
  userAgent : Option String
  ipAddress : Option String
  lastSeenAt : Time
  deriving DecidableEq

structure Session where
  id : String
  userId : String
  deviceId : Option String
  ipAddress : Option String
  userAgent : Option String
  isRevoked : Bool := false
  revokedAt : Option Time := none
  lastActiveAt : Time
  expiresAt : Time
  deriving DecidableEq

/-- A session with `SESSION_DEVICE_INCLUDE`. -/
structure SessionWithDevice where
  session : Session
  device : Option Device
  deriving DecidableEq

structure RefreshToken where
  id : String
  userId : String
  sessionId : String
  familyId : String
  tokenHash : String
  replacedByTokenHash : Option String := none
  expiresAt : Time
  revokedAt : Option Time := none
  createdByIp : Option String
  deriving DecidableEq

structure PasswordResetToken where
  id : String
  userId : String
  tokenHash : String
  expiresAt : Time
  consumedAt : Option Time := none
  deriving DecidableEq

inductive EmailTokenType
  | REGISTRATION
  | EMAIL_CHANGE
  deriving DecidableEq

structure EmailVerificationToken where
  id : String
  userId : String
  tokenHash : String
  type : EmailTokenType
  newEmail : Option String
  expiresAt : Time
  consumedAt : Option Time := none
  deriving DecidableEq

structure Role where
  id : String
  name : String
  description : Option String
  deriving DecidableEq

structure Permission where
  id : String
  name : String
  description : Option String
  deriving DecidableEq

structure RolePermission where
  roleId : String
  permissionId : String
  deriving DecidableEq

structure UserRole where
  userId : String
  roleId : String
  deriving DecidableEq

/-- A role with `ROLE_PERMISSIONS_INCLUDE`. -/
structure RoleWithPermissions where
  role : Role
  permissions : List Permission
  deriving DecidableEq

/-- A user with `USER_ACCESS_INCLUDE`. -/
structure UserWithAccess where
  user : User
  userRoles : List RoleWithPermissions
  deriving DecidableEq

/-! ## Tokens -/

/-- The claims of an access token; `iat` and `exp` are in seconds. -/
structure JwtPayload where
  sub : String
  email : String
  roles : List String
  permissions : List String
  sessionId : String
  jti : String
  iat : Nat
  exp : Nat
  deriving DecidableEq

/-- An access token stands for its claims. -/
structure SignedAccessToken where
  token : JwtPayload
  jti : String
  expiresAt : JsDate
  deriving DecidableEq

structure GeneratedRefreshToken where
  token : String
  tokenHash : String
  expiresAt : JsDate
  deriving DecidableEq

structure SessionTokens where
  accessToken : SignedAccessToken
  refreshToken : GeneratedRefreshToken
  sessionId : String
  deriving DecidableEq

/-! ## Events, mails, errors -/

inductive LoginStatus
  | SUCCESS
  | FAILED_PASSWORD
  | FAILED_LOCKED
  | FAILED_UNVERIFIED
  | FAILED_NOT_FOUND
  deriving DecidableEq

inductive PasswordChangeMethod
  | reset
  | change
  deriving DecidableEq

inductive Event
  | userRegistered (userId email : String) (context : RequestContext)
  | userLoggedIn (userId email sessionId : String) (context : RequestContext)
  | userLoggedOut (userId sessionId : String) (context : RequestContext)
  | loginFailed (email : String) (status : LoginStatus) (context : RequestContext)
      (userId : Option String)
  | tokenRefreshed (userId sessionId : String) (context : RequestContext)
  | tokenReuseDetected (userId familyId : String) (context : RequestContext)
  | emailVerified (userId email : String) (type : EmailTokenType) (context : RequestContext)
  | passwordChanged (userId : String) (method : PasswordChangeMethod) (context : RequestContext)
  | sessionRevoked (userId sessionId : String) (context : RequestContext)
  | allSessionsRevoked (userId : String) (revokedCount : Nat) (keptSessionId : Option String)
      (context : RequestContext)
  deriving DecidableEq

inductive MailKind
  | verification
  | emailChange
  | passwordReset
  deriving DecidableEq

/-- A mail handed to the provider, with the token its link carries. -/
structure Mail where
  recipient : String
  kind : MailKind
  token : String
  deriving DecidableEq

/-- What a request can throw: the exceptions of `@nestjs/common`, a known
Prisma error by its code, or any other error. -/
inductive Exn
  | badRequest (message : String)
  | unauthorized (message : String)
  | forbidden (message : String)
  | notFound (message : String)
  | conflict (message : String)
  | prisma (code : String)
  | error (message : String)
  deriving DecidableEq

end AtlasAuth

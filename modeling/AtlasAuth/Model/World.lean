import AtlasAuth.Framework.Expiring
import AtlasAuth.Framework.Pool
import AtlasAuth.Framework.Table
import AtlasAuth.Model.Types

/-!
# The state that requests share

The database, Redis, the clock and the source of randomness. A request is a
program (`App`) that makes calls on this state; `Call` names each call.

The rest of the state is what observers outside have seen: every access token
ever signed, every password verification, every event emitted and every mail
handed to the provider. No code of the service reads these, except that the
verification of an access token accepts exactly the tokens that were signed.
-/

namespace AtlasAuth

open Framework

/-- The configuration, and the primitives of `crypto` and `argon2`: the `n`-th
random value is the same function of `n` in every run, and values drawn at
different times differ. -/
structure Env where
  accessExpiresIn : String
  refreshExpiresIn : String
  maxAttempts : Nat
  durationMinutes : Nat
  emailVerificationMinutes : Nat
  passwordResetMinutes : Nat
  toLowerCase : String → String
  sha256 : String → String
  randomUUID : Nat → String
  randomBytes : Nat → String
  /-- The hash of a password with the `n`-th random value as its salt. -/
  argon2Hash : Nat → String → String
  argon2Verify : String → String → Bool
  sha256_injective : Function.Injective sha256
  randomUUID_injective : Function.Injective randomUUID
  randomBytes_injective : Function.Injective randomBytes
  argon2Hash_salt : ∀ {n m : Nat} {p q : String}, argon2Hash n p = argon2Hash m q → n = m
  argon2Verify_hash : ∀ (n : Nat) (p q : String), argon2Verify (argon2Hash n p) q = decide (p = q)

/-- The `n`-th of a sequence of distinct strings. -/
def unary (n : Nat) : String := String.ofList (List.replicate n 'i')

theorem unary_injective : Function.Injective unary := by
  intro n m h
  simpa [unary] using congrArg (fun s : String => s.toList.length) h

/-- The default configuration, with primitives on which requests can be
evaluated. -/
def Env.sample : Env where
  accessExpiresIn := "15m"
  refreshExpiresIn := "30d"
  maxAttempts := 5
  durationMinutes := 15
  emailVerificationMinutes := 60
  passwordResetMinutes := 30
  toLowerCase s := String.ofList (s.toList.map Char.toLower)
  sha256 s := s
  randomUUID := unary
  randomBytes := unary
  argon2Hash n p := String.ofList (List.replicate n 'i' ++ '$' :: p.toList)
  argon2Verify h p := decide ((h.toList.dropWhile (· ≠ '$')).tail = p.toList)
  sha256_injective := Function.injective_id
  randomUUID_injective := unary_injective
  randomBytes_injective := unary_injective
  argon2Hash_salt := by
    intro n m p q h
    have h := congrArg (fun s : String => (s.toList.takeWhile (· ≠ '$')).length) h
    simpa [List.takeWhile_append] using h
  argon2Verify_hash := by
    intro n p q
    simp [String.toList_inj]

/-- The calls a request makes on the shared state. -/
inductive Call
  | dateNow
  | randomUUID
  | randomBytes
  | hash
  | verify
  | jwtSign
  | jwtVerify
  | redisSet (key : String)
  | redisExists (key : String)
  | emit
  | sendMail
  | deliver
  | usersCreate (email : String)
  | usersFindByEmail (email : String)
  | usersFindById (id : String)
  | usersFindWithAccessById (id : String)
  | usersMarkEmailVerified (id : String)
  | usersRecordSuccessfulLogin (id : String)
  | usersFindUniqueOrThrow (id : String)
  | usersUpdateFailedLogin (id : String)
  | usersUpdateProfile (id : String)
  | usersUpdateEmail (id : String)
  | usersUpdatePassword (id : String)
  | upsertDevice (userId : String)
  | createSession (userId : String)
  | findSessionById (id : String)
  | revokeSession (id : String)
  | touchSession (id : String)
  | createRefreshToken (tokenHash : String)
  | findRefreshTokenByHash (tokenHash : String)
  | revokeRefreshToken (id : String)
  | revokeRefreshTokenFamily (familyId : String)
  | sessionsFindActiveByUser (userId : String)
  | sessionsFindById (id : String)
  | sessionsRevoke (id : String)
  | sessionsFindUnrevoked (userId : String)
  | sessionsRevokeMany (ids : List String)
  | passwordResetCreate (userId : String)
  | passwordResetFindByHash (tokenHash : String)
  | passwordResetMarkConsumed (id : String)
  | passwordResetInvalidateOutstanding (userId : String)
  | emailVerificationCreate (userId : String)
  | emailVerificationFindByHash (tokenHash : String)
  | emailVerificationMarkConsumed (id : String)
  | emailVerificationInvalidateOutstanding (userId : String)
  | rolesFindById (id : String)
  | rolesFindByName (name : String)
  | rolesCreate (name : String)
  | rolesUpdate (id : String)
  | rolesDelete (id : String)
  | rolesAssignPermission (roleId permissionId : String)
  | rolesRevokePermission (roleId permissionId : String)
  | rolesAssignToUser (userId roleId : String)
  | rolesRevokeFromUser (userId roleId : String)
  | permissionsFindById (id : String)
  | permissionsFindByName (name : String)
  | permissionsCreate (name : String)
  | permissionsDelete (id : String)
  deriving DecidableEq

/-- The tables of roles and permissions. -/
structure Rbac where
  roles : List Role := []
  permissions : List Permission := []
  rolePermissions : List RolePermission := []
  userRoles : List UserRole := []

structure World where
  /-- `Date.now()`. -/
  now : Time
  /-- The number of random values drawn so far. -/
  drawn : Nat := 0
  users : List User := []
  devices : List Device := []
  sessions : List Session := []
  refreshTokens : List RefreshToken := []
  passwordResetTokens : List PasswordResetToken := []
  emailVerificationTokens : List EmailVerificationToken := []
  rbac : Rbac := {}
  redis : Expiring String String := Expiring.empty
  /-- The access tokens signed so far. -/
  signed : List JwtPayload := []
  /-- The hash and the password of each verification so far. -/
  verified : List (String × String) := []
  events : List Event := []
  outbox : List Mail := []

abbrev App := Prog World Call Exn

/-- A lapse of time. -/
def World.advance (d : Time) (w : World) : World := { w with now := w.now + d }

def dateNow : App Time := .query .dateNow World.now

def emit (e : Event) : App Unit :=
  .atomic .emit fun w => (.ok (), { w with events := w.events ++ [e] })

section

variable (env : Env)

def randomUUID : App String :=
  .atomic .randomUUID fun w => (.ok (env.randomUUID w.drawn), { w with drawn := w.drawn + 1 })

def randomBytes : App String :=
  .atomic .randomBytes fun w => (.ok (env.randomBytes w.drawn), { w with drawn := w.drawn + 1 })

def HashingService.hash (plain : String) : App String :=
  .atomic .hash fun w => (.ok (env.argon2Hash w.drawn plain), { w with drawn := w.drawn + 1 })

def HashingService.verify (hash plain : String) : App Bool :=
  .atomic .verify fun w =>
    (.ok (env.argon2Verify hash plain), { w with verified := w.verified ++ [(hash, plain)] })

def MailService.send (recipient : String) (kind : MailKind) (token : String) : App Unit :=
  .atomic .sendMail fun w => (.ok (), { w with outbox := w.outbox ++ [⟨recipient, kind, token⟩] })

end

end AtlasAuth

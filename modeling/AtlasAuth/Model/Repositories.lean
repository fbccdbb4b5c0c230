import AtlasAuth.Model.World

/-!
# The repositories

The queries of the repositories on users, devices, sessions and tokens, each
one atomic call. An `update` of a row that does not exist is Prisma's `P2025`,
a second row with a unique value `P2002`. Rows of users, sessions and tokens
are never deleted, so no query meets a broken reference. `new Date()` in the
data of a query is the time of the query, which is taken not to be past the year
9999; any other date may be one that Prisma refuses (`Prisma.dateTime`).
-/

namespace AtlasAuth

open Framework Framework.Table

namespace Prisma

/-- The last millisecond of the year 9999. -/
def maxDateTime : Nat := 253402300799999

def invalidDate : Exn := .error "Provided Date object is invalid"

def lateDate : Exn := .error "input contains invalid characters. Expected ISO-8601 DateTime."

/-- A `Date` in the data of a query: Prisma refuses an invalid one, and one after
the year 9999, of which `toISOString` has a year of six digits. -/
def dateTime : JsDate → Except Exn Time
  | none => .error invalidDate
  | some t => if t ≤ maxDateTime then .ok t else .error lateDate

end Prisma

section

variable (env : Env)

/-! ## Users -/

namespace UsersRepository

def create (email passwordHash : String) (firstName lastName : Option String) : App User :=
  .atomic (.usersCreate email) fun w =>
    if w.users.any (·.email == email) then (.error (.prisma "P2002"), w)
    else
      let user : User :=
        { id := env.randomUUID w.drawn, email, passwordHash, firstName, lastName }
      (.ok user, { w with drawn := w.drawn + 1, users := w.users ++ [user] })

def findByEmail (email : String) : App (Option User) :=
  .query (.usersFindByEmail email) fun w =>
    w.users.find? fun u => u.email == email && u.deletedAt.isNone

def findById (id : String) : App (Option User) :=
  .query (.usersFindById id) fun w => w.users.find? fun u => u.id == id && u.deletedAt.isNone

/-- `user.update` of the row with this id. -/
def update (call : Call) (id : String) (data : Time → User → User) : App User :=
  .atomic call fun w =>
    match w.users.find? (·.id == id) with
    | none => (.error (.prisma "P2025"), w)
    | some user =>
      (.ok (data w.now user), { w with users := updateWhere (·.id == id) (data w.now) w.users })

def markEmailVerified (id : String) : App User :=
  update (.usersMarkEmailVerified id) id fun _ u => { u with isEmailVerified := true }

def recordSuccessfulLogin (id : String) : App User :=
  update (.usersRecordSuccessfulLogin id) id fun now u =>
    { u with failedLoginAttempts := 0, lockedUntil := none, lastLoginAt := some now }

def findUniqueOrThrow (id : String) : App User :=
  .atomic (.usersFindUniqueOrThrow id) fun w =>
    match w.users.find? (·.id == id) with
    | none => (.error (.prisma "P2025"), w)
    | some user => (.ok user, w)

/-- `lockedUntil` is null, a date that was read, or what Prisma makes of a new
one. -/
def updateFailedLogin (id : String) (failedLoginAttempts : Nat)
    (lockedUntil : Except Exn (Option Time)) : App User :=
  match lockedUntil with
  | .ok lockedUntil =>
    update (.usersUpdateFailedLogin id) id fun _ u => { u with failedLoginAttempts, lockedUntil }
  | .error e => .atomic (.usersUpdateFailedLogin id) fun w => (.error e, w)

/-- A read and a write, with `Date.now()` in between when the account locks. -/
def registerFailedLoginAttempt (id : String) (maxAttempts lockDurationMinutes : Nat) :
    App User := do
  let user ← findUniqueOrThrow id
  let attempts := user.failedLoginAttempts + 1
  if attempts ≥ maxAttempts then
    let now ← dateNow
    let lockedUntil := JsDate.after now (minutesToMs lockDurationMinutes)
    updateFailedLogin id 0 ((Prisma.dateTime lockedUntil).map some)
  else
    updateFailedLogin id attempts (.ok user.lockedUntil)

/-- An absent field of `data` is left unchanged. -/
def updateProfile (id : String) (firstName lastName avatarUrl : Option String) : App User :=
  update (.usersUpdateProfile id) id fun _ u =>
    { u with firstName := firstName.or u.firstName, lastName := lastName.or u.lastName,
             avatarUrl := avatarUrl.or u.avatarUrl }

def updateEmail (id email : String) : App User :=
  .atomic (.usersUpdateEmail id) fun w =>
    match w.users.find? (·.id == id) with
    | none => (.error (.prisma "P2025"), w)
    | some user =>
      if w.users.any fun u => u.email == email && u.id != id then (.error (.prisma "P2002"), w)
      else
        let data := fun u : User => { u with email, isEmailVerified := true }
        (.ok (data user), { w with users := updateWhere (·.id == id) data w.users })

def updatePassword (id passwordHash : String) : App User :=
  update (.usersUpdatePassword id) id fun _ u =>
    { u with passwordHash, failedLoginAttempts := 0, lockedUntil := none }

end UsersRepository

/-! ## Devices, sessions and refresh tokens -/

/-- `{ isRevoked: true, revokedAt: new Date() }`. -/
def Session.revoke (now : Time) (s : Session) : Session :=
  { s with isRevoked := true, revokedAt := some now }

/-- `{ revokedAt: new Date() }`. -/
def RefreshToken.revoke (now : Time) (t : RefreshToken) : RefreshToken :=
  { t with revokedAt := some now }

namespace AuthRepository

def upsertDevice (userId fingerprint : String) (userAgent ipAddress : Option String) :
    App Device :=
  .atomic (.upsertDevice userId) fun w =>
    let key := fun d : Device => d.userId == userId && d.fingerprint == fingerprint
    match w.devices.find? key with
    | some device =>
      let data := fun d : Device => { d with lastSeenAt := w.now, userAgent, ipAddress }
      (.ok (data device), { w with devices := updateWhere key data w.devices })
    | none =>
      let device : Device :=
        { id := env.randomUUID w.drawn, userId, fingerprint, userAgent, ipAddress,
          lastSeenAt := w.now }
      (.ok device, { w with drawn := w.drawn + 1, devices := w.devices ++ [device] })

def createSession (userId deviceId : String) (ipAddress userAgent : Option String)
    (expiresAt : JsDate) : App Session :=
  .atomic (.createSession userId) fun w =>
    match Prisma.dateTime expiresAt with
    | .error e => (.error e, w)
    | .ok expiresAt =>
      let session : Session :=
        { id := env.randomUUID w.drawn, userId, deviceId := some deviceId, ipAddress, userAgent,
          lastActiveAt := w.now, expiresAt }
      (.ok session, { w with drawn := w.drawn + 1, sessions := w.sessions ++ [session] })

def findSessionById (id : String) : App (Option Session) :=
  .query (.findSessionById id) fun w => w.sessions.find? (·.id == id)

def revokeSession (id : String) : App Session :=
  .atomic (.revokeSession id) fun w =>
    match w.sessions.find? (·.id == id) with
    | none => (.error (.prisma "P2025"), w)
    | some session =>
      (.ok (session.revoke w.now),
        { w with sessions := updateWhere (·.id == id) (Session.revoke w.now) w.sessions })

def touchSession (id : String) (expiresAt : JsDate) : App Session :=
  .atomic (.touchSession id) fun w =>
    match Prisma.dateTime expiresAt, w.sessions.find? (·.id == id) with
    | .error e, _ => (.error e, w)
    | .ok _, none => (.error (.prisma "P2025"), w)
    | .ok expiresAt, some session =>
      let data := fun s : Session => { s with lastActiveAt := w.now, expiresAt }
      (.ok (data session), { w with sessions := updateWhere (·.id == id) data w.sessions })

def createRefreshToken (userId sessionId familyId tokenHash : String) (expiresAt : JsDate)
    (createdByIp : Option String) : App RefreshToken :=
  .atomic (.createRefreshToken tokenHash) fun w =>
    match Prisma.dateTime expiresAt with
    | .error e => (.error e, w)
    | .ok expiresAt =>
      if w.refreshTokens.any (·.tokenHash == tokenHash) then (.error (.prisma "P2002"), w)
      else
        let token : RefreshToken :=
          { id := env.randomUUID w.drawn, userId, sessionId, familyId, tokenHash, expiresAt,
            createdByIp }
        (.ok token, { w with drawn := w.drawn + 1, refreshTokens := w.refreshTokens ++ [token] })

def findRefreshTokenByHash (tokenHash : String) : App (Option RefreshToken) :=
  .query (.findRefreshTokenByHash tokenHash) fun w =>
    w.refreshTokens.find? (·.tokenHash == tokenHash)

def revokeRefreshToken (id replacedByTokenHash : String) : App RefreshToken :=
  .atomic (.revokeRefreshToken id) fun w =>
    match w.refreshTokens.find? (·.id == id) with
    | none => (.error (.prisma "P2025"), w)
    | some token =>
      let data := fun t : RefreshToken =>
        { t with revokedAt := some w.now, replacedByTokenHash := some replacedByTokenHash }
      (.ok (data token), { w with refreshTokens := updateWhere (·.id == id) data w.refreshTokens })

def revokeRefreshTokenFamily (familyId : String) : App Unit :=
  .atomic (.revokeRefreshTokenFamily familyId) fun w =>
    (.ok (),
      { w with
        refreshTokens := updateWhere (fun t => t.familyId == familyId && t.revokedAt.isNone)
          (RefreshToken.revoke w.now) w.refreshTokens })

end AuthRepository

namespace SessionsRepository

/-- The sessions that are neither revoked nor expired, the last active first. -/
def findActiveByUser (userId : String) : App (List SessionWithDevice) :=
  .query (.sessionsFindActiveByUser userId) fun w =>
    ((w.sessions.filter fun s => s.userId == userId && !s.isRevoked && w.now < s.expiresAt).mergeSort
      fun a b => b.lastActiveAt ≤ a.lastActiveAt).map fun s =>
        ⟨s, s.deviceId.bind fun id => w.devices.find? (·.id == id)⟩

def findById (id : String) : App (Option Session) :=
  .query (.sessionsFindById id) fun w => w.sessions.find? (·.id == id)

/-- One transaction: the session, and its refresh tokens that are not yet
revoked. -/
def revoke (id : String) : App Unit :=
  .atomic (.sessionsRevoke id) fun w =>
    match w.sessions.find? (·.id == id) with
    | none => (.error (.prisma "P2025"), w)
    | some _ =>
      (.ok (),
        { w with
          sessions := updateWhere (·.id == id) (Session.revoke w.now) w.sessions
          refreshTokens := updateWhere (fun t => t.sessionId == id && t.revokedAt.isNone)
            (RefreshToken.revoke w.now) w.refreshTokens })

/-- The sessions that `revokeAllExcept` selects. -/
def findUnrevoked (userId : String) (exceptSessionId : Option String) : App (List String) :=
  .query (.sessionsFindUnrevoked userId) fun w =>
    (w.sessions.filter fun s => s.userId == userId && !s.isRevoked &&
      !((truthy exceptSessionId).any (s.id == ·))).map (·.id)

/-- The transaction of `revokeAllExcept`. -/
def revokeMany (sessionIds : List String) : App Unit :=
  .atomic (.sessionsRevokeMany sessionIds) fun w =>
    (.ok (),
      { w with
        sessions := updateWhere (fun s => sessionIds.contains s.id) (Session.revoke w.now) w.sessions
        refreshTokens :=
          updateWhere (fun t => sessionIds.contains t.sessionId && t.revokedAt.isNone)
            (RefreshToken.revoke w.now) w.refreshTokens })

def revokeAllExcept (userId : String) (exceptSessionId : Option String) : App (List String) := do
  let sessionIds ← findUnrevoked userId exceptSessionId
  if sessionIds.length = 0 then
    return []
  revokeMany sessionIds
  return sessionIds

end SessionsRepository

/-! ## Links sent by mail -/

namespace PasswordResetRepository

def create (userId tokenHash : String) (expiresAt : JsDate) : App PasswordResetToken :=
  .atomic (.passwordResetCreate userId) fun w =>
    match Prisma.dateTime expiresAt with
    | .error e => (.error e, w)
    | .ok expiresAt =>
      if w.passwordResetTokens.any (·.tokenHash == tokenHash) then (.error (.prisma "P2002"), w)
      else
        let token : PasswordResetToken :=
          { id := env.randomUUID w.drawn, userId, tokenHash, expiresAt }
        (.ok token,
          { w with drawn := w.drawn + 1, passwordResetTokens := w.passwordResetTokens ++ [token] })

def findByHash (tokenHash : String) : App (Option PasswordResetToken) :=
  .query (.passwordResetFindByHash tokenHash) fun w =>
    w.passwordResetTokens.find? (·.tokenHash == tokenHash)

def markConsumed (id : String) : App PasswordResetToken :=
  .atomic (.passwordResetMarkConsumed id) fun w =>
    match w.passwordResetTokens.find? (·.id == id) with
    | none => (.error (.prisma "P2025"), w)
    | some token =>
      let data := fun t : PasswordResetToken => { t with consumedAt := some w.now }
      (.ok (data token),
        { w with passwordResetTokens := updateWhere (·.id == id) data w.passwordResetTokens })

def invalidateOutstanding (userId : String) : App Unit :=
  .atomic (.passwordResetInvalidateOutstanding userId) fun w =>
    (.ok (),
      { w with
        passwordResetTokens := updateWhere (fun t => t.userId == userId && t.consumedAt.isNone)
          (fun t => { t with consumedAt := some w.now }) w.passwordResetTokens })

end PasswordResetRepository

namespace EmailVerificationRepository

def create (userId tokenHash : String) (type : EmailTokenType) (newEmail : Option String)
    (expiresAt : JsDate) : App EmailVerificationToken :=
  .atomic (.emailVerificationCreate userId) fun w =>
    match Prisma.dateTime expiresAt with
    | .error e => (.error e, w)
    | .ok expiresAt =>
      if w.emailVerificationTokens.any (·.tokenHash == tokenHash) then
        (.error (.prisma "P2002"), w)
      else
        let token : EmailVerificationToken :=
          { id := env.randomUUID w.drawn, userId, tokenHash, type, newEmail, expiresAt }
        (.ok token,
          { w with drawn := w.drawn + 1,
                   emailVerificationTokens := w.emailVerificationTokens ++ [token] })

def findByHash (tokenHash : String) : App (Option EmailVerificationToken) :=
  .query (.emailVerificationFindByHash tokenHash) fun w =>
    w.emailVerificationTokens.find? (·.tokenHash == tokenHash)

def markConsumed (id : String) : App EmailVerificationToken :=
  .atomic (.emailVerificationMarkConsumed id) fun w =>
    match w.emailVerificationTokens.find? (·.id == id) with
    | none => (.error (.prisma "P2025"), w)
    | some token =>
      let data := fun t : EmailVerificationToken => { t with consumedAt := some w.now }
      (.ok (data token),
        { w with emailVerificationTokens := updateWhere (·.id == id) data w.emailVerificationTokens })

/-- Invalidates any outstanding tokens of the given type before issuing a new one. -/
def invalidateOutstanding (userId : String) (type : EmailTokenType) : App Unit :=
  .atomic (.emailVerificationInvalidateOutstanding userId) fun w =>
    (.ok (),
      { w with
        emailVerificationTokens :=
          updateWhere (fun t => t.userId == userId && t.type == type && t.consumedAt.isNone)
            (fun t => { t with consumedAt := some w.now }) w.emailVerificationTokens })

end EmailVerificationRepository

end

end AtlasAuth

import AtlasAuth.Model.App

/-!
# The audit trail

`AuditListener`, which writes the events of the service to the tables
`audit_logs` and `login_history`. A handler is called when its event is
emitted, so the inserts are made in the order of the events. The user of a row
is a foreign key: the insert of a row of nobody is a `P2003`, and there is no
row. What the handlers log is left out.
-/

namespace AtlasAuth

open Framework

namespace AuthEventName

def USER_REGISTERED : String := "auth.user.registered"
def USER_LOGGED_IN : String := "auth.user.logged_in"
def USER_LOGGED_OUT : String := "auth.user.logged_out"
def TOKEN_REUSE_DETECTED : String := "auth.token.reuse_detected"

end AuthEventName

def EMAIL_VERIFIED : String := "auth.email.verified"
def PASSWORD_CHANGED : String := "auth.password.changed"
def SESSION_REVOKED : String := "sessions.session.revoked"
def ALL_SESSIONS_REVOKED : String := "sessions.all.revoked"

/-- The `metadata` of a row, by the listener that writes it. -/
inductive Metadata
  | emailVerified (email : String) (type : EmailTokenType)
  | passwordChanged (method : PasswordChangeMethod)
  | allSessionsRevoked (revokedCount : Nat) (keptSessionId : Option String)
  deriving DecidableEq

structure AuditLog where
  userId : Option String
  action : String
  entityType : Option String := none
  entityId : Option String := none
  metadata : Option Metadata := none
  ipAddress : Option String
  userAgent : Option String
  deriving DecidableEq

structure LoginHistory where
  userId : Option String
  email : String
  status : LoginStatus
  ipAddress : Option String
  userAgent : Option String
  deriving DecidableEq

structure AuditTables where
  auditLogs : List AuditLog := []
  loginHistory : List LoginHistory := []
  deriving DecidableEq

section

variable (users : List User)

/-- The foreign key of both tables: a user that is named is there. -/
def references (userId : Option String) : Bool := userId.all fun id => users.any (·.id == id)

def AuditLogRepository.record (entry : AuditLog) (tables : AuditTables) : AuditTables :=
  if references users entry.userId then { tables with auditLogs := tables.auditLogs ++ [entry] }
  else tables

def LoginHistoryRepository.record (entry : LoginHistory) (tables : AuditTables) : AuditTables :=
  if references users entry.userId then
    { tables with loginHistory := tables.loginHistory ++ [entry] }
  else tables

namespace AuditListener

open AuthEventName

def handleUserRegistered (userId : String) (context : RequestContext) : AuditTables → AuditTables :=
  AuditLogRepository.record users
    { userId := some userId, action := USER_REGISTERED, entityType := some "User",
      entityId := some userId, ipAddress := context.ipAddress, userAgent := context.userAgent }

def handleUserLoggedIn (userId email sessionId : String) (context : RequestContext)
    (tables : AuditTables) : AuditTables :=
  AuditLogRepository.record users
    { userId := some userId, action := USER_LOGGED_IN, entityType := some "Session",
      entityId := some sessionId, ipAddress := context.ipAddress, userAgent := context.userAgent }
    (LoginHistoryRepository.record users
      { userId := some userId, email, status := .SUCCESS, ipAddress := context.ipAddress,
        userAgent := context.userAgent } tables)

def handleUserLoggedOut (userId sessionId : String) (context : RequestContext) :
    AuditTables → AuditTables :=
  AuditLogRepository.record users
    { userId := some userId, action := USER_LOGGED_OUT, entityType := some "Session",
      entityId := some sessionId, ipAddress := context.ipAddress, userAgent := context.userAgent }

def handleLoginFailed (email : String) (status : LoginStatus) (context : RequestContext)
    (userId : Option String) : AuditTables → AuditTables :=
  LoginHistoryRepository.record users
    { userId, email, status, ipAddress := context.ipAddress, userAgent := context.userAgent }

def handleTokenReuseDetected (userId familyId : String) (context : RequestContext) :
    AuditTables → AuditTables :=
  AuditLogRepository.record users
    { userId := some userId, action := TOKEN_REUSE_DETECTED, entityType := some "RefreshTokenFamily",
      entityId := some familyId, ipAddress := context.ipAddress, userAgent := context.userAgent }

def handleEmailVerified (userId email : String) (type : EmailTokenType) (context : RequestContext) :
    AuditTables → AuditTables :=
  AuditLogRepository.record users
    { userId := some userId, action := EMAIL_VERIFIED, entityType := some "User",
      entityId := some userId, metadata := some (.emailVerified email type),
      ipAddress := context.ipAddress, userAgent := context.userAgent }

def handlePasswordChanged (userId : String) (method : PasswordChangeMethod)
    (context : RequestContext) : AuditTables → AuditTables :=
  AuditLogRepository.record users
    { userId := some userId, action := PASSWORD_CHANGED, entityType := some "User",
      entityId := some userId, metadata := some (.passwordChanged method),
      ipAddress := context.ipAddress, userAgent := context.userAgent }

def handleSessionRevoked (userId sessionId : String) (context : RequestContext) :
    AuditTables → AuditTables :=
  AuditLogRepository.record users
    { userId := some userId, action := SESSION_REVOKED, entityType := some "Session",
      entityId := some sessionId, ipAddress := context.ipAddress, userAgent := context.userAgent }

def handleAllSessionsRevoked (userId : String) (revokedCount : Nat) (keptSessionId : Option String)
    (context : RequestContext) : AuditTables → AuditTables :=
  AuditLogRepository.record users
    { userId := some userId, action := ALL_SESSIONS_REVOKED, entityType := some "Session",
      metadata := some (.allSessionsRevoked revokedCount keptSessionId),
      ipAddress := context.ipAddress, userAgent := context.userAgent }

/-- The handler of each event; that of a refresh only logs. -/
def handle : Event → AuditTables → AuditTables
  | .userRegistered userId _ context => handleUserRegistered users userId context
  | .userLoggedIn userId email sessionId context =>
    handleUserLoggedIn users userId email sessionId context
  | .userLoggedOut userId sessionId context => handleUserLoggedOut users userId sessionId context
  | .loginFailed email status context userId =>
    handleLoginFailed users email status context userId
  | .tokenRefreshed _ _ _ => id
  | .tokenReuseDetected userId familyId context =>
    handleTokenReuseDetected users userId familyId context
  | .emailVerified userId email type context => handleEmailVerified users userId email type context
  | .passwordChanged userId method context => handlePasswordChanged users userId method context
  | .sessionRevoked userId sessionId context => handleSessionRevoked users userId sessionId context
  | .allSessionsRevoked userId revokedCount keptSessionId context =>
    handleAllSessionsRevoked users userId revokedCount keptSessionId context

end AuditListener

/-- Events that are delivered one after the other. -/
def deliver (events : List Event) (tables : AuditTables) : AuditTables :=
  events.foldl (fun tables event => AuditListener.handle users event tables) tables

end

/-- The events that have been emitted since the state `w`. -/
def World.emittedSince (w' w : World) : List Event := w'.events.drop w.events.length

/-- The tables after the requests of a run. -/
def auditTrail (tr : List (Done Request World Exn Response)) : AuditTables :=
  tr.foldl (fun tables d => deliver d.after.users (d.after.emittedSince d.before) tables) {}

end AtlasAuth

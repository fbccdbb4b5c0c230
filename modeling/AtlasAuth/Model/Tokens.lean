import AtlasAuth.Model.Repositories

/-!
# Access tokens, refresh tokens and the blacklist

`TokenService`, `TokenBlacklistService`, `RedisService` and `JwtStrategy`.
`parseDurationToMs` is arithmetic of doubles; the expiry of an access token is
computed as `jsonwebtoken` does, from whole seconds.
-/

namespace AtlasAuth

open Framework

/-! ## Durations -/

/-- The white space and line terminators that `String.prototype.trim` removes. -/
def isWhiteSpace (c : Char) : Bool :=
  [0x9, 0xA, 0xB, 0xC, 0xD, 0x20, 0xA0, 0x1680, 0x2028, 0x2029, 0x202F, 0x205F, 0x3000,
    0xFEFF].contains c.toNat || (0x2000 ≤ c.toNat && c.toNat ≤ 0x200A)

def trim (s : List Char) : List Char :=
  ((s.dropWhile isWhiteSpace).reverse.dropWhile isWhiteSpace).reverse

/-- `\d`. -/
def isDigit (c : Char) : Bool := '0' ≤ c && c ≤ '9'

/-- The number that a string of digits stands for. -/
def digitsToNat (ds : List Char) : Nat :=
  ds.foldl (fun n d => 10 * n + (d.toNat - '0'.toNat)) 0

def UNIT_TO_MS : Char → Option Nat
  | 's' => some 1000
  | 'm' => some (60 * 1000)
  | 'h' => some (60 * 60 * 1000)
  | 'd' => some (24 * 60 * 60 * 1000)
  | _ => none

/-- Parses short duration strings like "15m", "30d", "60s" into milliseconds. -/
def parseDurationToMs (duration : String) : Except Exn Double :=
  let invalid : Exn :=
    .error s!"Invalid duration format: \"{duration}\". Expected e.g. \"15m\", \"30d\"."
  let s := trim duration.toList
  let amount := s.takeWhile isDigit
  match amount, s.dropWhile isDigit with
  | _ :: _, [unit] =>
    match UNIT_TO_MS unit with
    | some ms => .ok ((Double.ofNat (digitsToNat amount)).mul ms)
    | none => .error invalid
  | _, _ => .error invalid

/-! ## Signing -/

section

variable (env : Env)

namespace TokenService

def getAccessTokenTtlMs : App Double := Prog.ofExcept (parseDurationToMs env.accessExpiresIn)

/-- `exp` of a token signed at `iat` seconds, to expire in a number of seconds,
which has to be whole. -/
def expiry (iat : Nat) : Double → Except Exn Nat
  | .int expiresIn =>
    match (Double.int iat).add (.int expiresIn) with
    | .int exp => .ok exp.toNat
    | .infinity => .error (.error "\"exp\" should be a number of seconds")
  | .infinity =>
    .error (.error "\"expiresIn\" should be a number of seconds or string representing a timespan")

/-- `jwtService.signAsync`. -/
def jwtSign (sub email : String) (roles permissions : List String) (sessionId jti : String)
    (expiresIn : Double) : App JwtPayload :=
  .atomic .jwtSign fun w =>
    let iat := w.now / 1000
    match expiry iat expiresIn with
    | .error e => (.error e, w)
    | .ok exp =>
      let token : JwtPayload := { sub, email, roles, permissions, sessionId, jti, iat, exp }
      (.ok token, { w with signed := w.signed ++ [token] })

def signAccessToken (sub email : String) (roles permissions : List String) (sessionId : String) :
    App SignedAccessToken := do
  let jti ← randomUUID env
  let expiresInMs ← getAccessTokenTtlMs env
  let token ← jwtSign sub email roles permissions sessionId jti (expiresInMs.divFloor 1000)
  let now ← dateNow
  return { token, jti, expiresAt := JsDate.after now expiresInMs }

def hashRefreshToken (token : String) : String := env.sha256 token

def generateRefreshToken : App GeneratedRefreshToken := do
  let token ← randomBytes env
  let expiresIn ← Prog.ofExcept (parseDurationToMs env.refreshExpiresIn)
  let now ← dateNow
  return { token, tokenHash := hashRefreshToken env token, expiresAt := JsDate.after now expiresIn }

end TokenService

/-! ## The blacklist -/

/-- The largest expiry time that Redis accepts. -/
def redisMaxTime : Int := 2 ^ 63 - 1

/-- `set` with `PX`; callers pass a positive number of milliseconds. -/
def RedisService.set (key value : String) (ttlMs : Double) : App Unit :=
  .atomic (.redisSet key) fun w =>
    match ttlMs with
    | .int ttl =>
      if 0 < ttl ∧ w.now + ttl ≤ redisMaxTime then
        (.ok (), { w with redis := w.redis.set key ⟨value, some (w.now + ttl.toNat)⟩ })
      else (.error (.error "ERR invalid expire time in 'set' command"), w)
    | .infinity => (.error (.error "ERR value is not an integer or out of range"), w)

def RedisService.exists (key : String) : App Bool :=
  .query (.redisExists key) fun w => w.redis.has key w.now

def JTI_PREFIX : String := "auth:blacklist:jti:"
def SESSION_PREFIX : String := "auth:blacklist:session:"

/-- `ttlMs <= 0`. -/
def nonPositive : Double → Bool
  | .int i => i ≤ 0
  | .infinity => false

namespace TokenBlacklistService

def blacklist (jti : String) (ttlMs : Double) : App Unit := do
  if nonPositive ttlMs then
    return
  RedisService.set (JTI_PREFIX ++ jti) "1" ttlMs

def isBlacklisted (jti : String) : App Bool := RedisService.exists (JTI_PREFIX ++ jti)

/-- Blocks every access token bound to a revoked session. Only needs to
outlive the longest possible remaining access-token lifetime. -/
def blacklistSession (sessionId : String) (ttlMs : Double) : App Unit := do
  if nonPositive ttlMs then
    return
  RedisService.set (SESSION_PREFIX ++ sessionId) "1" ttlMs

def isSessionBlacklisted (sessionId : String) : App Bool :=
  RedisService.exists (SESSION_PREFIX ++ sessionId)

end TokenBlacklistService

/-! ## Verification -/

/-- Whether an access token has expired: `clockTimestamp >= exp`. -/
def JwtPayload.expired (payload : JwtPayload) (now : Time) : Bool := payload.exp ≤ now / 1000

/-- `passport-jwt`: the token was signed by this service and has not expired. -/
def JwtStrategy.verify (bearer : JwtPayload) : App JwtPayload :=
  .atomic .jwtVerify fun w =>
    if w.signed.contains bearer && !bearer.expired w.now then (.ok bearer, w)
    else (.error (.unauthorized "Unauthorized"), w)

def JwtStrategy.validate (payload : JwtPayload) : App JwtPayload := do
  let tokenRevoked ← TokenBlacklistService.isBlacklisted payload.jti
  let sessionRevoked ← TokenBlacklistService.isSessionBlacklisted payload.sessionId
  if tokenRevoked || sessionRevoked then
    throw (.unauthorized "Token has been revoked")
  return payload

/-- `JwtAuthGuard`, on a route that is not public. -/
def JwtAuthGuard.canActivate (bearer : JwtPayload) : App JwtPayload := do
  let payload ← JwtStrategy.verify bearer
  JwtStrategy.validate payload

end

end AtlasAuth

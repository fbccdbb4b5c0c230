import AtlasAuth.Framework.Expiring
import AtlasAuth.Model.Types

/-!
# The rate limiter

`RedisThrottlerStorage`: a script that Redis runs atomically on two keys, the
hits of a key and its block. Which replica of the service runs it does not
matter, as the keys are all its state. The numbers of the script are those of
Lua up to `2 ^ 53`, where they are exact.
-/

namespace AtlasAuth

open Framework

/-- The keys of the rate limiter in Redis; their values are whole numbers. -/
abbrev ThrottleKeys := Expiring String Nat

namespace Redis

variable (key : String) (now : Time) (m : ThrottleKeys)

/-- `INCR`: a key that does not exist counts as zero, and has no expiry. -/
def incr : Nat × ThrottleKeys :=
  match m key with
  | some h =>
    if h.live now then (h.value + 1, m.set key { h with value := h.value + 1 })
    else (1, m.set key ⟨1, none⟩)
  | none => (1, m.set key ⟨1, none⟩)

def pexpire (ms : Nat) : ThrottleKeys :=
  match m key with
  | some h => if h.live now then m.set key { h with expiresAt := some (now + ms) } else m
  | none => m

/-- `PTTL`: `-2` for a key that does not exist, `-1` for one without an expiry. -/
def pttl : Int :=
  match m key with
  | some h =>
    if h.live now then
      match h.expiresAt with
      | some e => (e : Int) - now
      | none => -1
    else -2
  | none => -2

end Redis

/-- What the script returns. -/
structure ScriptReply where
  totalHits : Nat
  timeToExpire : Int
  isBlocked : Nat
  blockTtl : Int
  deriving DecidableEq

/-- The script, on the keys `hitsKey` and `blockKey`. -/
def INCREMENT_SCRIPT (hitsKey blockKey : String) (ttlMs limit blockDurationMs : Nat) (now : Time)
    (m : ThrottleKeys) : ScriptReply × ThrottleKeys :=
  let (totalHits, m) := Redis.incr hitsKey now m
  let m := if totalHits = 1 then Redis.pexpire hitsKey now m ttlMs else m
  let timeToExpire := Redis.pttl hitsKey now m
  let blockTtl := Redis.pttl blockKey now m
  if blockTtl > 0 then
    ({ totalHits, timeToExpire, isBlocked := 1, blockTtl }, m)
  else if totalHits > limit ∧ blockDurationMs > 0 then
    ({ totalHits, timeToExpire, isBlocked := 1, blockTtl := blockDurationMs },
      m.set blockKey ⟨1, some (now + blockDurationMs)⟩)
  else
    ({ totalHits, timeToExpire, isBlocked := 0, blockTtl }, m)

structure ThrottlerStorageRecord where
  totalHits : Nat
  timeToExpire : Int
  isBlocked : Bool
  timeToBlockExpire : Int
  deriving DecidableEq

/-- `Math.ceil(ms / 1000)`. -/
def ceilSeconds (ms : Int) : Int := -(-ms / 1000)

namespace RedisThrottlerStorage

def hitsKey (key throttlerName : String) : String := s!"throttle:{throttlerName}:{key}"

def blockKey (key throttlerName : String) : String := s!"throttle:{throttlerName}:{key}:blocked"

/-- The record that `increment` makes of the reply of the script. -/
def record (reply : ScriptReply) : ThrottlerStorageRecord where
  totalHits := reply.totalHits
  timeToExpire := ceilSeconds reply.timeToExpire
  isBlocked := reply.isBlocked == 1
  timeToBlockExpire := ceilSeconds reply.blockTtl

end RedisThrottlerStorage

/-- A call of `increment`: when it was made, the reply of the script, and the
keys after it. -/
structure Increment where
  time : Time
  reply : ScriptReply
  keys : ThrottleKeys

def Increment.record (c : Increment) : ThrottlerStorageRecord :=
  RedisThrottlerStorage.record c.reply

namespace RedisThrottlerStorage

variable (key : String) (ttl limit blockDuration : Nat) (throttlerName : String)

def increment (now : Time) (m : ThrottleKeys) : Increment :=
  let (reply, m) :=
    INCREMENT_SCRIPT (hitsKey key throttlerName) (blockKey key throttlerName) ttl limit blockDuration
      now m
  ⟨now, reply, m⟩

/-- The calls at the given times, one after the other. -/
def increments : List Time → ThrottleKeys → List Increment
  | [], _ => []
  | now :: times, m =>
    let c := increment key ttl limit blockDuration throttlerName now m
    c :: increments times c.keys

end RedisThrottlerStorage

end AtlasAuth

import AtlasAuth.Framework.RateLimit
import AtlasAuth.Model.Throttler

/-!
# What the rate limiter guarantees

The two keys of the script are a limiter (`Represents`), and the script counts
a request as the limiter does (`script_hit`). Hence the number of requests let
through in the lifetime of the hits key and in any interval is bounded, and a
block lasts as long as it says (`increments_safe`). A request after a block is
let through if the hits key, which counts the requests of a block, too, has
room for it (`released_after_block`).
-/

namespace AtlasAuth

open Framework

variable {hk bk : String} {L : Limits} {s : Limiter} {m : ThrottleKeys} {now : Nat}

/-- The keys hold the limiter; a key that was never set counts as expired. -/
structure Represents (hk bk : String) (s : Limiter) (m : ThrottleKeys) : Prop where
  hits : (m hk = some ⟨s.hits, some s.windowEnd⟩ ∧ 0 < s.hits) ∨
    (m hk = none ∧ s.windowEnd = 0 ∧ s.hits = 0)
  block : m bk = some ⟨1, some s.blockEnd⟩ ∨ (m bk = none ∧ s.blockEnd = 0)

theorem represents_init (hh : m hk = none) (hb : m bk = none) : Represents hk bk .init m :=
  ⟨.inr ⟨hh, rfl, rfl⟩, .inr ⟨hb, rfl⟩⟩

/-- The time at which a key expires, if it was ever set. -/
def expiry (k : String) (m : ThrottleKeys) : Nat := ((m k).bind (·.expiresAt)).getD 0

/-- The limiter that the keys hold. -/
def limiterOf (hk bk : String) (m : ThrottleKeys) : Limiter where
  hits := ((m hk).map (·.value)).getD 0
  windowEnd := expiry hk m
  blockEnd := expiry bk m

theorem Represents.eq (h : Represents hk bk s m) : limiterOf hk bk m = s := by
  obtain ⟨hh, hb⟩ := h
  have hend : expiry bk m = s.blockEnd := by
    rcases hb with hb | ⟨hb, he⟩
    · simp [expiry, hb]
    · simp [expiry, hb, he]
  unfold limiterOf
  rw [hend]
  rcases hh with ⟨hh, -⟩ | ⟨hh, hw, hz⟩
  · simp [expiry, hh]
  · obtain ⟨hits, windowEnd, blockEnd⟩ := s
    obtain rfl : windowEnd = 0 := hw
    obtain rfl : hits = 0 := hz
    simp [expiry, hh]

/-- The time to live of a key that may never have been set. -/
theorem pttl_eq {k : String} {v e : Nat} (h : m k = some ⟨v, some e⟩ ∨ (m k = none ∧ e = 0)) :
    Redis.pttl k now m = if now < e then (e : Int) - now else -2 := by
  unfold Redis.pttl
  rcases h with hk | ⟨hk, he⟩
  · simp only [hk, Held.live, decide_eq_true_eq]
  · simp [hk, he]

/-- The first lines of the script count as the limiter does. -/
theorem Represents.incr (now : Nat) (h : Represents hk bk s m) :
    (Redis.incr hk now m).1 = (s.hit L now).hits ∧
      (if (Redis.incr hk now m).1 = 1 then Redis.pexpire hk now (Redis.incr hk now m).2 L.ttl
        else (Redis.incr hk now m).2) =
          m.set hk ⟨(s.hit L now).hits, some (s.hit L now).windowEnd⟩ := by
  have set_set (a b : Held Nat) : (m.set hk a).set hk b = m.set hk b := by
    funext k
    by_cases hkk : k = hk <;> simp [Expiring.set, hkk]
  have new (hw : ¬now < s.windowEnd) (hi : Redis.incr hk now m = (1, m.set hk ⟨1, none⟩)) :
      (Redis.incr hk now m).1 = (s.hit L now).hits ∧
        (if (Redis.incr hk now m).1 = 1 then Redis.pexpire hk now (Redis.incr hk now m).2 L.ttl
          else (Redis.incr hk now m).2) =
            m.set hk ⟨(s.hit L now).hits, some (s.hit L now).windowEnd⟩ := by
    obtain ⟨hh, he⟩ := Limiter.hit_new (L := L) hw
    rw [hi, hh, he]
    simp [Redis.pexpire, Held.live, set_set]
  rcases h.hits with ⟨hm, hpos⟩ | ⟨hm, hz, -⟩
  · by_cases hw : now < s.windowEnd
    · obtain ⟨hh, he⟩ := Limiter.hit_same (L := L) hw
      have hne : s.hits + 1 ≠ 1 := by omega
      simp [Redis.incr, hm, Held.live, hw, hh, he, Nat.ne_of_gt hpos]
    · exact new hw (by simp [Redis.incr, hm, Held.live, hw])
  · exact new (by omega) (by simp [Redis.incr, hm])

theorem pttl_set_of_ne {k k' : String} {x : Held Nat} (hne : k' ≠ k) :
    Redis.pttl k' now (m.set k x) = Redis.pttl k' now m := by
  unfold Redis.pttl
  rw [Expiring.set_of_ne hne]

/-- The script counts a request as the limiter does, and its reply says
whether the request is blocked, and for how long. -/
theorem script_hit (now : Nat) (hne : hk ≠ bk) (h : Represents hk bk s m) {c : ScriptReply × ThrottleKeys}
    (hc : INCREMENT_SCRIPT hk bk L.ttl L.limit L.block now m = c) :
    Represents hk bk (s.hit L now) c.2 ∧
      (c.1.isBlocked == 1) = (⟨now, s.hit L now⟩ : Hit).blocked ∧
      (c.1.isBlocked = 1 → c.1.blockTtl = ((s.hit L now).blockEnd : Int) - now) := by
  obtain ⟨hi, hx⟩ := h.incr (L := L) now
  have hpos : 0 < (s.hit L now).hits := by
    by_cases hw : now < s.windowEnd
    · rw [(Limiter.hit_same hw).1]
      omega
    · rw [(Limiter.hit_new hw).1]
      omega
  have hblock := L.block_pos
  have hb : Redis.pttl bk now (m.set hk ⟨(s.hit L now).hits, some (s.hit L now).windowEnd⟩) =
      if now < s.blockEnd then (s.blockEnd : Int) - now else -2 :=
    (pttl_set_of_ne hne.symm).trans (pttl_eq h.block)
  have hend : (s.hit L now).blockEnd = if now < s.blockEnd then s.blockEnd
      else if (s.hit L now).hits > L.limit then now + L.block else s.blockEnd :=
    Limiter.hit_blockEnd
  have hkey : (m.set hk ⟨(s.hit L now).hits, some (s.hit L now).windowEnd⟩) bk = m bk :=
    Expiring.set_of_ne hne.symm
  rw [hi] at hx
  unfold INCREMENT_SCRIPT at hc
  simp only [hi, hx, hb] at hc
  by_cases hnow : now < s.blockEnd
  · have hlt : (0 : Int) < (s.blockEnd : Int) - now := by omega
    rw [if_pos hnow, if_pos hlt] at hc
    rw [if_pos hnow] at hend
    subst hc
    refine ⟨⟨.inl ⟨Expiring.set_self, hpos⟩, ?_⟩, ?_, fun _ => by rw [hend]⟩
    · simp only [hend, hkey]
      exact h.block
    · simp [Hit.blocked, hend, hnow]
  · rw [if_neg hnow, if_neg (by decide)] at hc
    rw [if_neg hnow] at hend
    by_cases hl : (s.hit L now).hits > L.limit
    · rw [if_pos ⟨hl, hblock⟩] at hc
      rw [if_pos hl] at hend
      subst hc
      refine ⟨⟨.inl ⟨?_, hpos⟩, .inl ?_⟩, ?_, fun _ => ?_⟩
      · simp only [Expiring.set_of_ne hne, Expiring.set_self]
      · simp only [hend, Expiring.set_self]
      · simp [Hit.blocked, hend, hblock]
      · show (L.block : Int) = _
        rw [hend]
        omega
    · rw [if_neg fun hc => hl hc.1] at hc
      rw [if_neg hl] at hend
      subst hc
      refine ⟨⟨.inl ⟨Expiring.set_self, hpos⟩, ?_⟩, ?_, fun hb => ?_⟩
      · simp only [hend, hkey]
        exact h.block
      · simp [Hit.blocked, hend, hnow]
      · simp at hb

/-! ## Runs -/

theorem hitsKey_ne_blockKey (key name : String) :
    RedisThrottlerStorage.hitsKey key name ≠ RedisThrottlerStorage.blockKey key name := by
  intro h
  have hl := congrArg String.length h
  simp [RedisThrottlerStorage.hitsKey, RedisThrottlerStorage.blockKey] at hl
  exact absurd hl (by decide)

section

variable {key name : String}

/-- The call of the limiter that a call of `increment` stands for. -/
def Increment.hit (key name : String) (c : Increment) : Hit :=
  ⟨c.time, limiterOf (RedisThrottlerStorage.hitsKey key name)
    (RedisThrottlerStorage.blockKey key name) c.keys⟩

/-- The call says whether it was blocked, and for how long. -/
structure Increment.Reports (key name : String) (c : Increment) : Prop where
  keys : Represents (RedisThrottlerStorage.hitsKey key name)
    (RedisThrottlerStorage.blockKey key name) (c.hit key name).after c.keys
  blocked : c.record.isBlocked = (c.hit key name).blocked
  blockTtl : c.record.isBlocked = true →
    c.reply.blockTtl = ((c.hit key name).after.blockEnd : Int) - c.time

/-- A run of `increment` is a run of the limiter. -/
theorem increments_run (times : List Time)
    (h : Represents (RedisThrottlerStorage.hitsKey key name)
      (RedisThrottlerStorage.blockKey key name) s m) :
    (RedisThrottlerStorage.increments key L.ttl L.limit L.block name times m).map
        (Increment.hit key name) = s.run L times ∧
      ∀ c ∈ RedisThrottlerStorage.increments key L.ttl L.limit L.block name times m,
        c.Reports key name := by
  induction times generalizing m s with
  | nil => exact ⟨rfl, fun _ => nofun⟩
  | cons now times ih =>
    let c := RedisThrottlerStorage.increment key L.ttl L.limit L.block name now m
    obtain ⟨hr, hb, ht⟩ := script_hit now (hitsKey_ne_blockKey key name) h (L := L) rfl
    have hhit : c.hit key name = ⟨now, s.hit L now⟩ := by
      show (⟨now, limiterOf _ _ c.keys⟩ : Hit) = _
      rw [← hr.eq]
      rfl
    obtain ⟨hrun, hrep⟩ := ih hr
    refine ⟨?_, fun c' hc' => ?_⟩
    · rw [Limiter.run_cons, ← hhit, ← hrun]
      rfl
    · rcases List.mem_cons.mp hc' with rfl | hc'
      · refine ⟨?_, ?_, fun hb' => ?_⟩
        · rw [hhit]
          exact hr
        · rw [hhit]
          exact hb
        · rw [hhit]
          exact ht (eq_of_beq hb')
      · exact hrep c' hc'

/-- The calls that were let through, of those that satisfy `p`. -/
def letThrough (p : Increment → Bool) (calls : List Increment) : Nat :=
  calls.countP fun c => !c.record.isBlocked && p c

/-- The limiter lets the same calls through. -/
theorem letThrough_eq {times : List Time} {p : Increment → Bool} {q : Hit → Bool}
    (h : Represents (RedisThrottlerStorage.hitsKey key name)
      (RedisThrottlerStorage.blockKey key name) s m)
    (hp : ∀ c, p c = q (c.hit key name)) :
    letThrough p (RedisThrottlerStorage.increments key L.ttl L.limit L.block name times m) =
      Limiter.free q (s.run L times) := by
  obtain ⟨hrun, hrep⟩ := increments_run times h (L := L)
  rw [Limiter.free, ← hrun, List.countP_map]
  refine List.countP_congr fun c hc => ?_
  simp only [Function.comp_apply, hp, (hrep c hc).blocked]

/-- In any run of calls on a key that has not been used yet: in one lifetime of
the hits key at most `limit` calls are let through, in any interval of length
`ttl` at most twice as many, and after a call that was blocked every call is
blocked for as long as it was told. -/
theorem increments_safe {limit ttl blockDuration : Nat} (httl : 1 ≤ ttl) (hblock : 1 ≤ blockDuration)
    (hh : m (RedisThrottlerStorage.hitsKey key name) = none)
    (hb : m (RedisThrottlerStorage.blockKey key name) = none) {times : List Time}
    (ht : times.Pairwise (· ≤ ·)) {calls : List Increment}
    (hcalls : RedisThrottlerStorage.increments key ttl limit blockDuration name times m = calls) :
    (∀ e, letThrough (expiry (RedisThrottlerStorage.hitsKey key name) ·.keys == e) calls ≤ limit) ∧
    (∀ a, letThrough (fun c => a ≤ c.time && c.time < a + ttl) calls ≤ 2 * limit) ∧
    calls.Pairwise fun c c' => c.record.isBlocked = true →
      (c'.time : Int) < c.time + c.reply.blockTtl → c'.record.isBlocked = true := by
  let L : Limits := ⟨limit, ttl, blockDuration, httl, hblock⟩
  have hr := represents_init hh hb
  obtain ⟨hrun, hrep⟩ := increments_run times hr (L := L)
  subst hcalls
  refine ⟨fun e => ?_, fun a => ?_, ?_⟩
  · have hle : Limiter.free (·.after.windowEnd == e) (Limiter.run L times .init) ≤ limit :=
      Limiter.free_window_le e
    rwa [← letThrough_eq hr fun c => rfl] at hle
  · have hle : Limiter.free (fun h => a ≤ h.time && h.time < a + ttl)
        (Limiter.run L times .init) ≤ 2 * limit :=
      Limiter.free_interval_le (L := L) ht (fun t _ => Nat.zero_le _) a
    rwa [← letThrough_eq hr fun c => rfl] at hle
  · have huntil : (Limiter.run L times .init).Pairwise _ := Limiter.blocked_until
    rw [← hrun, List.pairwise_map] at huntil
    refine huntil.imp_of_mem fun {c c'} hc hc' hu hblocked hlt => ?_
    rw [(hrep c' hc').blocked]
    refine hu ?_
    have hlt' := (hrep c hc).blockTtl hblocked
    rw [hlt'] at hlt
    show c'.time < (c.hit key name).after.blockEnd
    have : (c'.time : Int) < ((c.hit key name).after.blockEnd : Int) := by omega
    exact Int.ofNat_lt.mp this

/-- A limit of one a minute, and calls at these times. -/
def throttled (times : List Time) : List Increment :=
  RedisThrottlerStorage.increments "ip" 60000 1 60000 "default" times Expiring.empty

/-- Two calls are let through within a minute, in two windows. -/
theorem throttled_letThrough :
    (throttled [0, 60000, 60001]).map (·.record.isBlocked) = [false, false, true] ∧
      letThrough (fun c => 1 ≤ c.time && c.time < 1 + 60000) (throttled [0, 60000, 60001]) ≤ 2 * 1 :=
  ⟨by decide, (@increments_safe .empty "ip" "default" 1 60000 60000 (by decide) (by decide) rfl rfl
    [0, 60000, 60001] (by decide) _ rfl).2.1 1⟩

/-- The hits counted at a time, by the hits key if it exists. -/
theorem Represents.get_hits (h : Represents hk bk s m) :
    (m.get hk now).getD 0 = if now < s.windowEnd then s.hits else 0 := by
  unfold Expiring.get
  rcases h.hits with ⟨hm, -⟩ | ⟨hm, hw, -⟩
  · simp only [hm, Held.live, decide_eq_true_eq]
    split <;> rfl
  · rw [hm, if_neg (by omega)]
    rfl

theorem le_ceilSeconds (ms : Int) : ms ≤ 1000 * ceilSeconds ms := by
  unfold ceilSeconds
  omega

/-- In any run of calls on a key that has not been used yet, the first call
after a block, made when it was told to or later, is let through if and only if
the hits key is not up to the limit by then. -/
theorem released_after_block {limit ttl : Nat} (hlimit : 1 ≤ limit) (httl : 1 ≤ ttl)
    (hh : m (RedisThrottlerStorage.hitsKey key name) = none)
    (hb : m (RedisThrottlerStorage.blockKey key name) = none) {times : List Time}
    {before after : List Increment} {c c' : Increment}
    (hcalls : RedisThrottlerStorage.increments key ttl limit ttl name times m =
      before ++ c :: c' :: after)
    (hblocked : c.record.isBlocked = true)
    (hwait : (c.time : Int) + 1000 * c.record.timeToBlockExpire ≤ c'.time) :
    c'.record.isBlocked = false ↔
      (c.keys.get (RedisThrottlerStorage.hitsKey key name) c'.time).getD 0 < limit := by
  let L : Limits := ⟨limit, ttl, ttl, httl, httl⟩
  obtain ⟨hrun, hrep⟩ := increments_run times (represents_init hh hb) (L := L)
  have hc : c.Reports key name := hrep c (hcalls ▸ by simp)
  have hc' : c'.Reports key name := hrep c' (hcalls ▸ by simp)
  rw [show RedisThrottlerStorage.increments key L.ttl L.limit L.block name times m =
    before ++ c :: c' :: after from hcalls] at hrun
  simp only [List.map_append, List.map_cons] at hrun
  have hnext : (c'.hit key name).after = (c.hit key name).after.hit L c'.time :=
    Limiter.run_next hrun.symm
  have hend : (c.hit key name).after.blockEnd ≤ c'.time := by
    have hle := le_ceilSeconds c.reply.blockTtl
    rw [hc.blockTtl hblocked] at hle
    have hceil : c.record.timeToBlockExpire =
        ceilSeconds (((c.hit key name).after.blockEnd : Int) - c.time) := by
      rw [← hc.blockTtl hblocked]
      rfl
    rw [hceil] at hwait
    have : ((c.hit key name).after.blockEnd : Int) ≤ (c'.time : Int) := by omega
    exact Int.ofNat_le.mp this
  rw [hc'.blocked, hc.keys.get_hits]
  have hroom := Limiter.free_iff_room (L := L) hlimit hend
  rw [← hnext] at hroom
  refine hroom.trans ?_
  show (_ → _ < limit) ↔ _
  split <;> rename_i hw
  · simp only [hw, true_imp_iff]
  · exact iff_of_true (fun h => absurd h hw) (by omega)

/-- A client that waits for a minute after it was blocked. -/
theorem throttled_released : ∃ c c' : Increment, throttled [0, 1000, 61000] = throttled [0] ++ [c, c'] ∧
    c.record.isBlocked = true ∧ c.record.timeToBlockExpire = 60 ∧ c'.record.isBlocked = false := by
  have h : RedisThrottlerStorage.increments "ip" 60000 1 60000 "default" [0, 1000, 61000] .empty =
    throttled [0] ++ _ :: _ :: [] := rfl
  refine ⟨_, _, h, by decide, by decide, ?_⟩
  exact (@released_after_block .empty "ip" "default" 1 60000 (by decide) (by decide) rfl rfl _ _ _ _ _ h
    (by decide) (by decide)).mpr (by decide)

/-- A client that makes two requests while it is blocked, and then waits for as
long as it was told. -/
theorem throttled_again : ∃ c c' : Increment,
    throttled [0, 59000, 61000, 62000, 119000] = throttled [0, 59000, 61000] ++ [c, c'] ∧
      c.record.isBlocked = true ∧ c.record.timeToBlockExpire = 57 ∧ c.time + 57000 = c'.time ∧
      c'.record.isBlocked = true :=
  ⟨_, _, rfl, by decide, by decide, by decide, by decide⟩

end

end AtlasAuth

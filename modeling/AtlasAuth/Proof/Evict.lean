import AtlasAuth.Proof.Issue

/-!
# Logouts and revocations

What a logout (`LoggedOut`) and the revocations of `SessionsService`
(`SessionsEvicted`) leave behind when they succeed: which sessions and refresh
tokens are revoked, which keys are set, and how long the keys last. Before
they do anything they may be refused, which is quiet (`Ends`).

A key lasts at least as long as the access token it stands for, up to the
greatest time that a clock can show (`JwtPayload.deadline`).
-/

namespace AtlasAuth

open Framework Framework.Table Prog

variable {env : Env} {w w' w'' : World}

/-- A request ends as `M` says, or is refused before it has done anything, or
fails for the configuration, the database driver or Redis. -/
def Ends {α : Type} (w : World) (M : α → World → Prop) : Except Exn α → World → Prop
  | .ok a, w' => M a w'
  | .error e, w' => (∃ m, e = .error m) ∨ Quiet w w'

section

variable {α β : Type} {M : α → World → Prop}

theorem ends_bind_minor {p : App β} {k : β → App α} (hq : Quiet w w') (h : p.Always Minor)
    (hk : ∀ b w'', Quiet w w'' → Leaves env (k b) w'' (Ends w M)) :
    Leaves env (p >>= k) w' (Ends w M) :=
  leaves_bind_minor h (fun b _ q => hk b _ (hq.trans q)) fun _ _ q => .inr (hq.trans q)

theorem ends_bind {N : β → World → Prop} {p : App β} {k : β → App α}
    (hp : Leaves env p w' (Ends w N)) (hk : ∀ b w'', N b w'' → Leaves env (k b) w'' (Ends w M)) :
    Leaves env (p >>= k) w' (Ends w M) :=
  hp.bind hk fun _ _ h => h

theorem ends_throw (hq : Quiet w w') (e : Exn) : Leaves env (.throw e : App α) w' (Ends w M) :=
  ensures_throw.mpr (.inr hq)

theorem ends_of_succeeds {p : App α} (h : Leaves env p w' (Succeeds M)) :
    Leaves env p w' (Ends w M) := by
  refine h.mono fun r v h => ?_
  cases r with
  | ok a => exact h
  | error e => exact .inl h

end

/-! ## Keys -/

/-- The time up to which an access token has to be kept off: its expiry, or
the end of the clock. -/
def JwtPayload.deadline (p : JwtPayload) : Nat := min (p.exp * 1000) (maxTime + 1)

/-- What is left of the lifetime of a token lasts up to its deadline. -/
theorem le_of_remaining {exp now : Nat} {n : Int}
    (h : ((Double.int exp).mul 1000).sub now = .int n) :
    min (exp * 1000) (maxTime + 1) ≤ now + n.toNat := by
  have hb : maxTime + 1 ≤ 2 ^ 53 := by decide
  cases hj : (Double.int exp).mul 1000 with
  | infinity => rw [hj] at h; cases h
  | int j =>
    rw [hj] at h
    have hm : ((min (exp * 1000) (maxTime + 1) : Nat) : Int) ≤ j :=
      Double.le_of_ofInt (by omega) (i := exp * (1000 : Nat)) (by omega) hj
    by_cases hlt : min (exp * 1000) (maxTime + 1) ≤ now
    · omega
    · have := Double.le_of_ofInt (m := min (exp * 1000) (maxTime + 1) - now) (by omega)
        (i := j - now) (by omega) h
      omega

/-- Nothing but these keys has been set, to last up to the time `d` unless that
has passed. -/
structure KeysSet (keys : List String) (d : Nat) (now : Time) (m m' : Expiring String String) :
    Prop where
  others : ∀ k ∉ keys, m' k = m k
  keys : ∀ k ∈ keys, (d ≤ now ∧ m' k = m k) ∨ ∃ e, d ≤ e ∧ m' k = some ⟨"1", some e⟩

variable {keys : List String} {d d' : Nat} {now now' : Time} {m m' m'' : Expiring String String}

theorem KeysSet.refl (m : Expiring String String) : KeysSet [] d now m m :=
  ⟨fun _ _ => rfl, by simp⟩

theorem KeysSet.mono (hd : d' ≤ d) (hn : now ≤ now') (h : KeysSet keys d now m m') :
    KeysSet keys d' now' m m' := by
  refine ⟨h.others, fun k hk => ?_⟩
  rcases h.keys k hk with ⟨hle, he⟩ | ⟨e, hle, he⟩
  · exact .inl ⟨hd.trans (hle.trans hn), he⟩
  · exact .inr ⟨e, hd.trans hle, he⟩

/-- One key after the other, or the same key once more. -/
theorem KeysSet.trans {keys' : List String} (h : KeysSet keys d now m m')
    (h' : KeysSet keys' d now m' m'') : KeysSet (keys ++ keys') d now m m'' := by
  refine ⟨fun k hk => ?_, fun k hk => ?_⟩
  · simp only [List.mem_append, not_or] at hk
    exact (h'.others k hk.2).trans (h.others k hk.1)
  have first (hk : k ∈ keys) (he : m'' k = m' k) := he ▸ h.keys k hk
  by_cases hk' : k ∈ keys'
  · rcases h'.keys k hk' with ⟨hle, he⟩ | hset
    · by_cases hk : k ∈ keys
      · exact first hk he
      · exact .inl ⟨hle, he.trans (h.others k hk)⟩
    · exact .inr hset
  · exact first ((List.mem_append.mp hk).resolve_right hk') (h'.others k hk')

/-- Nothing but the setting of keys. -/
structure Keyed (keys : List String) (d : Nat) (w w' : World) : Prop where
  now : w.now ≤ w'.now
  drawn : w.drawn ≤ w'.drawn
  users : w'.users.map User.credentials = w.users.map User.credentials
  sessions : w'.sessions = w.sessions
  refreshTokens : w'.refreshTokens = w.refreshTokens
  signed : w'.signed = w.signed
  redis : KeysSet keys d w'.now w.redis w'.redis

theorem Quiet.keyed (q : Quiet w w') : Keyed [] d w w' :=
  { q with redis := q.redis ▸ .refl _ }

theorem Keyed.trans {keys' : List String} (h : Keyed keys d w w') (h' : Keyed keys' d w' w'') :
    Keyed (keys ++ keys') d w w'' where
  now := h.now.trans h'.now
  drawn := h.drawn.trans h'.drawn
  users := h'.users.trans h.users
  sessions := h'.sessions.trans h.sessions
  refreshTokens := h'.refreshTokens.trans h.refreshTokens
  signed := h'.signed.trans h.signed
  redis := (h.redis.mono (Nat.le_refl _) h'.now).trans h'.redis

theorem Keyed.mono (hd : d' ≤ d) (h : Keyed keys d w w') : Keyed keys d' w w' :=
  { h with redis := h.redis.mono hd (Nat.le_refl _) }

/-- `blacklist` and `blacklistSession`. -/
theorem leaves_redisKey (key : String) (ttl : Double) :
    Leaves env (if nonPositive ttl then return else RedisService.set key "1" ttl) w
      (Succeeds fun _ w' => ∃ n, ttl = .int n ∧ Keyed [key] (w.now + n.toNat) w w') := by
  refine .ite (fun h => ensures_ret.mpr ?_) fun h => ensures_atomic.mpr fun w₁ h₁ => ?_
  · cases ttl with
    | infinity => cases h
    | int n =>
      have hn : n ≤ 0 := by simpa [nonPositive] using h
      exact ⟨n, rfl, { Quiet.refl w with redis := ⟨fun _ _ => rfl, fun _ _ => .inl ⟨by omega, rfl⟩⟩ }⟩
  · have q₁ := Quiet.lapse h₁
    cases ttl with
    | infinity => exact ⟨_, rfl⟩
    | int n =>
      dsimp only
      split
      · refine ⟨n, rfl, { q₁ with redis :=
          ⟨fun k hk => ?_, fun k hk => .inr ⟨_, Nat.add_le_add_right q₁.now _, ?_⟩⟩ }⟩
        · exact (Expiring.set_of_ne (by simpa using hk)).trans (congrFun q₁.redis k)
        · obtain rfl := List.mem_singleton.mp hk
          exact Expiring.set_self
      · exact ⟨_, rfl⟩

/-! ## Logouts -/

/-- What the guard lets through, and in which state. -/
theorem leaves_canActivate (bearer : JwtPayload) :
    Leaves env (JwtAuthGuard.canActivate bearer) w fun r w' => Quiet w w' ∧
      ∀ p, r = .ok p → p = bearer ∧ bearer ∈ w.signed := by
  refine .and (leaves_minor (minor_of_made env (made_canActivate bearer)))
    (.atomic_bind fun w₁ h₁ => ?_)
  have q₁ := Quiet.lapse h₁
  split
  · rename_i p hp
    split at hp
    · rename_i hc
      obtain rfl := Except.ok.inj hp
      have hm : bearer ∈ w.signed := by
        rw [← q₁.signed]
        simpa using (Bool.and_eq_true_iff.mp hc).1
      refine .query_bind fun w₂ h₂ => .query_bind fun w₃ h₃ => .ite (fun _ => ?_) fun _ => ?_
      · exact ensures_throw.mpr nofun
      · exact ensures_ret.mpr fun p hp => ⟨(Except.ok.inj hp).symm, hm⟩
    · cases hp
  · exact nofun

/-- The refresh tokens that a logout with this cookie revokes. -/
def liveInCookieFamily (env : Env) (w : World) (cookie : Option String) (t : RefreshToken) : Bool :=
  ((truthy cookie).bind fun token =>
    w.refreshTokens.find? (·.tokenHash == env.sha256 token)).any fun existing =>
      liveInFamily existing.familyId t

/-- A logout that has succeeded. -/
structure LoggedOut (env : Env) (bearer : JwtPayload) (cookie : Option String) (w w' : World) :
    Prop where
  valid : bearer ∈ w.signed
  now : w.now ≤ w'.now
  drawn : w.drawn ≤ w'.drawn
  users : w'.users.map User.credentials = w.users.map User.credentials
  sessions : ∃ now, w'.sessions =
    updateWhere (·.id == bearer.sessionId) (Session.revoke now) w.sessions
  refreshTokens : ∃ now, w'.refreshTokens =
    updateWhere (liveInCookieFamily env w cookie) (RefreshToken.revoke now) w.refreshTokens
  signed : w'.signed = w.signed
  redis : KeysSet [JTI_PREFIX ++ bearer.jti] bearer.deadline w'.now w.redis w'.redis

/-- The key that a logout sets for its access token. -/
theorem leaves_blacklistBearer (p : JwtPayload) :
    Leaves env (do
      let ttl ← AuthService.remainingTtlMs env (some p.exp)
      TokenBlacklistService.blacklist p.jti ttl) w
        (Succeeds fun _ w' => Keyed [JTI_PREFIX ++ p.jti] p.deadline w w') := by
  unfold AuthService.remainingTtlMs
  by_cases h0 : p.exp = 0
  · have hd : p.deadline = 0 := by simp [JwtPayload.deadline, h0]
    simp only [h0, Option.filter, ne_eq, not_true_eq_false, decide_false, Bool.false_eq_true, if_false]
    refine leaves_bind (leaves_ofExcept (M := fun _ v => v = w) (fun _ => parseDurationToMs_error)
      fun _ _ => rfl) ?_
    rintro ttl _ rfl
    refine (leaves_redisKey _ ttl).mono fun r w' h => ?_
    cases r with
    | error e => exact h
    | ok a =>
      obtain ⟨n, -, h⟩ := h
      exact h.mono (by omega)
  · simp only [Option.filter, ne_eq, h0, not_false_eq_true, decide_true, if_true]
    refine ensures_bind.mpr (.query_bind fun w₁ h₁ => ensures_ret.mpr ?_)
    have q₁ := Quiet.lapse h₁
    refine (leaves_redisKey _ _).mono fun r w' h => ?_
    cases r with
    | error e => exact h
    | ok a =>
      obtain ⟨n, hn, h⟩ := h
      exact q₁.keyed.trans (h.mono (le_of_remaining hn))

/-- The end of a logout, after the family of its cookie has been revoked. -/
theorem leaves_logout_rest {bearer : JwtPayload} {cookie : Option String} (hm : bearer ∈ w.signed)
    (hs : ∀ p ∈ w.signed, (w.sessions.find? (·.id == p.sessionId)).isSome = true)
    (h : Revokes (fun _ => false) (liveInCookieFamily env w cookie) w w') (c : RequestContext) :
    Leaves env (do
      let _ ← AuthRepository.revokeSession bearer.sessionId
      let ttl ← AuthService.remainingTtlMs env (some bearer.exp)
      TokenBlacklistService.blacklist bearer.jti ttl
      emit (.userLoggedOut bearer.sub bearer.sessionId c)) w'
      (Ends w fun _ w'' => LoggedOut env bearer cookie w w'') := by
  obtain ⟨s, hs⟩ := Option.isSome_iff_exists.mp (hs bearer hm)
  obtain ⟨now, hsess⟩ := h.sessions
  rw [updateWhere_of_none fun _ _ => rfl] at hsess
  obtain ⟨now', htokens⟩ := h.refreshTokens
  refine .atomic_bind fun w₁ h₁ => ?_
  have q₁ := Quiet.lapse h₁
  have hs₁ : w₁.sessions.find? (·.id == bearer.sessionId) = some s := by
    rw [q₁.sessions, hsess, hs]
  simp only [hs₁]
  rw [← bind_bind]
  refine ends_of_succeeds (leaves_bind (leaves_blacklistBearer bearer) fun _ w₂ h₂ =>
    ensures_atomic.mpr fun w₃ h₃ => ?_)
  have q₃ := Quiet.lapse h₃
  exact {
    valid := hm
    now := h.now.trans (q₁.now.trans (h₂.now.trans q₃.now))
    drawn := h.drawn.trans (q₁.drawn.trans (h₂.drawn.trans q₃.drawn))
    users := q₃.users.trans (h₂.users.trans (q₁.users.trans h.users))
    sessions := ⟨w₁.now, by simp only [q₃.sessions, h₂.sessions, q₁.sessions, hsess]⟩
    refreshTokens := ⟨now', by
      simp only [q₃.refreshTokens, h₂.refreshTokens, q₁.refreshTokens, htokens]⟩
    signed := q₃.signed.trans (h₂.signed.trans (q₁.signed.trans h.signed))
    redis := by
      have hr : w₁.redis = w.redis := q₁.redis.trans h.redis
      exact hr ▸ q₃.redis ▸ h₂.redis.mono (Nat.le_refl _) q₃.now }

theorem leaves_logout (hs : ∀ p ∈ w.signed, (w.sessions.find? (·.id == p.sessionId)).isSome = true)
    (bearer : JwtPayload) (cookie : Option String) (c : RequestContext) :
    Leaves env (AuthController.logout env bearer cookie c) w
      (Ends w fun _ w' => LoggedOut env bearer cookie w w') := by
  refine (leaves_canActivate bearer).bind (fun p w₁ ⟨q₁, h⟩ => ?_) fun _ _ h => .inr h.1
  obtain ⟨rfl, hm⟩ := h p rfl
  have none {w' : World} (q : Quiet w w') (hn : ∀ t, liveInCookieFamily env w cookie t = false) :=
    leaves_logout_rest hm hs (q.revokes (fun _ _ => rfl) fun t _ => hn t) c
  unfold AuthService.logout
  cases ht : truthy cookie with
  | none => exact none q₁ fun t => by simp [liveInCookieFamily, ht]
  | some token =>
    refine .query_bind fun w₂ h₂ => ?_
    have q₂ := q₁.trans (.lapse h₂)
    rw [show TokenService.hashRefreshToken env token = env.sha256 token from rfl, q₂.refreshTokens]
    cases he : w.refreshTokens.find? (·.tokenHash == env.sha256 token) with
    | none => exact none q₂ fun t => by simp [liveInCookieFamily, ht, he]
    | some existing =>
      refine .atomic_bind fun w₃ h₃ => leaves_logout_rest hm hs ?_ c
      have q₃ := q₂.trans (.lapse h₃)
      exact {
        q₃ with
        sessions := ⟨0, q₃.sessions.trans (updateWhere_of_none fun _ _ => rfl).symm⟩
        refreshTokens := ⟨w₃.now, by
          simp only [q₃.refreshTokens]
          refine congrArg (updateWhere · _ _) (funext fun t => ?_)
          simp [liveInCookieFamily, ht, he, liveInFamily]⟩ }

/-! ## Revocations -/

theorem leaves_promiseAll (ids : List String) (ttl : Double) :
    Leaves env (SessionsService.promiseAll (ids.map fun id =>
      TokenBlacklistService.blacklistSession id ttl)) w (Succeeds fun _ w' =>
        Keyed (ids.map (SESSION_PREFIX ++ ·)) (w.now + ttl.toNat) w w') := by
  induction ids generalizing w with
  | nil => exact ensures_ret.mpr (Quiet.refl w).keyed
  | cons id ids ih =>
    refine leaves_bind (M := fun _ w' => Keyed [SESSION_PREFIX ++ id] (w.now + ttl.toNat) w w') ?_ ?_
    · refine ensures_handle.mpr ((leaves_redisKey _ ttl).mono fun r w' h => ?_)
      cases r with
      | ok a =>
        obtain ⟨n, rfl, h⟩ := h
        exact h
      | error e =>
        -- The handler makes the other calls, and throws the error again.
        obtain ⟨m, rfl⟩ := h
        refine ensures_bind.mpr (ensures_handle.mpr (ih.mono fun r w'' _ => ?_))
        cases r with
        | ok a => exact ensures_throw.mpr ⟨m, rfl⟩
        | error e => exact ensures_ret.mpr (ensures_throw.mpr ⟨m, rfl⟩)
    · refine fun _ w₁ h₁ => ih.mono fun r w' h => ?_
      cases r with
      | error e => exact h
      | ok a => exact h₁.trans (h.mono (Nat.add_le_add_right h₁.now _))

/-- The refresh tokens of these sessions that are not yet revoked. -/
def liveInSessions (ids : List String) (t : RefreshToken) : Bool :=
  ids.contains t.sessionId && t.revokedAt.isNone

/-- The revocation of these sessions, with success. -/
structure SessionsEvicted (env : Env) (ids : List String) (w w' : World) : Prop where
  now : w.now ≤ w'.now
  drawn : w.drawn ≤ w'.drawn
  users : w'.users.map User.credentials = w.users.map User.credentials
  sessions : ∃ now, w'.sessions =
    updateWhere (fun s => ids.contains s.id) (Session.revoke now) w.sessions
  refreshTokens : ∃ now, w'.refreshTokens =
    updateWhere (liveInSessions ids) (RefreshToken.revoke now) w.refreshTokens
  signed : w'.signed = w.signed
  redis : ∃ ttl, parseDurationToMs env.accessExpiresIn = .ok ttl ∧
    KeysSet (ids.map (SESSION_PREFIX ++ ·)) (w.now + ttl.toNat) w'.now w.redis w'.redis

/-- The revocation in the database, the keys, and the event. -/
theorem Revokes.evicted {ids : List String} {ttl : Double} {w₁ w₂ : World}
    (h : Revokes (fun s => ids.contains s.id) (liveInSessions ids) w w₁)
    (httl : parseDurationToMs env.accessExpiresIn = .ok ttl)
    (hk : Keyed (ids.map (SESSION_PREFIX ++ ·)) (w₁.now + ttl.toNat) w₁ w₂) (q : Quiet w₂ w') :
    SessionsEvicted env ids w w' where
  now := h.now.trans (hk.now.trans q.now)
  drawn := h.drawn.trans (hk.drawn.trans q.drawn)
  users := q.users.trans (hk.users.trans h.users)
  sessions := q.sessions ▸ hk.sessions ▸ h.sessions
  refreshTokens := q.refreshTokens ▸ hk.refreshTokens ▸ h.refreshTokens
  signed := q.signed.trans (hk.signed.trans h.signed)
  redis := ⟨ttl, httl, h.redis ▸ q.redis ▸ hk.redis.mono (Nat.add_le_add_right h.now _) q.now⟩

/-- The sessions that `revokeAll` selects. -/
def liveSessionsOf (w : World) (u : String) (kept : Option String) : List String :=
  (w.sessions.filter fun s => s.userId == u && !s.isRevoked &&
    !((truthy kept).any (s.id == ·))).map (·.id)

theorem liveSessionsOf_congr (h : w'.sessions = w.sessions) (u : String) (kept : Option String) :
    liveSessionsOf w' u kept = liveSessionsOf w u kept := by
  simp only [liveSessionsOf, h]

theorem leaves_revokeAllExcept (u : String) (k : Option String) :
    Leaves env (SessionsRepository.revokeAllExcept u k) w (Succeeds fun ids w' =>
      ids = liveSessionsOf w u k ∧ Revokes (fun s => ids.contains s.id) (liveInSessions ids) w w') := by
  refine .query_bind fun w₁ h₁ => ?_
  have q₁ := Quiet.lapse h₁
  rw [q₁.sessions]
  refine .ite (fun h0 => ?_) fun _ => .atomic_bind fun w₂ h₂ => ensures_ret.mpr ⟨rfl, ?_⟩
  · have hids : liveSessionsOf w u k = [] := List.length_eq_zero_iff.mp h0
    exact ensures_ret.mpr ⟨hids.symm, q₁.revokes (fun _ _ => rfl) fun _ _ => rfl⟩
  · have q₂ := q₁.trans (.lapse h₂)
    exact {
      q₂ with
      sessions := ⟨w₂.now, by simp only [q₂.sessions]⟩
      refreshTokens := ⟨w₂.now, by simp only [q₂.refreshTokens]; rfl⟩ }

theorem leaves_getAccessTokenTtlMs :
    Leaves env (TokenService.getAccessTokenTtlMs env) w (Succeeds fun ttl w' => w' = w ∧
      parseDurationToMs env.accessExpiresIn = .ok ttl) :=
  leaves_ofExcept (fun _ => parseDurationToMs_error) fun _ h => ⟨rfl, h⟩

theorem leaves_revokeAll (u : String) (c : RequestContext) (k : Option String) :
    Leaves env (SessionsService.revokeAll env u c k) w (Succeeds fun n w' =>
      n = (liveSessionsOf w u k).length ∧ SessionsEvicted env (liveSessionsOf w u k) w w') := by
  refine leaves_bind (leaves_revokeAllExcept u k) ?_
  rintro _ w₁ ⟨rfl, h₁⟩
  refine leaves_bind leaves_getAccessTokenTtlMs ?_
  rintro ttl _ ⟨rfl, httl⟩
  exact leaves_bind (leaves_promiseAll _ ttl) fun _ w₂ h₂ => .atomic_bind fun w₃ h₃ =>
    ensures_ret.mpr ⟨rfl, h₁.evicted httl h₂ ((Quiet.lapse h₃).trans (Minor.quiet (.emit _)))⟩

/-- Why `revokeSession` does not revoke a session that is not there, or is
revoked, or belongs to another user. -/
def sessionRefusal (s : Option Session) : Exn :=
  if s.all (·.isRevoked) then .notFound "Session not found"
  else .forbidden "You can only revoke your own sessions"

theorem refused_revokeSession {u sid : String}
    (h : ∀ s ∈ w.sessions.find? (·.id == sid), s.userId = u → s.isRevoked = true)
    (c : RequestContext) :
    Leaves env (SessionsService.revokeSession env u sid c) w fun r w' =>
      r = .error (sessionRefusal (w.sessions.find? (·.id == sid))) ∧ (system env).lapse w w' := by
  refine .query_bind fun w₁ h₁ => ?_
  rw [(Quiet.lapse h₁).sessions]
  cases hs : w.sessions.find? (·.id == sid) with
  | none => exact ensures_throw.mpr ⟨rfl, h₁⟩
  | some s =>
    refine .ite (fun hr => ?_) fun hr => .ite (fun _ => ?_) fun hu => ?_
    · exact ensures_throw.mpr ⟨by simp [sessionRefusal, hr], h₁⟩
    · exact ensures_throw.mpr ⟨by simp [sessionRefusal, hr], h₁⟩
    · exact absurd (h s hs (not_not.mp hu)) hr

/-- The revocation of a session of the user that is not revoked. -/
theorem leaves_revokeLive {u sid : String} {s : Session}
    (hs : w.sessions.find? (·.id == sid) = some s) (hu : s.userId = u) (hr : s.isRevoked = false)
    (c : RequestContext) :
    Leaves env (SessionsService.revokeSession env u sid c) w
      (Succeeds fun _ w' => SessionsEvicted env [sid] w w') := by
  refine .query_bind fun w₁ h₁ => ?_
  have q₁ := Quiet.lapse h₁
  rw [q₁.sessions, hs]
  refine .ite (fun h => by simp [hr] at h) fun _ => .ite (fun h => absurd hu h) fun _ =>
    .atomic_bind fun w₂ h₂ => ?_
  have q₂ := q₁.trans (.lapse h₂)
  have hs₂ : w₂.sessions.find? (·.id == sid) = some s := by rw [q₂.sessions, hs]
  simp only [hs₂]
  have h : Revokes (fun s => [sid].contains s.id) (liveInSessions [sid]) w
      { w₂ with
        sessions := updateWhere (·.id == sid) (Session.revoke w₂.now) w₂.sessions
        refreshTokens := updateWhere (fun t => t.sessionId == sid && t.revokedAt.isNone)
          (RefreshToken.revoke w₂.now) w₂.refreshTokens } := {
    q₂ with
    sessions := ⟨w₂.now, by
      simp only [q₂.sessions]
      exact congrArg (updateWhere · _ _) (funext fun s => by simp [beq_eq_decide])⟩
    refreshTokens := ⟨w₂.now, by
      simp only [q₂.refreshTokens]
      exact congrArg (updateWhere · _ _) (funext fun t => by simp [liveInSessions, beq_eq_decide])⟩ }
  refine leaves_bind leaves_getAccessTokenTtlMs ?_
  rintro ttl _ ⟨rfl, httl⟩
  refine leaves_bind (leaves_redisKey _ ttl) ?_
  rintro _ w₃ ⟨n, rfl, h₃⟩
  exact ensures_atomic.mpr fun w₄ h₄ =>
    h.evicted httl h₃ ((Quiet.lapse h₄).trans (Minor.quiet (.emit _)))

theorem leaves_sessionsRevokeSession (u sid : String) (c : RequestContext) :
    Leaves env (SessionsService.revokeSession env u sid c) w (Ends w fun _ w' =>
      (∃ s ∈ w.sessions.find? (·.id == sid), s.userId = u ∧ s.isRevoked = false) ∧
        SessionsEvicted env [sid] w w') := by
  by_cases h : ∃ s ∈ w.sessions.find? (·.id == sid), s.userId = u ∧ s.isRevoked = false
  · obtain ⟨s, hs, hu, hr⟩ := h
    refine ends_of_succeeds ((leaves_revokeLive hs hu hr c).mono fun r w' h => ?_)
    cases r with
    | error e => exact h
    | ok a => exact ⟨⟨s, hs, hu, hr⟩, h⟩
  · have hlive : ∀ s ∈ w.sessions.find? (·.id == sid), s.userId = u → s.isRevoked = true :=
      fun s hs hu => by_contra fun hr => h ⟨s, hs, hu, by simpa using hr⟩
    refine (refused_revokeSession hlive c).mono ?_
    rintro _ w' ⟨rfl, hl⟩
    exact .inr (.lapse hl)

end AtlasAuth

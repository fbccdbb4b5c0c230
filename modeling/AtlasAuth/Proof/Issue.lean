import AtlasAuth.Proof.Dates
import AtlasAuth.Proof.Revocation

/-!
# Issuing sessions and rotating refresh tokens

What a request leaves behind that runs alone (`Leaves`). Most of its calls are
`Quiet`: they touch neither sessions nor tokens nor credentials nor the
blacklist. `Issued` is what a registration or a login leaves on success, and
`Rotated` what a refresh does; a refresh that finds its token revoked leaves
the family and the session revoked (`Revokes`), and any other refusal is quiet
(`leaves_refresh`).
-/

namespace AtlasAuth

open Framework Framework.Table Prog

variable {env : Env} {w w' w'' : World}

/-! ## Quiet stretches -/

/-- What a user logs in with. -/
def User.credentials (u : User) : String × Option Time × String × Nat × Option Time :=
  (u.id, u.deletedAt, u.passwordHash, u.failedLoginAttempts, u.lockedUntil)

/-- Sessions, refresh tokens, credentials, the blacklist and the signed tokens
stay as they are. -/
structure Quiet (w w' : World) : Prop where
  now : w.now ≤ w'.now
  drawn : w.drawn ≤ w'.drawn
  users : w'.users.map User.credentials = w.users.map User.credentials
  sessions : w'.sessions = w.sessions
  refreshTokens : w'.refreshTokens = w.refreshTokens
  redis : w'.redis = w.redis
  signed : w'.signed = w.signed

theorem Quiet.refl (w : World) : Quiet w w :=
  ⟨Nat.le_refl _, Nat.le_refl _, rfl, rfl, rfl, rfl, rfl⟩

theorem Quiet.trans (h : Quiet w w') (h' : Quiet w' w'') : Quiet w w'' :=
  ⟨h.now.trans h'.now, h.drawn.trans h'.drawn, h'.users.trans h.users,
    h'.sessions.trans h.sessions, h'.refreshTokens.trans h.refreshTokens,
    h'.redis.trans h.redis, h'.signed.trans h.signed⟩

instance : IsPreorder World Quiet where
  refl := Quiet.refl
  trans _ _ _ := Quiet.trans

theorem Minor.quiet (h : Minor w w') : Quiet w w' := by
  cases h with
  | none => exact .refl w
  | draw => exact { Quiet.refl w with drawn := Nat.le_succ _ }
  | emit | verify | send => exact { Quiet.refl w with }
  | updateUser h =>
    refine { Quiet.refl w with users := map_updateWhere fun u _ => ?_ }
    obtain ⟨h₁, h₂, h₃, h₄, h₅⟩ := h u
    simp only [User.credentials, h₁, h₂, h₃, h₄, h₅]
  | devices h => exact { Quiet.refl w with drawn := h }
  | links h => exact { Quiet.refl w with drawn := h }
  | rbac => exact { Quiet.refl w with drawn := Nat.le_succ _ }

theorem Quiet.lapse (h : (system env).lapse w w') : Quiet w w' := by
  obtain ⟨d, rfl⟩ := h
  exact { Quiet.refl w with now := Nat.le_add_right _ _ }

/-- What a request that runs alone leaves behind, with the clock free to
advance before each of its calls. -/
abbrev Leaves {α : Type} (env : Env) (p : App α) (w : World) (Q : Except Exn α → World → Prop) :
    Prop :=
  p.Ensures (system env).lapse Q w

theorem leaves_minor {α : Type} {p : App α} (h : p.Always Minor) :
    Leaves env p w fun _ w' => Quiet w w' :=
  (h.mono fun _ _ => Minor.quiet).ensures (fun _ _ => Quiet.lapse) w

/-- A part of a request that is quiet. -/
theorem leaves_bind_minor {α β : Type} {p : App β} {k : β → App α} {Q : Except Exn α → World → Prop}
    (h : p.Always Minor) (hk : ∀ b w', Quiet w w' → Leaves env (k b) w' Q)
    (he : ∀ e w', Quiet w w' → Q (.error e) w') : Leaves env (p >>= k) w Q :=
  (leaves_minor h).bind hk he

/-- A request succeeds as `M` says, unless the configuration, the database
driver or Redis fails it. -/
def Succeeds {α : Type} (M : α → World → Prop) : Except Exn α → World → Prop
  | .ok a, w => M a w
  | .error e, _ => ∃ m, e = .error m

theorem leaves_bind {α β : Type} {p : App β} {k : β → App α} {M : β → World → Prop}
    {N : α → World → Prop} (hp : Leaves env p w (Succeeds M))
    (hk : ∀ b w', M b w' → Leaves env (k b) w' (Succeeds N)) :
    Leaves env (p >>= k) w (Succeeds N) :=
  hp.bind hk fun _ _ h => h

/-- What a request leaves when it returns something. -/
def Yields {α : Type} (M : α → World → Prop) : Except Exn α → World → Prop
  | .ok a, w => M a w
  | .error _, _ => True

section

variable {α β : Type} {M : α → World → Prop}

theorem leaves_throw (e : Exn) : Leaves env (.throw e : App α) w (Yields M) :=
  ensures_throw.mpr trivial

theorem leaves_bind_yields {N : β → World → Prop} {p : App β} {k : β → App α}
    (hp : Leaves env p w (Yields N)) (hk : ∀ b w', N b w' → Leaves env (k b) w' (Yields M)) :
    Leaves env (p >>= k) w (Yields M) :=
  hp.bind hk fun _ _ _ => trivial

theorem yields_of_returns {Q : α → Prop} {p : App α} (h : p.Returns Q) :
    Leaves env p w (Yields fun a _ => Q a) := by
  refine (h.ensures w).mono fun x _ h => ?_
  cases x with
  | ok a => exact h a rfl
  | error e => trivial

end

/-! ## What is signed and drawn -/

/-- A value drawn between the two states. -/
def Drawn (f : Nat → String) (w w' : World) (x : String) : Prop :=
  ∃ k, w.drawn ≤ k ∧ k < w'.drawn ∧ x = f k

theorem Drawn.mono {f : Nat → String} {x : String} {v v' : World} (h : Drawn f w w' x)
    (hv : v.drawn ≤ w.drawn) (hv' : w'.drawn ≤ v'.drawn) : Drawn f v v' x := by
  obtain ⟨k, h₁, h₂, e⟩ := h
  exact ⟨k, hv.trans h₁, Nat.lt_of_lt_of_le h₂ hv', e⟩

/-- An access token for a user and a session, signed between the two states
with the configured lifetime. -/
structure SignedFor (env : Env) (u sid : String) (w w' : World) (p : JwtPayload) : Prop where
  sub : p.sub = u
  sessionId : p.sessionId = sid
  jti : Drawn env.randomUUID w w' p.jti
  expiry : ∃ now ttl, w.now ≤ now ∧ now ≤ w'.now ∧
    parseDurationToMs env.accessExpiresIn = .ok ttl ∧ p.iat = now / 1000 ∧
    TokenService.expiry p.iat (ttl.divFloor 1000) = .ok p.exp

theorem SignedFor.mono {u sid : String} {v v' : World} {p : JwtPayload}
    (h : SignedFor env u sid w w' p) (hv : v.now ≤ w.now ∧ v.drawn ≤ w.drawn)
    (hv' : w'.now ≤ v'.now ∧ w'.drawn ≤ v'.drawn) : SignedFor env u sid v v' p := by
  obtain ⟨now, ttl, h₁, h₂, hexp⟩ := h.expiry
  exact ⟨h.sub, h.sessionId, h.jti.mono hv.2 hv'.2, now, ttl, hv.1.trans h₁, h₂.trans hv'.1, hexp⟩

/-- Nothing but the signing of one access token. -/
structure Signed (env : Env) (u sid : String) (p : JwtPayload) (w w' : World) : Prop where
  now : w.now ≤ w'.now
  drawn : w.drawn ≤ w'.drawn
  users : w'.users.map User.credentials = w.users.map User.credentials
  sessions : w'.sessions = w.sessions
  refreshTokens : w'.refreshTokens = w.refreshTokens
  redis : w'.redis = w.redis
  signed : w'.signed = w.signed ++ [p]
  access : SignedFor env u sid w w' p

theorem parseDurationToMs_error {d : String} {e : Exn} (h : parseDurationToMs d = .error e) :
    ∃ m, e = .error m := by
  unfold parseDurationToMs at h
  dsimp only at h
  split at h
  · split at h
    · cases h
    · cases h; exact ⟨_, rfl⟩
  · cases h; exact ⟨_, rfl⟩

theorem expiry_error {iat : Nat} {d : Double} {e : Exn} (h : TokenService.expiry iat d = .error e) :
    ∃ m, e = .error m := by
  unfold TokenService.expiry at h
  split at h
  · split at h
    · cases h
    · cases h; exact ⟨_, rfl⟩
  · cases h; exact ⟨_, rfl⟩

theorem leaves_ofExcept {α : Type} {r : Except Exn α} {M : α → World → Prop}
    (he : ∀ e, r = .error e → ∃ m, e = .error m) (ho : ∀ a, r = .ok a → M a w) :
    Leaves env (.ofExcept r) w (Succeeds M) := by
  refine ensures_ofExcept.mpr ?_
  cases r with
  | ok a => exact ho a rfl
  | error e => exact he e rfl

theorem leaves_signAccessTokenForUser (u : User) (sid : String) :
    Leaves env (AuthService.signAccessTokenForUser env u sid) w
      (Succeeds fun a w' => Signed env u.id sid a.token w w') := by
  refine .query_bind fun w₁ h₁ => ?_
  refine .atomic_bind fun w₂ h₂ => ?_
  have q₂ : Quiet w w₂ := .trans (.lapse h₁) (.lapse h₂)
  refine leaves_bind (leaves_ofExcept (M := fun ttl v => v = { w₂ with drawn := w₂.drawn + 1 } ∧
    parseDurationToMs env.accessExpiresIn = .ok ttl) (fun _ => parseDurationToMs_error)
    fun _ h => ⟨rfl, h⟩) ?_
  rintro ttl _ ⟨rfl, httl⟩
  refine .atomic_bind fun w₃ h₃ => ?_
  have q₃ := Quiet.lapse h₃
  dsimp only
  cases hexp : TokenService.expiry (w₃.now / 1000) (ttl.divFloor 1000) with
  | error e => exact expiry_error hexp
  | ok exp =>
    refine .query_bind fun w₄ h₄ => ensures_ret.mpr ?_
    have q₄ := Quiet.lapse h₄
    have hd : w₂.drawn + 1 ≤ w₄.drawn := q₃.drawn.trans q₄.drawn
    exact {
      now := q₂.now.trans (q₃.now.trans q₄.now)
      drawn := q₂.drawn.trans (Nat.le_of_succ_le hd)
      users := q₄.users.trans (q₃.users.trans q₂.users)
      sessions := q₄.sessions.trans (q₃.sessions.trans q₂.sessions)
      refreshTokens := q₄.refreshTokens.trans (q₃.refreshTokens.trans q₂.refreshTokens)
      redis := q₄.redis.trans (q₃.redis.trans q₂.redis)
      signed := by rw [q₄.signed, q₃.signed, q₂.signed]
      access := ⟨rfl, rfl, ⟨_, q₂.drawn, hd, rfl⟩, _, ttl, q₂.now.trans q₃.now, q₄.now, httl, rfl, hexp⟩ }

theorem leaves_generateRefreshToken :
    Leaves env (TokenService.generateRefreshToken env) w (Succeeds fun new w' => Quiet w w' ∧
      new.tokenHash = env.sha256 new.token ∧ Drawn env.randomBytes w w' new.token) := by
  refine .atomic_bind fun w₁ h₁ => ?_
  have q₁ : Quiet w { w₁ with drawn := w₁.drawn + 1 } := .trans (.lapse h₁) (Minor.quiet .draw)
  refine leaves_bind (leaves_ofExcept (M := fun _ v => v = { w₁ with drawn := w₁.drawn + 1 })
    (fun _ => parseDurationToMs_error) fun _ _ => rfl) ?_
  rintro ttl _ rfl
  refine .query_bind fun w₂ h₂ => ensures_ret.mpr ⟨q₁.trans (.lapse h₂), rfl, ?_⟩
  exact ⟨_, (Quiet.lapse h₁).drawn, (Quiet.lapse h₂).drawn, rfl⟩

/-! ## Sessions -/

/-- A session that has been issued to a user, with its first refresh token and
an access token. -/
structure Issued (env : Env) (u : String) (s : Session) (t : RefreshToken) (p : JwtPayload)
    (w w' : World) : Prop where
  now : w.now ≤ w'.now
  drawn : w.drawn ≤ w'.drawn
  users : w'.users.map User.credentials = w.users.map User.credentials
  redis : w'.redis = w.redis
  sessions : w'.sessions = w.sessions ++ [s]
  refreshTokens : w'.refreshTokens = w.refreshTokens ++ [t]
  signed : w'.signed = w.signed ++ [p]
  session : s.userId = u ∧ s.isRevoked = false
  expiry : s.expiresAt = t.expiresAt
  token : t.userId = u ∧ t.sessionId = s.id ∧ t.revokedAt = none ∧ t.replacedByTokenHash = none
  family : Drawn env.randomUUID w w' t.familyId
  hash : Drawn (env.sha256 ∘ env.randomBytes) w w' t.tokenHash
  access : SignedFor env u s.id w w' p

/-- The hashes of refresh tokens are those of random values drawn before. -/
def HashMinted (env : Env) (w : World) : Prop :=
  Minted RefreshToken.tokenHash (env.sha256 ∘ env.randomBytes) w.drawn w.refreshTokens

theorem HashMinted.new (h : HashMinted env w) {new : String} (hn : Drawn env.randomBytes w w' new) :
    ∀ t ∈ w.refreshTokens, t.tokenHash ≠ env.sha256 new := by
  obtain ⟨k, hk, -, rfl⟩ := hn
  exact fun t ht => h.ne (env.sha256_injective.comp env.randomBytes_injective) ht hk

/-- A refresh token that has just been made. -/
def RefreshToken.IsNew (t : RefreshToken) (u sid family hash : String) : Prop :=
  t.userId = u ∧ t.sessionId = sid ∧ t.familyId = family ∧ t.tokenHash = hash ∧
    t.revokedAt = none ∧ t.replacedByTokenHash = none

theorem leaves_createRefreshToken {hash : String} (h : ∀ t ∈ w.refreshTokens, t.tokenHash ≠ hash)
    (u sid family : String) (expiresAt : JsDate) (ip : Option String) :
    Leaves env (AuthRepository.createRefreshToken env u sid family hash expiresAt ip) w
      (Succeeds fun t w' => t.IsNew u sid family hash ∧
        Prisma.dateTime expiresAt = .ok t.expiresAt ∧ ∃ w₁, Quiet w w₁ ∧
        w' = { w₁ with drawn := w₁.drawn + 1, refreshTokens := w₁.refreshTokens ++ [t] }) := by
  refine ensures_atomic.mpr fun w₁ h₁ => ?_
  have q₁ := Quiet.lapse h₁
  cases hd : Prisma.dateTime expiresAt with
  | error e => exact dateTime_eq_error hd
  | ok t =>
    have hn : ¬w₁.refreshTokens.any (·.tokenHash == hash) = true := by
      simpa [q₁.refreshTokens] using h
    dsimp only
    rw [if_neg hn]
    exact ⟨⟨rfl, rfl, rfl, rfl, rfl, rfl⟩, rfl, w₁, q₁, rfl⟩

theorem leaves_createSession (u device : String) (ip ua : Option String) (expiresAt : JsDate) :
    Leaves env (AuthRepository.createSession env u device ip ua expiresAt) w
      (Succeeds fun s w' => (s.userId = u ∧ s.isRevoked = false) ∧
        Prisma.dateTime expiresAt = .ok s.expiresAt ∧ ∃ w₁, Quiet w w₁ ∧
        w' = { w₁ with drawn := w₁.drawn + 1, sessions := w₁.sessions ++ [s] }) := by
  refine ensures_atomic.mpr fun w₁ h₁ => ?_
  cases hd : Prisma.dateTime expiresAt with
  | error e => exact dateTime_eq_error hd
  | ok t => exact ⟨⟨rfl, rfl⟩, rfl, w₁, .lapse h₁, rfl⟩

theorem leaves_issueSession (hw : HashMinted env w) (u : User) (c : RequestContext) :
    Leaves env (AuthService.issueSession env u c) w
      (Succeeds fun tokens w' => ∃ s t, tokens.sessionId = s.id ∧
        Issued env u.id s t tokens.accessToken.token w w') := by
  unfold AuthService.issueSession
  refine leaves_bind (M := fun _ w' => Quiet w w') ?_ fun device w₁ q₁ => ?_
  · intro r w' h
    have q := leaves_minor (minor_upsertDevice ..) r w' h
    obtain ⟨v, -, rfl, rfl⟩ := exec_atomic.mp h
    dsimp only at q ⊢
    split at q <;> exact q
  refine leaves_bind leaves_generateRefreshToken fun new w₂ ⟨q₂, hhash, k, hk, hk', hnew⟩ => ?_
  refine leaves_bind (leaves_createSession _ _ _ _ _) ?_
  rintro s _ ⟨hs, hexp, w₃, q₃, rfl⟩
  refine leaves_bind (leaves_signAccessTokenForUser u _) fun a w₄ h₄ => .atomic_bind fun w₅ h₅ => ?_
  have q₅ := Quiet.lapse h₅
  have q := q₁.trans (q₂.trans q₃)
  have htokens : w₅.refreshTokens = w.refreshTokens :=
    q₅.refreshTokens.trans (h₄.refreshTokens.trans q.refreshTokens)
  have hn : ∀ t ∈ w₅.refreshTokens, t.tokenHash ≠ new.tokenHash := by
    rw [htokens, hhash]
    exact hw.new ⟨k, q₁.drawn.trans hk, hk', hnew⟩
  refine leaves_bind (leaves_createRefreshToken (by exact hn) _ _ _ _ _) ?_
  rintro t _ ⟨⟨h₁, h₂, hfamily, hthash, hrev, hrep⟩, hexp', w₆, q₆, rfl⟩
  have d := q.drawn
  have d₁ := q₁.drawn
  have d₃ := q₃.drawn
  have d₅ : w₃.drawn + 1 ≤ w₅.drawn := h₄.drawn.trans q₅.drawn
  have d₆ : w₅.drawn + 1 ≤ w₆.drawn := q₆.drawn
  refine ensures_ret.mpr ⟨s, t, rfl, ?_⟩
  exact {
    now := q.now.trans (h₄.now.trans (q₅.now.trans q₆.now))
    drawn := by dsimp only; omega
    users := q₆.users.trans (q₅.users.trans (h₄.users.trans q.users))
    redis := q₆.redis.trans (q₅.redis.trans (h₄.redis.trans q.redis))
    sessions := by simp only [q₆.sessions, q₅.sessions, h₄.sessions, q.sessions]
    refreshTokens := by simp only [q₆.refreshTokens, htokens]
    signed := by simp only [q₆.signed, q₅.signed, h₄.signed, q.signed]
    session := hs
    expiry := Except.ok.inj (hexp.symm.trans hexp')
    token := ⟨h₁, h₂, hrev, hrep⟩
    family := ⟨w₅.drawn, by omega, by dsimp only; omega, hfamily⟩
    hash := ⟨k, by omega, by dsimp only; omega, by rw [hthash, hhash, hnew]; rfl⟩
    access := h₄.access.mono ⟨q.now, Nat.le_succ_of_le d⟩
      ⟨q₅.now.trans q₆.now, Nat.le_succ_of_le (q₅.drawn.trans (Nat.le_of_succ_le q₆.drawn))⟩ }

/-! ## Refreshes -/

/-- A refresh token that has been exchanged for its successor, with an access
token. -/
structure Rotated (env : Env) (t₀ t : RefreshToken) (p : JwtPayload) (w w' : World) : Prop where
  now : w.now ≤ w'.now
  drawn : w.drawn ≤ w'.drawn
  users : w'.users.map User.credentials = w.users.map User.credentials
  redis : w'.redis = w.redis
  sessions : ∃ now, w'.sessions = updateWhere (·.id == t₀.sessionId)
    (fun s => { s with lastActiveAt := now, expiresAt := t.expiresAt }) w.sessions
  refreshTokens : ∃ now, w'.refreshTokens = updateWhere (·.id == t₀.id)
    (fun t' => { t' with revokedAt := some now, replacedByTokenHash := some t.tokenHash })
    (w.refreshTokens ++ [t])
  signed : w'.signed = w.signed ++ [p]
  token : t.IsNew t₀.userId t₀.sessionId t₀.familyId t.tokenHash
  hash : Drawn (env.sha256 ∘ env.randomBytes) w w' t.tokenHash
  access : SignedFor env t₀.userId t₀.sessionId w w' p

theorem leaves_rotate (hw : HashMinted env w) {t₀ : RefreshToken} {s : Session} {u : User}
    (ht : w.refreshTokens.find? (·.id == t₀.id) = some t₀)
    (hs : w.sessions.find? (·.id == s.id) = some s) (hsid : s.id = t₀.sessionId)
    (huid : u.id = t₀.userId) (c : RequestContext) :
    Leaves env (AuthService.rotate env t₀ s u c) w (Succeeds fun (_, tokens) w' =>
      ∃ t, tokens.refreshToken.tokenHash = t.tokenHash ∧
        Rotated env t₀ t tokens.accessToken.token w w') := by
  unfold AuthService.rotate
  refine leaves_bind leaves_generateRefreshToken fun new w₁ ⟨q₁, hhash, k, hk, hk', hnew⟩ => ?_
  have hn : ∀ t ∈ w₁.refreshTokens, t.tokenHash ≠ new.tokenHash := by
    rw [q₁.refreshTokens, hhash]
    exact hw.new ⟨k, hk, hk', hnew⟩
  refine leaves_bind (leaves_createRefreshToken hn _ _ _ _ _) ?_
  rintro t _ ⟨⟨h₁, h₂, hfamily, hthash, hrev, hrep⟩, hexp, w₂, q₂, rfl⟩
  refine .atomic_bind fun w₃ h₃ => ?_
  have q₃ := Quiet.lapse h₃
  have ht₃ : w₃.refreshTokens.find? (·.id == t₀.id) = some t₀ := by
    rw [q₃.refreshTokens, List.find?_append, q₂.refreshTokens, q₁.refreshTokens, ht, Option.some_or]
  simp only [ht₃]
  refine .atomic_bind fun w₄ h₄ => ?_
  have q₄ := Quiet.lapse h₄
  have hs₄ : w₄.sessions.find? (·.id == s.id) = some s := by
    rw [q₄.sessions]
    exact (congrArg (List.find? _) (q₃.sessions.trans (q₂.sessions.trans q₁.sessions))).trans hs
  rw [hexp, hs₄]
  refine leaves_bind (leaves_signAccessTokenForUser u _) fun a w₅ h₅ => .atomic_bind fun w₆ h₆ => ?_
  have q₆ := Quiet.lapse h₆
  have q := q₁.trans q₂
  have d₃ : w₂.drawn + 1 ≤ w₃.drawn := q₃.drawn
  have d₅ : w₃.drawn ≤ w₆.drawn := q₄.drawn.trans (h₅.drawn.trans q₆.drawn)
  have n₄ : w.now ≤ w₄.now := q.now.trans (q₃.now.trans q₄.now)
  have d₄ : w.drawn ≤ w₄.drawn := q.drawn.trans (Nat.le_of_succ_le (d₃.trans q₄.drawn))
  refine ensures_ret.mpr ⟨t, hthash.symm, ?_⟩
  exact {
    now := n₄.trans (h₅.now.trans q₆.now)
    drawn := d₄.trans (h₅.drawn.trans q₆.drawn)
    users := q₆.users.trans (h₅.users.trans (q₄.users.trans (q₃.users.trans q.users)))
    redis := q₆.redis.trans (h₅.redis.trans (q₄.redis.trans (q₃.redis.trans q.redis)))
    sessions := ⟨w₄.now, by
      simp only [q₆.sessions, h₅.sessions, q₄.sessions, q₃.sessions, q.sessions, hsid]⟩
    refreshTokens := ⟨w₃.now, by
      simp only [q₆.refreshTokens, h₅.refreshTokens, q₄.refreshTokens, q₃.refreshTokens,
        q.refreshTokens, hthash]⟩
    signed := by simp only [q₆.signed, h₅.signed, q₄.signed, q₃.signed, q.signed]
    token := ⟨h₁.trans huid, h₂.trans hsid, hfamily, rfl, hrev, hrep⟩
    hash := ⟨k, hk, by have := q₂.drawn; dsimp only at d₃ ⊢; omega, by rw [hthash, hhash, hnew]; rfl⟩
    access := huid ▸ hsid ▸ h₅.access.mono ⟨n₄, d₄⟩ ⟨q₆.now, q₆.drawn⟩ }

/-- Nothing but the revocation of the sessions `p` and the refresh tokens `q`. -/
structure Revokes (p : Session → Bool) (q : RefreshToken → Bool) (w w' : World) : Prop where
  now : w.now ≤ w'.now
  drawn : w.drawn ≤ w'.drawn
  users : w'.users.map User.credentials = w.users.map User.credentials
  sessions : ∃ now, w'.sessions = updateWhere p (Session.revoke now) w.sessions
  refreshTokens : ∃ now, w'.refreshTokens = updateWhere q (RefreshToken.revoke now) w.refreshTokens
  redis : w'.redis = w.redis
  signed : w'.signed = w.signed

theorem Quiet.revokes {p : Session → Bool} {q : RefreshToken → Bool} (h : Quiet w w')
    (hp : ∀ s ∈ w.sessions, p s = false) (hq : ∀ t ∈ w.refreshTokens, q t = false) :
    Revokes p q w w' :=
  { h with
    sessions := ⟨0, by rw [h.sessions, updateWhere_of_none hp]⟩
    refreshTokens := ⟨0, by rw [h.refreshTokens, updateWhere_of_none hq]⟩ }

/-- The exception of a refresh that presents a revoked token. -/
def reuseError : Exn := .unauthorized "Refresh token reuse detected; session revoked"

/-- The refresh tokens of a family that are not yet revoked. -/
def liveInFamily (family : String) (t : RefreshToken) : Bool :=
  t.familyId == family && t.revokedAt.isNone

theorem leaves_reuseDetected {α : Type} {t : RefreshToken}
    (hs : (w.sessions.find? (·.id == t.sessionId)).isSome = true) (c : RequestContext) :
    Leaves env (AuthService.reuseDetected t c : App α) w fun r w' => r = .error reuseError ∧
      Revokes (·.id == t.sessionId) (liveInFamily t.familyId) w w' := by
  obtain ⟨s, hs⟩ := Option.isSome_iff_exists.mp hs
  refine .atomic_bind fun w₁ h₁ => .atomic_bind fun w₂ h₂ => ?_
  have q₁ := Quiet.lapse h₁
  have q₂ := Quiet.lapse h₂
  have hs₂ : w₂.sessions.find? (·.id == t.sessionId) = some s :=
    (congrArg (List.find? _) (q₂.sessions.trans q₁.sessions)).trans hs
  simp only [hs₂]
  refine .atomic_bind fun w₃ h₃ => ensures_throw.mpr ⟨rfl, ?_⟩
  have q₃ := Quiet.lapse h₃
  exact {
    now := q₁.now.trans (q₂.now.trans q₃.now)
    drawn := q₁.drawn.trans (q₂.drawn.trans q₃.drawn)
    users := q₃.users.trans (q₂.users.trans q₁.users)
    sessions := ⟨w₂.now, by simp only [q₃.sessions, q₂.sessions, q₁.sessions]⟩
    refreshTokens := ⟨w₁.now, by
      simp only [q₃.refreshTokens, q₂.refreshTokens, q₁.refreshTokens]
      rfl⟩
    redis := q₃.redis.trans (q₂.redis.trans q₁.redis)
    signed := q₃.signed.trans (q₂.signed.trans q₁.signed) }

/-- How a refresh of the token ends, in a database in which every refresh token
has its session. -/
inductive Refreshed (env : Env) (token : String) (w w' : World) :
    Except Exn (User × SessionTokens) → Prop
  | refused {e : Exn}
      (hn : ∀ t₀ ∈ w.refreshTokens.find? (·.tokenHash == env.sha256 token), t₀.revokedAt = none)
      (h : Quiet w w') : Refreshed env token w w' (.error e)
  | broken {m : String}
      (hn : ∀ t₀ ∈ w.refreshTokens.find? (·.tokenHash == env.sha256 token), t₀.revokedAt = none) :
      Refreshed env token w w' (.error (.error m))
  | reused {t₀ : RefreshToken}
      (ht : w.refreshTokens.find? (·.tokenHash == env.sha256 token) = some t₀)
      (hr : t₀.revokedAt.isSome = true)
      (h : Revokes (·.id == t₀.sessionId) (liveInFamily t₀.familyId) w w') :
      Refreshed env token w w' (.error reuseError)
  | rotated {t₀ t : RefreshToken} {s : Session} {u : User} {tokens : SessionTokens}
      (ht : w.refreshTokens.find? (·.tokenHash == env.sha256 token) = some t₀)
      (hr : t₀.revokedAt = none) (hs : w.sessions.find? (·.id == t₀.sessionId) = some s)
      (hsr : s.isRevoked = false) (hu : u ∈ w.users) (huid : u.id = t₀.userId)
      (hnew : tokens.refreshToken.tokenHash = t.tokenHash)
      (h : Rotated env t₀ t tokens.accessToken.token w w') :
      Refreshed env token w w' (.ok (u, tokens))

theorem Rotated.after {t₀ t : RefreshToken} {p : JwtPayload} (q : Quiet w w')
    (h : Rotated env t₀ t p w' w'') : Rotated env t₀ t p w w'' where
  now := q.now.trans h.now
  drawn := q.drawn.trans h.drawn
  users := h.users.trans q.users
  redis := h.redis.trans q.redis
  sessions := q.sessions ▸ h.sessions
  refreshTokens := q.refreshTokens ▸ h.refreshTokens
  signed := q.signed ▸ h.signed
  token := h.token
  hash := h.hash.mono q.drawn (Nat.le_refl _)
  access := h.access.mono ⟨q.now, q.drawn⟩ ⟨Nat.le_refl _, Nat.le_refl _⟩

theorem Revokes.after {p : Session → Bool} {r : RefreshToken → Bool} (q : Quiet w w')
    (h : Revokes p r w' w'') : Revokes p r w w'' where
  now := q.now.trans h.now
  drawn := q.drawn.trans h.drawn
  users := h.users.trans q.users
  redis := h.redis.trans q.redis
  sessions := q.sessions ▸ h.sessions
  refreshTokens := q.refreshTokens ▸ h.refreshTokens
  signed := h.signed.trans q.signed

theorem leaves_refresh (hw : HashMinted env w) (hf : Fresh env w)
    (hsess : ∀ t ∈ w.refreshTokens, (w.sessions.find? (·.id == t.sessionId)).isSome = true)
    (token : String) (c : RequestContext) :
    Leaves env (AuthService.refresh env token c) w fun r w' => Refreshed env token w w' r := by
  refine .query_bind fun w₁ h₁ => ?_
  have q₁ := Quiet.lapse h₁
  rw [show TokenService.hashRefreshToken env token = env.sha256 token from rfl, q₁.refreshTokens]
  cases ht : w.refreshTokens.find? (·.tokenHash == env.sha256 token) with
  | none => exact ensures_throw.mpr (.refused (by simp [ht]) q₁)
  | some t₀ =>
    obtain ⟨hmem, -⟩ := hf.tokenHash.find?.mp ht
    refine .ite (fun hr => ?_) fun hr => ?_
    · have hs := hsess t₀ hmem
      rw [← q₁.sessions] at hs
      refine (leaves_reuseDetected hs c).mono ?_
      rintro _ w' ⟨rfl, h⟩
      exact .reused ht hr (h.after q₁)
    have hr : t₀.revokedAt = none := by simpa using hr
    have hn : ∀ t ∈ w.refreshTokens.find? (·.tokenHash == env.sha256 token), t.revokedAt = none := by
      rintro t ht'
      obtain rfl := Option.some.inj (ht.symm.trans ht')
      exact hr
    refine .query_bind fun w₂ h₂ => .ite (fun _ => ?_) fun _ => ?_
    · exact ensures_throw.mpr (.refused hn (q₁.trans (.lapse h₂)))
    refine .query_bind fun w₃ h₃ => ?_
    have q₃ : Quiet w w₃ := q₁.trans ((Quiet.lapse h₂).trans (.lapse h₃))
    rw [q₃.sessions]
    cases hs : w.sessions.find? (·.id == t₀.sessionId) with
    | none => exact ensures_throw.mpr (.refused hn q₃)
    | some s =>
      refine .ite (fun _ => ensures_throw.mpr (.refused hn q₃)) fun hsr => .query_bind fun w₄ h₄ => ?_
      have q₄ := q₃.trans (.lapse h₄)
      have husers : w₄.users = w.users := by
        obtain ⟨_, rfl⟩ := h₁
        obtain ⟨_, rfl⟩ := h₂
        obtain ⟨_, rfl⟩ := h₃
        obtain ⟨_, rfl⟩ := h₄
        rfl
      rw [husers]
      cases hu : w.users.find? fun u => u.id == t₀.userId && u.deletedAt.isNone with
      | none => exact ensures_throw.mpr (.refused hn q₄)
      | some u =>
        have hsid : s.id = t₀.sessionId := by simpa using List.find?_some hs
        have huid : u.id = t₀.userId := by simpa using And.left (by simpa using List.find?_some hu)
        have hw₄ : HashMinted env w₄ := by
          rw [HashMinted, q₄.refreshTokens]
          exact hw.mono q₄.drawn
        have ht₄ : w₄.refreshTokens.find? (·.id == t₀.id) = some t₀ := by
          rw [q₄.refreshTokens]
          exact hf.tokenId.find?.mpr ⟨hmem, rfl⟩
        have hs₄ : w₄.sessions.find? (·.id == s.id) = some s := by rw [q₄.sessions, hsid, hs]
        refine ((leaves_rotate hw₄ ht₄ hs₄ hsid huid c).and
          ((returns_rotate t₀ s u c).ensures w₄)).mono ?_
        rintro (e | ⟨u', tokens⟩) w' ⟨h, hret⟩
        · obtain ⟨m, rfl⟩ := h
          exact .broken hn
        · obtain ⟨t, hnew, h⟩ := h
          obtain ⟨rfl, -⟩ := hret _ rfl
          exact .rotated ht hr hs (by simpa using hsr) (List.mem_of_find?_eq_some hu) huid hnew
            (h.after q₄)

end AtlasAuth

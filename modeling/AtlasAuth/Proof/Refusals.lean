import AtlasAuth.Framework.Refusal
import AtlasAuth.Proof.Durations
import AtlasAuth.Proof.Replies

/-!
# The exceptions of a route

Every exception that a route can end with, where no call has failed: the
refusals that its service throws, and the errors of the database that others
can bring about between two of its calls (`Route.refusals`). That a row was
deleted is none of them, but for roles and permissions; nor is that a random
value was taken, or that a date is refused, up to a time at which everything
that the configuration lets expire still ends in time (`Serves`). So no request
is answered with an internal error (`errors_listed`).
-/

namespace AtlasAuth

open Framework Framework.Table Prog

variable {env : Env} {α β : Type} {n : Time} {X : Exn → Prop} {u : String} {s : World}
  {log log' : List (Entry World Call)}

/-- Up to the time `n`, the lifetimes of access tokens end within the range of
dates, and those of refresh tokens, locks and links on dates that Prisma
accepts. -/
structure Serves (env : Env) (n : Time) : Prop where
  access : ∃ ttl : Nat, parseDurationToMs env.accessExpiresIn = .ok (.int ttl) ∧ n + ttl ≤ maxTime
  refresh : ∃ d, parseDurationToMs env.refreshExpiresIn = .ok d ∧ (JsDate.after n d).Accepted
  lockout : (JsDate.after n (minutesToMs env.durationMinutes)).Accepted
  resetLink : (JsDate.after n (minutesToMs env.passwordResetMinutes)).Accepted
  emailLink : (JsDate.after n (minutesToMs env.emailVerificationMinutes)).Accepted

/-- The exceptions of the program are in `X`, if it runs up to the time `n`. -/
abbrev EndsIn (env : Env) (n : Time) (X : Exn → Prop) (p : App α) (log : List (Entry World Call)) :
    Prop :=
  Refuses (fun log s => (reliance env).Known log s ∧ s.now ≤ n) X p log

/-- No part of any row is out of bounds. -/
abbrev Anything : List (Entry World Call) → String → Part → Prop := fun _ _ _ => True

theorem allows_anything {ps : List Part} : Allows Anything log u ps := fun _ _ _ _ => trivial

theorem endsIn_bind {N : List (Entry World Call) → α → Prop} {p : App α} {k : α → App β}
    (hu : Upheld env Anything N p log) (hp : EndsIn env n X p log)
    (hk : ∀ a log', log <:+ log' → N log' a → EndsIn env n X (k a) log') :
    EndsIn env n X (p >>= k) log :=
  .bind hu hp hk

/-- A part of which the value does not matter. -/
theorem endsIn_seq {p : App α} {k : α → App β} (hp : EndsIn env n X p log)
    (hk : ∀ a log', log <:+ log' → EndsIn env n X (k a) log') : EndsIn env n X (p >>= k) log :=
  hp.bind_of_obeys (J := fun _ _ => True) (N := fun log' _ => log <:+ log')
    (.of_suffix (fun _ _ _ => trivial) fun _ _ h _ _ => h) hk

/-- An evaluation that succeeds. -/
theorem endsIn_ofExcept {r : Except Exn α} {a : α} {k : α → App β} (h : r = .ok a)
    (hk : EndsIn env n X (k a) log) : EndsIn env n X (Prog.ofExcept r >>= k) log := by
  rw [h]
  exact hk

/-! ## Calls that find their rows -/

theorem endsIn_update {call : Call} {id : String} {data : Time → User → User}
    (hu : Knows (IsUser id) log) : EndsIn env n X (UsersRepository.update call id data) log := by
  refine .atomic fun s hs e he => ?_
  obtain ⟨user, hf⟩ := find?_of_exists (hu.now hs.1 fun _ _ => IsUser.later)
  rw [hf] at he
  cases he

theorem endsIn_findUniqueOrThrow {id : String} (hu : Knows (IsUser id) log) :
    EndsIn env n X (UsersRepository.findUniqueOrThrow id) log := by
  refine .atomic fun s hs e he => ?_
  obtain ⟨user, hf⟩ := find?_of_exists (hu.now hs.1 fun _ _ => IsUser.later)
  rw [hf] at he
  cases he

theorem HasSession.find? {sid : String} (h : HasSession u sid s) :
    ∃ session, s.sessions.find? (·.id == sid) = some session :=
  find?_of_exists (h.imp fun _ h => ⟨h.1, h.2.1⟩)

theorem endsIn_revokeSession {sid : String} (h : Knows (HasSession u sid) log) :
    EndsIn env n X (AuthRepository.revokeSession sid) log := by
  refine .atomic fun s hs e he => ?_
  obtain ⟨session, hf⟩ := (h.now hs.1 fun _ _ => HasSession.later).find?
  rw [hf] at he
  cases he

theorem endsIn_sessionsRevoke {sid : String} (h : Knows (HasSession u sid) log) :
    EndsIn env n X (SessionsRepository.revoke sid) log := by
  refine .atomic fun s hs e he => ?_
  obtain ⟨session, hf⟩ := (h.now hs.1 fun _ _ => HasSession.later).find?
  rw [hf] at he
  cases he

theorem endsIn_revokeRefreshToken {t : RefreshToken} (h : Knows (HasToken t) log) (hash : String) :
    EndsIn env n X (AuthRepository.revokeRefreshToken t.id hash) log := by
  refine .atomic fun s hs e he => ?_
  obtain ⟨t', ht', hk⟩ := h.now hs.1 fun _ _ => HasToken.later
  obtain ⟨row, hf⟩ := find?_of_exists ⟨t', ht', hk.1⟩
  rw [hf] at he
  cases he

theorem endsIn_passwordResetMarkConsumed {t : PasswordResetToken} (h : Knows (HasReset t) log) :
    EndsIn env n X (PasswordResetRepository.markConsumed t.id) log := by
  refine .atomic fun s hs e he => ?_
  obtain ⟨t', ht', hk⟩ := h.now hs.1 fun _ _ => HasReset.later
  obtain ⟨row, hf⟩ := find?_of_exists ⟨t', ht', hk.1⟩
  rw [hf] at he
  cases he

theorem endsIn_emailVerificationMarkConsumed {t : EmailVerificationToken}
    (h : Knows (HasLink t) log) :
    EndsIn env n X (EmailVerificationRepository.markConsumed t.id) log := by
  refine .atomic fun s hs e he => ?_
  obtain ⟨t', ht', hk⟩ := h.now hs.1 fun _ _ => HasLink.later
  obtain ⟨row, hf⟩ := find?_of_exists ⟨t', ht', hk.1⟩
  rw [hf] at he
  cases he

/-! ## Calls with a unique value -/

theorem endsIn_usersCreate (hX : X (.prisma "P2002")) (email hash : String)
    (first last : Option String) :
    EndsIn env n X (UsersRepository.create env email hash first last) log := by
  refine .atomic fun s _ e he => ?_
  dsimp only at he
  split at he
  · cases he
    exact hX
  · cases he

theorem endsIn_updateEmail (hX : X (.prisma "P2002")) {id : String} (hu : Knows (IsUser id) log)
    (email : String) : EndsIn env n X (UsersRepository.updateEmail id email) log := by
  refine .atomic fun s hs e he => ?_
  obtain ⟨user, hf⟩ := find?_of_exists (hu.now hs.1 fun _ _ => IsUser.later)
  rw [hf] at he
  dsimp only at he
  split at he
  · cases he
    exact hX
  · cases he

/-- No row has the hash of a new token. -/
theorem NewToken.unused {token : String} (h : NewToken env token log)
    (hs : (reliance env).Known log s) :
    (∀ t ∈ s.refreshTokens, t.tokenHash ≠ env.sha256 token) ∧
      (∀ t ∈ s.passwordResetTokens, t.tokenHash ≠ env.sha256 token) ∧
        ∀ t ∈ s.emailVerificationTokens, t.tokenHash ≠ env.sha256 token := by
  obtain ⟨k, rfl, hk⟩ := h
  have hn := hs.unused _ hk
  exact ⟨fun t ht e => hn (.inl ⟨t, ht, e⟩), fun t ht e => hn (.inr (.inl ⟨t, ht, e⟩)),
    fun t ht e => hn (.inr (.inr ⟨t, ht, e⟩))⟩

theorem any_tokenHash {ρ : Type} {hash : ρ → String} {rows : List ρ} {k : String}
    (h : ∀ t ∈ rows, hash t ≠ k) : rows.any (hash · == k) = false := by
  simpa using h

/-! ## Calls with a date -/

/-- The date of expiry of a refresh token that was computed up to the time `n` is
accepted. -/
theorem Serves.accepted (hn : Serves env n) {expiresAt : JsDate}
    (h : Knows (IsExpiry env expiresAt) log) (hs : (reliance env).Known log s) (hnow : s.now ≤ n) :
    expiresAt.Accepted := by
  obtain ⟨x, hx, d, hd, rfl⟩ := h
  obtain ⟨d', hd', hdate⟩ := hn.refresh
  obtain rfl := Except.ok.inj (hd.symm.trans hd')
  have hle := (hs.past x hx).2.grows.now.trans hnow
  exact accepted_of_le hd hle hdate

theorem endsIn_createSession (hn : Serves env n) {expiresAt : JsDate}
    (h : Knows (IsExpiry env expiresAt) log) (id device : String) (ip ua : Option String) :
    EndsIn env n X (AuthRepository.createSession env id device ip ua expiresAt) log := by
  refine .atomic fun s hs e he => ?_
  obtain ⟨t, ht⟩ := hn.accepted h hs.1 hs.2
  rw [ht] at he
  cases he

theorem endsIn_touchSession (hn : Serves env n) {sid : String} {expiresAt : JsDate}
    (h : Knows (IsExpiry env expiresAt) log) (hsid : Knows (HasSession u sid) log) :
    EndsIn env n X (AuthRepository.touchSession sid expiresAt) log := by
  refine .atomic fun s hs e he => ?_
  obtain ⟨t, ht⟩ := hn.accepted h hs.1 hs.2
  obtain ⟨session, hf⟩ := (hsid.now hs.1 fun _ _ => HasSession.later).find?
  rw [ht, hf] at he
  cases he

theorem endsIn_createRefreshToken (hn : Serves env n) {expiresAt : JsDate} {token : String}
    (h : Knows (IsExpiry env expiresAt) log) (ht : NewToken env token log)
    (id sid familyId : String) (ip : Option String) :
    EndsIn env n X
      (AuthRepository.createRefreshToken env id sid familyId (env.sha256 token) expiresAt ip) log := by
  refine .atomic fun s hs e he => ?_
  obtain ⟨t, hdate⟩ := hn.accepted h hs.1 hs.2
  rw [hdate, any_tokenHash (ht.unused hs.1).1] at he
  cases he

/-- A date some minutes after a time that was read. -/
theorem accepted_minutes_of_knows {minutes : Nat} {now : Time}
    (hn : (JsDate.after n (minutesToMs minutes)).Accepted) (h : Knows (fun w => w.now = now) log)
    (hs : (reliance env).Known log s) (hnow : s.now ≤ n) :
    (JsDate.after now (minutesToMs minutes)).Accepted := by
  obtain ⟨x, hx, rfl⟩ := h
  exact accepted_minutes_of_le ((hs.past x hx).2.grows.now.trans hnow) hn

theorem endsIn_passwordResetCreate {minutes : Nat} {now : Time} {token : String}
    (hn : (JsDate.after n (minutesToMs minutes)).Accepted) (hnow : Knows (fun w => w.now = now) log)
    (h : NewToken env token log) (id : String) :
    EndsIn env n X (PasswordResetRepository.create env id (env.sha256 token)
      (JsDate.after now (minutesToMs minutes))) log := by
  refine .atomic fun s hs e he => ?_
  obtain ⟨t, ht⟩ := accepted_minutes_of_knows hn hnow hs.1 hs.2
  rw [ht, any_tokenHash (h.unused hs.1).2.1] at he
  cases he

theorem endsIn_emailVerificationCreate {minutes : Nat} {now : Time} {token : String}
    (hn : (JsDate.after n (minutesToMs minutes)).Accepted) (hnow : Knows (fun w => w.now = now) log)
    (h : NewToken env token log) (id : String) (type : EmailTokenType) (newEmail : Option String) :
    EndsIn env n X (EmailVerificationRepository.create env id (env.sha256 token) type newEmail
      (JsDate.after now (minutesToMs minutes))) log := by
  refine .atomic fun s hs e he => ?_
  obtain ⟨t, ht⟩ := accepted_minutes_of_knows hn hnow hs.1 hs.2
  rw [ht, any_tokenHash (h.unused hs.1).2.2] at he
  cases he

theorem endsIn_updateFailedLogin {id : String} (hu : Knows (IsUser id) log) (attempts : Nat)
    (lockedUntil : Option Time) :
    EndsIn env n X (UsersRepository.updateFailedLogin id attempts (.ok lockedUntil)) log := by
  unfold UsersRepository.updateFailedLogin
  exact endsIn_update hu

theorem Serves.expiry (hn : Serves env n) {d : Double}
    (hd : parseDurationToMs env.accessExpiresIn = .ok d) {now : Time} (hnow : now ≤ n) :
    ∃ exp, TokenService.expiry (now / 1000) (d.divFloor 1000) = .ok exp := by
  obtain ⟨ttl, httl, hle⟩ := hn.access
  obtain rfl := Except.ok.inj (hd.symm.trans httl)
  have hmax : maxTime < Double.overflow := by decide
  have hnow' : now / 1000 ≤ maxTime :=
    (Nat.div_le_self _ _).trans (hnow.trans ((Nat.le_add_right _ _).trans hle))
  exact expiry_of_lt (expiry_lt_halfway hnow' (((Nat.le_add_left _ _).trans hle).trans_lt hmax))

theorem endsIn_jwtSign (hn : Serves env n) {d : Double}
    (hd : parseDurationToMs env.accessExpiresIn = .ok d) (sub email : String)
    (roles permissions : List String) (sid jti : String) :
    EndsIn env n X (TokenService.jwtSign sub email roles permissions sid jti (d.divFloor 1000))
      log := by
  refine .atomic fun s hs e he => ?_
  obtain ⟨exp, hexp⟩ := hn.expiry hd hs.2
  dsimp only at he
  rw [hexp] at he
  cases he

/-- A lifetime that ends within the range of dates if it starts by the time `n`. -/
def Timely (n : Time) (d : Double) : Prop := ∃ ttl : Int, d = .int ttl ∧ n + ttl ≤ maxTime

theorem endsIn_redisSet {d : Double} (h : Timely n d) (hpos : ¬nonPositive d = true)
    (key value : String) : EndsIn env n X (RedisService.set key value d) log := by
  refine .atomic fun s hs e he => ?_
  obtain ⟨ttl, rfl, hle⟩ := h
  have hmax : (maxTime : Int) ≤ redisMaxTime := by decide
  have hnow : (s.now : Int) ≤ n := Int.ofNat_le.mpr hs.2
  have hpos : 0 < ttl := by simpa [nonPositive] using hpos
  dsimp only at he
  rw [if_pos ⟨hpos, by omega⟩] at he
  cases he

theorem endsIn_upsertDevice (id fingerprint : String) (ua ip : Option String) :
    EndsIn env n X (AuthRepository.upsertDevice env id fingerprint ua ip) log := by
  refine .atomic fun s _ e he => ?_
  dsimp only at he
  split at he <;> cases he

theorem endsIn_rbacCall {call : Call} {f : World → Except Exn (α × Rbac)}
    (h : ∀ s e, f s = .error e → X e) : EndsIn env n X (rbacCall call f) log := by
  refine .atomic fun s _ e he => ?_
  split at he
  · cases he
  · rename_i hf
    cases he
    exact h s _ hf

/-! ## Tokens -/

theorem endsIn_generateRefreshToken (hn : Serves env n) :
    EndsIn env n X (TokenService.generateRefreshToken env) log := by
  obtain ⟨d, hd, -⟩ := hn.refresh
  exact endsIn_seq .always fun _ _ _ => endsIn_ofExcept hd (.query fun _ _ _ _ _ => .ret _)

theorem endsIn_signAccessTokenForUser (hn : Serves env n) (user : User) (sid : String) :
    EndsIn env n X (AuthService.signAccessTokenForUser env user sid) log := by
  obtain ⟨ttl, httl, -⟩ := hn.access
  refine .query fun w log₁ _ _ _ => endsIn_seq .always fun jti log₂ _ => endsIn_ofExcept httl ?_
  exact endsIn_seq (endsIn_jwtSign hn httl ..) fun _ _ _ => .query fun _ _ _ _ _ => .ret _

theorem endsIn_issueSession (hn : Serves env n) {user : User} (hu : Knows (IsUser user.id) log)
    (c : RequestContext) : EndsIn env n X (AuthService.issueSession env user c) log := by
  refine endsIn_bind (upheld_upsertDevice trivial hu ..) (endsIn_upsertDevice ..)
    fun d log₁ h₁ hd => ?_
  refine endsIn_bind upheld_generateRefreshToken (endsIn_generateRefreshToken hn)
    fun _ log₂ h₂ hnew => ?_
  obtain ⟨token, expiresAt, rfl, hnew, he⟩ := hnew
  refine endsIn_bind (upheld_meanwhile (upheld_createSession trivial (hd.suffix h₂) ..) hnew
    (keepsHashes_createSession ..)) (endsIn_createSession hn he ..) fun s log₃ h₃ ⟨hs, hnew⟩ => ?_
  refine endsIn_bind (upheld_meanwhile (upheld_signAccessTokenForUser allows_anything hs.knows) hnew
    (keepsHashes_signAccessTokenForUser ..)) (endsIn_signAccessTokenForUser hn ..)
    fun a log₄ h₄ ⟨_, hnew⟩ => ?_
  refine endsIn_bind (upheld_meanwhile upheld_randomUUID hnew keepsHashes_randomUUID) .always
    fun f log₅ h₅ ⟨_, hnew⟩ => ?_
  exact endsIn_seq (endsIn_createRefreshToken hn (he.suffix (h₃.trans (h₄.trans h₅))) hnew ..)
    fun _ _ _ => .ret _

theorem endsIn_rotate (hn : Serves env n) {t : RefreshToken} {session : Session} {user : User}
    (ht : Knows (HasToken t) log) (hs : Knows (HasSession t.userId t.sessionId) log)
    (hsid : session.id = t.sessionId) (hu : user.id = t.userId) (c : RequestContext) :
    EndsIn env n X (AuthService.rotate env t session user c) log := by
  rw [← hsid, ← hu] at hs
  refine endsIn_bind upheld_generateRefreshToken (endsIn_generateRefreshToken hn)
    fun _ log₁ h₁ hnew => ?_
  obtain ⟨token, expiresAt, rfl, hnew, he⟩ := hnew
  refine endsIn_seq (endsIn_createRefreshToken hn he hnew ..) fun _ log₂ h₂ => ?_
  refine endsIn_seq (endsIn_revokeRefreshToken (ht.suffix (h₁.trans h₂)) _) fun _ log₃ h₃ => ?_
  refine endsIn_seq (endsIn_touchSession hn (he.suffix (h₂.trans h₃))
    (hs.suffix (h₁.trans (h₂.trans h₃)))) fun _ log₄ _ => ?_
  refine endsIn_seq (endsIn_signAccessTokenForUser hn ..) fun _ log₅ _ => ?_
  exact endsIn_seq .always fun _ _ _ => .ret _

/-! ## The blacklist -/

theorem Serves.timely (hn : Serves env n) {d : Double}
    (hd : parseDurationToMs env.accessExpiresIn = .ok d) : Timely n d := by
  obtain ⟨ttl, httl, hle⟩ := hn.access
  obtain rfl := Except.ok.inj (hd.symm.trans httl)
  exact ⟨ttl, rfl, by exact_mod_cast hle⟩

theorem endsIn_blacklist {d : Double} (h : Timely n d) (jti : String) :
    EndsIn env n X (TokenBlacklistService.blacklist jti d) log :=
  .ite (fun _ => .ret _) fun hpos => endsIn_redisSet h hpos ..

theorem endsIn_blacklistSession {d : Double} (h : Timely n d) (sid : String) :
    EndsIn env n X (TokenBlacklistService.blacklistSession sid d) log :=
  .ite (fun _ => .ret _) fun hpos => endsIn_redisSet h hpos ..

/-- What is left of the lifetime of an access token is no more than the
lifetime. -/
theorem Serves.timely_remaining (hn : Serves env n) {w : World} (hl : Lasts env w) (hw : w.now ≤ n)
    {bearer : JwtPayload} (hb : bearer ∈ w.signed) :
    Timely n (((Double.int bearer.exp).mul 1000).sub w.now) := by
  obtain ⟨ttl, httl, hle⟩ := hn.access
  have hdeadline : min (bearer.exp * 1000) (maxTime + 1) ≤ w.now + ttl := hl bearer hb _ httl
  have hmax : maxTime + 1 ≤ 2 ^ 53 := by decide
  have hend := Nat.le_trans (Nat.add_le_add_right hw ttl) hle
  have hexp : bearer.exp * 1000 ≤ w.now + ttl := by omega
  have hmul : (Double.int bearer.exp).mul 1000 = .int (bearer.exp * 1000 : Nat) :=
    Double.ofInt_of_le (by omega)
  have hsub : ((bearer.exp * 1000 : Nat) - (w.now : Int)).natAbs ≤ 2 ^ 53 := by omega
  refine ⟨(bearer.exp * 1000 : Nat) - w.now, ?_, ?_⟩
  · rw [hmul]
    exact Double.ofInt_of_natAbs_le hsub
  · have : (n : Int) + ttl ≤ maxTime := by exact_mod_cast hle
    omega

theorem endsIn_remainingTtlMs (hn : Serves env n) {bearer : JwtPayload}
    (hb : Knows (fun w => bearer ∈ w.signed) log) {k : Double → App β}
    (hk : ∀ d log', log <:+ log' → Timely n d → EndsIn env n X (k d) log') :
    EndsIn env n X (AuthService.remainingTtlMs env (some bearer.exp) >>= k) log := by
  unfold AuthService.remainingTtlMs
  split
  · rename_i exp hexp
    obtain rfl := Option.some.inj (Option.filter_eq_some_iff.mp hexp).1
    rw [bind_bind]
    refine .query fun w log' hl _ hs => hk _ log' hl (hn.timely_remaining hs.1.inv.lasts hs.2 ?_)
    exact hb.now hs.1 fun _ _ hl h => hl.grows.signed.subset h
  · obtain ⟨ttl, httl, -⟩ := hn.access
    exact endsIn_ofExcept httl (hk _ log (List.suffix_refl _) (hn.timely httl))

/-! ## The table -/

def JwtAuthGuard.refusals : List Exn :=
  [.unauthorized "Unauthorized", .unauthorized "Token has been revoked"]

/-- The guards of a route of `RolesController` or `PermissionsController`. -/
def PermissionsGuard.refusals : List Exn :=
  JwtAuthGuard.refusals ++ [.forbidden "Insufficient permissions for this action"]

/-- The exceptions of a route. -/
def Route.refusals : Route → List Exn
  | .register .. => [.conflict "An account with this email already exists", .prisma "P2002"]
  | .login .. => [.unauthorized "Invalid credentials", AuthService.accountLocked]
  | .refresh .. =>
    [.unauthorized "Missing refresh token", .unauthorized "Invalid refresh token",
      .unauthorized "Refresh token reuse detected; session revoked",
      .unauthorized "Refresh token expired", .unauthorized "Session has been revoked"]
  | .verifyEmail .. =>
    [.badRequest "Invalid or expired verification token",
      .conflict "An account with this email already exists", .prisma "P2002"]
  | .resendVerification _ => JwtAuthGuard.refusals ++ [.badRequest "Email is already verified"]
  | .forgotPassword _ => []
  | .resetPassword .. => [.badRequest "Invalid or expired reset token"]
  | .changePassword .. => JwtAuthGuard.refusals ++ [.unauthorized "Current password is incorrect"]
  | .logout .. | .getMe _ | .updateMe .. | .listSessions _ | .revokeAllOtherSessions .. =>
    JwtAuthGuard.refusals
  | .requestEmailChange .. =>
    JwtAuthGuard.refusals ++ [.unauthorized "Incorrect password",
      .conflict "An account with this email already exists"]
  | .revokeSession .. =>
    JwtAuthGuard.refusals ++ [.notFound "Session not found",
      .forbidden "You can only revoke your own sessions"]
  | .findOne .. => PermissionsGuard.refusals ++ [.notFound "Role not found"]
  | .createRole _ name _ =>
    PermissionsGuard.refusals ++ [.conflict s!"Role \"{name}\" already exists", .prisma "P2002",
      .notFound "Role not found"]
  | .updateRole .. =>
    PermissionsGuard.refusals ++ [.notFound "Role not found", .prisma "P2025", .prisma "P2002"]
  | .removeRole .. => PermissionsGuard.refusals ++ [.notFound "Role not found", .prisma "P2025"]
  | .assignPermission .. =>
    PermissionsGuard.refusals ++ [.notFound "Role not found", .notFound "Permission not found",
      .prisma "P2003"]
  | .revokePermission .. => PermissionsGuard.refusals ++ [.notFound "Role not found", .prisma "P2025"]
  | .assignToUser .. =>
    PermissionsGuard.refusals ++ [.notFound "User not found", .notFound "Role not found",
      .prisma "P2003"]
  | .revokeFromUser .. => PermissionsGuard.refusals ++ [.prisma "P2025"]
  | .createPermission _ name _ =>
    PermissionsGuard.refusals ++ [.conflict s!"Permission \"{name}\" already exists", .prisma "P2002"]
  | .removePermission .. =>
    PermissionsGuard.refusals ++ [.notFound "Permission not found", .prisma "P2025"]
  | .userRegistered .. => []

/-! ## `AuthService` -/

/-- Users are never deleted, so a user that was seen is found. -/
theorem endsIn_findById {id : String} (hu : Knows (IsUser id) log) {k : Option User → App β}
    (hk : ∀ v log', log <:+ log' → v.id = id → EndsIn env n X (k (some v)) log') :
    EndsIn env n X (UsersRepository.findById id >>= k) log := by
  refine .query fun w log' hl _ hs => ?_
  obtain ⟨v, hv, rfl⟩ := hu.now hs.1 fun _ _ => IsUser.later
  cases hf : w.users.find? fun v' => v'.id == v.id && v'.deletedAt.isNone with
  | none => exact absurd hf (Option.isSome_iff_ne_none.mp
      (List.find?_isSome.mpr ⟨v, hv, by simp [hs.1.inv.indexed.live v hv]⟩))
  | some v' =>
    have hid := List.find?_some hf
    simp only [Bool.and_eq_true, beq_iff_eq] at hid
    exact hk v' log' hl hid.1

theorem endsIn_register (hn : Serves env n) {dto : RegisterDto} {c : RequestContext}
    (hX : ∀ e ∈ (Route.register dto c).refusals, X e) :
    EndsIn env n X (AuthService.register env dto c) log := by
  refine .query fun w log₁ _ _ _ => .ite (fun _ => .throw (hX _ (.head _))) fun _ => ?_
  refine endsIn_seq .always fun _ log₂ _ => ?_
  refine endsIn_bind (upheld_usersCreate ..) (endsIn_usersCreate (hX _ (.tail _ (.head _))) ..)
    fun v log₃ _ ⟨_, hv⟩ => ?_
  have hu : Knows (IsUser v.id) log₃ := hv.imp fun _ h => ⟨h.1, v, h.2.2, rfl⟩
  refine endsIn_seq .always fun _ log₄ h₄ => ?_
  exact endsIn_seq (endsIn_issueSession hn (hu.suffix h₄) c) fun _ _ _ => .ret _

theorem endsIn_registerFailedLoginAttempt {minutes : Nat}
    (hn : (JsDate.after n (minutesToMs minutes)).Accepted) {id : String}
    (hu : Knows (IsUser id) log) (maxAttempts : Nat) :
    EndsIn env n X (UsersRepository.registerFailedLoginAttempt id maxAttempts minutes) log := by
  refine endsIn_seq (endsIn_findUniqueOrThrow hu) fun user log₁ h₁ => .ite (fun _ => ?_) fun _ => ?_
  · refine .query fun w log₂ h₂ _ hs => ?_
    obtain ⟨t, ht⟩ := accepted_minutes_of_le hs.2 hn
    dsimp only
    rw [ht]
    exact endsIn_updateFailedLogin (hu.suffix (h₁.trans h₂)) ..
  · exact endsIn_updateFailedLogin (hu.suffix h₁) ..

theorem endsIn_login (hn : Serves env n) {dto : LoginDto} {c : RequestContext}
    (hX : ∀ e ∈ (Route.login dto c).refusals, X e) :
    EndsIn env n X (AuthService.login env dto c) log := by
  have hinvalid := hX _ (.head _)
  refine .query fun w log₁ h₁ hw _ => ?_
  cases hf : w.users.find? fun v => v.email == env.toLowerCase dto.email && v.deletedAt.isNone with
  | none => exact endsIn_seq .always fun _ _ _ => .throw hinvalid
  | some user =>
    have hu : Knows (IsUser user.id) log₁ := ⟨_, hw, user, List.mem_of_find?_eq_some hf, rfl⟩
    refine .query fun now log₂ h₂ _ _ => .ite (fun _ => ?_) fun _ => ?_
    · exact endsIn_seq .always fun _ _ _ => .throw (hX _ (.tail _ (.head _)))
    refine endsIn_seq .always fun ok log₃ h₃ => .ite (fun _ => ?_) fun _ => ?_
    · refine endsIn_seq (endsIn_registerFailedLoginAttempt hn.lockout (hu.suffix (h₂.trans h₃)) _)
        fun _ _ _ => endsIn_seq .always fun _ _ _ => .throw hinvalid
    · have hu₃ := hu.suffix (h₂.trans h₃)
      refine endsIn_seq (endsIn_update hu₃) fun _ log₄ h₄ => ?_
      refine endsIn_seq (endsIn_issueSession hn (hu₃.suffix h₄) c) fun _ _ _ => ?_
      exact endsIn_seq .always fun _ _ _ => .ret _

theorem endsIn_reuseDetected {t : RefreshToken} {c : RequestContext}
    (hX : X (.unauthorized "Refresh token reuse detected; session revoked"))
    (hs : Knows (HasSession t.userId t.sessionId) log) :
    EndsIn env n X (AuthService.reuseDetected t c : App α) log := by
  refine endsIn_seq .always fun _ log₁ h₁ => ?_
  refine endsIn_seq (endsIn_revokeSession (hs.suffix h₁)) fun _ _ _ => ?_
  exact endsIn_seq .always fun _ _ _ => .throw hX

theorem endsIn_refresh (hn : Serves env n) {cookie : Option String} {c : RequestContext}
    (hX : ∀ e ∈ (Route.refresh cookie c).refusals, X e) :
    EndsIn env n X (AuthController.refresh env cookie c) log := by
  unfold AuthController.refresh
  split
  · rename_i token _
    refine .query fun w log₁ h₁ hw hs => ?_
    cases hf : w.refreshTokens.find? (·.tokenHash == TokenService.hashRefreshToken env token) with
    | none => exact .throw (hX _ (by simp [Route.refusals]))
    | some t =>
      have hmem := List.mem_of_find?_eq_some hf
      have ht : Knows (HasToken t) log₁ := ⟨_, hw, t, hmem, .refl t⟩
      have hsession := hs.1.inv.joined.tokenSession t hmem
      have hsess : Knows (HasSession t.userId t.sessionId) log₁ := ⟨_, hw, hsession⟩
      have hu : Knows (IsUser t.userId) log₁ := ⟨_, hw, hs.1.inv.joined.sessionUser hsession⟩
      refine .ite (fun _ => endsIn_reuseDetected (hX _ (by simp [Route.refusals])) hsess) fun _ => ?_
      refine .query fun _ log₂ h₂ _ _ => .ite (fun _ => .throw (hX _ (by simp [Route.refusals])))
        fun _ => .query fun w₃ log₃ h₃ _ _ => ?_
      cases hfs : w₃.sessions.find? (·.id == t.sessionId) with
      | none => exact .throw (hX _ (by simp [Route.refusals]))
      | some session =>
        have hsid := List.find?_some hfs
        refine .ite (fun _ => .throw (hX _ (by simp [Route.refusals]))) fun _ => ?_
        refine endsIn_findById (hu.suffix (h₂.trans h₃)) fun user log₄ h₄ huid => ?_
        have hl := h₂.trans (h₃.trans h₄)
        exact endsIn_rotate hn (ht.suffix hl) (hsess.suffix hl) (beq_iff_eq.mp hsid) huid c
  · exact .throw (hX _ (.head _))

theorem endsIn_logout (hn : Serves env n) {bearer : JwtPayload} (hb : Admitted bearer log)
    (cookie : Option String) (c : RequestContext) :
    EndsIn env n X
      (AuthService.logout env bearer.sub bearer.sessionId cookie bearer.jti (some bearer.exp) c)
      log := by
  have rest (log' : List (Entry World Call)) (hl : log <:+ log') : EndsIn env n X (do
      let _ ← AuthRepository.revokeSession bearer.sessionId
      let ttl ← AuthService.remainingTtlMs env (some bearer.exp)
      TokenBlacklistService.blacklist bearer.jti ttl
      emit (.userLoggedOut bearer.sub bearer.sessionId c)) log' := by
    refine endsIn_seq (endsIn_revokeSession (hb.session.suffix hl)) fun _ log₁ h₁ => ?_
    refine endsIn_remainingTtlMs hn (hb.signed.suffix (hl.trans h₁)) fun d log₂ _ hd => ?_
    exact endsIn_seq (endsIn_blacklist hd _) fun _ _ _ => .always
  unfold AuthService.logout
  cases hc : truthy cookie with
  | none => exact rest log (List.suffix_refl _)
  | some token =>
    refine .query fun w log₁ h₁ _ _ => ?_
    cases hf : w.refreshTokens.find? (·.tokenHash == TokenService.hashRefreshToken env token) with
    | none => exact rest log₁ h₁
    | some t => exact endsIn_seq .always fun _ log₂ h₂ => rest log₂ (h₁.trans h₂)

/-! ## Sessions, passwords and links -/

theorem endsIn_promiseAll {ps : List (App Unit)} (h : ∀ p ∈ ps, ∀ log', EndsIn env n X p log') :
    EndsIn env n X (SessionsService.promiseAll ps) log := by
  induction ps generalizing log with
  | nil => exact .ret _
  | cons p ps ih =>
    have rest (log' : List (Entry World Call)) : EndsIn env n X (SessionsService.promiseAll ps) log' :=
      ih fun q hq => h q (List.mem_cons_of_mem _ hq)
    refine endsIn_seq (.handle (h p (List.mem_cons_self ..) _) (fun _ he => he) fun e log₁ _ he => ?_)
      fun _ log₂ _ => rest log₂
    exact endsIn_seq (.handle (rest log₁) (fun _ he => he) fun _ _ _ _ => .ret _) fun _ _ _ =>
      .throw he

theorem endsIn_revokeAll (hn : Serves env n) (id : String) (c : RequestContext)
    (except : Option String) : EndsIn env n X (SessionsService.revokeAll env id c except) log := by
  obtain ⟨ttl, httl, -⟩ := hn.access
  have revoked : EndsIn env n X (SessionsRepository.revokeAllExcept id except) log :=
    .query fun _ _ _ _ _ => .ite (fun _ => .ret _) fun _ => endsIn_seq .always fun _ _ _ => .ret _
  refine endsIn_seq revoked fun ids log₁ _ => endsIn_ofExcept httl ?_
  refine endsIn_seq (endsIn_promiseAll fun p hp log' => ?_) fun _ _ _ =>
    endsIn_seq .always fun _ _ _ => .ret _
  obtain ⟨sid, -, rfl⟩ := List.mem_map.mp hp
  exact endsIn_blacklistSession (hn.timely httl) sid

theorem endsIn_deleteSession (hn : Serves env n) (id sid : String) (c : RequestContext)
    (hnone : X (.notFound "Session not found"))
    (hforeign : X (.forbidden "You can only revoke your own sessions")) :
    EndsIn env n X (SessionsService.revokeSession env id sid c) log := by
  obtain ⟨ttl, httl, -⟩ := hn.access
  refine .query fun w log₁ _ hw _ => ?_
  cases hf : w.sessions.find? (·.id == sid) with
  | none => exact .throw hnone
  | some session =>
    have hs : Knows (HasSession session.userId sid) log₁ :=
      ⟨_, hw, session, List.mem_of_find?_eq_some hf, beq_iff_eq.mp (List.find?_some hf :), rfl⟩
    refine .ite (fun _ => .throw hnone) fun _ => .ite (fun _ => .throw hforeign) fun _ => ?_
    refine endsIn_seq (endsIn_sessionsRevoke hs) fun _ _ _ => endsIn_ofExcept httl ?_
    exact endsIn_seq (endsIn_blacklistSession (hn.timely httl) _) fun _ _ _ => .always

theorem endsIn_requestReset (hn : Serves env n) (email : String) :
    EndsIn env n X (PasswordService.requestReset env email) log := by
  refine .query fun w log₁ _ _ _ => ?_
  split
  · refine endsIn_seq .always fun _ log₂ _ => ?_
    refine endsIn_bind upheld_randomBytes .always fun token log₃ _ hnew => ?_
    refine endsIn_bind (upheld_meanwhile upheld_dateNow hnew always_query) .always
      fun _ log₄ _ h => ?_
    exact endsIn_seq (endsIn_passwordResetCreate hn.resetLink h.1 h.2 _) fun _ _ _ => .always
  · exact .ret _

theorem endsIn_resetPassword (hn : Serves env n) (token new : String) (c : RequestContext)
    (hX : X (.badRequest "Invalid or expired reset token")) :
    EndsIn env n X (PasswordService.resetPassword env token new c) log := by
  refine .query fun w log₁ h₁ hw hs => ?_
  cases hf : w.passwordResetTokens.find? (·.tokenHash == env.sha256 token) with
  | none => exact .throw hX
  | some t =>
    have hmem := List.mem_of_find?_eq_some hf
    have hu : Knows (IsUser t.userId) log₁ := ⟨_, hw, hs.1.inv.joined.resetUser t hmem⟩
    have ht : Knows (HasReset t) log₁ := ⟨_, hw, t, hmem, .refl t⟩
    refine .query fun _ log₂ h₂ _ _ => .ite (fun _ => .throw hX) fun _ => ?_
    refine endsIn_seq .always fun _ log₃ h₃ => ?_
    have hl := h₂.trans h₃
    refine endsIn_seq (endsIn_update (hu.suffix hl)) fun _ log₄ h₄ => ?_
    refine endsIn_seq (endsIn_passwordResetMarkConsumed (ht.suffix (hl.trans h₄))) fun _ _ _ => ?_
    exact endsIn_seq (endsIn_revokeAll hn ..) fun _ _ _ => .always

theorem endsIn_changePassword (hn : Serves env n) {id : String} (hu : Knows (IsUser id) log)
    (sid current new : String) (c : RequestContext)
    (hX : X (.unauthorized "Current password is incorrect")) :
    EndsIn env n X (PasswordService.changePassword env id sid current new c) log := by
  refine endsIn_findById hu fun user log₁ h₁ _ => ?_
  refine endsIn_seq .always fun ok log₂ h₂ => .ite (fun _ => .throw hX) fun _ => ?_
  refine endsIn_seq .always fun _ log₃ h₃ => ?_
  refine endsIn_seq (endsIn_update (hu.suffix (h₁.trans (h₂.trans h₃)))) fun _ _ _ => ?_
  exact endsIn_seq (endsIn_revokeAll hn ..) fun _ _ _ => .always

theorem endsIn_issueToken (hn : Serves env n) (id : String) (type : EmailTokenType)
    (newEmail : Option String) :
    EndsIn env n X (EmailVerificationService.issueToken env id type newEmail) log := by
  refine endsIn_seq .always fun _ log₁ _ => ?_
  refine endsIn_bind upheld_randomBytes .always fun token log₂ _ hnew => ?_
  refine endsIn_bind (upheld_meanwhile upheld_dateNow hnew always_query) .always fun _ log₃ _ h => ?_
  exact endsIn_seq (endsIn_emailVerificationCreate hn.emailLink h.1 h.2 ..) fun _ _ _ => .ret _

theorem endsIn_sendRegistrationVerification (hn : Serves env n) (id email : String)
    (hX : X (.badRequest "Email is already verified")) :
    EndsIn env n X (EmailVerificationService.sendRegistrationVerification env id email) log :=
  .query fun _ _ _ _ _ => .ite (fun _ => .throw hX) fun _ =>
    endsIn_seq (endsIn_issueToken hn ..) fun _ _ _ => .always

theorem endsIn_verifyEmail {token : String} {c : RequestContext}
    (hX : ∀ e ∈ (Route.verifyEmail token c).refusals, X e) :
    EndsIn env n X (EmailVerificationService.verify env token c) log := by
  have hinvalid := hX _ (.head _)
  refine .query fun w log₁ h₁ hw hs => ?_
  cases hf : w.emailVerificationTokens.find? (·.tokenHash == env.sha256 token) with
  | none => exact .throw hinvalid
  | some t =>
    have hmem := List.mem_of_find?_eq_some hf
    have hu : Knows (IsUser t.userId) log₁ := ⟨_, hw, hs.1.inv.joined.linkUser t hmem⟩
    have ht : Knows (HasLink t) log₁ := ⟨_, hw, t, hmem, .refl t⟩
    refine .query fun _ log₂ h₂ _ _ => .ite (fun _ => .throw hinvalid) fun _ => ?_
    refine endsIn_findById (hu.suffix h₂) fun user log₃ h₃ huid => ?_
    have hu₃ := huid ▸ hu.suffix (h₂.trans h₃)
    have apply : EndsIn env n X (EmailVerificationService.applyToken t user) log₃ := by
      unfold EmailVerificationService.applyToken
      split
      · split
        · refine .query fun _ log₄ h₄ _ _ => .ite (fun _ => .throw (hX _ (.tail _ (.head _))))
            fun _ => ?_
          exact endsIn_seq (endsIn_updateEmail (hX _ (by simp [Route.refusals])) (hu₃.suffix h₄) _)
            fun _ _ _ => .ret _
        · exact .throw hinvalid
      · exact endsIn_seq (endsIn_update hu₃) fun _ _ _ => .ret _
    refine endsIn_seq apply fun _ log₄ h₄ => ?_
    exact endsIn_seq (endsIn_emailVerificationMarkConsumed
      (ht.suffix (h₂.trans (h₃.trans h₄)))) fun _ _ _ => .always

theorem endsIn_getProfile {id : String} (hu : Knows (IsUser id) log) :
    EndsIn env n X (UsersService.getProfile id) log :=
  endsIn_findById hu fun _ _ _ _ => .ret _

theorem endsIn_requestEmailChange (hn : Serves env n) {id : String} (hu : Knows (IsUser id) log)
    (email password : String)
    (hpassword : X (.unauthorized "Incorrect password"))
    (hconflict : X (.conflict "An account with this email already exists")) :
    EndsIn env n X (do
      let _ ← UsersService.assertPasswordMatches env id password
      EmailVerificationService.requestEmailChange env id email) log := by
  have matches_ : EndsIn env n X (UsersService.assertPasswordMatches env id password) log :=
    endsIn_seq (endsIn_getProfile hu) fun _ _ _ => endsIn_seq .always fun _ _ _ =>
      .ite (fun _ => .throw hpassword) fun _ => .ret _
  refine endsIn_seq matches_ fun _ _ _ => .query fun _ _ _ _ _ =>
    .ite (fun _ => .throw hconflict) fun _ => ?_
  exact endsIn_seq (endsIn_issueToken hn ..) fun _ _ _ => .always

/-- The listener keeps every exception to itself. -/
theorem endsIn_userRegistered (id email : String) (c : RequestContext) :
    EndsIn env n X (deliverUserRegistered env id email c) log :=
  .query fun _ _ _ _ _ => .ite
    (fun _ => .handle (.any _) (fun _ _ => trivial) fun _ _ _ _ => .ret _) fun _ => .ret _

/-! ## Roles and permissions -/

theorem endsIn_findByIdOrThrow (h : X (.notFound "Role not found")) (id : String) :
    EndsIn env n X (RolesService.findByIdOrThrow id) log := by
  refine .query fun w _ _ _ _ => ?_
  cases w.rbac.roles.find? (·.id == id) with
  | none => exact .throw h
  | some role => exact .ret _

theorem endsIn_rolesCreate {name : String} (h : X (.prisma "P2002")) (d : Option String) :
    EndsIn env n X (RolesRepository.create env name d) log := by
  refine endsIn_rbacCall fun s e he => ?_
  split at he <;> cases he
  exact h

theorem endsIn_rolesUpdate (hnone : X (.prisma "P2025")) (htaken : X (.prisma "P2002")) (id : String)
    (name d : Option String) : EndsIn env n X (RolesRepository.update id name d) log := by
  refine endsIn_rbacCall fun s e he => ?_
  split at he
  · cases he
    exact hnone
  · split at he <;> cases he
    exact htaken

theorem endsIn_rolesDelete (h : X (.prisma "P2025")) (id : String) :
    EndsIn env n X (RolesRepository.delete id) log := by
  refine endsIn_rbacCall fun s e he => ?_
  split at he <;> cases he
  exact h

theorem endsIn_rolesAssignPermission (h : X (.prisma "P2003")) (id permissionId : String) :
    EndsIn env n X (RolesRepository.assignPermission id permissionId) log := by
  refine endsIn_rbacCall fun s e he => ?_
  split at he
  · cases he
  · split at he <;> cases he
    exact h

theorem endsIn_rolesRevokePermission (h : X (.prisma "P2025")) (id permissionId : String) :
    EndsIn env n X (RolesRepository.revokePermission id permissionId) log := by
  refine endsIn_rbacCall fun s e he => ?_
  split at he <;> cases he
  exact h

theorem endsIn_rolesAssignToUser (h : X (.prisma "P2003")) (userId id : String) :
    EndsIn env n X (RolesRepository.assignToUser userId id) log := by
  refine endsIn_rbacCall fun s e he => ?_
  split at he
  · cases he
  · split at he <;> cases he
    exact h

theorem endsIn_rolesRevokeFromUser (h : X (.prisma "P2025")) (userId id : String) :
    EndsIn env n X (RolesRepository.revokeFromUser userId id) log := by
  refine endsIn_rbacCall fun s e he => ?_
  split at he <;> cases he
  exact h

theorem endsIn_permissionsCreate {name : String} (h : X (.prisma "P2002")) (d : Option String) :
    EndsIn env n X (PermissionsRepository.create env name d) log := by
  refine endsIn_rbacCall fun s e he => ?_
  split at he <;> cases he
  exact h

theorem endsIn_permissionsDelete (h : X (.prisma "P2025")) (id : String) :
    EndsIn env n X (PermissionsRepository.delete id) log := by
  refine endsIn_rbacCall fun s e he => ?_
  split at he <;> cases he
  exact h

section

variable {bearer : JwtPayload} {id : String}

theorem endsIn_createRole {name : String} {d : Option String}
    (hX : ∀ e ∈ (Route.createRole bearer name d).refusals, X e) :
    EndsIn env n X (RolesService.create env name d) log := by
  refine .query fun _ _ _ _ _ => .ite (fun _ => .throw (hX _ (by simp [Route.refusals]))) fun _ => ?_
  exact endsIn_seq (endsIn_rolesCreate (hX _ (by simp [Route.refusals])) d) fun _ _ _ =>
    endsIn_findByIdOrThrow (hX _ (by simp [Route.refusals])) _

theorem endsIn_updateRole {name d : Option String}
    (hX : ∀ e ∈ (Route.updateRole bearer id name d).refusals, X e) :
    EndsIn env n X (RolesService.update id name d) log := by
  have hnone : X (.notFound "Role not found") := hX _ (by simp [Route.refusals])
  refine endsIn_seq (endsIn_findByIdOrThrow hnone _) fun _ _ _ => ?_
  exact endsIn_seq (endsIn_rolesUpdate (hX _ (by simp [Route.refusals]))
    (hX _ (by simp [Route.refusals])) ..) fun _ _ _ => endsIn_findByIdOrThrow hnone _

theorem endsIn_removeRole (hX : ∀ e ∈ (Route.removeRole bearer id).refusals, X e) :
    EndsIn env n X (RolesService.remove id) log :=
  endsIn_seq (endsIn_findByIdOrThrow (hX _ (by simp [Route.refusals])) _) fun _ _ _ =>
    endsIn_seq (endsIn_rolesDelete (hX _ (by simp [Route.refusals])) _) fun _ _ _ => .ret _

theorem endsIn_assignPermission {permissionId : String}
    (hX : ∀ e ∈ (Route.assignPermission bearer id permissionId).refusals, X e) :
    EndsIn env n X (RolesService.assignPermission id permissionId) log := by
  have hnone : X (.notFound "Role not found") := hX _ (by simp [Route.refusals])
  refine endsIn_seq (endsIn_findByIdOrThrow hnone _) fun _ _ _ => .query fun w _ _ _ _ => ?_
  cases w.rbac.permissions.find? (·.id == permissionId) with
  | none => exact .throw (hX _ (by simp [Route.refusals]))
  | some permission =>
    exact endsIn_seq (endsIn_rolesAssignPermission (hX _ (by simp [Route.refusals])) _ _)
      fun _ _ _ => endsIn_findByIdOrThrow hnone _

theorem endsIn_revokePermission {permissionId : String}
    (hX : ∀ e ∈ (Route.revokePermission bearer id permissionId).refusals, X e) :
    EndsIn env n X (RolesService.revokePermission id permissionId) log := by
  have hnone : X (.notFound "Role not found") := hX _ (by simp [Route.refusals])
  refine endsIn_seq (endsIn_findByIdOrThrow hnone _) fun _ _ _ => ?_
  exact endsIn_seq (endsIn_rolesRevokePermission (hX _ (by simp [Route.refusals])) _ _)
    fun _ _ _ => endsIn_findByIdOrThrow hnone _

theorem endsIn_assignToUser {userId : String}
    (hX : ∀ e ∈ (Route.assignToUser bearer id userId).refusals, X e) :
    EndsIn env n X (RolesService.assignToUser userId id) log := by
  refine .query fun w _ _ _ _ => ?_
  cases w.users.find? fun v => v.id == userId && v.deletedAt.isNone with
  | none => exact .throw (hX _ (by simp [Route.refusals]))
  | some user =>
    exact endsIn_seq (endsIn_findByIdOrThrow (hX _ (by simp [Route.refusals])) _) fun _ _ _ =>
      endsIn_rolesAssignToUser (hX _ (by simp [Route.refusals])) _ _

theorem endsIn_createPermission {name : String} {d : Option String}
    (hX : ∀ e ∈ (Route.createPermission bearer name d).refusals, X e) :
    EndsIn env n X (PermissionsService.create env name d) log :=
  .query fun _ _ _ _ _ => .ite (fun _ => .throw (hX _ (by simp [Route.refusals]))) fun _ =>
    endsIn_permissionsCreate (hX _ (by simp [Route.refusals])) d

theorem endsIn_removePermission (hX : ∀ e ∈ (Route.removePermission bearer id).refusals, X e) :
    EndsIn env n X (PermissionsService.remove id) log := by
  refine .query fun w _ _ _ _ => ?_
  cases w.rbac.permissions.find? (·.id == id) with
  | none => exact .throw (hX _ (by simp [Route.refusals]))
  | some permission =>
    exact endsIn_seq (endsIn_permissionsDelete (hX _ (by simp [Route.refusals])) _) fun _ _ _ => .ret _

/-! ## Routes -/

theorem endsIn_canActivate {k : JwtPayload → App α} (hX : ∀ e ∈ JwtAuthGuard.refusals, X e)
    (hk : ∀ log', log <:+ log' → Admitted bearer log' → EndsIn env n X (k bearer) log') :
    EndsIn env n X (JwtAuthGuard.canActivate bearer >>= k) log := by
  have verified : EndsIn env n X (JwtStrategy.verify bearer) log := by
    refine .atomic fun w _ e he => ?_
    split at he <;> cases he
    exact hX _ (.head _)
  refine endsIn_bind upheld_authGuard ?_ fun b log' hl hb => hb.1 ▸ hk log' hl hb.2
  exact endsIn_seq verified fun _ _ _ => .query fun _ _ _ _ _ => .query fun _ _ _ _ _ =>
    .ite (fun _ => .throw (hX _ (.tail _ (.head _)))) fun _ => .ret _

theorem endsIn_guards {route : Route} {k : JwtPayload → App α}
    (hX : ∀ e ∈ PermissionsGuard.refusals, X e)
    (hk : ∀ user log', log <:+ log' → EndsIn env n X (k user) log') :
    EndsIn env n X (route.guards bearer >>= k) log := by
  have hforbidden (e : Exn) (he : PermissionsGuard.canActivate route.requiredPermissions (some bearer) =
      .error e) : X e := by
    unfold PermissionsGuard.canActivate claimsGuard at he
    split at he
    · cases he
    · cases he
    · dsimp only at he
      split at he <;> cases he
      exact hX _ (by simp [PermissionsGuard.refusals])
  rw [Route.guards, bind_bind]
  refine endsIn_canActivate (fun e he => hX e (List.mem_append_left _ he)) fun log₁ h₁ _ => ?_
  rw [bind_bind]
  exact endsIn_seq (.ofExcept hforbidden) fun _ log₂ h₂ => hk bearer log₂ (h₁.trans h₂)

/-- A route that makes its reply of what a service returns, behind the guards. -/
theorem endsIn_guarded {route : Route} {own : List Exn} {p : App α} {f : α → β}
    (hown : route.refusals = PermissionsGuard.refusals ++ own) (hX : ∀ e ∈ route.refusals, X e)
    (hp : ∀ log, EndsIn env n X p log) :
    EndsIn env n X (route.guards bearer >>= fun _ => p >>= fun a => return f a) log :=
  endsIn_guards (fun e he => hX e (hown ▸ List.mem_append_left _ he)) fun _ log' _ =>
    endsIn_seq (hp log') fun _ _ _ => .ret _

end

/-- A route ends with an exception of the table, or with that of a failed
call. -/
theorem endsIn_route (hn : Serves env n) (F : Exn → Prop) (route : Route) :
    EndsIn env n (fun e => e ∈ route.refusals ∨ F e) (route.program env) [] := by
  have hX : ∀ e ∈ route.refusals, e ∈ route.refusals ∨ F e := fun _ => .inl
  have done {β : Type} {p : App β} {f : β → Reply} {log : List (Entry World Call)}
      (h : EndsIn env n (fun e => e ∈ route.refusals ∨ F e) p log) :
      EndsIn env n (fun e => e ∈ route.refusals ∨ F e) (p >>= fun b => return f b) log :=
    endsIn_seq h fun _ _ _ => .ret _
  cases route with
  | register dto c => exact done (endsIn_register hn hX)
  | login dto c => exact done (endsIn_login hn hX)
  | refresh cookie c => exact done (endsIn_refresh hn hX)
  | verifyEmail token c => exact done (endsIn_verifyEmail hX)
  | resendVerification bearer =>
    exact done (endsIn_canActivate (fun e he => hX e (List.mem_append_left _ he)) fun _ _ _ =>
      endsIn_sendRegistrationVerification hn _ _ (hX _ (by simp [Route.refusals])))
  | forgotPassword email => exact done (endsIn_requestReset hn email)
  | resetPassword token new c => exact done (endsIn_resetPassword hn token new c (hX _ (.head _)))
  | changePassword bearer current new c =>
    exact done (endsIn_canActivate (fun e he => hX e (List.mem_append_left _ he)) fun _ _ hb =>
      endsIn_changePassword hn hb.user _ _ _ _ (hX _ (by simp [Route.refusals])))
  | logout bearer cookie c =>
    exact done (endsIn_canActivate hX fun _ _ hb => endsIn_logout hn hb cookie c)
  | getMe bearer => exact done (endsIn_canActivate hX fun _ _ hb => endsIn_getProfile hb.user)
  | updateMe bearer first last avatar =>
    refine done (endsIn_canActivate hX fun _ _ hb => ?_)
    exact endsIn_seq (endsIn_getProfile hb.user) fun _ _ hl => endsIn_update (hb.user.suffix hl)
  | requestEmailChange bearer email password =>
    exact done (endsIn_canActivate (fun e he => hX e (List.mem_append_left _ he)) fun _ _ hb =>
      endsIn_requestEmailChange hn hb.user _ _ (hX _ (by simp [Route.refusals]))
        (hX _ (by simp [Route.refusals])))
  | listSessions bearer =>
    exact done (endsIn_canActivate hX fun _ _ _ => .query fun _ _ _ _ _ => .ret _)
  | revokeSession bearer id c =>
    exact done (endsIn_canActivate (fun e he => hX e (List.mem_append_left _ he)) fun _ _ _ =>
      endsIn_deleteSession hn _ _ _ (hX _ (by simp [Route.refusals]))
        (hX _ (by simp [Route.refusals])))
  | revokeAllOtherSessions bearer c =>
    exact done (endsIn_canActivate hX fun _ _ _ => endsIn_revokeAll hn ..)
  | findOne bearer id =>
    exact endsIn_guarded rfl hX fun _ => endsIn_findByIdOrThrow (hX _ (by simp [Route.refusals])) _
  | createRole bearer name d =>
    exact endsIn_guarded rfl hX fun _ => endsIn_createRole hX
  | updateRole bearer id name d =>
    exact endsIn_guarded rfl hX fun _ => endsIn_updateRole hX
  | removeRole bearer id =>
    exact endsIn_guarded rfl hX fun _ => endsIn_removeRole hX
  | assignPermission bearer id permissionId =>
    exact endsIn_guarded rfl hX fun _ => endsIn_assignPermission hX
  | revokePermission bearer id permissionId =>
    exact endsIn_guarded rfl hX fun _ => endsIn_revokePermission hX
  | assignToUser bearer id userId =>
    exact endsIn_guarded rfl hX fun _ => endsIn_assignToUser hX
  | revokeFromUser bearer id userId =>
    exact endsIn_guarded rfl hX fun _ => endsIn_rolesRevokeFromUser (hX _ (by simp [Route.refusals])) _ _
  | createPermission bearer name d =>
    exact endsIn_guarded rfl hX fun _ => endsIn_createPermission hX
  | removePermission bearer id =>
    exact endsIn_guarded rfl hX fun _ => endsIn_removePermission hX
  | userRegistered userId email c => exact done (endsIn_userRegistered userId email c)

/-! ## Runs -/

/-- Not an internal error. -/
def Exn.answerable : Exn → Bool
  | .error _ => false
  | .prisma code => ["P2002", "P2025", "P2003"].contains code
  | _ => true

theorem Route.refusals_answerable (route : Route) : ∀ e ∈ route.refusals, e.answerable = true := by
  cases route <;>
    simp [Route.refusals, PermissionsGuard.refusals, JwtAuthGuard.refusals, AuthService.accountLocked,
      Exn.answerable]

theorem status_of_answerable {e : Exn} (he : e.answerable = true) (isProduction : Bool)
    (target : Option (List String)) :
    (GlobalExceptionFilter.resolve isProduction target e).statusCode ∈ [400, 401, 403, 404, 409] := by
  cases e with
  | unauthorized message =>
    unfold GlobalExceptionFilter.resolve
    split <;> simp_all
  | prisma code =>
    obtain rfl | rfl | rfl : code = "P2002" ∨ code = "P2025" ∨ code = "P2003" := by
      simpa [Exn.answerable] using he
    · simp [GlobalExceptionFilter.resolve, GlobalExceptionFilter.resolvePrismaError]
    · simp [GlobalExceptionFilter.resolve, GlobalExceptionFilter.resolvePrismaError]
    · simp [GlobalExceptionFilter.resolve, GlobalExceptionFilter.resolvePrismaError]
  | error message => cases he
  | _ => simp [GlobalExceptionFilter.resolve]

/-- Calls are made up to the time `n`, and fail with exceptions in `F` only. -/
def Punctual (n : Time) (F : Exn → Prop) (P : ApiPool) (m : Move Route Time Exn) : Prop :=
  P.state.now ≤ n ∧ match m with
    | .fault _ e => F e
    | .start _ | .call _ | .env _ => True

instance (F : Exn → Prop) [DecidablePred F] (P : ApiPool) (m : Move Route Time Exn) :
    Decidable (Punctual n F P m) := by
  cases m <;> exact instDecidableAnd

theorem serves_sample : Serves .sample 0 where
  access := ⟨900000, by decide, by decide⟩
  refresh := ⟨.int 2592000000, by decide, accepted_after.mpr (by decide)⟩
  lockout := accepted_minutes.mpr (by decide +kernel)
  resetLink := accepted_minutes.mpr (by decide +kernel)
  emailLink := accepted_minutes.mpr (by decide +kernel)

end AtlasAuth

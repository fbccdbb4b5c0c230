import AtlasAuth.Framework.Contract
import AtlasAuth.Model.Config
import AtlasAuth.Proof.Issuable

/-!
# Durations that are accepted at boot

At boot every string that is not empty passes for a duration. Tokens can be
issued (`Issuable`) only if both strings have the form that `parseDurationToMs`
reads and the lifetimes are not too long (`DurationsFit`, `issuable_iff`). While
they can, no registration, login or refresh that has not counted a failed login
throws an exception on account of a lifetime, whatever happens between its calls
(`unaffected_program`). When they cannot, the first registration does, after it
has stored its user.
-/

namespace AtlasAuth

open Framework Prog

variable {env : Env} {w : World} {n : Nat}

/-! ## Lifetimes that fit -/

/-- The access lifetime in milliseconds is a finite double, and the refresh
lifetime ends before the year 10000. -/
structure DurationsFit (access refresh : String) (n : Time) : Prop where
  access : ∃ amount ms, IsDuration access amount ms ∧ roundNat amount * ms < Double.halfway
  refresh : ∃ amount ms, IsDuration refresh amount ms ∧ n + amount * ms ≤ Prisma.maxDateTime

theorem accepted_after_mul {amount ms : Nat} (hms : 0 < ms) :
    (JsDate.after n ((Double.ofNat amount).mul ms)).Accepted ↔
      n + amount * ms ≤ Prisma.maxDateTime := by
  have hmax : Prisma.maxDateTime < 2 ^ 53 := by decide
  have hhalf : 2 ^ 53 < Double.halfway := by decide
  rw [Double.ofNat_mul hms]
  by_cases hle : amount * ms ≤ 2 ^ 53
  · -- The product is exact.
    have hamount : roundNat amount = amount :=
      roundNat_of_le ((Nat.le_mul_of_pos_right _ hms).trans hle)
    rw [hamount, if_pos (Nat.lt_of_le_of_lt hle hhalf), roundNat_of_le hle]
    exact accepted_after
  · have hlarge : 2 ^ 53 ≤ roundNat amount * ms := by
      rcases Nat.le_total amount (2 ^ 53) with h | h
      · rw [roundNat_of_le h]
        omega
      · exact (le_roundNat (Nat.le_refl _) h).trans (Nat.le_mul_of_pos_right _ hms)
    have hfalse : ¬n + amount * ms ≤ Prisma.maxDateTime := by omega
    simp only [hfalse, iff_false]
    split
    · have := le_roundNat (Nat.le_refl _) hlarge
      rw [accepted_after]
      omega
    · rintro ⟨t, ht⟩
      cases ht

theorem expiry_lt_halfway {iat i : Nat} (hiat : iat ≤ maxTime) (hi : i < Double.overflow) :
    iat + Double.floorQuot i 1000 < Double.halfway := by
  have hbound : maxTime + (2 * (Double.overflow / 1000) + 1) < Double.halfway := by decide +kernel
  have hquot := Double.floorQuot_le i (d := 1000) (by decide)
  have hdiv : i / 1000 ≤ Double.overflow / 1000 := Nat.div_le_div_right (Nat.le_of_lt hi)
  omega

theorem expiry_of_lt {iat q : Nat} (h : iat + q < Double.halfway) :
    ∃ exp, TokenService.expiry iat (.int q) = .ok exp := by
  have hadd : (Double.int iat).add (.int q) = .int (roundNat (iat + q)) := Double.ofInt_natCast h
  unfold TokenService.expiry
  dsimp only
  exact ⟨_, by rw [hadd]⟩

/-- The expiry of an access token is a finite number if its lifetime is. -/
theorem expiry_mul {iat amount ms : Nat} (hms : 0 < ms) (hiat : iat ≤ maxTime) :
    (∃ exp, TokenService.expiry iat (((Double.ofNat amount).mul ms).divFloor 1000) = .ok exp) ↔
      roundNat amount * ms < Double.halfway := by
  rw [Double.ofNat_mul hms]
  by_cases h : roundNat amount * ms < Double.halfway
  · rw [if_pos h]
    exact iff_of_true (expiry_of_lt (expiry_lt_halfway hiat (Double.roundNat_lt_overflow.mpr h))) h
  · rw [if_neg h]
    refine iff_of_false ?_ h
    rintro ⟨exp, he⟩
    cases he

theorem issuable_iff : Issuable env n ↔ DurationsFit env.accessExpiresIn env.refreshExpiresIn n := by
  have fits (h : n ≤ Prisma.maxDateTime) : n / 1000 ≤ maxTime :=
    (Nat.div_le_self _ _).trans (h.trans maxDateTime_le_maxTime)
  constructor
  · rintro ⟨⟨d, hd, hdate⟩, d', exp, hd', hexp⟩
    obtain ⟨amount, ms, hdur, rfl⟩ := isDuration_of_parse hd
    obtain ⟨amount', ms', hdur', rfl⟩ := isDuration_of_parse hd'
    have hle := (accepted_after_mul hdur.pos).mp hdate
    have hn := fits ((Nat.le_add_right _ _).trans hle)
    exact ⟨⟨_, _, hdur', (expiry_mul hdur'.pos hn).mp ⟨exp, hexp⟩⟩, _, _, hdur, hle⟩
  · rintro ⟨⟨amount', ms', hdur', hlt⟩, amount, ms, hdur, hle⟩
    have hn := fits ((Nat.le_add_right _ _).trans hle)
    obtain ⟨exp, hexp⟩ := (expiry_mul hdur'.pos hn).mpr hlt
    exact ⟨⟨_, parseDurationToMs_of_isDuration hdur, (accepted_after_mul hdur.pos).mpr hle⟩,
      _, exp, parseDurationToMs_of_isDuration hdur', hexp⟩

/-! ## Requests -/

/-- The exceptions on account of a configured duration: of
`parseDurationToMs`, of `jwtService.signAsync`, and of Prisma on a date. -/
inductive DurationError : Exn → Prop
  | parse {duration : String} {e : Exn} (h : parseDurationToMs duration = .error e) :
      DurationError e
  | sign {iat : Nat} {expiresIn : Double} {e : Exn}
      (h : TokenService.expiry iat expiresIn = .error e) : DurationError e
  | date {date : JsDate} {e : Exn} (h : Prisma.dateTime date = .error e) : DurationError e

theorem DurationError.eq_error {e : Exn} (h : DurationError e) : ∃ m, e = .error m := by
  cases h with
  | @parse duration _ h =>
    unfold parseDurationToMs at h
    dsimp only at h
    split at h
    · split at h
      · cases h
      · exact ⟨_, (Except.error.inj h).symm⟩
    · exact ⟨_, (Except.error.inj h).symm⟩
  | sign h =>
    unfold TokenService.expiry at h
    split at h
    · split at h
      · cases h
      · exact ⟨_, (Except.error.inj h).symm⟩
    · exact ⟨_, (Except.error.inj h).symm⟩
  | date h => exact dateTime_eq_error h

/-- Up to the time `n`, the program does not throw an exception on account of a
configured duration, whatever else happens, unless it counts a failed login: the
end of the lock is a date of its own. -/
abbrev Unaffected (n : Time) {α : Type} (p : App α) (M : α → Prop) : Prop :=
  p.Yields (Writes · = true) (fun w => w.now ≤ n) M fun e => ¬DurationError e

/-- An exception of another kind. -/
theorem not_durationError {e : Exn} (h : ∀ m, e ≠ .error m) : ¬DurationError e := by
  intro he
  obtain ⟨m, hm⟩ := he.eq_error
  exact h m hm

theorem unaffected_throw {α : Type} {M : α → Prop} {e : Exn} (h : ∀ m, e ≠ .error m) :
    Unaffected n (.throw e) M :=
  not_durationError h

/-- A call that throws exceptions of other kinds only. -/
theorem unaffected_atomic {α : Type} {l : Call} {f : World → Except Exn α × World}
    (h : ∀ w m, (f w).1 ≠ .error (.error m)) : Unaffected n (.atomic l f) fun _ => True := by
  refine yields_atomic.mpr fun _ w _ => ?_
  split
  · trivial
  · rename_i e he
    exact not_durationError fun m hm => h w m (he.trans (congrArg _ hm))

/-- A call that always succeeds. -/
theorem unaffected_ok {α : Type} {l : Call} {f : World → α} {g : World → World} :
    Unaffected n (.atomic l fun w => (.ok (f w), g w)) fun _ => True :=
  yields_atomic.mpr fun _ _ _ => trivial

theorem unaffected_query {α : Type} {l : Call} {f : World → α} :
    Unaffected n (.query l f) fun _ => True :=
  yields_query.mpr fun _ _ _ => trivial

/-! ### Calls -/

theorem unaffected_create (email hash : String) (first last : Option String) :
    Unaffected n (UsersRepository.create env email hash first last) fun _ => True := by
  refine unaffected_atomic fun w m => ?_
  split <;> simp

theorem unaffected_update (call : Call) (id : String) (data : Time → User → User) :
    Unaffected n (UsersRepository.update call id data) fun _ => True := by
  refine unaffected_atomic fun w m => ?_
  split <;> simp

theorem unaffected_upsertDevice (u fingerprint : String) (ua ip : Option String) :
    Unaffected n (AuthRepository.upsertDevice env u fingerprint ua ip) fun _ => True := by
  refine unaffected_atomic fun w m => ?_
  dsimp only
  split <;> simp

theorem unaffected_createSession {expiresAt : JsDate} (he : expiresAt.Accepted)
    (u device : String) (ip ua : Option String) :
    Unaffected n (AuthRepository.createSession env u device ip ua expiresAt) fun _ => True := by
  obtain ⟨e, he⟩ := he
  refine unaffected_atomic fun w m => ?_
  simp [he]

theorem unaffected_createRefreshToken {expiresAt : JsDate} (he : expiresAt.Accepted)
    (u sid family hash : String) (ip : Option String) :
    Unaffected n (AuthRepository.createRefreshToken env u sid family hash expiresAt ip)
      fun _ => True := by
  obtain ⟨e, he⟩ := he
  refine unaffected_atomic fun w m => ?_
  rw [he]
  dsimp only
  split <;> simp

theorem unaffected_revokeRefreshToken (id successor : String) :
    Unaffected n (AuthRepository.revokeRefreshToken id successor) fun _ => True := by
  refine unaffected_atomic fun w m => ?_
  dsimp only
  split <;> simp

theorem unaffected_revokeSession (id : String) :
    Unaffected n (AuthRepository.revokeSession id) fun _ => True := by
  refine unaffected_atomic fun w m => ?_
  split <;> simp

theorem unaffected_touchSession {expiresAt : JsDate} (he : expiresAt.Accepted) (id : String) :
    Unaffected n (AuthRepository.touchSession id expiresAt) fun _ => True := by
  obtain ⟨e, he⟩ := he
  refine unaffected_atomic fun w m => ?_
  rw [he]
  cases w.sessions.find? (·.id == id) <;> simp

theorem unaffected_generateRefreshToken (h : Issuable env n) :
    Unaffected n (TokenService.generateRefreshToken env) fun new => new.expiresAt.Accepted := by
  obtain ⟨d, hd, hdate⟩ := h.refresh
  refine .seq unaffected_ok fun _ => ?_
  rw [hd]
  exact .bind (N := (· ≤ n)) (yields_query.mpr fun _ w hw => hw) fun now hnow =>
    accepted_of_le hd hnow hdate

theorem unaffected_signAccessTokenForUser (h : Issuable env n) (u : User) (sid : String) :
    Unaffected n (AuthService.signAccessTokenForUser env u sid) fun _ => True := by
  obtain ⟨d, exp, hd, hexp⟩ := h.access
  refine .seq unaffected_query fun _ => .seq unaffected_ok fun _ => ?_
  rw [TokenService.getAccessTokenTtlMs, hd, Prog.ofExcept, ret_bind]
  refine .seq (yields_atomic.mpr fun _ w hw => ?_) fun _ => .seq unaffected_query fun _ => trivial
  obtain ⟨exp', hexp'⟩ := expiry_of_le (Nat.div_le_div_right hw) hexp
  simp only [hexp']

theorem unaffected_issueSession (h : Issuable env n) (u : User) (c : RequestContext) :
    Unaffected n (AuthService.issueSession env u c) fun _ => True := by
  unfold AuthService.issueSession
  refine .seq (unaffected_upsertDevice _ _ _ _) fun device => ?_
  refine .bind (unaffected_generateRefreshToken h) fun new hdate => ?_
  refine .seq (unaffected_createSession hdate _ _ _ _) fun s => ?_
  refine .seq (unaffected_signAccessTokenForUser h u _) fun a => ?_
  refine .seq unaffected_ok fun family => ?_
  exact .seq (unaffected_createRefreshToken hdate _ _ _ _ _) fun _ => trivial

theorem unaffected_rotate (h : Issuable env n) (t : RefreshToken) (s : Session) (u : User)
    (c : RequestContext) : Unaffected n (AuthService.rotate env t s u c) fun _ => True := by
  unfold AuthService.rotate
  refine .bind (unaffected_generateRefreshToken h) fun new hdate => ?_
  refine .seq (unaffected_createRefreshToken hdate _ _ _ _ _) fun _ => ?_
  refine .seq (unaffected_revokeRefreshToken _ _) fun _ => ?_
  refine .seq (unaffected_touchSession hdate _) fun _ => ?_
  refine .seq (unaffected_signAccessTokenForUser h u _) fun a => ?_
  exact .seq unaffected_ok fun _ => trivial

theorem unaffected_register (h : Issuable env n) (dto : RegisterDto) (c : RequestContext) :
    Unaffected n (AuthService.register env dto c) fun _ => True := by
  unfold AuthService.register
  refine .seq unaffected_query fun existing => ?_
  split
  · exact unaffected_throw fun m hm => by cases hm
  refine .seq unaffected_ok fun hash => ?_
  refine .seq (unaffected_create _ _ _ _) fun u => ?_
  refine .seq unaffected_ok fun _ => ?_
  exact .seq (unaffected_issueSession h u c) fun _ => trivial

theorem unaffected_updateFailedLogin (id : String) (attempts : Nat)
    (lockedUntil : Except Exn (Option Time)) :
    Unaffected n (UsersRepository.updateFailedLogin id attempts lockedUntil) fun _ => True := by
  obtain ⟨f, hf, -⟩ := updateFailedLogin_eq id attempts lockedUntil
  rw [hf]
  exact yields_atomic.mpr fun hl => absurd rfl hl

theorem unaffected_registerFailedLoginAttempt (id : String) (maxAttempts minutes : Nat) :
    Unaffected n (UsersRepository.registerFailedLoginAttempt id maxAttempts minutes)
      fun _ => True := by
  have hfind : Unaffected n (UsersRepository.findUniqueOrThrow id) fun _ => True := by
    refine unaffected_atomic fun w m => ?_
    split <;> simp
  refine .seq hfind fun user => .ite (fun _ => ?_) fun _ => unaffected_updateFailedLogin ..
  exact .seq unaffected_query fun now => unaffected_updateFailedLogin ..

theorem unaffected_login (h : Issuable env n) (dto : LoginDto) (c : RequestContext) :
    Unaffected n (AuthService.login env dto c) fun _ => True := by
  have refused {α : Type} {e : Event} {m : String} :
      Unaffected n (emit e >>= fun _ => (.throw (.unauthorized m) : App α)) fun _ => True :=
    .seq unaffected_ok fun _ => unaffected_throw fun m h => by cases h
  unfold AuthService.login
  refine .seq unaffected_query fun user => ?_
  split
  · rename_i user
    refine .seq unaffected_query fun now => ?_
    split
    · exact refused
    refine .seq unaffected_ok fun passwordMatches => ?_
    split
    · exact .seq (unaffected_registerFailedLoginAttempt _ _ _) fun _ => refused
    refine .seq (unaffected_update _ _ _) fun _ => ?_
    exact .seq (unaffected_issueSession h user c) fun tokens =>
      .seq unaffected_ok fun _ => trivial
  · exact refused

theorem unaffected_refresh (h : Issuable env n) (token : String) (c : RequestContext) :
    Unaffected n (AuthService.refresh env token c) fun _ => True := by
  have refused {α : Type} {m : String} :
      Unaffected n (.throw (.unauthorized m) : App α) fun _ => True :=
    unaffected_throw fun m h => by cases h
  unfold AuthService.refresh
  refine .seq unaffected_query fun existing => ?_
  split
  · rename_i t
    refine .ite (fun _ => ?_) fun _ => ?_
    · refine .seq unaffected_ok fun _ => ?_
      refine .seq (unaffected_revokeSession _) fun _ => ?_
      exact .seq unaffected_ok fun _ => refused
    refine .seq unaffected_query fun now => ?_
    split
    · exact refused
    refine .seq unaffected_query fun session => ?_
    split
    · rename_i s
      split
      · exact refused
      refine .seq unaffected_query fun user => ?_
      split
      · exact unaffected_rotate h t s _ c
      · exact refused
    · exact refused
  · exact refused

/-- The requests that issue tokens. -/
def Request.issues : Request → Bool
  | .register .. | .login .. | .refresh .. => true
  | _ => false

theorem unaffected_program (h : Issuable env n) {r : Request} (hr : r.issues = true) :
    Unaffected n (program env r) fun _ => True := by
  cases r with
  | register dto c => exact .seq (unaffected_register h dto c) fun _ => trivial
  | login dto c => exact .seq (unaffected_login h dto c) fun _ => trivial
  | refresh cookie c =>
    refine .seq ?_ fun _ => trivial
    unfold AuthController.refresh
    split
    · exact unaffected_refresh h _ c
    · exact unaffected_throw fun m h => by cases h
  | _ => cases hr

/-! ## What the configuration promises -/

/-- Calls are made up to the time `n`, and fail by themselves with exceptions of
other kinds. -/
def UpTo (n : Time) (P : AppPool) : Move Request Time Exn → Prop
  | .call _ => P.state.now ≤ n
  | .fault _ e => ¬DurationError e
  | _ => True

/-- The configured durations are read, the date of expiry of a refresh token is
valid at the time `n`, and no registration, login or refresh up to then fails on
account of them once it has passed its credential checks, whatever the state of
the service and whatever runs besides. A login that has not passed them has
counted the failed attempt. -/
structure DurationsServe (env : Env) (n : Time) : Prop where
  access : ∃ d, parseDurationToMs env.accessExpiresIn = .ok d
  refresh : ∃ d, parseDurationToMs env.refreshExpiresIn = .ok d ∧ (JsDate.after n d).isSome = true
  issue : ∀ {w : World} {P : AppPool}, (system env).Run (UpTo n) ⟨w, []⟩ P → ∀ t ∈ P.threads,
    t.req.issues = true → (∀ x ∈ t.log, ¬Writes x.label) →
      ∀ e, t.outcome = some (.error e) → ¬DurationError e

theorem Issuable.serve (h : Issuable env n) : DurationsServe env n where
  access := h.access.imp fun _ ⟨_, hd, _⟩ => hd
  refresh := h.refresh.imp fun _ ⟨hd, t, ht⟩ => ⟨hd, by rw [(dateTime_eq_ok.mp ht).1]; rfl⟩
  issue hr t ht hi hl _ he :=
    System.error_of_yields (hr.yields rfl (fun h => h) (fun h => h)
      (fun r (hr : r.issues = true) => unaffected_program h hr) t ht hi hl) he

theorem calls_register (dto : RegisterDto) (c : RequestContext) :
    (program env (.register dto c)).Calls fun l => ¬Writes l = true := by
  refine .bind (.bind (calls_query.mpr nofun) fun existing => ?_) fun _ => trivial
  split
  · trivial
  · exact .bind (calls_atomic.mpr nofun) fun _ => .bind (calls_atomic.mpr nofun) fun _ =>
      .bind (calls_atomic.mpr nofun) fun _ =>
      .bind (calls_issueSession (by rintro (_ | _) ⟨⟩ <;> nofun) _ c) fun _ => trivial

/-- A registration that runs by itself at the time `n`, in an empty database. -/
theorem run_register (env : Env) (n : Time) (dto : RegisterDto) (c : RequestContext) :
    ∃ P : AppPool, (system env).Run (UpTo n) (AppPool.init n) P ∧ ∃ t ∈ P.threads,
      t.req.issues = true ∧ (∀ x ∈ t.log, ¬Writes x.label) ∧
        t.outcome = some ((program env (.register dto c)).run { now := n }).1 := by
  let P : AppPool := ⟨{ now := n }, [⟨.register dto c, [], program env (.register dto c)⟩]⟩
  have hstart : (system env).Run (UpTo n) (AppPool.init n) P :=
    .step .refl trivial (m := .start _) rfl
  have htime : (program env (.register dto c)).Always fun w w' => w.now ≤ n → w'.now ≤ n :=
    (does_program _).mono fun w w' h hn => by
      rw [show w'.now = w.now from h.sameTime]
      exact hn
  have hcall : ∀ (Q : AppPool) i, Q.state.now ≤ n → UpTo n Q (.call i) := fun _ _ h => h
  obtain ⟨log, hlog, hr⟩ := System.Run.alone (S := system env) hcall htime (calls_register dto c)
    (by simp) (Nat.le_refl n) (show P.threads[0]? = some _ from rfl)
  exact ⟨_, hstart.trans hr, _, List.mem_singleton_self _, rfl, hlog, Thread.outcome_ofExcept⟩

/-- It cannot store the session. -/
theorem register_of_date {dto : RegisterDto} {c : RequestContext} {d : Double} {e : Exn}
    (hd : parseDurationToMs env.refreshExpiresIn = .ok d)
    (he : Prisma.dateTime (JsDate.after n d) = .error e) :
    ((program env (.register dto c)).run { now := n }).1 = .error e := by
  simp [program, AuthService.register, UsersRepository.findByEmail, HashingService.hash,
    UsersRepository.create, emit, AuthService.issueSession, AuthRepository.upsertDevice,
    TokenService.generateRefreshToken, randomBytes, dateNow, AuthRepository.createSession, hd, he]

/-- It cannot sign the access token. -/
theorem register_of_expiry {dto : RegisterDto} {c : RequestContext} {d d' : Double} {t : Time}
    {e : Exn} (hd : parseDurationToMs env.refreshExpiresIn = .ok d)
    (ht : Prisma.dateTime (JsDate.after n d) = .ok t)
    (hd' : parseDurationToMs env.accessExpiresIn = .ok d')
    (he : TokenService.expiry (n / 1000) (d'.divFloor 1000) = .error e) :
    ((program env (.register dto c)).run { now := n }).1 = .error e := by
  simp [program, AuthService.register, UsersRepository.findByEmail, HashingService.hash,
    UsersRepository.create, emit, AuthService.issueSession, AuthRepository.upsertDevice,
    TokenService.generateRefreshToken, randomBytes, dateNow, AuthRepository.createSession,
    AuthService.signAccessTokenForUser, UsersRepository.findWithAccessById,
    TokenService.signAccessToken, randomUUID, TokenService.getAccessTokenTtlMs,
    TokenService.jwtSign, hd, hd', ht, he]

theorem DurationsServe.issuable (h : DurationsServe env n) : Issuable env n := by
  obtain ⟨d, hd, -⟩ := h.refresh
  obtain ⟨d', hd'⟩ := h.access
  obtain ⟨P, hr, t, ht, hi, hl, ho⟩ := run_register env n ⟨"", "", none, none⟩ ⟨none, none⟩
  cases hdate : Prisma.dateTime (JsDate.after n d) with
  | error e =>
    rw [register_of_date hd hdate] at ho
    exact absurd (.date hdate) (h.issue hr t ht hi hl e ho)
  | ok t =>
    refine ⟨⟨d, hd, t, hdate⟩, d', ?_⟩
    cases he : TokenService.expiry (n / 1000) (d'.divFloor 1000) with
    | ok exp => exact ⟨exp, hd', rfl⟩
    | error e =>
      rw [register_of_expiry hd hdate hd' he] at ho
      exact absurd (.sign he) (h.issue hr _ ht hi hl e ho)

/-- The defaults of the schema are those of the configuration. -/
theorem boot_eq_some {vars : ProcessEnv} {config : JwtConfig} (h : boot vars = some config) :
    config = jwtConfig vars := by
  obtain ⟨vars', hvars, rfl⟩ := Option.map_eq_some_iff.mp h
  have hdefault {value : String} {rule : String → Bool} {given : Option String} {v : String}
      (hv : Joi.default value rule given = some v) : v = given.getD value := by
    cases given with
    | none => exact (Option.some.inj hv).symm
    | some given =>
      rw [Joi.default] at hv
      split at hv
      · exact (Option.some.inj hv).symm
      · cases hv
  simp only [envValidationSchema, Option.bind_eq_bind, Option.bind_eq_some_iff] at hvars
  obtain ⟨secret, hs, access, ha, refresh, hr, issuer, hi, audience, hu, he⟩ := hvars
  cases he
  rw [hdefault ha, hdefault hr, hdefault hi, hdefault hu, ← (Option.filter_eq_some_iff.mp hs).1]
  rfl

/-- The durations of a configuration that was accepted serve up to a certain
time exactly if they fit. -/
theorem boot_durationsServe_iff {vars : ProcessEnv} {config : JwtConfig}
    (h : boot vars = some config) (env : Env) (n : Time) :
    DurationsServe (env.configured config) n ↔
      DurationsFit (vars.JWT_ACCESS_EXPIRES_IN.getD "15m") (vars.JWT_REFRESH_EXPIRES_IN.getD "30d")
        n := by
  obtain rfl := boot_eq_some h
  have hiff : DurationsServe (env.configured (jwtConfig vars)) n ↔
      Issuable (env.configured (jwtConfig vars)) n :=
    ⟨DurationsServe.issuable, Issuable.serve⟩
  exact hiff.trans issuable_iff

/-- Only what is required. -/
def minimal : ProcessEnv := { JWT_ACCESS_SECRET := some "0123456789abcdef0123456789abcdef" }

theorem minimal_serves :
    DurationsServe (Env.sample.configured (jwtConfig minimal)) 1700000000000 := by
  have hboot : boot minimal = some (jwtConfig minimal) := by decide +kernel
  refine (boot_durationsServe_iff hboot .sample _).mpr
    ⟨⟨15, 60 * 1000, ?_, ?_⟩, 30, 24 * 60 * 60 * 1000, ?_, ?_⟩
  · exact ⟨['1', '5'], 'm', by decide +kernel, by decide, by decide, by decide, rfl⟩
  · decide +kernel
  · exact ⟨['3', '0'], 'd', by decide +kernel, by decide, by decide, by decide, rfl⟩
  · decide

/-- The first registration, one millisecond after the epoch. -/
def firstRegister (vars : ProcessEnv) : Except Exn Response × World :=
  (program (Env.sample.configured (jwtConfig vars))
    (.register ⟨"a@b.co", "Passw0rd!", none, none⟩ ⟨none, none⟩)).run { now := 1 }

def anHour : ProcessEnv := { minimal with JWT_ACCESS_EXPIRES_IN := some "1 hour" }
def endless : ProcessEnv := { minimal with JWT_REFRESH_EXPIRES_IN := some "100000000d" }
def millennia : ProcessEnv := { minimal with JWT_REFRESH_EXPIRES_IN := some "3000000d" }

/-- All three are accepted. With the first, a registration stores its user and
its session, and cannot sign the access token; with the others, it stores its
user, and cannot store the session, whose expiry is no valid date or comes after
the year 9999. -/
theorem firstRegister_fails :
    boot anHour = some (jwtConfig anHour) ∧
    (firstRegister anHour).1 = .error (.error
      "Invalid duration format: \"1 hour\". Expected e.g. \"15m\", \"30d\".") ∧
    (firstRegister anHour).2.users.map (·.email) = ["a@b.co"] ∧
    (firstRegister anHour).2.sessions.length = 1 ∧
    ¬DurationsServe (Env.sample.configured (jwtConfig anHour)) 1 ∧
    boot endless = some (jwtConfig endless) ∧
    (firstRegister endless).1 = .error Prisma.invalidDate ∧
    (firstRegister endless).2.users.map (·.email) = ["a@b.co"] ∧
    ¬DurationsServe (Env.sample.configured (jwtConfig endless)) 1 ∧
    boot millennia = some (jwtConfig millennia) ∧
    (firstRegister millennia).1 = .error Prisma.lateDate ∧
    (firstRegister millennia).2.users.map (·.email) = ["a@b.co"] ∧
    ¬DurationsServe (Env.sample.configured (jwtConfig millennia)) 1 := by
  have late {vars : ProcessEnv} {i : Nat}
      (hi : parseDurationToMs (jwtConfig vars).refreshExpiresIn = .ok (.int i))
      (hlate : Prisma.maxDateTime < 1 + i) :
      ¬DurationsServe (Env.sample.configured (jwtConfig vars)) 1 := by
    intro h
    obtain ⟨d, hd, hdate⟩ := h.issuable.refresh
    obtain rfl := Except.ok.inj (hd.symm.trans hi)
    exact absurd (accepted_after.mp hdate) (Nat.not_le_of_lt hlate)
  refine ⟨by decide +kernel, by decide +kernel, by decide +kernel, by decide +kernel, fun h => ?_,
    by decide +kernel, by decide +kernel, by decide +kernel,
    late (i := 8640000000000000) (by decide +kernel) (by decide),
    by decide +kernel, by decide +kernel, by decide +kernel,
    late (i := 259200000000000) (by decide +kernel) (by decide)⟩
  obtain ⟨d, hd⟩ := h.access
  have hread : (parseDurationToMs (jwtConfig anHour).accessExpiresIn).isOk = false := by
    decide +kernel
  rw [show parseDurationToMs (jwtConfig anHour).accessExpiresIn = .ok d from hd] at hread
  cases hread

end AtlasAuth

import AtlasAuth.Proof.Evict
import AtlasAuth.Proof.FailedLogins

/-!
# Registrations, logins and password changes

What a registration (`leaves_register`), a login (`LoggedIn`) and a password
change (`PasswordChanged`) leave behind. Each changes the table of users and
nothing else of what matters (`Calm`) before it issues a session or revokes
those there are.
-/

namespace AtlasAuth

open Framework Framework.Table Prog

variable {env : Env} {w w' w'' : World}

/-- Sessions, tokens and the blacklist stay as they are, and so does the
identity of users. -/
structure Calm (w w' : World) : Prop where
  now : w.now ≤ w'.now
  drawn : w.drawn ≤ w'.drawn
  users : Evolves User.SameIdentity w.users w'.users
  sessions : w'.sessions = w.sessions
  refreshTokens : w'.refreshTokens = w.refreshTokens
  redis : w'.redis = w.redis
  signed : w'.signed = w.signed

theorem Calm.trans (h : Calm w w') (h' : Calm w' w'') : Calm w w'' :=
  ⟨h.now.trans h'.now, h.drawn.trans h'.drawn, h.users.trans User.SameIdentity.trans h'.users,
    h'.sessions.trans h.sessions, h'.refreshTokens.trans h.refreshTokens,
    h'.redis.trans h.redis, h'.signed.trans h.signed⟩

/-- Rows with the same credentials, in the same places. -/
theorem evolves_of_credentials {us us' : List User}
    (h : us'.map User.credentials = us.map User.credentials) :
    Evolves User.SameIdentity us us' := by
  refine .of_map (c := User.credentials) (fun u u' e => ?_) h
  obtain ⟨hid, hd, -⟩ := Prod.mk.inj e |>.imp_right Prod.mk.inj
  exact ⟨hid, hd⟩

theorem Quiet.calm (q : Quiet w w') : Calm w w' := { q with users := evolves_of_credentials q.users }

theorem Calm.updateUser {id : String} {data : User → User} (h : ∀ u : User, u.SameIdentity (data u)) :
    Calm w { w with users := updateWhere (·.id == id) data w.users } :=
  { Quiet.refl w with users := .updateWhere User.SameIdentity.refl h _ }

theorem HashMinted.calm (h : HashMinted env w) (hc : Calm w w') : HashMinted env w' := by
  rw [HashMinted, hc.refreshTokens]
  exact h.mono hc.drawn

/-- What a user has is found by the id, in rows with the same credentials. -/
theorem find?_credentials {κ : Type} (g : User → κ)
    (g' : String × Option Time × String × Nat × Option Time → κ)
    (hg : ∀ u : User, g u = g' u.credentials) {us us' : List User}
    (h : us'.map User.credentials = us.map User.credentials) (id : String) :
    (us'.find? (·.id == id)).map g = (us.find? (·.id == id)).map g := by
  have hfind (us : List User) : (us.find? (·.id == id)).map g =
      ((us.map User.credentials).find? (·.1 == id)).map g' := by
    rw [List.find?_map, Option.map_map]
    exact congrArg (Option.map · _) (funext hg)
  rw [hfind, hfind, h]

/-- What a user has, after an update of one row. -/
theorem find?_updateUser {κ : Type} {g : User → κ} {f : User → User} (hid : ∀ u, (f u).id = u.id)
    (us : List User) (u id : String) :
    ((updateWhere (·.id == u) f us).find? (·.id == id)).map g =
      (us.find? (·.id == id)).map fun x => if x.id == u then g (f x) else g x := by
  rw [find?_updateWhere fun x _ => by rw [hid x], Option.map_map]
  refine congrArg (Option.map · _) (funext fun x => ?_)
  simp only [Function.comp_apply]
  split <;> rfl

/-! ## Registrations -/

/-- A user who has just been created. -/
def User.IsNew (u : User) (hash : String) : Prop :=
  u.passwordHash = hash ∧ u.deletedAt = none ∧ u.failedLoginAttempts = 0 ∧ u.lockedUntil = none

theorem leaves_usersCreate (hq : Quiet w w') (email hash : String) (first last : Option String) :
    Leaves env (UsersRepository.create env email hash first last) w' (Ends w fun u w'' =>
      u.IsNew hash ∧ ∃ w₁, Quiet w w₁ ∧
        w'' = { w₁ with drawn := w₁.drawn + 1, users := w₁.users ++ [u] }) := by
  refine ensures_atomic.mpr fun w₁ h₁ => ?_
  have q₁ := hq.trans (.lapse h₁)
  split
  · exact .inr q₁
  · exact ⟨⟨rfl, rfl, rfl, rfl⟩, w₁, q₁, rfl⟩

theorem leaves_register (hw : HashMinted env w) (dto : RegisterDto) (c : RequestContext) :
    Leaves env (AuthService.register env dto c) w (Ends w fun (u, tokens) w' =>
      ∃ w₁ s t, Calm w w₁ ∧ u ∈ w₁.users ∧ tokens.sessionId = s.id ∧
        Issued env u.id s t tokens.accessToken.token w₁ w') := by
  refine ends_bind_minor (.refl w) always_query fun existing w₁ q₁ =>
    .ite (fun _ => ends_throw q₁ _) fun _ => ?_
  refine ends_bind_minor q₁ (minor_hash _) fun hash w₂ q₂ => ?_
  refine ends_bind (leaves_usersCreate q₂ _ _ _ _) ?_
  rintro u _ ⟨-, w₃, q₃, rfl⟩
  refine .atomic_bind fun w₄ h₄ => ?_
  have hc : Calm w { w₄ with events := w₄.events ++ [.userRegistered u.id u.email c] } := by
    refine q₃.calm.trans (.trans ?_ ((Quiet.lapse h₄).trans (Minor.quiet (.emit _))).calm)
    exact { Quiet.refl w₃ with
      drawn := Nat.le_succ _
      users := .append User.SameIdentity.refl _ _ }
  have hu : u ∈ w₄.users := by
    obtain ⟨d, rfl⟩ := h₄
    exact List.mem_append_right _ (List.mem_singleton_self u)
  refine ends_of_succeeds (leaves_bind (leaves_issueSession (hw.calm hc) u c) ?_)
  rintro tokens w₅ ⟨s, t, hs, h⟩
  exact ensures_ret.mpr ⟨_, s, t, hc, hu, hs, h⟩

/-! ## Logins -/

/-- The user that a login finds. -/
def loginRow (env : Env) (w : World) (dto : LoginDto) : Option User :=
  w.users.find? fun u => u.email == env.toLowerCase dto.email && u.deletedAt.isNone

/-- The lockout of the row is reset. -/
def User.resetLockout (u : User) : User := { u with failedLoginAttempts := 0, lockedUntil := none }

/-- What `recordSuccessfulLogin` makes of the row. -/
def User.loggedIn (now : Time) (u : User) : User := { u.resetLockout with lastLoginAt := some now }

/-- How a login ends. The lockout is checked at the time `now`, and a failed
attempt counts as made at the time `failedAt`. -/
inductive LoggedIn (env : Env) (dto : LoginDto) (w w' : World) :
    Except Exn (User × SessionTokens) → Prop
  | unknown (hu : loginRow env w dto = none) (h : Quiet w w') (hv : w'.verified = w.verified) :
      LoggedIn env dto w w' (.error (.unauthorized "Invalid credentials"))
  | locked {u : User} {now : Time} (hu : loginRow env w dto = some u)
      (hnow : w.now ≤ now ∧ now ≤ w'.now) (hl : u.lockedUntil.any (now < ·) = true)
      (h : Quiet w w') (hv : w'.verified = w.verified) :
      LoggedIn env dto w w' (.error AuthService.accountLocked)
  | wrong {u : User} {now failedAt : Time} (hu : loginRow env w dto = some u)
      (hnow : w.now ≤ now ∧ now ≤ failedAt ∧ failedAt ≤ w'.now)
      (hl : u.lockedUntil.any (now < ·) = false)
      (hp : env.argon2Verify u.passwordHash dto.password = false)
      (hv : w'.verified = w.verified ++ [(u.passwordHash, dto.password)])
      (h : Calm w w')
      (husers : w'.users.map User.credentials = (updateWhere (·.id == u.id)
        (u.failed env.maxAttempts env.durationMinutes failedAt).withLockout w.users).map
          User.credentials) :
      LoggedIn env dto w w' (.error (.unauthorized "Invalid credentials"))
  | right {u : User} {now : Time} {tokens : SessionTokens} {s : Session} {t : RefreshToken}
      {w₁ : World} (hu : loginRow env w dto = some u) (hnow : w.now ≤ now ∧ now ≤ w'.now)
      (hl : u.lockedUntil.any (now < ·) = false)
      (hp : env.argon2Verify u.passwordHash dto.password = true)
      (hv : w.verified ++ [(u.passwordHash, dto.password)] <+: w'.verified) (hc : Calm w w₁)
      (husers : w₁.users.map User.credentials =
        (updateWhere (·.id == u.id) User.resetLockout w.users).map User.credentials)
      (h : Issued env u.id s t tokens.accessToken.token w₁ w') :
      LoggedIn env dto w w' (.ok (u, tokens))
  | broken {m : String} : LoggedIn env dto w w' (.error (.error m))

theorem lapse_users (h : (system env).lapse w w') : w'.users = w.users := by
  obtain ⟨d, rfl⟩ := h
  rfl

theorem lapse_verified (h : (system env).lapse w w') : w'.verified = w.verified := by
  obtain ⟨d, rfl⟩ := h
  rfl

theorem quiet_emit (h : (system env).lapse w w') (e : Event) :
    Quiet w { w' with events := w'.events ++ [e] } :=
  (Quiet.lapse h).trans (Minor.quiet (.emit e))

theorem Issued.before {u : String} {s : Session} {t : RefreshToken} {p : JwtPayload}
    (h : Issued env u s t p w w') (q : Quiet w' w'') : Issued env u s t p w w'' where
  now := h.now.trans q.now
  drawn := h.drawn.trans q.drawn
  users := q.users.trans h.users
  redis := q.redis.trans h.redis
  sessions := q.sessions.trans h.sessions
  refreshTokens := q.refreshTokens.trans h.refreshTokens
  signed := q.signed.trans h.signed
  session := h.session
  expiry := h.expiry
  token := h.token
  family := h.family.mono (Nat.le_refl _) q.drawn
  hash := h.hash.mono (Nat.le_refl _) q.drawn
  access := h.access.mono ⟨Nat.le_refl _, Nat.le_refl _⟩ ⟨q.now, q.drawn⟩

/-- Two updates that agree on the credentials. -/
theorem credentials_updateWhere {p : User → Bool} {f g : User → User} {us : List User}
    (h : ∀ u, (f u).credentials = (g u).credentials) :
    (updateWhere p f us).map User.credentials = (updateWhere p g us).map User.credentials := by
  simp only [updateWhere, List.map_map]
  refine List.map_congr_left fun u _ => ?_
  simp only [Function.comp_apply]
  split
  · exact h u
  · rfl

theorem grows_issueSession (u : User) (c : RequestContext) :
    Leaves env (AuthService.issueSession env u c) w fun _ w' => Grows w w' := by
  have h : (AuthService.issueSession env u c).Always (Effect env False False) :=
    effect_of_made (made_issueSession trivial trivial u c)
  exact (h.mono fun _ _ => Effect.grows).ensures (fun _ _ ⟨d, h⟩ => h ▸ Grows.advance d _) w

/-- A failed attempt, from the lookup of the row on. -/
theorem leaves_registerFailedLoginAttempt {u : User} {id : String} {N D : Nat}
    (hu : w.users.find? (·.id == id) = some u) :
    Leaves env (UsersRepository.registerFailedLoginAttempt id N D) w (Succeeds fun _ w' =>
      ∃ w₁ failedAt, Quiet w w₁ ∧ w₁.users = w.users ∧ w₁.verified = w.verified ∧
        w.now ≤ failedAt ∧ failedAt ≤ w₁.now ∧
        w' = { w₁ with users := updateWhere (·.id == id) (u.failed N D failedAt).withLockout
                                  w₁.users }) := by
  refine .atomic_bind fun w₁ h₁ => ?_
  have q₁ := Quiet.lapse h₁
  have hu₁ := lapse_users h₁
  simp only [hu₁, hu]
  refine .ite (fun hN => .query_bind fun w₂ h₂ => ?_) fun hN => ensures_atomic.mpr fun w₂ h₂ => ?_
  · obtain ⟨hd, -⟩ | ⟨-, m, hd⟩ := dateTime_minutes_cases w₂.now D
    · rw [hd]
      refine ensures_atomic.mpr fun w₃ h₃ => ?_
      have hu₃ : w₃.users = w.users := (lapse_users h₃).trans ((lapse_users h₂).trans hu₁)
      have q₂ := q₁.trans (.lapse h₂)
      rw [hu₃]
      simp only [hu]
      refine ⟨w₃, w₂.now, q₂.trans (.lapse h₃), hu₃, ?_, q₂.now, (Quiet.lapse h₃).now, ?_⟩
      · exact (lapse_verified h₃).trans ((lapse_verified h₂).trans (lapse_verified h₁))
      · simp only [User.failed, hN, if_true, hu₃]
        rfl
    · rw [hd]
      exact ensures_atomic.mpr fun w₃ _ => ⟨m, rfl⟩
  · have hu₂ : w₂.users = w.users := (lapse_users h₂).trans hu₁
    have q₂ := q₁.trans (.lapse h₂)
    rw [hu₂]
    simp only [hu]
    refine ⟨w₂, w₂.now, q₂, hu₂, (lapse_verified h₂).trans (lapse_verified h₁), q₂.now,
      Nat.le_refl _, ?_⟩
    simp only [User.failed, hN, if_false, hu₂]
    rfl

theorem leaves_login (hw : HashMinted env w) (hf : Fresh env w) (dto : LoginDto)
    (c : RequestContext) :
    Leaves env (AuthService.login env dto c) w fun r w' => LoggedIn env dto w w' r := by
  refine .query_bind fun w₁ h₁ => ?_
  have q₁ := Quiet.lapse h₁
  have hu₁ := lapse_users h₁
  rw [hu₁]
  cases hu : w.users.find? fun u => u.email == env.toLowerCase dto.email && u.deletedAt.isNone with
  | none =>
    refine .atomic_bind fun w₂ h₂ => ensures_throw.mpr (.unknown hu ?_ ?_)
    · exact q₁.trans (quiet_emit h₂ _)
    · exact (lapse_verified h₂).trans (lapse_verified h₁)
  | some u =>
    have hid : w.users.find? (·.id == u.id) = some u :=
      hf.userId.find?.mpr ⟨List.mem_of_find?_eq_some hu, rfl⟩
    refine .query_bind fun w₂ h₂ => ?_
    have q₂ := q₁.trans (.lapse h₂)
    have hu₂ := (lapse_users h₂).trans hu₁
    have hv₂ := (lapse_verified h₂).trans (lapse_verified h₁)
    refine .ite (fun hl => .atomic_bind fun w₃ h₃ => ensures_throw.mpr ?_) fun hl => ?_
    · have q₃ := quiet_emit h₃ (.loginFailed (env.toLowerCase dto.email) .FAILED_LOCKED c (some u.id))
      exact .locked hu ⟨q₂.now, q₃.now⟩ hl (q₂.trans q₃) ((lapse_verified h₃).trans hv₂)
    have hl : u.lockedUntil.any (w₂.now < ·) = false := by simpa using hl
    refine .atomic_bind fun w₃ h₃ => ?_
    have q₃ := (Quiet.lapse h₃).trans (Minor.quiet (.verify u.passwordHash dto.password))
    have hu₃ := (lapse_users h₃).trans hu₂
    have hv₃ : w₃.verified ++ [(u.passwordHash, dto.password)] =
        w.verified ++ [(u.passwordHash, dto.password)] := by rw [lapse_verified h₃, hv₂]
    have hid₃ : w₃.users.find? (·.id == u.id) = some u := by rw [hu₃, hid]
    refine .ite (fun hp => ?_) fun hp => ?_
    · refine ensures_bind.mpr ((leaves_registerFailedLoginAttempt (by exact hid₃)).mono ?_)
      rintro (e | a) _ h
      · obtain ⟨m, rfl⟩ := h
        exact .broken
      obtain ⟨w₄, failedAt, q₄, hu₄, hv₄, h₄, h₄', rfl⟩ := h
      refine .atomic_bind fun w₅ h₅ => ensures_throw.mpr ?_
      have q₅ := quiet_emit h₅
        (.loginFailed (env.toLowerCase dto.email) .FAILED_PASSWORD c (some u.id))
      have hu₅ : w₄.users = w.users := hu₄.trans hu₃
      refine .wrong hu ⟨q₂.now, q₃.now.trans h₄, h₄'.trans q₅.now⟩ hl (by simpa using hp) ?_ ?_ ?_
      · exact (lapse_verified h₅).trans (hv₄.trans hv₃)
      · refine (q₂.trans (q₃.trans q₄)).calm.trans (.trans (.updateUser ?_) q₅.calm)
        exact fun _ => ⟨rfl, rfl⟩
      · rw [q₅.users, hu₅]
    · have hp : env.argon2Verify u.passwordHash dto.password = true := by simpa using hp
      refine .atomic_bind fun w₄ h₄ => ?_
      have q₄ := Quiet.lapse h₄
      have hu₄ := (lapse_users h₄).trans hu₃
      have hid₄ : w₄.users.find? (·.id == u.id) = some u := by rw [hu₄, hid]
      simp only [hid₄]
      have hc : Calm w { w₄ with users := updateWhere (·.id == u.id) (User.loggedIn w₄.now) w₄.users } :=
        (q₂.trans (q₃.trans q₄)).calm.trans (.updateUser fun _ => ⟨rfl, rfl⟩)
      refine ensures_bind.mpr (((leaves_issueSession (hw.calm hc) u c).and
        (grows_issueSession u c)).mono ?_)
      rintro (e | tokens) w₅ ⟨h, hg⟩
      · obtain ⟨m, rfl⟩ := h
        exact .broken
      obtain ⟨s, t, -, h⟩ := h
      refine .atomic_bind fun w₆ h₆ => ensures_ret.mpr ?_
      have q₆ := quiet_emit h₆ (.userLoggedIn u.id u.email tokens.sessionId c)
      refine .right hu ⟨q₂.now, ?_⟩ hl hp ?_ hc ?_ (h.before q₆)
      · exact q₃.now.trans (q₄.now.trans (h.now.trans q₆.now))
      · have hv₄ : w₄.verified = w.verified ++ [(u.passwordHash, dto.password)] :=
          (lapse_verified h₄).trans hv₃
        exact hv₄ ▸ lapse_verified h₆ ▸ hg.verified
      · rw [hu₄]
        exact credentials_updateWhere fun _ => rfl

/-! ## Password changes -/

/-- What `updatePassword` makes of the row. -/
def User.withPassword (passwordHash : String) (u : User) : User :=
  { u.resetLockout with passwordHash }

/-- The user `u` has the new password, and nothing else of what matters has
changed. -/
structure PasswordUpdated (env : Env) (u new : String) (w w' : World) : Prop where
  calm : Calm w w'
  found : (w.users.find? (·.id == u)).isSome = true
  users : ∃ k, w'.users.map User.credentials =
    (updateWhere (·.id == u) (User.withPassword (env.argon2Hash k new)) w.users).map User.credentials

/-- The user `u` has the new password, and no session but the one kept. -/
def PasswordChanged (env : Env) (u new : String) (kept : Option String) (w w' : World) : Prop :=
  ∃ w₁, PasswordUpdated env u new w w₁ ∧ SessionsEvicted env (liveSessionsOf w u kept) w₁ w'

theorem PasswordUpdated.before {u new : String} (h : PasswordUpdated env u new w w')
    (q : Quiet w' w'') : PasswordUpdated env u new w w'' :=
  ⟨h.calm.trans q.calm, h.found, q.users ▸ h.users⟩

/-- An update of a row with the same credentials. -/
theorem credentials_withPassword {us us' : List User} {id hash : String}
    (h : us'.map User.credentials = us.map User.credentials) :
    (updateWhere (·.id == id) (User.withPassword hash) us').map User.credentials =
      (updateWhere (·.id == id) (User.withPassword hash) us).map User.credentials := by
  induction us generalizing us' with
  | nil => simp_all
  | cons u us ih =>
    cases us' with
    | nil => cases h
    | cons u' us' =>
      simp only [List.map_cons, List.cons.injEq] at h
      obtain ⟨hu, hus⟩ := h
      have hid : u'.id = u.id := congrArg Prod.fst hu
      have hd : u'.deletedAt = u.deletedAt := congrArg (·.2.1) hu
      simp only [updateWhere_cons, List.map_cons, ih hus, hid]
      congr 1
      split
      · simp [User.credentials, User.withPassword, User.resetLockout, hid, hd]
      · exact hu

theorem leaves_updatePassword (q : Quiet w w') {u new : String} {k : Nat} :
    Leaves env (UsersRepository.updatePassword u (env.argon2Hash k new)) w' (Ends w fun _ w'' =>
      PasswordUpdated env u new w w'' ∧ w''.passwordResetTokens = w'.passwordResetTokens) := by
  refine ensures_atomic.mpr fun w₁ h₁ => ?_
  have q₁ := q.trans (.lapse h₁)
  cases hu : w₁.users.find? (·.id == u) with
  | none => exact .inr q₁
  | some v =>
    refine ⟨⟨q₁.calm.trans (.updateUser fun _ => ⟨rfl, rfl⟩), ?_, k, ?_⟩, ?_⟩
    · have := find?_credentials (fun _ => ()) (fun _ => ()) (fun _ => rfl) q₁.users u
      rw [hu] at this
      simpa using congrArg Option.isSome this.symm
    · exact credentials_withPassword q₁.users
    · obtain ⟨d, rfl⟩ := h₁
      rfl

/-- The end of a password change, after the update. -/
theorem leaves_evictUser {u new : String} (h : PasswordUpdated env u new w w') (c : RequestContext)
    (kept : Option String) (e : Event) :
    Leaves env (do
      let _ ← SessionsService.revokeAll env u c kept
      emit e) w' (Ends w fun _ w'' => PasswordChanged env u new kept w w'') := by
  refine ends_of_succeeds (leaves_bind (leaves_revokeAll u c kept) fun _ w₁ ⟨_, h₁⟩ =>
    ensures_atomic.mpr fun w₂ h₂ => ⟨w', h, ?_⟩)
  have q₂ := quiet_emit h₂ e
  have hs := liveSessionsOf_congr h.calm.sessions u kept
  obtain ⟨ttl, httl, hk⟩ := h₁.redis
  exact {
    now := h₁.now.trans q₂.now
    drawn := h₁.drawn.trans q₂.drawn
    users := q₂.users.trans h₁.users
    sessions := hs ▸ q₂.sessions ▸ h₁.sessions
    refreshTokens := hs ▸ q₂.refreshTokens ▸ h₁.refreshTokens
    signed := q₂.signed.trans h₁.signed
    redis := ⟨ttl, httl, hs ▸ q₂.redis ▸ hk.mono (Nat.le_refl _) q₂.now⟩ }

theorem leaves_resetPassword (token new : String) (c : RequestContext) :
    Leaves env (PasswordService.resetPassword env token new c) w (Ends w fun _ w' =>
      ∃ r ∈ w.passwordResetTokens.find? (·.tokenHash == env.sha256 token),
        PasswordChanged env r.userId new none w w') := by
  refine .query_bind fun w₁ h₁ => ?_
  have q₁ := Quiet.lapse h₁
  have hlinks : w₁.passwordResetTokens = w.passwordResetTokens := by
    obtain ⟨d, rfl⟩ := h₁
    rfl
  rw [hlinks]
  cases hr : w.passwordResetTokens.find? (·.tokenHash == env.sha256 token) with
  | none => exact ends_throw q₁ _
  | some r =>
    refine .query_bind fun w₂ h₂ => .ite (fun _ => ends_throw (q₁.trans (.lapse h₂)) _) fun _ => ?_
    refine .atomic_bind fun w₃ h₃ => ?_
    have q₃ : Quiet w { w₃ with drawn := w₃.drawn + 1 } :=
      q₁.trans ((Quiet.lapse h₂).trans ((Quiet.lapse h₃).trans (Minor.quiet .draw)))
    have hlinks₃ : w₃.passwordResetTokens = w.passwordResetTokens := by
      obtain ⟨d₂, rfl⟩ := h₂
      obtain ⟨d₃, rfl⟩ := h₃
      exact hlinks
    refine ends_bind (leaves_updatePassword q₃) fun _ w₄ ⟨h₄, hlinks₄⟩ => .atomic_bind fun w₅ h₅ => ?_
    have hlinks₅ : w₅.passwordResetTokens = w.passwordResetTokens := by
      obtain ⟨d₅, rfl⟩ := h₅
      exact hlinks₄.trans hlinks₃
    cases hm : w₅.passwordResetTokens.find? (·.id == r.id) with
    | none =>
      have := List.find?_eq_none.mp hm r (hlinks₅ ▸ List.mem_of_find?_eq_some hr)
      simp at this
    | some r' =>
      refine (leaves_evictUser (h₄.before ((Quiet.lapse h₅).trans (Minor.quiet ?_))) c none _).mono
        fun x w' hx => ?_
      · exact .links (Nat.le_refl _) _ _
      · cases x with
        | ok a => exact ⟨r, rfl, hx⟩
        | error e => exact hx

theorem leaves_changePassword (bearer : JwtPayload) (current new : String) (c : RequestContext) :
    Leaves env (AuthController.changePassword env bearer current new c) w (Ends w fun _ w' =>
      bearer ∈ w.signed ∧ PasswordChanged env bearer.sub new (some bearer.sessionId) w w') := by
  refine (leaves_canActivate bearer).bind (fun p w₁ ⟨q₁, h⟩ => ?_) fun _ _ h => .inr h.1
  obtain ⟨rfl, hm⟩ := h p rfl
  refine .query_bind fun w₂ h₂ => ?_
  have q₂ := q₁.trans (.lapse h₂)
  split
  · rename_i user _
    refine ends_bind_minor q₂ (minor_verify _ _) fun ok w₃ q₃ => .ite (fun _ => ends_throw q₃ _)
      fun _ => .atomic_bind fun w₄ h₄ => ?_
    have q₄ : Quiet w { w₄ with drawn := w₄.drawn + 1 } :=
      q₃.trans ((Quiet.lapse h₄).trans (Minor.quiet .draw))
    refine ends_bind (leaves_updatePassword q₄) fun _ w₅ ⟨h₅, _⟩ => ?_
    refine (leaves_evictUser h₅ c (some p.sessionId) _).mono fun x w' hx => ?_
    cases x with
    | ok a => exact ⟨hm, hx⟩
    | error e => exact hx
  · exact ends_throw q₂ _

end AtlasAuth

import AtlasAuth.Proof.Calls

/-!
# What a call does

Every call of every request is one of a few changes to the state: `Minor` for
those that leave sessions, refresh tokens, credentials and the blacklist
alone, and `Effect` for all of them, with what the code makes sure of before
it makes the change. `effect_program` says so of every request; what an
invariant needs to know about the requests it learns from the constructors of
`Effect`, not from their code.
-/

namespace AtlasAuth

open Framework Framework.Table

/-- An update that touches neither the identity of a user nor the credentials. -/
def User.SameCredentials (u u' : User) : Prop :=
  u'.id = u.id ∧ u'.deletedAt = u.deletedAt ∧ u'.passwordHash = u.passwordHash ∧
    u'.failedLoginAttempts = u.failedLoginAttempts ∧ u'.lockedUntil = u.lockedUntil

/-- An update of the lockout. -/
def User.SamePassword (u u' : User) : Prop :=
  u'.id = u.id ∧ u'.deletedAt = u.deletedAt ∧ u'.passwordHash = u.passwordHash

/-- An update of the credentials. -/
def User.SameIdentity (u u' : User) : Prop := u'.id = u.id ∧ u'.deletedAt = u.deletedAt

inductive Minor (w : World) : World → Prop
  | none : Minor w w
  | draw : Minor w { w with drawn := w.drawn + 1 }
  | emit (e : Event) : Minor w { w with events := w.events ++ [e] }
  | verify (h p : String) : Minor w { w with verified := w.verified ++ [(h, p)] }
  | send (m : Mail) : Minor w { w with outbox := w.outbox ++ [m] }
  | updateUser {id : String} {data : User → User}
      (h : ∀ u : User, u.SameCredentials (data u)) :
      Minor w { w with users := updateWhere (·.id == id) data w.users }
  | devices {n : Nat} (h : w.drawn ≤ n) (devices : List Device) :
      Minor w { w with drawn := n, devices }
  | links {n : Nat} (h : w.drawn ≤ n) (passwordResetTokens : List PasswordResetToken)
      (emailVerificationTokens : List EmailVerificationToken) :
      Minor w { w with drawn := n, passwordResetTokens, emailVerificationTokens }
  | rbac (rbac : Rbac) : Minor w { w with drawn := w.drawn + 1, rbac }

/-- A call, which may touch the lockout only if `lockout`, and passwords only
if `password`. -/
inductive Effect (env : Env) (lockout password : Prop) (w : World) : World → Prop
  | minor {w' : World} (h : Minor w w') : Effect env lockout password w w'
  | createUser {u : User} (hid : u.id = env.randomUUID w.drawn) (hd : u.deletedAt = none)
      (hl : u.failedLoginAttempts = 0 ∧ u.lockedUntil = none)
      (hemail : ∀ u' ∈ w.users, u'.email ≠ u.email) :
      Effect env lockout password w { w with drawn := w.drawn + 1, users := w.users ++ [u] }
  | updateLockout {id : String} {data : User → User} (hl : lockout)
      (h : ∀ u : User, u.SamePassword (data u)) :
      Effect env lockout password w { w with users := updateWhere (·.id == id) data w.users }
  | updatePassword {id : String} {data : User → User} (hp : password)
      (h : ∀ u : User, u.SameIdentity (data u)) :
      Effect env lockout password w { w with users := updateWhere (·.id == id) data w.users }
  | createSession {s : Session} (hid : s.id = env.randomUUID w.drawn) (hr : s.isRevoked = false) :
      Effect env lockout password w { w with drawn := w.drawn + 1, sessions := w.sessions ++ [s] }
  | touchSession (id : String) (expiresAt : Time) :
      Effect env lockout password w
        { w with sessions := updateWhere (·.id == id)
                   (fun s => { s with lastActiveAt := w.now, expiresAt }) w.sessions }
  | createRefreshToken {t : RefreshToken} (hid : t.id = env.randomUUID w.drawn)
      (hr : t.revokedAt = none ∧ t.replacedByTokenHash = none)
      (hhash : ∀ t' ∈ w.refreshTokens, t'.tokenHash ≠ t.tokenHash) :
      Effect env lockout password w
        { w with drawn := w.drawn + 1, refreshTokens := w.refreshTokens ++ [t] }
  | replaceRefreshToken (id hash : String) :
      Effect env lockout password w
        { w with refreshTokens := updateWhere (·.id == id)
                   (fun t => { t with revokedAt := some w.now, replacedByTokenHash := some hash })
                   w.refreshTokens }
  | revokeSessions (p : Session → Bool) :
      Effect env lockout password w
        { w with sessions := updateWhere p (Session.revoke w.now) w.sessions }
  | revokeRefreshTokens (q : RefreshToken → Bool) :
      Effect env lockout password w
        { w with refreshTokens := updateWhere q (RefreshToken.revoke w.now) w.refreshTokens }
  | revokeBoth (p : Session → Bool) (q : RefreshToken → Bool) :
      Effect env lockout password w
        { w with sessions := updateWhere p (Session.revoke w.now) w.sessions,
                 refreshTokens := updateWhere q (RefreshToken.revoke w.now) w.refreshTokens }
  | sign (p : JwtPayload) : Effect env lockout password w { w with signed := w.signed ++ [p] }
  | redisSet (key : String) (h : Held String) :
      Effect env lockout password w { w with redis := w.redis.set key h }

instance : Std.Refl Minor := ⟨fun _ => .none⟩

variable {env : Env} {lockout password : Prop}

instance : Std.Refl (Effect env lockout password) := ⟨fun _ => .minor .none⟩

theorem of_minor {α : Type} {p : App α} (h : p.Always Minor) :
    p.Always (Effect env lockout password) := h.mono fun _ _ => .minor

/-! ## Single calls -/

section

open Prog

theorem minor_randomUUID : (randomUUID env).Always Minor := always_atomic.mpr fun _ => .draw
theorem minor_randomBytes : (randomBytes env).Always Minor := always_atomic.mpr fun _ => .draw
theorem minor_emit (e : Event) : (emit e).Always Minor := always_atomic.mpr fun _ => .emit e
theorem minor_hash (p : String) : (HashingService.hash env p).Always Minor :=
  always_atomic.mpr fun _ => .draw
theorem minor_verify (h p : String) : (HashingService.verify env h p).Always Minor :=
  always_atomic.mpr fun _ => .verify h p
theorem minor_send (r : String) (k : MailKind) (t : String) : (MailService.send r k t).Always Minor :=
  always_atomic.mpr fun _ => .send _

theorem effect_usersCreate (email hash : String) (first last : Option String) :
    (UsersRepository.create env email hash first last).Always (Effect env lockout password) := by
  refine always_atomic.mpr fun w => ?_
  split
  · exact .minor .none
  · rename_i h
    refine .createUser rfl rfl ⟨rfl, rfl⟩ fun u' hu' e => h ?_
    simpa using ⟨u', hu', e⟩

/-- An update of a user, by what it does to the row. -/
theorem always_usersUpdate {G : World → World → Prop} [Std.Refl G] {call : Call} {id : String}
    {data : Time → User → User}
    (h : ∀ w, G w { w with users := updateWhere (·.id == id) (data w.now) w.users }) :
    (UsersRepository.update call id data).Always G := by
  refine always_atomic.mpr fun w => ?_
  split
  · exact Std.Refl.refl w
  · exact h w

/-- A date that Prisma refuses updates nothing. -/
theorem always_updateFailedLogin {G : World → World → Prop} [Std.Refl G] {id : String} {n : Nat}
    (h : ∀ w t, G w { w with
      users := updateWhere (·.id == id) (fun u => { u with failedLoginAttempts := n, lockedUntil := t })
        w.users })
    (t : Except Exn (Option Time)) : (UsersRepository.updateFailedLogin id n t).Always G := by
  cases t with
  | ok t =>
    unfold UsersRepository.updateFailedLogin
    exact always_usersUpdate fun w => h w t
  | error e => exact always_atomic.mpr fun w => Std.Refl.refl w

theorem minor_markEmailVerified (id : String) :
    (UsersRepository.markEmailVerified id).Always Minor :=
  always_usersUpdate fun _ => .updateUser fun _ => ⟨rfl, rfl, rfl, rfl, rfl⟩

theorem minor_updateProfile (id : String) (first last avatar : Option String) :
    (UsersRepository.updateProfile id first last avatar).Always Minor :=
  always_usersUpdate fun _ => .updateUser fun _ => ⟨rfl, rfl, rfl, rfl, rfl⟩

theorem effect_recordSuccessfulLogin (hl : lockout) (id : String) :
    (UsersRepository.recordSuccessfulLogin id).Always (Effect env lockout password) :=
  always_usersUpdate fun _ => .updateLockout hl fun _ => ⟨rfl, rfl, rfl⟩

theorem effect_updateFailedLogin (hl : lockout) (id : String) (n : Nat)
    (t : Except Exn (Option Time)) :
    (UsersRepository.updateFailedLogin id n t).Always (Effect env lockout password) :=
  always_updateFailedLogin (fun _ _ => .updateLockout hl fun _ => ⟨rfl, rfl, rfl⟩) t

theorem effect_updatePassword (hp : password) (id hash : String) :
    (UsersRepository.updatePassword id hash).Always (Effect env lockout password) :=
  always_usersUpdate fun _ => .updatePassword hp fun _ => ⟨rfl, rfl⟩

theorem minor_findUniqueOrThrow (id : String) :
    (UsersRepository.findUniqueOrThrow id).Always Minor := by
  refine always_atomic.mpr fun w => ?_
  split <;> exact .none

theorem minor_updateEmail (id email : String) :
    (UsersRepository.updateEmail id email).Always Minor := by
  refine always_atomic.mpr fun w => ?_
  split
  · exact .none
  · split
    · exact .none
    · refine .updateUser ?_
      exact fun _ => ⟨rfl, rfl, rfl, rfl, rfl⟩

theorem minor_upsertDevice (u f : String) (ua ip : Option String) :
    (AuthRepository.upsertDevice env u f ua ip).Always Minor := by
  refine always_atomic.mpr fun w => ?_
  simp only
  split
  · exact .devices (Nat.le_refl _) _
  · exact .devices (Nat.le_succ _) _

theorem effect_createSession (u d : String) (ip ua : Option String) (e : JsDate) :
    (AuthRepository.createSession env u d ip ua e).Always (Effect env lockout password) := by
  refine always_atomic.mpr fun w => ?_
  split
  · exact .minor .none
  · exact .createSession rfl rfl

theorem effect_revokeSession (id : String) :
    (AuthRepository.revokeSession id).Always (Effect env lockout password) := by
  refine always_atomic.mpr fun w => ?_
  split
  · exact .minor .none
  · exact .revokeSessions _

theorem effect_touchSession (id : String) (e : JsDate) :
    (AuthRepository.touchSession id e).Always (Effect env lockout password) := by
  refine always_atomic.mpr fun w => ?_
  split
  · exact .minor .none
  · exact .minor .none
  · exact .touchSession ..

theorem effect_createRefreshToken (u s f h : String) (e : JsDate) (ip : Option String) :
    (AuthRepository.createRefreshToken env u s f h e ip).Always (Effect env lockout password) := by
  refine always_atomic.mpr fun w => ?_
  split
  · exact .minor .none
  · split
    · exact .minor .none
    · rename_i hn
      exact .createRefreshToken rfl ⟨rfl, rfl⟩ fun t ht e => hn (by simpa using ⟨t, ht, e⟩)

theorem effect_revokeRefreshToken (id h : String) :
    (AuthRepository.revokeRefreshToken id h).Always (Effect env lockout password) := by
  refine always_atomic.mpr fun w => ?_
  split
  · exact .minor .none
  · exact .replaceRefreshToken ..

theorem effect_revokeRefreshTokenFamily (f : String) :
    (AuthRepository.revokeRefreshTokenFamily f).Always (Effect env lockout password) :=
  always_atomic.mpr fun _ => .revokeRefreshTokens _

theorem effect_sessionsRevoke (id : String) :
    (SessionsRepository.revoke id).Always (Effect env lockout password) := by
  refine always_atomic.mpr fun w => ?_
  split
  · exact .minor .none
  · exact .revokeBoth ..

theorem effect_revokeMany (ids : List String) :
    (SessionsRepository.revokeMany ids).Always (Effect env lockout password) :=
  always_atomic.mpr fun _ => .revokeBoth ..

theorem minor_passwordResetCreate (u h : String) (e : JsDate) :
    (PasswordResetRepository.create env u h e).Always Minor := by
  refine always_atomic.mpr fun w => ?_
  split
  · exact .none
  · split
    · exact .none
    · exact .links (Nat.le_succ _) ..

theorem minor_passwordResetMarkConsumed (id : String) :
    (PasswordResetRepository.markConsumed id).Always Minor := by
  refine always_atomic.mpr fun w => ?_
  split
  · exact .none
  · exact .links (Nat.le_refl _) ..

theorem minor_passwordResetInvalidate (u : String) :
    (PasswordResetRepository.invalidateOutstanding u).Always Minor :=
  always_atomic.mpr fun _ => .links (Nat.le_refl _) ..

theorem minor_emailVerificationCreate (u h : String) (t : EmailTokenType) (n : Option String)
    (e : JsDate) : (EmailVerificationRepository.create env u h t n e).Always Minor := by
  refine always_atomic.mpr fun w => ?_
  split
  · exact .none
  · split
    · exact .none
    · exact .links (Nat.le_succ _) ..

theorem minor_emailVerificationMarkConsumed (id : String) :
    (EmailVerificationRepository.markConsumed id).Always Minor := by
  refine always_atomic.mpr fun w => ?_
  split
  · exact .none
  · exact .links (Nat.le_refl _) ..

theorem minor_emailVerificationInvalidate (u : String) (t : EmailTokenType) :
    (EmailVerificationRepository.invalidateOutstanding u t).Always Minor :=
  always_atomic.mpr fun _ => .links (Nat.le_refl _) ..

theorem minor_rbacCall {α : Type} (call : Call) (f : World → Except Exn (α × Rbac)) :
    (rbacCall call f).Always Minor := by
  refine always_atomic.mpr fun w => ?_
  split
  · exact .rbac _
  · exact .none

theorem effect_jwtSign (sub email : String) (rs ps : List String) (sid jti : String) (d : Double) :
    (TokenService.jwtSign sub email rs ps sid jti d).Always (Effect env lockout password) := by
  refine always_atomic.mpr fun w => ?_
  simp only
  split
  · exact .minor .none
  · exact .sign _

theorem effect_redisSet (k v : String) (d : Double) :
    (RedisService.set k v d).Always (Effect env lockout password) := by
  refine always_atomic.mpr fun w => ?_
  split
  · split
    · exact .redisSet ..
    · exact .minor .none
  · exact .minor .none

theorem minor_jwtVerify (bearer : JwtPayload) : (JwtStrategy.verify bearer).Always Minor := by
  refine always_atomic.mpr fun w => ?_
  split <;> exact .none

/-! ## Parts of services -/

/-- The kinds of call that leave sessions, refresh tokens and credentials
alone. -/
def Kind.isMinor : Kind → Bool
  | .deed .account | .deed .sign | .lockout | .password | .session => false
  | _ => true

theorem minor_call {α : Type} {p : App α} (h : SingleCall env (·.isMinor = true) p) :
    p.Always Minor := by
  cases h with
  | randomUUID => exact minor_randomUUID
  | randomBytes => exact minor_randomBytes
  | hash p => exact minor_hash p
  | verify h p => exact minor_verify h p
  | jwtVerify bearer => exact minor_jwtVerify bearer
  | emit _ => exact minor_emit _
  | send => exact minor_send ..
  | markEmailVerified _ id => exact minor_markEmailVerified id
  | updateEmail _ id email => exact minor_updateEmail id email
  | updateProfile => exact minor_updateProfile ..
  | findUniqueOrThrow id => exact minor_findUniqueOrThrow id
  | upsertDevice => exact minor_upsertDevice ..
  | passwordResetCreate => exact minor_passwordResetCreate ..
  | passwordResetMarkConsumed _ id => exact minor_passwordResetMarkConsumed id
  | passwordResetInvalidate _ u => exact minor_passwordResetInvalidate u
  | emailVerificationCreate => exact minor_emailVerificationCreate ..
  | emailVerificationMarkConsumed _ id => exact minor_emailVerificationMarkConsumed id
  | emailVerificationInvalidate => exact minor_emailVerificationInvalidate ..
  | rolesCreate | rolesUpdate | rolesDelete | rolesAssignPermission | rolesRevokePermission
  | rolesAssignToUser | rolesRevokeFromUser | permissionsCreate | permissionsDelete =>
    exact minor_rbacCall ..
  | jwtSign hA | redisSet hA | usersCreate hA | recordSuccessfulLogin hA | updateFailedLogin hA
  | updatePassword hA | createSession hA | revokeSession hA | touchSession hA | createRefreshToken hA
  | revokeRefreshToken hA | revokeRefreshTokenFamily hA | sessionsRevoke hA | revokeMany hA => cases hA
  | emitRegistered _ hA => cases hA

theorem minor_of_made (env : Env) {α : Type} {p : App α} (h : Made env (·.isMinor = true) p) :
    p.Always Minor :=
  h.always fun _ _ => minor_call

/-- Lockouts and passwords are touched only if `lockout` and `password`. -/
def effectKinds (lockout password : Prop) : Kind → Prop
  | .lockout => lockout
  | .password => password
  | _ => True

theorem effect_call {α : Type} {p : App α} (h : SingleCall env (effectKinds lockout password) p) :
    p.Always (Effect env lockout password) := by
  cases h with
  | usersCreate => exact effect_usersCreate ..
  | recordSuccessfulLogin hA id => exact effect_recordSuccessfulLogin hA id
  | updateFailedLogin hA => exact effect_updateFailedLogin hA ..
  | updatePassword hA => exact effect_updatePassword hA ..
  | jwtSign => exact effect_jwtSign ..
  | redisSet => exact effect_redisSet ..
  | createSession => exact effect_createSession ..
  | revokeSession _ id => exact effect_revokeSession id
  | touchSession => exact effect_touchSession ..
  | createRefreshToken => exact effect_createRefreshToken ..
  | revokeRefreshToken => exact effect_revokeRefreshToken ..
  | revokeRefreshTokenFamily _ f => exact effect_revokeRefreshTokenFamily f
  | sessionsRevoke _ id => exact effect_sessionsRevoke id
  | revokeMany _ ids => exact effect_revokeMany ids
  | randomUUID => exact of_minor minor_randomUUID
  | randomBytes => exact of_minor minor_randomBytes
  | hash p => exact of_minor (minor_hash p)
  | verify h p => exact of_minor (minor_verify h p)
  | jwtVerify bearer => exact of_minor (minor_jwtVerify bearer)
  | emit | emitRegistered => exact of_minor (minor_emit _)
  | send => exact of_minor (minor_send ..)
  | markEmailVerified _ id => exact of_minor (minor_markEmailVerified id)
  | updateEmail _ id email => exact of_minor (minor_updateEmail id email)
  | updateProfile => exact of_minor (minor_updateProfile ..)
  | findUniqueOrThrow id => exact of_minor (minor_findUniqueOrThrow id)
  | upsertDevice => exact of_minor (minor_upsertDevice ..)
  | passwordResetCreate => exact of_minor (minor_passwordResetCreate ..)
  | passwordResetMarkConsumed _ id => exact of_minor (minor_passwordResetMarkConsumed id)
  | passwordResetInvalidate _ u => exact of_minor (minor_passwordResetInvalidate u)
  | emailVerificationCreate => exact of_minor (minor_emailVerificationCreate ..)
  | emailVerificationMarkConsumed _ id => exact of_minor (minor_emailVerificationMarkConsumed id)
  | emailVerificationInvalidate => exact of_minor (minor_emailVerificationInvalidate ..)
  | rolesCreate | rolesUpdate | rolesDelete | rolesAssignPermission | rolesRevokePermission
  | rolesAssignToUser | rolesRevokeFromUser | permissionsCreate | permissionsDelete =>
    exact of_minor (minor_rbacCall ..)

theorem effect_of_made {α : Type} {p : App α} (h : Made env (effectKinds lockout password) p) :
    p.Always (Effect env lockout password) :=
  h.always fun _ _ => effect_call

/-! ## Requests -/

theorem Request.Makes.isMinor {r : Request} {k : Kind} (hk : r.Makes k) (h : r.isMinor = true) :
    k.isMinor = true := by
  cases k with
  | deed d => cases r <;> cases d <;> simp_all [Makes, deeds, Request.isMinor, Kind.isMinor]
  | lockout => cases r <;> simp_all [Makes, isLogin, Request.isMinor]
  | password => cases r <;> simp_all [Makes, updatesPassword, Request.isMinor]
  | session => exact absurd (h.symm.trans hk) (by decide)
  | event => rfl

theorem minor_program {r : Request} (h : r.isMinor = true) : (program env r).Always Minor :=
  minor_of_made env (made_program fun _ hk => hk.isMinor h)

/-- What every call of a request does. -/
theorem effect_program {r : Request} (hl : r.isLogin = true → lockout)
    (hp : r.updatesPassword = true → password) :
    (program env r).Always (Effect env lockout password) := by
  refine effect_of_made (made_program fun k hk => ?_)
  cases k with
  | lockout => exact hl hk
  | password => exact hp hk
  | deed | session | event => trivial

/-! ## Labels -/

variable {L : Call → Prop}

theorem calls_generateRefreshToken (h₁ : L .randomBytes) (h₂ : L .dateNow) :
    (TokenService.generateRefreshToken env).Calls L :=
  .bind (calls_atomic.mpr h₁) fun _ => .bind calls_ofExcept fun _ =>
    .bind (calls_query.mpr h₂) fun _ => trivial

theorem calls_signAccessTokenForUser (h₁ : ∀ id, L (.usersFindWithAccessById id))
    (h₂ : L .randomUUID) (h₃ : L .jwtSign) (h₄ : L .dateNow) (u : User) (sid : String) :
    (AuthService.signAccessTokenForUser env u sid).Calls L :=
  .bind (calls_query.mpr (h₁ _)) fun _ => .bind (calls_atomic.mpr h₂) fun _ =>
    .bind calls_ofExcept fun _ => .bind (calls_atomic.mpr h₃) fun _ =>
    .bind (calls_query.mpr h₄) fun _ => trivial

/-- The calls that issue a session. -/
def IssuesSession : Call → Bool
  | .upsertDevice _ | .randomBytes | .dateNow | .createSession _ | .usersFindWithAccessById _
  | .randomUUID | .jwtSign | .createRefreshToken _ => true
  | _ => false

theorem calls_issueSession (h : ∀ l, IssuesSession l = true → L l) (u : User) (c : RequestContext) :
    (AuthService.issueSession env u c).Calls L :=
  .bind (calls_atomic.mpr (h _ rfl)) fun _ =>
    .bind (calls_generateRefreshToken (h _ rfl) (h _ rfl)) fun _ =>
    .bind (calls_atomic.mpr (h _ rfl)) fun _ =>
    .bind (calls_signAccessTokenForUser (fun _ => h _ rfl) (h _ rfl) (h _ rfl) (h _ rfl) u _) fun _ =>
    .bind (calls_atomic.mpr (h _ rfl)) fun _ => .bind (calls_atomic.mpr (h _ rfl)) fun _ => trivial

theorem calls_promiseAll {ps : List (App Unit)} (h : ∀ p ∈ ps, p.Calls L) :
    (SessionsService.promiseAll ps).Calls L := by
  induction ps with
  | nil => trivial
  | cons p ps ih =>
    have rest := ih fun q hq => h q (List.mem_cons_of_mem _ hq)
    exact .bind (.handle (h p (List.mem_cons_self ..)) fun _ =>
      .bind (.handle rest fun _ => trivial) fun _ => trivial) fun _ => rest

theorem calls_blacklistSession (h : ∀ key, L (.redisSet key)) (s : String) (d : Double) :
    (TokenBlacklistService.blacklistSession s d).Calls L :=
  .ite trivial (calls_atomic.mpr (h _))

end

end AtlasAuth

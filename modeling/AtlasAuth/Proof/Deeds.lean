import AtlasAuth.Proof.Grows

/-!
# What a call does to accounts, links and roles

`Effect` follows sessions and credentials; `Does` follows the rest: the
addresses of accounts and whether they are verified, the links sent by mail,
the mails themselves, and the tables of roles and permissions. Every other
call leaves all of these alone (`Aside`). What kind of change a request makes
is said by its `Deed`s, and `does_program` says so of every request.
-/

namespace AtlasAuth

open Framework Framework.Table

/-- Who a user is, by which address, and whether the address is verified. -/
def User.account (u : User) : String × String × Bool × Option Time :=
  (u.id, u.email, u.isEmailVerified, u.deletedAt)

/-- Neither accounts, links, mails nor roles change. -/
structure Aside (w w' : World) : Prop where
  now : w'.now = w.now
  drawn : w.drawn ≤ w'.drawn
  accounts : w'.users.map User.account = w.users.map User.account
  passwordResetTokens : w'.passwordResetTokens = w.passwordResetTokens
  emailVerificationTokens : w'.emailVerificationTokens = w.emailVerificationTokens
  rbac : w'.rbac = w.rbac
  signed : w'.signed = w.signed
  outbox : w'.outbox = w.outbox
  registered : ∀ u e c, .userRegistered u e c ∈ w'.events → .userRegistered u e c ∈ w.events

theorem Aside.refl (w : World) : Aside w w :=
  ⟨rfl, Nat.le_refl _, rfl, rfl, rfl, rfl, rfl, rfl, fun _ _ _ h => h⟩

/-- A change of the tables of roles and permissions that may give a user a
role or a permission. -/
inductive Grants (env : Env) (w : World) : Rbac → Prop
  | createRole {role : Role} (hid : role.id = env.randomUUID w.drawn)
      (hname : ∀ r ∈ w.rbac.roles, r.name ≠ role.name) :
      Grants env w { w.rbac with roles := w.rbac.roles ++ [role] }
  | renameRole {id name : String} {data : Role → Role} (hid : ∀ r, (data r).id = r.id)
      (hdata : ∀ r, (data r).name = name) (hname : ∀ r ∈ w.rbac.roles, r.id ≠ id → r.name ≠ name) :
      Grants env w { w.rbac with roles := updateWhere (·.id == id) data w.rbac.roles }
  | describeRole {id : String} {data : Role → Role} (hid : ∀ r, (data r).id = r.id)
      (hdata : ∀ r, (data r).name = r.name) :
      Grants env w { w.rbac with roles := updateWhere (·.id == id) data w.rbac.roles }
  | assignPermission {rp : RolePermission} (h : rp ∉ w.rbac.rolePermissions)
      (hr : ∃ r ∈ w.rbac.roles, r.id = rp.roleId)
      (hp : ∃ p ∈ w.rbac.permissions, p.id = rp.permissionId) :
      Grants env w { w.rbac with rolePermissions := w.rbac.rolePermissions ++ [rp] }
  | assignToUser {ur : UserRole} (h : ur ∉ w.rbac.userRoles)
      (hr : ∃ r ∈ w.rbac.roles, r.id = ur.roleId) :
      Grants env w { w.rbac with userRoles := w.rbac.userRoles ++ [ur] }
  | createPermission {p : Permission} (hid : p.id = env.randomUUID w.drawn)
      (hname : ∀ p' ∈ w.rbac.permissions, p'.name ≠ p.name) :
      Grants env w { w.rbac with permissions := w.rbac.permissions ++ [p] }

/-- A change of these tables that only takes rows away. -/
inductive Withdraws (r : Rbac) : Rbac → Prop
  | deleteRole (id : String) :
      Withdraws r
        { r with
          roles := r.roles.filter (·.id != id)
          rolePermissions := r.rolePermissions.filter (·.roleId != id)
          userRoles := r.userRoles.filter (·.roleId != id) }
  | deletePermission (id : String) :
      Withdraws r
        { r with
          permissions := r.permissions.filter (·.id != id)
          rolePermissions := r.rolePermissions.filter (·.permissionId != id) }
  | revokePermission (rp : RolePermission) :
      Withdraws r { r with rolePermissions := r.rolePermissions.filter (· != rp) }
  | revokeFromUser (ur : UserRole) :
      Withdraws r { r with userRoles := r.userRoles.filter (· != ur) }

/-- A call, which makes only those changes that `L` allows. -/
inductive Does (env : Env) (L : Deed → Prop) (w : World) : World → Prop
  | aside {w' : World} (h : Aside w w') : Does env L w w'
  | create (hL : L .account) {u : User} (hid : u.id = env.randomUUID w.drawn)
      (hnew : u.isEmailVerified = false ∧ u.deletedAt = none)
      (hlower : ∃ e, u.email = env.toLowerCase e) (hemail : ∀ u' ∈ w.users, u'.email ≠ u.email) :
      Does env L w { w with drawn := w.drawn + 1, users := w.users ++ [u] }
  | register (hL : L .account) (u e : String) (c : RequestContext) :
      Does env L w { w with events := w.events ++ [.userRegistered u e c] }
  | markVerified (hL : L .address) (id : String) :
      Does env L w
        { w with users := updateWhere (·.id == id) (fun u => { u with isEmailVerified := true })
                   w.users }
  | updateEmail (hL : L .address) {id email : String}
      (hemail : ∀ u ∈ w.users, u.email = email → u.id = id) :
      Does env L w
        { w with users := updateWhere (·.id == id)
                   (fun u => { u with email, isEmailVerified := true }) w.users }
  | createReset (hL : L .resetLink) {t : PasswordResetToken} (hid : t.id = env.randomUUID w.drawn)
      (hc : t.consumedAt = none) (hhash : ∀ t' ∈ w.passwordResetTokens, t'.tokenHash ≠ t.tokenHash) :
      Does env L w
        { w with drawn := w.drawn + 1, passwordResetTokens := w.passwordResetTokens ++ [t] }
  | consumeResets (hL : L .resetLink) (p : PasswordResetToken → Bool) :
      Does env L w
        { w with passwordResetTokens :=
                   updateWhere p (fun t => { t with consumedAt := some w.now }) w.passwordResetTokens }
  | createEmail (hL : L .emailLink) {t : EmailVerificationToken}
      (hid : t.id = env.randomUUID w.drawn) (hc : t.consumedAt = none)
      (hlower : ∀ e ∈ t.newEmail, ∃ s, e = env.toLowerCase s)
      (hhash : ∀ t' ∈ w.emailVerificationTokens, t'.tokenHash ≠ t.tokenHash) :
      Does env L w
        { w with drawn := w.drawn + 1, emailVerificationTokens := w.emailVerificationTokens ++ [t] }
  | consumeEmails (hL : L .emailLink) (p : EmailVerificationToken → Bool) :
      Does env L w
        { w with emailVerificationTokens :=
                   updateWhere p (fun t => { t with consumedAt := some w.now })
                     w.emailVerificationTokens }
  | sign (hL : L .sign) (p : JwtPayload) : Does env L w { w with signed := w.signed ++ [p] }
  | send (m : Mail) (hL : L m.kind.deed) : Does env L w { w with outbox := w.outbox ++ [m] }
  | grant (hL : L .grant) {r : Rbac} (h : Grants env w r) :
      Does env L w { w with drawn := w.drawn + 1, rbac := r }
  | withdraw (hL : L .withdraw) {r : Rbac} (h : Withdraws w.rbac r) :
      Does env L w { w with drawn := w.drawn + 1, rbac := r }

variable {env : Env} {L : Deed → Prop}

theorem Does.none (w : World) : Does env L w w := .aside (.refl w)

instance : Std.Refl (Does env L) := ⟨.none⟩

theorem Does.imp {L' : Deed → Prop} (h : Does env L w w') (hL : ∀ d, L d → L' d) :
    Does env L' w w' := by
  cases h with
  | aside h => exact .aside h
  | create h hid hnew hlower hemail => exact .create (hL _ h) hid hnew hlower hemail
  | register h u e c => exact .register (hL _ h) u e c
  | markVerified h id => exact .markVerified (hL _ h) id
  | updateEmail h hemail => exact .updateEmail (hL _ h) hemail
  | createReset h hid hc hhash => exact .createReset (hL _ h) hid hc hhash
  | consumeResets h p => exact .consumeResets (hL _ h) p
  | createEmail h hid hc hlower hhash => exact .createEmail (hL _ h) hid hc hlower hhash
  | consumeEmails h p => exact .consumeEmails (hL _ h) p
  | sign h p => exact .sign (hL _ h) p
  | send m h => exact .send m (hL _ h)
  | grant h hg => exact .grant (hL _ h) hg
  | withdraw h hw => exact .withdraw (hL _ h) hw

/-! ## Single calls -/

section

open Prog

theorem does_draw (w : World) : Does env L w { w with drawn := w.drawn + 1 } :=
  .aside { Aside.refl w with drawn := Nat.le_succ _ }

theorem does_randomUUID : (randomUUID env).Always (Does env L) := always_atomic.mpr does_draw
theorem does_randomBytes : (randomBytes env).Always (Does env L) := always_atomic.mpr does_draw
theorem does_hash (p : String) : (HashingService.hash env p).Always (Does env L) :=
  always_atomic.mpr does_draw
theorem does_verify (h p : String) : (HashingService.verify env h p).Always (Does env L) :=
  always_atomic.mpr fun w => .aside { Aside.refl w with }
theorem does_send {k : MailKind} (hL : L k.deed) (r t : String) :
    (MailService.send r k t).Always (Does env L) := always_atomic.mpr fun _ => .send _ hL

/-- An event that does not announce a registration. -/
theorem does_emit {e : Event} (he : ∀ u a c, e ≠ .userRegistered u a c) :
    (emit e).Always (Does env L) := by
  refine always_atomic.mpr fun w => .aside { Aside.refl w with registered := fun u a c h => ?_ }
  rcases List.mem_append.mp h with h | h
  · exact h
  · exact absurd (List.mem_singleton.mp h).symm (he u a c)

theorem does_emitRegistered (hL : L .account) (u e : String) (c : RequestContext) :
    (emit (.userRegistered u e c)).Always (Does env L) :=
  always_atomic.mpr fun _ => .register hL u e c

theorem does_usersCreate (hL : L .account) (email hash : String) (first last : Option String) :
    (UsersRepository.create env (env.toLowerCase email) hash first last).Always (Does env L) := by
  refine always_atomic.mpr fun w => ?_
  split
  · exact .none w
  · rename_i h
    refine .create hL rfl ⟨rfl, rfl⟩ ⟨email, rfl⟩ fun u' hu' e => h ?_
    simpa using ⟨u', hu', e⟩

/-- An update of a user that leaves the account alone. -/
theorem does_usersUpdate {call : Call} {id : String} {data : Time → User → User}
    (h : ∀ now u, (data now u).account = u.account) :
    (UsersRepository.update call id data).Always (Does env L) :=
  always_usersUpdate fun w =>
    .aside { Aside.refl w with accounts := map_updateWhere fun u _ => h w.now u }

theorem does_recordSuccessfulLogin (id : String) :
    (UsersRepository.recordSuccessfulLogin id).Always (Does env L) :=
  does_usersUpdate fun _ _ => rfl

theorem does_updateFailedLogin (id : String) (n : Nat) (t : Except Exn (Option Time)) :
    (UsersRepository.updateFailedLogin id n t).Always (Does env L) :=
  always_updateFailedLogin
    (fun w _ => .aside { Aside.refl w with accounts := map_updateWhere fun _ _ => rfl }) t

theorem does_updateProfile (id : String) (first last avatar : Option String) :
    (UsersRepository.updateProfile id first last avatar).Always (Does env L) :=
  does_usersUpdate fun _ _ => rfl

theorem does_updatePassword (id hash : String) :
    (UsersRepository.updatePassword id hash).Always (Does env L) :=
  does_usersUpdate fun _ _ => rfl

theorem does_markEmailVerified (hL : L .address) (id : String) :
    (UsersRepository.markEmailVerified id).Always (Does env L) :=
  always_usersUpdate fun _ => .markVerified hL id

theorem does_findUniqueOrThrow (id : String) :
    (UsersRepository.findUniqueOrThrow id).Always (Does env L) := by
  refine always_atomic.mpr fun w => ?_
  split <;> exact .none w

theorem does_updateEmail (hL : L .address) (id email : String) :
    (UsersRepository.updateEmail id email).Always (Does env L) := by
  refine always_atomic.mpr fun w => ?_
  split
  · exact .none w
  · split
    · exact .none w
    · rename_i h
      refine .updateEmail hL fun u hu e => ?_
      by_contra hne
      exact h (by simpa using ⟨u, hu, e, hne⟩)

theorem does_upsertDevice (u f : String) (ua ip : Option String) :
    (AuthRepository.upsertDevice env u f ua ip).Always (Does env L) := by
  refine always_atomic.mpr fun w => ?_
  dsimp only
  split
  · exact .aside { Aside.refl w with }
  · exact .aside { Aside.refl w with drawn := Nat.le_succ _ }

theorem does_createSession (u d : String) (ip ua : Option String) (e : JsDate) :
    (AuthRepository.createSession env u d ip ua e).Always (Does env L) := by
  refine always_atomic.mpr fun w => ?_
  split
  · exact .none w
  · exact .aside { Aside.refl w with drawn := Nat.le_succ _ }

theorem does_revokeSession (id : String) : (AuthRepository.revokeSession id).Always (Does env L) := by
  refine always_atomic.mpr fun w => ?_
  split <;> exact .aside { Aside.refl w with }

theorem does_touchSession (id : String) (e : JsDate) :
    (AuthRepository.touchSession id e).Always (Does env L) := by
  refine always_atomic.mpr fun w => ?_
  split <;> exact .aside { Aside.refl w with }

theorem does_createRefreshToken (u s f h : String) (e : JsDate) (ip : Option String) :
    (AuthRepository.createRefreshToken env u s f h e ip).Always (Does env L) := by
  refine always_atomic.mpr fun w => ?_
  split
  · exact .none w
  · split
    · exact .none w
    · exact .aside { Aside.refl w with drawn := Nat.le_succ _ }

theorem does_revokeRefreshToken (id h : String) :
    (AuthRepository.revokeRefreshToken id h).Always (Does env L) := by
  refine always_atomic.mpr fun w => ?_
  split <;> exact .aside { Aside.refl w with }

theorem does_revokeRefreshTokenFamily (f : String) :
    (AuthRepository.revokeRefreshTokenFamily f).Always (Does env L) :=
  always_atomic.mpr fun w => .aside { Aside.refl w with }

theorem does_sessionsRevoke (id : String) : (SessionsRepository.revoke id).Always (Does env L) := by
  refine always_atomic.mpr fun w => ?_
  split <;> exact .aside { Aside.refl w with }

theorem does_revokeMany (ids : List String) :
    (SessionsRepository.revokeMany ids).Always (Does env L) :=
  always_atomic.mpr fun w => .aside { Aside.refl w with }

theorem does_passwordResetCreate (hL : L .resetLink) (u h : String) (e : JsDate) :
    (PasswordResetRepository.create env u h e).Always (Does env L) := by
  refine always_atomic.mpr fun w => ?_
  split
  · exact .none w
  · split
    · exact .none w
    · rename_i hn
      exact .createReset hL rfl rfl fun t ht e => hn (by simpa using ⟨t, ht, e⟩)

theorem does_passwordResetMarkConsumed (hL : L .resetLink) (id : String) :
    (PasswordResetRepository.markConsumed id).Always (Does env L) := by
  refine always_atomic.mpr fun w => ?_
  split
  · exact .none w
  · exact .consumeResets hL _

theorem does_passwordResetInvalidate (hL : L .resetLink) (u : String) :
    (PasswordResetRepository.invalidateOutstanding u).Always (Does env L) :=
  always_atomic.mpr fun _ => .consumeResets hL _

theorem does_emailVerificationCreate (hL : L .emailLink) (u h : String) (t : EmailTokenType)
    {n : Option String} (hn : ∀ e ∈ n, ∃ s, e = env.toLowerCase s) (e : JsDate) :
    (EmailVerificationRepository.create env u h t n e).Always (Does env L) := by
  refine always_atomic.mpr fun w => ?_
  split
  · exact .none w
  · split
    · exact .none w
    · rename_i hh
      exact .createEmail hL rfl rfl hn fun t ht e => hh (by simpa using ⟨t, ht, e⟩)

theorem does_emailVerificationMarkConsumed (hL : L .emailLink) (id : String) :
    (EmailVerificationRepository.markConsumed id).Always (Does env L) := by
  refine always_atomic.mpr fun w => ?_
  split
  · exact .none w
  · exact .consumeEmails hL _

theorem does_emailVerificationInvalidate (hL : L .emailLink) (u : String) (t : EmailTokenType) :
    (EmailVerificationRepository.invalidateOutstanding u t).Always (Does env L) :=
  always_atomic.mpr fun _ => .consumeEmails hL _

/-- A call on the tables of roles and permissions, by the tables it leaves. -/
theorem does_rbacCall {α : Type} {call : Call} {f : World → Except Exn (α × Rbac)}
    (h : ∀ w a r, f w = .ok (a, r) → Does env L w { w with drawn := w.drawn + 1, rbac := r }) :
    (rbacCall call f).Always (Does env L) := by
  refine always_atomic.mpr fun w => ?_
  split
  · exact h w _ _ ‹_›
  · exact .none w

theorem does_jwtSign (hL : L .sign) (sub email : String) (rs ps : List String) (sid jti : String)
    (d : Double) : (TokenService.jwtSign sub email rs ps sid jti d).Always (Does env L) := by
  refine always_atomic.mpr fun w => ?_
  dsimp only
  split
  · exact .none w
  · exact .sign hL _

theorem does_redisSet (k v : String) (d : Double) : (RedisService.set k v d).Always (Does env L) := by
  refine always_atomic.mpr fun w => ?_
  split
  · split <;> exact .aside { Aside.refl w with }
  · exact .none w

theorem does_jwtVerify (bearer : JwtPayload) : (JwtStrategy.verify bearer).Always (Does env L) := by
  refine always_atomic.mpr fun w => ?_
  split <;> exact .none w

/-! ## Roles and permissions -/

theorem does_rolesCreate (hL : L .grant) (name : String) (d : Option String) :
    (RolesRepository.create env name d).Always (Does env L) := by
  refine does_rbacCall fun w a r h => ?_
  dsimp only at h
  split at h
  · cases h
  · rename_i hn
    cases h
    exact .grant hL (.createRole rfl fun r hr e => hn (by simpa using ⟨r, hr, e⟩))

theorem does_rolesUpdate (hL : L .grant) (id : String) (name d : Option String) :
    (RolesRepository.update id name d).Always (Does env L) := by
  refine does_rbacCall fun w a r h => ?_
  dsimp only at h
  split at h
  · cases h
  split at h
  · cases h
  rename_i hn
  cases h
  cases name with
  | none => exact .grant hL (.describeRole (fun _ => rfl) fun _ => rfl)
  | some name =>
    refine .grant hL (.renameRole (fun _ => rfl) (fun _ => rfl) fun r hr hid e => hn ?_)
    simpa using ⟨r, hr, hid, e.symm⟩

theorem does_rolesDelete (hL : L .withdraw) (id : String) :
    (RolesRepository.delete id).Always (Does env L) := by
  refine does_rbacCall fun w a r h => ?_
  dsimp only at h
  split at h
  · cases h
  · cases h
    exact .withdraw hL (.deleteRole id)

theorem does_rolesAssignPermission (hL : L .grant) (roleId permissionId : String) :
    (RolesRepository.assignPermission roleId permissionId).Always (Does env L) := by
  refine does_rbacCall fun w a r h => ?_
  split at h
  · cases h
    exact does_draw w
  split at h
  · rename_i hn hr
    cases h
    obtain ⟨hr, hp⟩ := Bool.and_eq_true_iff.mp hr
    exact .grant hL (.assignPermission (by simpa using hn) (by simpa using hr) (by simpa using hp))
  · cases h

theorem does_rolesRevokePermission (hL : L .withdraw) (roleId permissionId : String) :
    (RolesRepository.revokePermission roleId permissionId).Always (Does env L) := by
  refine does_rbacCall fun w a r h => ?_
  split at h
  · cases h
    exact .withdraw hL (.revokePermission _)
  · cases h

theorem does_rolesAssignToUser (hL : L .grant) (userId roleId : String) :
    (RolesRepository.assignToUser userId roleId).Always (Does env L) := by
  refine does_rbacCall fun w a r h => ?_
  split at h
  · cases h
    exact does_draw w
  split at h
  · rename_i hn hr
    cases h
    exact .grant hL (.assignToUser (by simpa using hn) (by simpa using (Bool.and_eq_true_iff.mp hr).2))
  · cases h

theorem does_rolesRevokeFromUser (hL : L .withdraw) (userId roleId : String) :
    (RolesRepository.revokeFromUser userId roleId).Always (Does env L) := by
  refine does_rbacCall fun w a r h => ?_
  split at h
  · cases h
    exact .withdraw hL (.revokeFromUser _)
  · cases h

theorem does_permissionsCreate (hL : L .grant) (name : String) (d : Option String) :
    (PermissionsRepository.create env name d).Always (Does env L) := by
  refine does_rbacCall fun w a r h => ?_
  dsimp only at h
  split at h
  · cases h
  · rename_i hn
    cases h
    exact .grant hL (.createPermission rfl fun p hp e => hn (by simpa using ⟨p, hp, e⟩))

theorem does_permissionsDelete (hL : L .withdraw) (id : String) :
    (PermissionsRepository.delete id).Always (Does env L) := by
  refine does_rbacCall fun w a r h => ?_
  dsimp only at h
  split at h
  · cases h
  · cases h
    exact .withdraw hL (.deletePermission id)

/-! ## Requests -/

/-- The deeds are those that `L` allows. -/
def doesKinds (L : Deed → Prop) : Kind → Prop
  | .deed d => L d
  | _ => True

theorem does_call {α : Type} {p : App α} (h : SingleCall env (doesKinds L) p) :
    p.Always (Does env L) := by
  cases h with
  | randomUUID => exact does_randomUUID
  | randomBytes => exact does_randomBytes
  | hash p => exact does_hash p
  | verify h p => exact does_verify h p
  | jwtVerify bearer => exact does_jwtVerify bearer
  | jwtSign hA => exact does_jwtSign hA ..
  | redisSet => exact does_redisSet ..
  | emit _ he => exact does_emit he
  | emitRegistered _ hA => exact does_emitRegistered hA ..
  | send hA => exact does_send hA ..
  | usersCreate hA => exact does_usersCreate hA ..
  | markEmailVerified hA id => exact does_markEmailVerified hA id
  | updateEmail hA => exact does_updateEmail hA ..
  | updateProfile => exact does_updateProfile ..
  | recordSuccessfulLogin _ id => exact does_recordSuccessfulLogin id
  | findUniqueOrThrow id => exact does_findUniqueOrThrow id
  | updateFailedLogin => exact does_updateFailedLogin ..
  | updatePassword => exact does_updatePassword ..
  | upsertDevice => exact does_upsertDevice ..
  | createSession => exact does_createSession ..
  | revokeSession _ id => exact does_revokeSession id
  | touchSession => exact does_touchSession ..
  | createRefreshToken => exact does_createRefreshToken ..
  | revokeRefreshToken => exact does_revokeRefreshToken ..
  | revokeRefreshTokenFamily _ f => exact does_revokeRefreshTokenFamily f
  | sessionsRevoke _ id => exact does_sessionsRevoke id
  | revokeMany _ ids => exact does_revokeMany ids
  | passwordResetCreate hA => exact does_passwordResetCreate hA ..
  | passwordResetMarkConsumed hA id => exact does_passwordResetMarkConsumed hA id
  | passwordResetInvalidate hA u => exact does_passwordResetInvalidate hA u
  | emailVerificationCreate hA u h t hn e => exact does_emailVerificationCreate hA u h t hn e
  | emailVerificationMarkConsumed hA id => exact does_emailVerificationMarkConsumed hA id
  | emailVerificationInvalidate hA => exact does_emailVerificationInvalidate hA ..
  | rolesCreate hA => exact does_rolesCreate hA ..
  | rolesUpdate hA => exact does_rolesUpdate hA ..
  | rolesDelete hA id => exact does_rolesDelete hA id
  | rolesAssignPermission hA => exact does_rolesAssignPermission hA ..
  | rolesRevokePermission hA => exact does_rolesRevokePermission hA ..
  | rolesAssignToUser hA => exact does_rolesAssignToUser hA ..
  | rolesRevokeFromUser hA => exact does_rolesRevokeFromUser hA ..
  | permissionsCreate hA => exact does_permissionsCreate hA ..
  | permissionsDelete hA id => exact does_permissionsDelete hA id

theorem does_of_made {α : Type} {p : App α} (h : Made env (doesKinds L) p) : p.Always (Does env L) :=
  h.always fun _ _ => does_call

/-- What every call of a request does to accounts, links and roles. -/
theorem does_program (r : Request) : (program env r).Always (Does env (· ∈ r.deeds)) := by
  refine does_of_made (made_program fun k hk => ?_)
  cases k with
  | deed d => exact hk
  | lockout | password | session | event => trivial

end

/-! ## What a call leaves alone -/

variable {w w' : World}

theorem Does.drawn (h : Does env L w w') : w.drawn ≤ w'.drawn := by
  cases h with
  | aside h => exact h.drawn
  | create | createReset | createEmail | grant | withdraw => exact Nat.le_succ _
  | _ => exact Nat.le_refl _

/-- Mails are kept, and a new one is of a kind that the request may send. -/
theorem Does.outbox (h : Does env L w w') : w.outbox ⊆ w'.outbox := by
  cases h with
  | aside h => exact fun m hm => h.outbox ▸ hm
  | send m => exact List.subset_append_left _ _
  | _ => exact fun _ h => h

theorem Does.mail (h : Does env L w w') {m : Mail} (hm : m ∈ w'.outbox) :
    m ∈ w.outbox ∨ L m.kind.deed := by
  cases h with
  | aside h => exact .inl (h.outbox ▸ hm)
  | send m' hL =>
    rcases List.mem_append.mp hm with hm | hm
    · exact .inl hm
    · exact .inr (List.mem_singleton.mp hm ▸ hL)
  | _ => exact .inl hm

/-- A new email link is that of a request that may issue one. -/
theorem Does.emailLink (h : Does env L w w') {t : EmailVerificationToken}
    (ht : t ∈ w'.emailVerificationTokens) :
    (∃ t' ∈ w.emailVerificationTokens, t'.tokenHash = t.tokenHash) ∨ L .emailLink := by
  cases h with
  | aside h => exact .inl ⟨t, h.emailVerificationTokens ▸ ht, rfl⟩
  | createEmail hL | consumeEmails hL => exact .inr hL
  | _ => exact .inl ⟨t, ht, rfl⟩

theorem User.account_eq {u u' : User} : u'.account = u.account ↔
    u'.id = u.id ∧ u'.email = u.email ∧ u'.isEmailVerified = u.isEmailVerified ∧
      u'.deletedAt = u.deletedAt := by
  simp [User.account]

/-- What holds between a user and what a call may make of it. -/
theorem Does.evolves {R : User → User → Prop} (h : Does env L w w')
    (hsame : ∀ u u' : User, u'.account = u.account → R u u')
    (haddress : L .address → ∀ (u : User) email, R u { u with email, isEmailVerified := true }) :
    Evolves R w.users w'.users := by
  have hrefl (u : User) : R u u := hsame u u rfl
  cases h with
  | aside h => exact .of_map hsame h.accounts
  | create => exact .append hrefl _ _
  | markVerified hL => exact .updateWhere hrefl (fun u => haddress hL u u.email) _
  | updateEmail hL => exact .updateWhere hrefl (fun u => haddress hL u _) _
  | _ => exact .refl hrefl _

/-- Users keep their identity. -/
theorem Does.users (h : Does env L w w') : Evolves User.SameIdentity w.users w'.users := by
  refine h.evolves (fun u u' e => ?_) fun _ _ _ => ⟨rfl, rfl⟩
  obtain ⟨hid, -, -, hd⟩ := User.account_eq.mp e
  exact ⟨hid, hd⟩

/-- Where a user comes from. -/
theorem Does.user (h : Does env L w w') {u : User} (hu : u ∈ w'.users) :
    (∃ v ∈ w.users, u.account = v.account) ∨
      (u.isEmailVerified = false ∧ ∃ e, u.email = env.toLowerCase e) ∨ L .address := by
  cases h with
  | aside h =>
    have hmem : u.account ∈ w.users.map User.account := h.accounts ▸ List.mem_map_of_mem hu
    obtain ⟨v, hv, e⟩ := List.mem_map.mp hmem
    exact .inl ⟨v, hv, e.symm⟩
  | create hL hid hnew hlower =>
    rcases List.mem_append.mp hu with hu | hu
    · exact .inl ⟨u, hu, rfl⟩
    · obtain rfl := List.mem_singleton.mp hu
      exact .inr (.inl ⟨hnew.1, hlower⟩)
  | markVerified hL | updateEmail hL => exact .inr (.inr hL)
  | _ => exact .inl ⟨u, hu, rfl⟩

def PasswordResetToken.Keeps (t t' : PasswordResetToken) : Prop :=
  t'.id = t.id ∧ t'.userId = t.userId ∧ t'.tokenHash = t.tokenHash ∧ t'.expiresAt = t.expiresAt ∧
    (t.consumedAt.isSome = true → t'.consumedAt.isSome = true)

theorem PasswordResetToken.Keeps.refl (t : PasswordResetToken) : t.Keeps t :=
  ⟨rfl, rfl, rfl, rfl, fun h => h⟩

theorem PasswordResetToken.Keeps.trans (a b c : PasswordResetToken) (h : a.Keeps b)
    (h' : b.Keeps c) : a.Keeps c :=
  ⟨h'.1.trans h.1, h'.2.1.trans h.2.1, h'.2.2.1.trans h.2.2.1, h'.2.2.2.1.trans h.2.2.2.1,
    h'.2.2.2.2 ∘ h.2.2.2.2⟩

theorem PasswordResetToken.Keeps.consume (t : PasswordResetToken) (now : Time) :
    t.Keeps { t with consumedAt := some now } :=
  ⟨rfl, rfl, rfl, rfl, fun _ => rfl⟩

/-- Reset links keep what they are for, and once consumed stay so. -/
theorem Does.resets (h : Does env L w w') :
    Evolves PasswordResetToken.Keeps w.passwordResetTokens w'.passwordResetTokens := by
  cases h with
  | aside h => exact h.passwordResetTokens ▸ .refl PasswordResetToken.Keeps.refl _
  | createReset => exact .append PasswordResetToken.Keeps.refl _ _
  | consumeResets =>
    exact .updateWhere PasswordResetToken.Keeps.refl (PasswordResetToken.Keeps.consume · _) _
  | _ => exact .refl PasswordResetToken.Keeps.refl _

/-- A request that issues and redeems no reset link leaves them alone. -/
theorem Does.passwordResetTokens (h : Does env L w w') (hL : ¬L .resetLink) :
    w'.passwordResetTokens = w.passwordResetTokens := by
  cases h with
  | aside h => exact h.passwordResetTokens
  | createReset h | consumeResets h => exact absurd h hL
  | _ => rfl

theorem Does.emailVerificationTokens (h : Does env L w w') (hL : ¬L .emailLink) :
    w'.emailVerificationTokens = w.emailVerificationTokens := by
  cases h with
  | aside h => exact h.emailVerificationTokens
  | createEmail h | consumeEmails h => exact absurd h hL
  | _ => rfl

theorem Does.signed (h : Does env L w w') (hL : ¬L .sign) : w'.signed = w.signed := by
  cases h with
  | aside h => exact h.signed
  | sign h => exact absurd h hL
  | _ => rfl

theorem Does.registered (h : Does env L w w') (hL : ¬L .account) {u e : String} {c : RequestContext}
    (hr : .userRegistered u e c ∈ w'.events) : .userRegistered u e c ∈ w.events := by
  cases h with
  | aside h => exact h.registered u e c hr
  | create h | register h => exact absurd h hL
  | _ => exact hr

theorem Does.unsent (h : Does env L w w') (hL : ∀ k : MailKind, ¬L k.deed) : w'.outbox = w.outbox := by
  cases h with
  | aside h => exact h.outbox
  | send m h => exact absurd h (hL m.kind)
  | _ => rfl

/-- What a call does to the tables of roles and permissions. -/
theorem Does.rbac (h : Does env L w w') :
    w'.rbac = w.rbac ∨ (L .grant ∧ w'.drawn = w.drawn + 1 ∧ Grants env w w'.rbac) ∨
      (L .withdraw ∧ Withdraws w.rbac w'.rbac) := by
  cases h with
  | aside h => exact .inl h.rbac
  | grant hL h => exact .inr (.inl ⟨hL, rfl, h⟩)
  | withdraw hL h => exact .inr (.inr ⟨hL, h⟩)
  | _ => exact .inl rfl

/-- Every call in an interleaving is one that its request may make. -/
theorem Interleaving.does {t : Time} {P : AppPool} (h : Interleaving env (.init t) P) :
    System.ObeyFrom (fun _ _ _ => True) (fun r _ x => Does env (· ∈ r.deeds) x.before x.after)
      (fun _ _ _ => True) 0 P :=
  h.obeys (I := fun _ => True) (fun r => (does_program r).obeys []) trivial (fun _ _ _ => trivial)
    fun _ _ _ => trivial

end AtlasAuth

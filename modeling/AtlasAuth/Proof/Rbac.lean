import AtlasAuth.Framework.Faulty
import AtlasAuth.Model.Guards
import AtlasAuth.Proof.Deeds
import AtlasAuth.Proof.Families

/-!
# Roles and permissions at minting time

The tables of roles and permissions stay well formed (`Rbac.Valid`), so the
joins that mint an access token find exactly the roles that a user holds and
the permissions they grant. An access token carries what they say when it is
signed (`CarriesAccess`), whichever request signs it, and the guards decide by
what it carries.
-/

namespace AtlasAuth

open Framework Framework.Table Prog

variable {env : Env} {L : Deed → Prop} {w w' : World}

/-- The calls of `RolesService` and `PermissionsService`. -/
def Request.isAdministration : Request → Bool
  | .createRole .. | .updateRole .. | .removeRole .. | .assignPermission .. | .revokePermission ..
  | .assignToUser .. | .revokeFromUser .. | .createPermission .. | .removePermission .. => true
  | _ => false

/-! ## Sets -/

theorem mem_setOf {xs : List String} {x : String} : x ∈ setOf xs ↔ x ∈ xs := by
  suffices h : ∀ s, x ∈ xs.foldl (fun s x => if s.contains x then s else s ++ [x]) s ↔
      x ∈ s ∨ x ∈ xs by simpa [setOf] using h []
  induction xs with
  | nil => simp
  | cons y ys ih =>
    intro s
    rw [List.foldl_cons, ih]
    split
    · rename_i hy
      have hy : y ∈ s := by simpa using hy
      refine ⟨fun h => h.imp_right (List.mem_cons_of_mem _), fun h => ?_⟩
      rcases h with h | h
      · exact .inl h
      · rcases List.mem_cons.mp h with rfl | h
        · exact .inl hy
        · exact .inr h
    · simp [or_assoc]

theorem nodup_setOf (xs : List String) : (setOf xs).Nodup := by
  suffices h : ∀ s : List String, s.Nodup →
      (xs.foldl (fun s x => if s.contains x then s else s ++ [x]) s).Nodup by
    exact h [] List.nodup_nil
  induction xs with
  | nil => exact fun s hs => hs
  | cons y ys ih =>
    intro s hs
    rw [List.foldl_cons]
    refine ih _ ?_
    split
    · exact hs
    · rename_i hy
      have hy : y ∉ s := by simpa using hy
      refine List.nodup_append.mpr ⟨hs, List.nodup_singleton y, fun x hx z hz => ?_⟩
      rintro rfl
      exact hy (List.mem_singleton.mp hz ▸ hx)

/-! ## The joins -/

/-- Identifiers and names are unique, no role is held twice, and a role that
is held exists. -/
structure Rbac.Valid (env : Env) (n : Nat) (r : Rbac) : Prop where
  roleId : Unique Role.id r.roles
  roleMinted : Minted Role.id env.randomUUID n r.roles
  roleName : Unique Role.name r.roles
  permissionId : Unique Permission.id r.permissions
  permissionMinted : Minted Permission.id env.randomUUID n r.permissions
  permissionName : Unique Permission.name r.permissions
  userRoles : r.userRoles.Nodup
  held : ∀ ur ∈ r.userRoles, ∃ role ∈ r.roles, role.id = ur.roleId

/-- The user holds the role of this name. -/
def Rbac.Holds (r : Rbac) (u name : String) : Prop :=
  ∃ role ∈ r.roles, role.name = name ∧ ⟨u, role.id⟩ ∈ r.userRoles

/-- Some role of the user grants the permission of this name. -/
def Rbac.Granted (r : Rbac) (u name : String) : Prop :=
  ∃ roleId, ⟨u, roleId⟩ ∈ r.userRoles ∧
    ∃ p ∈ r.permissions, p.name = name ∧ ⟨roleId, p.id⟩ ∈ r.rolePermissions

section Joins

variable {n : Nat} {r : Rbac}

theorem Rbac.Valid.find?_role (h : r.Valid env n) {role : Role} (hr : role ∈ r.roles) :
    r.roles.find? (·.id == role.id) = some role := h.roleId.find?.mpr ⟨hr, rfl⟩

theorem mem_rolesOf (h : r.Valid env n) {u : String} {x : RoleWithPermissions} :
    x ∈ r.rolesOf u ↔ ∃ role ∈ r.roles, ⟨u, role.id⟩ ∈ r.userRoles ∧ x = r.include role := by
  simp only [Rbac.rolesOf, List.mem_filterMap, List.mem_filter, beq_iff_eq]
  constructor
  · rintro ⟨⟨_, roleId⟩, ⟨hur, rfl⟩, hx⟩
    obtain ⟨role, hr, rfl⟩ := Option.map_eq_some_iff.mp hx
    obtain ⟨hm, rfl⟩ := h.roleId.find?.mp hr
    exact ⟨role, hm, hur, rfl⟩
  · rintro ⟨role, hr, hur, rfl⟩
    exact ⟨_, ⟨hur, rfl⟩, by rw [h.find?_role hr]; rfl⟩

theorem mem_include (h : r.Valid env n) {role : Role} {p : Permission} :
    p ∈ (r.include role).permissions ↔
      p ∈ r.permissions ∧ ⟨role.id, p.id⟩ ∈ r.rolePermissions := by
  simp only [Rbac.include, List.mem_filterMap, List.mem_filter, beq_iff_eq]
  constructor
  · rintro ⟨⟨_, permissionId⟩, ⟨hrp, rfl⟩, hp⟩
    obtain ⟨hm, rfl⟩ := h.permissionId.find?.mp hp
    exact ⟨hm, hrp⟩
  · rintro ⟨hp, hrp⟩
    exact ⟨_, ⟨hrp, rfl⟩, h.permissionId.find?.mpr ⟨hp, rfl⟩⟩

/-- The names of the user's roles, each once. -/
theorem nodup_roleNames (h : r.Valid env n) (u : String) :
    ((r.rolesOf u).map (·.role.name)).Nodup := by
  rw [List.Nodup, List.pairwise_map, Rbac.rolesOf, List.pairwise_filterMap]
  have hn : ((r.userRoles.filter (·.userId == u))).Nodup := h.userRoles.filter _
  refine List.Pairwise.imp_of_mem (fun {a b} ha hb hne x hx y hy e => ?_) hn
  obtain ⟨role, hr, rfl⟩ := Option.map_eq_some_iff.mp hx
  obtain ⟨role', hr', rfl⟩ := Option.map_eq_some_iff.mp hy
  obtain ⟨hm, hid⟩ := h.roleId.find?.mp hr
  obtain ⟨hm', hid'⟩ := h.roleId.find?.mp hr'
  obtain rfl : role = role' := h.roleName.eq hm hm' e
  have ha : a.userId = u := by simpa using (List.mem_filter.mp ha).2
  have hb : b.userId = u := by simpa using (List.mem_filter.mp hb).2
  refine hne ?_
  show UserRole.mk a.userId a.roleId = UserRole.mk b.userId b.roleId
  rw [ha, hb, ← hid, ← hid']

theorem mem_roleNames (h : r.Valid env n) {u name : String} :
    name ∈ (r.rolesOf u).map (·.role.name) ↔ r.Holds u name := by
  simp only [List.mem_map, mem_rolesOf h, Rbac.Holds]
  constructor
  · rintro ⟨_, ⟨role, hr, hur, rfl⟩, rfl⟩
    exact ⟨role, hr, rfl, hur⟩
  · rintro ⟨role, hr, rfl, hur⟩
    exact ⟨_, ⟨role, hr, hur, rfl⟩, rfl⟩

theorem mem_permissionNames (h : r.Valid env n) {u name : String} :
    name ∈ (r.rolesOf u).flatMap (fun x => x.permissions.map (·.name)) ↔ r.Granted u name := by
  simp only [List.mem_flatMap, List.mem_map, mem_rolesOf h, Rbac.Granted]
  constructor
  · rintro ⟨_, ⟨role, hr, hur, rfl⟩, p, hp, rfl⟩
    obtain ⟨hp, hrp⟩ := (mem_include h).mp hp
    exact ⟨role.id, hur, p, hp, rfl, hrp⟩
  · rintro ⟨roleId, hur, p, hp, rfl, hrp⟩
    obtain ⟨role, hr, rfl⟩ := h.held _ hur
    exact ⟨_, ⟨role, hr, hur, rfl⟩, p, (mem_include h).mpr ⟨hp, hrp⟩, rfl⟩

end Joins

/-! ## Well-formed tables -/

theorem Rbac.Valid.init : Rbac.Valid env 0 {} where
  roleId := .nil
  roleMinted := .nil
  roleName := .nil
  permissionId := .nil
  permissionMinted := .nil
  permissionName := .nil
  userRoles := List.nodup_nil
  held := fun _ h => absurd h List.not_mem_nil

theorem Rbac.Valid.mono {n m : Nat} {r : Rbac} (h : r.Valid env n) (hn : n ≤ m) : r.Valid env m :=
  { h with roleMinted := h.roleMinted.mono hn, permissionMinted := h.permissionMinted.mono hn }

theorem Grants.valid {r : Rbac} (h : Grants env w r) (hv : w.rbac.Valid env w.drawn) :
    r.Valid env (w.drawn + 1) := by
  have hm := hv.mono (Nat.le_succ w.drawn)
  cases h with
  | createRole hid hname =>
    exact { hm with
      roleId := hv.roleId.append_minted hv.roleMinted env.randomUUID_injective hid
      roleMinted := hv.roleMinted.append hid
      roleName := hv.roleName.append hname
      held := fun ur hur => (hv.held ur hur).imp fun _ h => h.imp_left (List.mem_append_left _) }
  | renameRole hid hdata hname =>
    exact { hm with
      roleId := hv.roleId.updateWhere fun r _ => hid r
      roleMinted := hm.roleMinted.updateWhere fun r _ => hid r
      roleName := hv.roleId.rename hv.roleName hdata hname
      held := fun ur hur => exists_updateWhere hid (hv.held ur hur) }
  | describeRole hid hdata =>
    exact { hm with
      roleId := hv.roleId.updateWhere fun r _ => hid r
      roleMinted := hm.roleMinted.updateWhere fun r _ => hid r
      roleName := hv.roleName.updateWhere fun r _ => hdata r
      held := fun ur hur => exists_updateWhere hid (hv.held ur hur) }
  | assignPermission => exact { hm with }
  | assignToUser hn hr =>
    refine { hm with
      userRoles := List.nodup_append.mpr ⟨hv.userRoles, List.nodup_singleton _, fun x hx y hy => ?_⟩
      held := fun ur hur => ?_ }
    · rintro rfl
      exact hn (List.mem_singleton.mp hy ▸ hx)
    · rcases List.mem_append.mp hur with hur | hur
      · exact hv.held ur hur
      · exact List.mem_singleton.mp hur ▸ hr
  | createPermission hid hname =>
    exact { hm with
      permissionId := hv.permissionId.append_minted hv.permissionMinted env.randomUUID_injective hid
      permissionMinted := hv.permissionMinted.append hid
      permissionName := hv.permissionName.append hname }

theorem Withdraws.valid {n : Nat} {r r' : Rbac} (h : Withdraws r r') (hv : r.Valid env n) :
    r'.Valid env n := by
  cases h with
  | deleteRole id =>
    refine { hv with
      roleId := hv.roleId.filter
      roleMinted := fun x hx => hv.roleMinted x (List.mem_of_mem_filter hx)
      roleName := hv.roleName.filter
      userRoles := hv.userRoles.filter _
      held := fun ur hur => ?_ }
    -- The rows of a deleted role go with it.
    obtain ⟨hur, hne⟩ := List.mem_filter.mp hur
    obtain ⟨role, hr, e⟩ := hv.held ur hur
    exact ⟨role, List.mem_filter.mpr ⟨hr, by rwa [e]⟩, e⟩
  | deletePermission id =>
    exact { hv with
      permissionId := hv.permissionId.filter
      permissionMinted := fun x hx => hv.permissionMinted x (List.mem_of_mem_filter hx)
      permissionName := hv.permissionName.filter }
  | revokePermission rp => exact { hv with }
  | revokeFromUser ur =>
    exact { hv with
      userRoles := hv.userRoles.filter _
      held := fun x hx => hv.held x (List.mem_of_mem_filter hx) }

/-- The tables are well formed. -/
abbrev World.RbacValid (env : Env) (w : World) : Prop := w.rbac.Valid env w.drawn

theorem Does.rbacValid (h : Does env L w w') (hv : w.RbacValid env) : w'.RbacValid env := by
  rcases h.rbac with e | ⟨-, hd, hg⟩ | ⟨-, hw⟩
  · rw [World.RbacValid, e]
    exact hv.mono h.drawn
  · rw [World.RbacValid, hd]
    exact hg.valid hv
  · exact (hw.valid hv).mono h.drawn

def KeepsRbacValid (env : Env) (w w' : World) : Prop := w.RbacValid env → w'.RbacValid env

instance : IsPreorder World (KeepsRbacValid env) where
  refl _ h := h
  trans _ _ _ h h' := h' ∘ h

theorem keepsRbacValid_program (r : Request) : (program env r).Always (KeepsRbacValid env) :=
  (does_program r).mono fun _ _ => Does.rbacValid

theorem rbacValid_interleaving {t : Time} {P : AppPool} (h : Interleaving env (.init t) P) :
    P.state.RbacValid env :=
  (h.always keepsRbacValid_program (fun _ _ h => h) fun _ h => absurd h List.not_mem_nil).1 .init

theorem rbacValid_history {tr : List (Done Request World Exn Response)} (h : History env w tr w')
    (hv : w.RbacValid env) : w'.RbacValid env :=
  h.always keepsRbacValid_program (fun _ _ h => h) hv

/-! ## Access tokens -/

/-- The claims of an access token are what the tables say of its user. -/
def CarriesAccess (r : Rbac) (u : String) (p : JwtPayload) : Prop :=
  p.roles = (r.rolesOf u).map (·.role.name) ∧
    p.permissions = setOf ((r.rolesOf u).flatMap fun x => x.permissions.map (·.name))

/-- The tables are `r`, and the user is there. -/
def HasUser (r : Rbac) (u : String) (w : World) : Prop :=
  w.rbac = r ∧ ∃ x ∈ w.users, x.id = u ∧ x.deletedAt = none

/-- The kinds of change that go with minting. -/
def Mints (d : Deed) : Prop := d = .account ∨ d = .sign

theorem Does.hasUser (h : Does env Mints w w') {r : Rbac} {u : String} (hu : HasUser r u w) :
    HasUser r u w' := by
  obtain ⟨hr, x, hx, hid, hd⟩ := hu
  obtain ⟨x', hx', hid', hd'⟩ := h.users.mem hx
  refine ⟨?_, x', hx', hid'.trans hid, hd'.trans hd⟩
  rcases h.rbac with e | ⟨hL, -⟩ | ⟨hL, -⟩
  · rw [e, hr]
  · rcases hL with hL | hL <;> cases hL
  · rcases hL with hL | hL <;> cases hL

theorem lapse_hasUser (h : (system env).lapse w w') {r : Rbac} {u : String} (hu : HasUser r u w) :
    HasUser r u w' := by
  obtain ⟨d, rfl⟩ := h
  exact hu

def KeepsUsers (w w' : World) : Prop := ∀ r u, HasUser r u w → HasUser r u w'

instance : IsPreorder World KeepsUsers where
  refl _ _ _ h := h
  trans _ _ _ h h' r u hu := h' r u (h r u hu)

section

variable {α β : Type} {r : Rbac} {u : String} {M : α → World → Prop}

/-- A part of a request that leaves the tables and the user alone. -/
theorem leaves_bind_mints {p : App β} {k : β → App α} (hp : p.Always (Does env Mints))
    (hu : HasUser r u w) (hk : ∀ b w', HasUser r u w' → Leaves env (k b) w' (Yields M)) :
    Leaves env (p >>= k) w (Yields M) := by
  have hp : p.Always KeepsUsers := hp.mono fun _ _ h _ _ => h.hasUser
  refine (hp.ensures (fun _ _ h _ _ => lapse_hasUser h) w).bind (fun b w' h => ?_) fun _ _ _ => trivial
  exact hk b w' (h r u hu)

end

theorem yields_signAccessTokenForUser {r : Rbac} {user : User} (hu : HasUser r user.id w)
    (sid : String) : Leaves env (AuthService.signAccessTokenForUser env user sid) w
      (Yields fun a _ => CarriesAccess r user.id a.token) := by
  refine .query_bind fun w₁ h₁ => ?_
  obtain ⟨hr, x, hx, hid, hd⟩ := lapse_hasUser h₁ hu
  have hfind : (w₁.users.find? fun v => v.id == user.id && v.deletedAt.isNone).isSome = true :=
    List.find?_isSome.mpr ⟨x, hx, by simp [hid, hd]⟩
  obtain ⟨v, hv⟩ := Option.isSome_iff_exists.mp hfind
  have hvid : v.id = user.id := by
    have := List.find?_some hv
    simp only [Bool.and_eq_true, beq_iff_eq] at this
    exact this.1
  rw [hv]
  refine yields_of_returns ((returns_signAccessToken _ _ _ _ _).mono fun a h => ?_)
  obtain ⟨-, -, hroles, hpermissions, -⟩ := h
  rw [CarriesAccess, hroles, hpermissions, ← hr, ← hvid]
  exact ⟨rfl, rfl⟩

/-- What a registration, a login and a refresh return. -/
abbrev MintsAccess (r : Rbac) (p : App (User × SessionTokens)) (env : Env) (w : World) : Prop :=
  Leaves env p w (Yields fun (user, tokens) _ => CarriesAccess r user.id tokens.accessToken.token)

theorem yields_issueSession {r : Rbac} {user : User} (hu : HasUser r user.id w)
    (c : RequestContext) : Leaves env (AuthService.issueSession env user c) w
      (Yields fun tokens _ => CarriesAccess r user.id tokens.accessToken.token) := by
  refine leaves_bind_mints (does_upsertDevice ..) hu fun device _ hu => ?_
  refine leaves_bind_mints (does_of_made made_generateRefreshToken) hu fun new _ hu => ?_
  refine leaves_bind_mints (does_createSession ..) hu fun session _ hu => ?_
  refine leaves_bind_yields (yields_signAccessTokenForUser hu _) fun a w₁ ha => ?_
  have rest (familyId : String) : Prog.Returns
      (fun tokens => CarriesAccess r user.id tokens.accessToken.token) (do
        let _ ← AuthRepository.createRefreshToken env user.id session.id familyId new.tokenHash
          new.expiresAt c.ipAddress
        return ({ accessToken := a, refreshToken := new, sessionId := session.id } : SessionTokens)) :=
    .seq fun _ => returns_ret.mpr ha
  exact yields_of_returns (.seq rest)

/-- The end of a request that issues a session. -/
theorem mints_issueSession {r : Rbac} {user : User} (hu : HasUser r user.id w) (c : RequestContext)
    {k : SessionTokens → App (User × SessionTokens)}
    (hk : ∀ tokens, (k tokens).Returns (· = (user, tokens))) :
    MintsAccess r (AuthService.issueSession env user c >>= k) env w :=
  leaves_bind_yields (yields_issueSession hu c) fun tokens _ h =>
    yields_of_returns ((hk tokens).mono fun x hx => by rw [hx]; exact h)

theorem yields_register (dto : RegisterDto) (c : RequestContext) :
    MintsAccess w.rbac (AuthService.register env dto c) env w := by
  refine .query_bind fun w₁ h₁ => .ite (fun _ => leaves_throw _) fun _ => ?_
  refine .atomic_bind fun w₂ h₂ => .atomic_bind fun w₃ h₃ => ?_
  split
  · rename_i user hc
    refine .atomic_bind fun w₄ h₄ => mints_issueSession ?_ c fun _ => returns_ret.mpr rfl
    obtain ⟨d₁, rfl⟩ := h₁
    obtain ⟨d₂, rfl⟩ := h₂
    obtain ⟨d₃, rfl⟩ := h₃
    obtain ⟨d₄, rfl⟩ := h₄
    split at hc
    · cases hc
    · rename_i hn
      obtain rfl := (Except.ok.inj hc).symm
      simp only [hn]
      exact ⟨rfl, _, List.mem_append_right _ (List.mem_singleton_self _), rfl, rfl⟩
  · trivial

theorem yields_login (dto : LoginDto) (c : RequestContext) :
    MintsAccess w.rbac (AuthService.login env dto c) env w := by
  refine .query_bind fun w₁ h₁ => ?_
  cases hu : w₁.users.find? fun u => u.email == env.toLowerCase dto.email && u.deletedAt.isNone with
  | none => exact .atomic_bind fun w₂ _ => leaves_throw _
  | some user =>
    have hx := List.find?_some hu
    have hx : HasUser w.rbac user.id w₁ := by
      obtain ⟨d, rfl⟩ := h₁
      exact ⟨rfl, user, List.mem_of_find?_eq_some hu, rfl, by simpa using (Bool.and_eq_true_iff.mp hx).2⟩
    refine leaves_bind_mints always_query hx fun now w₂ h₂ => .ite (fun _ => ?_) fun _ => ?_
    · exact .atomic_bind fun w₃ _ => leaves_throw _
    refine leaves_bind_mints (does_verify ..) h₂ fun ok w₃ h₃ => .ite (fun _ => ?_) fun _ => ?_
    · exact leaves_bind_mints (does_of_made (made_registerFailedLoginAttempt trivial ..)) h₃ fun _ w₄ _ =>
        .atomic_bind fun w₅ _ => leaves_throw _
    refine leaves_bind_mints (does_recordSuccessfulLogin _) h₃ fun _ w₄ h₄ => ?_
    exact mints_issueSession h₄ c fun _ => .seq fun _ => returns_ret.mpr rfl

theorem yields_refresh (token : String) (c : RequestContext) :
    MintsAccess w.rbac (AuthService.refresh env token c) env w := by
  refine .query_bind fun w₁ h₁ => ?_
  split
  · refine .ite (fun _ => ?_) fun _ => .query_bind fun w₂ h₂ => .ite (fun _ => leaves_throw _) fun _ => ?_
    · exact yields_of_returns (.mono (Q := fun _ => False) (.seq fun _ => .seq fun _ => .seq fun _ =>
        trivial) fun _ h => h.elim)
    refine .query_bind fun w₃ h₃ => ?_
    split
    · refine .ite (fun _ => leaves_throw _) fun _ => .query_bind fun w₄ h₄ => ?_
      split
      · rename_i user hu
        have hx := List.find?_some hu
        have hx : HasUser w.rbac user.id w₄ := by
          obtain ⟨d₁, rfl⟩ := h₁
          obtain ⟨d₂, rfl⟩ := h₂
          obtain ⟨d₃, rfl⟩ := h₃
          obtain ⟨d₄, rfl⟩ := h₄
          exact ⟨rfl, user, List.mem_of_find?_eq_some hu, rfl,
            by simpa using (Bool.and_eq_true_iff.mp hx).2⟩
        refine leaves_bind_mints (does_of_made made_generateRefreshToken) hx fun _ w₅ h₅ => ?_
        refine leaves_bind_mints (does_createRefreshToken ..) h₅ fun _ w₆ h₆ => ?_
        refine leaves_bind_mints (does_revokeRefreshToken ..) h₆ fun _ w₇ h₇ => ?_
        refine leaves_bind_mints (does_touchSession ..) h₇ fun _ w₈ h₈ => ?_
        refine leaves_bind_yields (yields_signAccessTokenForUser h₈ _) fun a w₉ ha => ?_
        exact yields_of_returns (.seq fun _ => returns_ret.mpr ha)
      · exact leaves_throw _
    · exact leaves_throw _
  · exact leaves_throw _

/-- Whichever request mints it, an access token carries what the tables say. -/
theorem completes_access {r : Request} {u : User} {tokens : SessionTokens}
    (h : Completes env r w (.ok (.session u tokens)) w') :
    CarriesAccess w.rbac u.id tokens.accessToken.token := by
  have wrap {p : App (User × SessionTokens)} (hp : MintsAccess w.rbac p env w)
      (h : (p >>= fun b => .ret (Response.session b.1 b.2)).Exec (system env).lapse w
        (.ok (Response.session u tokens)) w') : CarriesAccess w.rbac u.id tokens.accessToken.token := by
    obtain ⟨x, hx, e⟩ := exec_map.mp h
    cases x with
    | error e' => cases e
    | ok b =>
      obtain ⟨rfl, rfl⟩ := Response.session.inj (Except.ok.inj e)
      exact hp _ _ hx
  have other {β : Type} {p : App β} {f : β → Response} (hf : ∀ b, f b ≠ Response.session u tokens)
      (h : (p >>= fun b => .ret (f b)).Exec (system env).lapse w (.ok (Response.session u tokens)) w') :
      CarriesAccess w.rbac u.id tokens.accessToken.token := by
    obtain ⟨x, -, e⟩ := exec_map.mp h
    cases x with
    | error e' => cases e
    | ok b => exact absurd (Except.ok.inj e).symm (hf b)
  cases r with
  | register dto c => exact wrap (yields_register dto c) h
  | login dto c => exact wrap (yields_login dto c) h
  | refresh cookie c =>
    refine wrap (p := AuthController.refresh env cookie c) ?_ h
    unfold AuthController.refresh
    split
    · exact yields_refresh _ c
    · exact leaves_throw _
  | _ => exact other (by exact fun _ => nofun) h

/-! ## Guards -/

theorem claimsGuard_ok {claims : JwtPayload → List String} {test : List String → (String → Bool) → Bool}
    {message : String} {required : List String} (h : required ≠ []) (p : JwtPayload) :
    claimsGuard claims test message (some required) (some p) = .ok true ↔
      test required (setOf (claims p)).contains = true := by
  cases required with
  | nil => exact absurd rfl h
  | cons x xs =>
    simp only [claimsGuard, Option.map_some, Option.getD_some]
    split <;> simp_all

/-- What the claims of an access token and the two guards have to do with the
tables. -/
structure ExactAccess (r : Rbac) (u : String) (p : JwtPayload) : Prop where
  permissionsGuard : ∀ required : List String, required ≠ [] →
    (PermissionsGuard.canActivate (some required) (some p) = .ok true ↔
      ∀ name ∈ required, r.Granted u name)
  rolesGuard : ∀ required : List String, required ≠ [] →
    (RolesGuard.canActivate (some required) (some p) = .ok true ↔ ∃ name ∈ required, r.Holds u name)
  permissions : p.permissions.Nodup ∧ ∀ name, name ∈ p.permissions ↔ r.Granted u name
  roles : p.roles.Nodup ∧ ∀ name, name ∈ p.roles ↔ r.Holds u name

theorem CarriesAccess.exact {r : Rbac} {n : Nat} {u : String} {p : JwtPayload}
    (h : CarriesAccess r u p) (hv : r.Valid env n) : ExactAccess r u p := by
  obtain ⟨hroles, hpermissions⟩ := h
  have permissions (name : String) : name ∈ p.permissions ↔ r.Granted u name := by
    rw [hpermissions, mem_setOf, mem_permissionNames hv]
  have roles (name : String) : name ∈ p.roles ↔ r.Holds u name := by rw [hroles, mem_roleNames hv]
  refine ⟨fun required hne => ?_, fun required hne => ?_, ⟨?_, permissions⟩, ?_, roles⟩
  · rw [PermissionsGuard.canActivate, claimsGuard_ok hne]
    simp only [List.all_eq_true, List.contains_iff_mem, mem_setOf, permissions]
  · rw [RolesGuard.canActivate, claimsGuard_ok hne]
    simp only [List.any_eq_true, List.contains_iff_mem, mem_setOf, roles]
  · rw [hpermissions]
    exact nodup_setOf _
  · rw [hroles]
    exact nodup_roleNames hv u

/-! ## Revocations -/

/-- No user gets a role or a permission. -/
def Fewer (w w' : World) : Prop :=
  ∀ u name, (w'.rbac.Holds u name → w.rbac.Holds u name) ∧
    (w'.rbac.Granted u name → w.rbac.Granted u name)

instance : IsPreorder World Fewer where
  refl _ _ _ := ⟨fun h => h, fun h => h⟩
  trans _ _ _ h h' u name := ⟨(h u name).1 ∘ (h' u name).1, (h u name).2 ∘ (h' u name).2⟩

theorem Withdraws.sublist {r r' : Rbac} (h : Withdraws r r') : r'.roles.Sublist r.roles ∧
    r'.permissions.Sublist r.permissions ∧ r'.rolePermissions.Sublist r.rolePermissions ∧
    r'.userRoles.Sublist r.userRoles := by
  cases h <;> exact ⟨by simp, by simp, by simp, by simp⟩

theorem Does.fewer (h : Does env L w w') (hL : ¬L .grant) : Fewer w w' := by
  intro u name
  rcases h.rbac with e | ⟨hg, -⟩ | ⟨-, hw⟩
  · rw [e]
    exact ⟨fun h => h, fun h => h⟩
  · exact absurd hg hL
  · obtain ⟨hr, hp, hrp, hur⟩ := hw.sublist
    refine ⟨fun ⟨role, h₁, h₂, h₃⟩ => ⟨role, hr.subset h₁, h₂, hur.subset h₃⟩, ?_⟩
    exact fun ⟨id, h₁, p, h₂, h₃, h₄⟩ => ⟨id, hur.subset h₁, p, hp.subset h₂, h₃, hrp.subset h₄⟩

theorem fewer_history {tr : List (Done Request World Exn Response)} (h : History env w tr w')
    (hg : ∀ d ∈ tr, .grant ∉ d.req.deeds) : Fewer w w' := by
  induction h with
  | nil => exact Std.Refl.refl w
  | env m _ ih => exact ih hg
  | done _ he _ ih =>
    have hlast := hg _ (List.mem_append_right _ (List.mem_singleton_self _))
    have hstep : Fewer _ _ := he.always (G := Fewer)
      ((does_program _).mono fun _ _ hd => hd.fewer hlast) fun _ _ ⟨m, e⟩ => e ▸ fun _ _ => ⟨id, id⟩
    exact IsTrans.trans _ _ _ (ih fun d hd => hg d (List.mem_append_left _ hd)) hstep

/-- What a successful revocation or deletion leaves of the tables. -/
def Request.withdraw (r : Rbac) : Request → Option Rbac
  | .removeRole id =>
    some { r with
      roles := r.roles.filter (·.id != id)
      rolePermissions := r.rolePermissions.filter (·.roleId != id)
      userRoles := r.userRoles.filter (·.roleId != id) }
  | .removePermission id =>
    some { r with
      permissions := r.permissions.filter (·.id != id)
      rolePermissions := r.rolePermissions.filter (·.permissionId != id) }
  | .revokePermission roleId permissionId =>
    some { r with rolePermissions := r.rolePermissions.filter (· != ⟨roleId, permissionId⟩) }
  | .revokeFromUser userId roleId =>
    some { r with userRoles := r.userRoles.filter (· != ⟨userId, roleId⟩) }
  | _ => none

theorem lapse_rbac (h : (system env).lapse w w') : w'.rbac = w.rbac := by
  obtain ⟨d, rfl⟩ := h
  rfl

/-- A call on the tables that succeeds, by the tables it leaves. -/
theorem yields_rbacCall {α : Type} {r r' : Rbac} {call : Call} {f : World → Except Exn (α × Rbac)}
    (hw : w.rbac = r) (hf : ∀ v a x, v.rbac = r → f v = .ok (a, x) → x = r') :
    Leaves env (rbacCall call f) w (Yields fun _ v => v.rbac = r') := by
  refine ensures_atomic.mpr fun v hv => ?_
  cases h : f v with
  | error e => trivial
  | ok b => exact hf v b.1 b.2 ((lapse_rbac hv).trans hw) h

theorem yields_findByIdOrThrow {r : Rbac} (hw : w.rbac = r) (id : String) :
    Leaves env (RolesService.findByIdOrThrow id) w (Yields fun _ v => v.rbac = r) := by
  refine .query_bind fun v hv => ?_
  split
  · exact ensures_ret.mpr ((lapse_rbac hv).trans hw)
  · exact leaves_throw _

theorem completes_withdraw {r : Request} {r' : Rbac} (hr : r.withdraw w.rbac = some r')
    {a : Response} (h : Completes env r w (.ok a) w') : w'.rbac = r' := by
  have wrap {β : Type} {p : App β} {f : β → Response}
      (hp : Leaves env p w (Yields fun _ v => v.rbac = r'))
      (h : (p >>= fun b => .ret (f b)).Exec (system env).lapse w (.ok a) w') : w'.rbac = r' := by
    obtain ⟨x, hx, e⟩ := exec_map.mp h
    cases x with
    | error e' => cases e
    | ok b => exact hp _ _ hx
  cases r with
  | removeRole id =>
    cases hr
    refine wrap (leaves_bind_yields (yields_findByIdOrThrow rfl id) fun _ v hv => ?_) h
    refine leaves_bind_yields (yields_rbacCall hv fun v' b x hv' e => ?_) fun _ _ hv => ensures_ret.mpr hv
    dsimp only at e
    split at e
    · cases e
    · cases e
      rw [hv']
  | removePermission id =>
    cases hr
    refine wrap (.query_bind fun v hv => ?_) h
    split
    · refine leaves_bind_yields (yields_rbacCall (lapse_rbac hv) fun v' b x hv' e => ?_)
        fun _ _ hv => ensures_ret.mpr hv
      dsimp only at e
      split at e
      · cases e
      · cases e
        rw [hv']
    · exact leaves_throw _
  | revokePermission roleId permissionId =>
    cases hr
    refine wrap (leaves_bind_yields (yields_findByIdOrThrow rfl roleId) fun _ v hv => ?_) h
    refine leaves_bind_yields (yields_rbacCall hv fun v' b x hv' e => ?_) fun _ _ hv =>
      yields_findByIdOrThrow hv roleId
    split at e
    · cases e
      rw [hv']
    · cases e
  | revokeFromUser userId roleId =>
    cases hr
    refine wrap (yields_rbacCall rfl fun v' b x hv' e => ?_) h
    split at e
    · cases e
      rw [hv']
    · cases e
  | _ => cases hr

/-- An access token has none of the names that the request took from its user;
a permission may still come from another role. -/
def Omits (r : Rbac) (u : String) (p : JwtPayload) : Request → Prop
  | .removeRole id => ∀ role ∈ r.roles, role.id = id → role.name ∉ p.roles
  | .revokeFromUser userId roleId =>
    userId = u → ∀ role ∈ r.roles, role.id = roleId → role.name ∉ p.roles
  | .removePermission id => ∀ x ∈ r.permissions, x.id = id → x.name ∉ p.permissions
  | .revokePermission roleId permissionId =>
    (∀ other, other ≠ roleId → ⟨u, other⟩ ∈ r.userRoles → ⟨other, permissionId⟩ ∉ r.rolePermissions) →
      ∀ x ∈ r.permissions, x.id = permissionId → x.name ∉ p.permissions
  | _ => True

theorem omits_of_withdraw {n : Nat} {r r' : Rbac} {req : Request} (hv : r.Valid env n)
    (hr : req.withdraw r = some r') {u : String} {p : JwtPayload}
    (hroles : ∀ name ∈ p.roles, r'.Holds u name)
    (hpermissions : ∀ name ∈ p.permissions, r'.Granted u name) : Omits r u p req := by
  cases req with
  | removeRole id =>
    cases hr
    rintro role hm rfl hn
    obtain ⟨role', hm', e, -⟩ := hroles _ hn
    obtain ⟨hm', hne⟩ := List.mem_filter.mp hm'
    obtain rfl := hv.roleName.eq hm' hm e
    simp at hne
  | revokeFromUser userId roleId =>
    cases hr
    rintro rfl role hm rfl hn
    obtain ⟨role', hm', e, hur⟩ := hroles _ hn
    obtain rfl := hv.roleName.eq hm' hm e
    simp at hur
  | removePermission id =>
    cases hr
    rintro x hm rfl hn
    obtain ⟨-, -, x', hm', e, -⟩ := hpermissions _ hn
    obtain ⟨hm', hne⟩ := List.mem_filter.mp hm'
    obtain rfl := hv.permissionName.eq hm' hm e
    simp at hne
  | revokePermission roleId permissionId =>
    cases hr
    rintro hother x hm rfl hn
    obtain ⟨other, hur, x', hm', e, hrp⟩ := hpermissions _ hn
    obtain rfl := hv.permissionName.eq hm' hm e
    obtain ⟨hrp, hne⟩ := List.mem_filter.mp hrp
    refine hother other ?_ hur hrp
    rintro rfl
    simp at hne
  | _ => trivial

/-- In every store that requests lead to, an access token that a registration,
a login or a refresh mints carries exactly the roles and permissions of its
user, and the guards decide accordingly; what a request revokes or deletes is
in no access token minted afterwards, unless it is granted again. -/
theorem access_exact {t : Time} {P : AppPool} (h : Interleaving env (.init t) P) :
    (∀ r u tokens w, Completes env r P.state (.ok (.session u tokens)) w →
      ExactAccess P.state.rbac u.id tokens.accessToken.token) ∧
    ∀ req a w₁ tr w₂, Completes env req P.state (.ok a) w₁ → History env w₁ tr w₂ →
      (∀ d ∈ tr, .grant ∉ d.req.deeds) →
      ∀ r u tokens w₃, Completes env r w₂ (.ok (.session u tokens)) w₃ →
        Omits P.state.rbac u.id tokens.accessToken.token req := by
  have hv := rbacValid_interleaving h
  refine ⟨fun r u tokens w hc => (completes_access hc).exact hv,
    fun req a w₁ tr w₂ hreq htr hg r u tokens w₃ hc => ?_⟩
  have hstep : w₁.RbacValid env := hreq.always (keepsRbacValid_program req)
    (fun _ _ ⟨m, e⟩ => e ▸ fun h => h) hv
  have hexact := (completes_access hc).exact (rbacValid_history htr hstep)
  have hfewer := fewer_history htr hg
  cases hr : req.withdraw P.state.rbac with
  | none => cases req <;> trivial
  | some r' =>
    have e := completes_withdraw hr hreq
    refine omits_of_withdraw hv hr (fun name hn => ?_) fun name hn => ?_
    · exact e ▸ (hfewer _ name).1 ((hexact.roles.2 name).mp hn)
    · exact e ▸ (hfewer _ name).2 ((hexact.permissions.2 name).mp hn)

/-- A registration, whose user is then made an editor. -/
def editor : List (Done Request World Exn Response) × World :=
  (system .sample).serve
    [(0, .register ⟨"a@b.co", "Passw0rd!", none, none⟩ ⟨none, none⟩), (0, .createRole "editor" none),
     (0, .createPermission "write" none), (0, .assignPermission (unary 8) (unary 9)),
     (0, .assignToUser (unary 1) (unary 8))] { now := 0 }

/-- Then the permission is deleted. -/
def formerEditor : World := ((program .sample (.removePermission (unary 9))).run editor.2).2

def refreshEditor : Request := .refresh (some (unary 3)) ⟨none, none⟩

theorem editor_access :
    (∃ u tokens w, Completes .sample refreshEditor editor.2 (.ok (.session u tokens)) w ∧
      PermissionsGuard.canActivate (some ["write"]) (some tokens.accessToken.token) = .ok true) ∧
    ∃ u tokens w, Completes .sample refreshEditor formerEditor (.ok (.session u tokens)) w ∧
      "write" ∉ tokens.accessToken.token.permissions := by
  have h : History .sample { now := 0 } editor.1 editor.2 := history_serve (by decide +kernel)
  obtain ⟨P, hP, hstate, -⟩ := h.run
  obtain ⟨hexact, homits⟩ := access_exact hP
  rw [hstate] at hexact homits
  have hgranted : editor.2.rbac.Granted (unary 1) "write" :=
    ⟨unary 8, by decide +kernel, ⟨unary 9, "write", none⟩, by decide +kernel, rfl, by decide +kernel⟩
  have served {w : World} (h : ((returnedSession ((program .sample refreshEditor).run w).1).map
      (·.1.id)) = some (unary 1)) : ∃ u tokens w', u.id = unary 1 ∧
        Completes .sample refreshEditor w (.ok (.session u tokens)) w' := by
    obtain ⟨⟨u, tokens⟩, hx, hu⟩ := Option.map_eq_some_iff.mp h
    obtain ⟨u', tokens', e⟩ := exists_session (Option.isSome_iff_exists.mpr ⟨_, hx⟩)
    rw [e] at hx
    cases hx
    exact ⟨u, tokens, _, hu, completes_of_run e⟩
  refine ⟨?_, ?_⟩
  · obtain ⟨u, tokens, w, hu, hc⟩ := served (w := editor.2) (by decide +kernel)
    refine ⟨u, tokens, w, hc, ((hexact _ _ _ _ hc).permissionsGuard _ (by decide)).mpr fun name hn => ?_⟩
    rw [List.mem_singleton.mp hn, hu]
    exact hgranted
  · obtain ⟨u, tokens, w, -, hc⟩ := served (w := formerEditor) (by decide +kernel)
    have hremove : Completes .sample (.removePermission (unary 9)) editor.2 (.ok .done) formerEditor :=
      completes_of_run (by decide +kernel)
    have hom : ∀ x ∈ editor.2.rbac.permissions, x.id = unary 9 →
        x.name ∉ tokens.accessToken.token.permissions :=
      homits _ _ _ _ _ hremove .nil (fun _ h => absurd h List.not_mem_nil) _ _ _ _ hc
    exact ⟨u, tokens, w, hc, hom ⟨unary 9, "write", none⟩ (by decide +kernel) rfl⟩

end AtlasAuth

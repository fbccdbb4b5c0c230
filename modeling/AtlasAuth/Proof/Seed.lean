import AtlasAuth.Framework.Table
import AtlasAuth.Model.Seed

/-!
# What the seed leaves

From a store that satisfies the constraints of the schema (`SchemaValid`) the
seed succeeds, whatever the order of its concurrent grants. It conserves the
store (`Conserves`): nothing but roles, permissions and links is touched, no row
of these is removed or renamed, and new rows come last. What it leaves is
`Seeded`, and a store that is so is a fixed point (`main_of_seeded`), so a second
run changes nothing.
-/

namespace AtlasAuth.Seed

open Framework Framework.Table Prog

variable {env : Env} {w w' w'' : World}

/-- The unique indexes and foreign keys of the schema; no identifier in use is
generated again. -/
structure SchemaValid (env : Env) (w : World) : Prop where
  userId : Unique User.id w.users
  userEmail : Unique User.email w.users
  roleId : Unique Role.id w.rbac.roles
  roleName : Unique Role.name w.rbac.roles
  roleNew : ∀ role ∈ w.rbac.roles, ∀ n, w.drawn ≤ n → role.id ≠ env.randomUUID n
  permissionId : Unique Permission.id w.rbac.permissions
  permissionName : Unique Permission.name w.rbac.permissions
  permissionNew : ∀ p ∈ w.rbac.permissions, ∀ n, w.drawn ≤ n → p.id ≠ env.randomUUID n
  rolePermissions : w.rbac.rolePermissions.Nodup
  granted : ∀ rp ∈ w.rbac.rolePermissions,
    (∃ role ∈ w.rbac.roles, role.id = rp.roleId) ∧ ∃ p ∈ w.rbac.permissions, p.id = rp.permissionId
  userRoles : w.rbac.userRoles.Nodup
  held : ∀ ur ∈ w.rbac.userRoles,
    (∃ u ∈ w.users, u.id = ur.userId) ∧ ∃ role ∈ w.rbac.roles, role.id = ur.roleId

/-- What identifies a permission. -/
def key (p : Permission) : String × String := (p.id, p.name)

/-- Rows may come after those that were there, and a permission may be described
anew; all else is the same. -/
structure Conserves (w w' : World) : Prop where
  rest : w' = { w with drawn := w'.drawn, rbac := w'.rbac }
  drawn : w.drawn ≤ w'.drawn
  roles : w.rbac.roles <+: w'.rbac.roles
  permissions : w.rbac.permissions.map key <+: w'.rbac.permissions.map key
  rolePermissions : w.rbac.rolePermissions <+: w'.rbac.rolePermissions
  userRoles : w.rbac.userRoles <+: w'.rbac.userRoles

theorem Conserves.refl (w : World) : Conserves w w :=
  ⟨rfl, Nat.le_refl _, List.prefix_rfl, List.prefix_rfl, List.prefix_rfl, List.prefix_rfl⟩

theorem Conserves.trans (h : Conserves w w') (h' : Conserves w' w'') : Conserves w w'' where
  rest := by rw [h'.rest, h.rest]
  drawn := h.drawn.trans h'.drawn
  roles := h.roles.trans h'.roles
  permissions := h.permissions.trans h'.permissions
  rolePermissions := h.rolePermissions.trans h'.rolePermissions
  userRoles := h.userRoles.trans h'.userRoles

theorem Conserves.users (h : Conserves w w') : w'.users = w.users := by rw [h.rest]

/-- A permission is still there, described anew perhaps. -/
theorem Conserves.permission (h : Conserves w w') {p : Permission} (hp : p ∈ w.rbac.permissions) :
    ∃ p' ∈ w'.rbac.permissions, p'.id = p.id ∧ p'.name = p.name := by
  obtain ⟨p', hp', e⟩ := List.mem_map.mp (h.permissions.subset (List.mem_map_of_mem hp))
  exact ⟨p', hp', congrArg Prod.fst e, congrArg Prod.snd e⟩

/-! ## The writes -/

/-- A value drawn for an identifier, and the ones after it. -/
theorem new_of_drawn {ρ : Type} {id : ρ → String} {rows : List ρ} {row : ρ} {n : Nat}
    (h : ∀ r ∈ rows, ∀ m, n ≤ m → id r ≠ env.randomUUID m) (hrow : id row = env.randomUUID n) :
    ∀ r ∈ rows ++ [row], ∀ m, n + 1 ≤ m → id r ≠ env.randomUUID m := by
  intro r hr m hm
  rcases List.mem_append.mp hr with hr | hr
  · exact h r hr m (by omega)
  · rw [List.mem_singleton.mp hr, hrow]
    intro e
    have := env.randomUUID_injective e
    omega

theorem SchemaValid.addPermission (h : SchemaValid env w) {name : String}
    (hn : ∀ p ∈ w.rbac.permissions, p.name ≠ name) (description : Option String) :
    SchemaValid env { w with drawn := w.drawn + 1, rbac := { w.rbac with
      permissions := w.rbac.permissions ++ [⟨env.randomUUID w.drawn, name, description⟩] } } :=
  { h with
    permissionId := h.permissionId.append fun p hp => h.permissionNew p hp _ (Nat.le_refl _)
    permissionName := h.permissionName.append hn
    permissionNew := new_of_drawn h.permissionNew rfl
    roleNew := fun role hr n hm => h.roleNew role hr n (by exact Nat.le_of_succ_le hm)
    granted := fun rp hrp => by
      obtain ⟨hr, p, hp, e⟩ := h.granted rp hrp
      exact ⟨hr, p, List.mem_append_left _ hp, e⟩ }

theorem SchemaValid.describe (h : SchemaValid env w) (name : String) (description : Option String) :
    SchemaValid env { w with rbac := { w.rbac with
      permissions := updateWhere (·.name == name) (fun p => { p with description })
        w.rbac.permissions } } :=
  { h with
    permissionId := h.permissionId.updateWhere fun _ _ => rfl
    permissionName := h.permissionName.updateWhere fun _ _ => rfl
    permissionNew := forall_updateWhere h.permissionNew fun _ _ hp => hp
    granted := fun rp hrp => by
      obtain ⟨hr, hp⟩ := h.granted rp hrp
      exact ⟨hr, exists_updateWhere (fun _ => rfl) hp⟩ }

theorem SchemaValid.addRole (h : SchemaValid env w) {name : String}
    (hn : ∀ role ∈ w.rbac.roles, role.name ≠ name) (description : Option String) :
    SchemaValid env { w with drawn := w.drawn + 1, rbac := { w.rbac with
      roles := w.rbac.roles ++ [⟨env.randomUUID w.drawn, name, description⟩] } } :=
  { h with
    roleId := h.roleId.append fun role hr => h.roleNew role hr _ (Nat.le_refl _)
    roleName := h.roleName.append hn
    roleNew := new_of_drawn h.roleNew rfl
    permissionNew := fun p hp n hm => h.permissionNew p hp n (by exact Nat.le_of_succ_le hm)
    granted := fun rp hrp => by
      obtain ⟨⟨role, hr, e⟩, hp⟩ := h.granted rp hrp
      exact ⟨⟨role, List.mem_append_left _ hr, e⟩, hp⟩
    held := fun ur hur => by
      obtain ⟨hu, role, hr, e⟩ := h.held ur hur
      exact ⟨hu, role, List.mem_append_left _ hr, e⟩ }

theorem nodup_concat {α : Type} {x : α} {rows : List α} (h : rows.Nodup) (hx : x ∉ rows) :
    (rows ++ [x]).Nodup :=
  h.append (List.nodup_singleton x) (by simpa using hx)

theorem SchemaValid.grant (h : SchemaValid env w) {rp : RolePermission}
    (hn : rp ∉ w.rbac.rolePermissions) (hr : ∃ role ∈ w.rbac.roles, role.id = rp.roleId)
    (hp : ∃ p ∈ w.rbac.permissions, p.id = rp.permissionId) :
    SchemaValid env
      { w with rbac := { w.rbac with rolePermissions := w.rbac.rolePermissions ++ [rp] } } :=
  { h with
    rolePermissions := nodup_concat h.rolePermissions hn
    granted := by
      intro x hx
      rcases List.mem_append.mp hx with hx | hx
      · exact h.granted x hx
      · obtain rfl := List.mem_singleton.mp hx
        exact ⟨hr, hp⟩ }

theorem SchemaValid.assign (h : SchemaValid env w) {ur : UserRole} (hn : ur ∉ w.rbac.userRoles)
    (hu : ∃ u ∈ w.users, u.id = ur.userId) (hr : ∃ role ∈ w.rbac.roles, role.id = ur.roleId) :
    SchemaValid env { w with rbac := { w.rbac with userRoles := w.rbac.userRoles ++ [ur] } } :=
  { h with
    userRoles := nodup_concat h.userRoles hn
    held := by
      intro x hx
      rcases List.mem_append.mp hx with hx | hx
      · exact h.held x hx
      · obtain rfl := List.mem_singleton.mp hx
        exact ⟨hu, hr⟩ }

/-! ## The calls -/

/-- A call succeeds, and conserves a valid store. -/
def Adds (env : Env) {α : Type} (p : SeedApp α) (w : World) (Q : α → World → Prop) : Prop :=
  SchemaValid env w →
    ∃ a w', p.run w = (.ok a, w') ∧ Conserves w w' ∧ SchemaValid env w' ∧ Q a w'

/-- The permission of this name is there, with this description. -/
def Catalogued (entry : String × String) (w : World) : Prop :=
  ∃ p ∈ w.rbac.permissions, p.name = entry.1 ∧ p.description = some entry.2

theorem adds_upsertPermission (name description : String) :
    Adds env (upsertPermission env name description) w fun _ w' =>
      Catalogued (name, description) w' := by
  intro hw
  unfold upsertPermission
  rw [run_atomic]
  split
  · rename_i h
    obtain ⟨p, hp, hn⟩ := List.any_eq_true.mp h
    have hkeys : (updateWhere (·.name == name)
        (fun p : Permission => { p with description := some description })
        w.rbac.permissions).map key = w.rbac.permissions.map key := map_updateWhere fun _ _ => rfl
    refine ⟨_, _, rfl, { Conserves.refl w with rest := rfl, permissions := hkeys ▸ List.prefix_rfl },
      hw.describe name _, ?_⟩
    refine ⟨_, mem_updateWhere.mpr ⟨p, hp, rfl⟩, ?_⟩
    rw [if_pos hn]
    exact ⟨by simpa using hn, rfl⟩
  · rename_i h
    refine ⟨_, _, rfl, { Conserves.refl w with
      rest := rfl, drawn := Nat.le_succ _, permissions := ?_ }, hw.addPermission ?_ _, ?_⟩
    · exact (List.prefix_append _ _).map key
    · simpa using h
    · exact ⟨_, List.mem_append_right _ (List.mem_singleton_self _), rfl, rfl⟩

/-- The catalogue names no permission twice. -/
theorem catalogued_keep {entry : String × String} {name description : String} (hn : entry.1 ≠ name)
    (h : Catalogued entry w) (hr : (upsertPermission env name description).run w = (.ok (), w')) :
    Catalogued entry w' := by
  obtain ⟨p, hp, hpn, hd⟩ := h
  rw [upsertPermission, run_atomic] at hr
  split at hr <;> cases hr
  · have hne : ¬(p.name == name) = true := by simpa [hpn] using hn
    exact ⟨p, mem_updateWhere.mpr ⟨p, hp, (if_neg hne).symm⟩, hpn, hd⟩
  · exact ⟨p, List.mem_append_left _ hp, hpn, hd⟩

theorem adds_upsertRole (name description : String) :
    Adds env (upsertRole env name description) w fun role w' =>
      role ∈ w'.rbac.roles ∧ role.name = name ∧ w'.rbac.permissions = w.rbac.permissions := by
  intro hw
  unfold upsertRole
  rw [run_atomic]
  split
  · rename_i role h
    exact ⟨_, _, rfl, .refl w, hw, List.mem_of_find?_eq_some h, by simpa using List.find?_some h, rfl⟩
  · rename_i h
    refine ⟨_, _, rfl, { Conserves.refl w with
      rest := rfl, drawn := Nat.le_succ _, roles := List.prefix_append _ _ }, hw.addRole ?_ _,
      List.mem_append_right _ (List.mem_singleton_self _), rfl, rfl⟩
    simpa using h

/-- A link is made unless it is there, and the rows it refers to are. -/
theorem adds_link {l : SeedCall} {f : World → Except Exn Unit × World} {present refers : Bool}
    {Q : World → Prop} (hf : f w =
      if present then (.ok (), w) else if refers then (.ok (), w') else (.error (.prisma "P2003"), w))
    (hrefers : refers = true) (hold : present = true → Q w)
    (hnew : present = false → SchemaValid env w → Conserves w w' ∧ SchemaValid env w' ∧ Q w') :
    Adds env (.atomic l f) w fun _ => Q := by
  intro hw
  rw [run_atomic, hf]
  cases present with
  | true => exact ⟨_, _, rfl, .refl w, hw, hold rfl⟩
  | false =>
    obtain ⟨hc, hv, hq⟩ := hnew rfl hw
    rw [if_neg Bool.false_ne_true, if_pos hrefers]
    exact ⟨_, _, rfl, hc, hv, hq⟩

theorem adds_upsertRolePermission {roleId permissionId : String}
    (hr : ∃ role ∈ w.rbac.roles, role.id = roleId)
    (hp : ∃ p ∈ w.rbac.permissions, p.id = permissionId) :
    Adds env (upsertRolePermission roleId permissionId) w fun _ w' =>
      ⟨roleId, permissionId⟩ ∈ w'.rbac.rolePermissions ∧
        w'.rbac.permissions = w.rbac.permissions := by
  refine adds_link rfl (by simpa using ⟨hr, hp⟩) (fun h => ⟨by simpa using h, rfl⟩) fun h hw => ?_
  exact ⟨{ Conserves.refl w with rest := rfl, rolePermissions := List.prefix_append _ _ },
    hw.grant (by simpa using h) hr hp, List.mem_append_right _ (List.mem_singleton_self _), rfl⟩

theorem adds_upsertUserRole {userId roleId : String} (hu : ∃ u ∈ w.users, u.id = userId)
    (hr : ∃ role ∈ w.rbac.roles, role.id = roleId) :
    Adds env (upsertUserRole userId roleId) w fun _ w' =>
      ⟨userId, roleId⟩ ∈ w'.rbac.userRoles ∧ w'.rbac.permissions = w.rbac.permissions := by
  refine adds_link rfl (by simpa using ⟨hu, hr⟩) (fun h => ⟨by simpa using h, rfl⟩) fun h hw => ?_
  exact ⟨{ Conserves.refl w with rest := rfl, userRoles := List.prefix_append _ _ },
    hw.assign (by simpa using h) hu hr, List.mem_append_right _ (List.mem_singleton_self _), rfl⟩

/-! ## The loops -/

theorem adds_catalogue :
    Adds env (forEach (fun entry => upsertPermission env entry.1 entry.2) PERMISSIONS) w fun _ w' =>
      ∀ entry ∈ PERMISSIONS, Catalogued entry w' := by
  intro hw
  have hdistinct : PERMISSIONS.Pairwise fun x y => x.1 ≠ y.1 := by decide
  obtain ⟨w', hr, ⟨hc, hv⟩, hd⟩ := run_forEach
    (f := fun entry => upsertPermission env entry.1 entry.2)
    (I := fun s => Conserves w s ∧ SchemaValid env s) (D := Catalogued) (s := w)
    (fun entry _ s hs => by
      obtain ⟨_, s', hr, hc, hv, hd⟩ := adds_upsertPermission entry.1 entry.2 hs.2
      exact ⟨s', hr, ⟨hs.1.trans hc, hv⟩, hd⟩)
    (hdistinct.imp fun hne s s' hd hr => catalogued_keep hne hd hr) ⟨.refl w, hw⟩
  exact ⟨(), w', hr, hc, hv, hd⟩

/-- What the grants keep while they are made. -/
theorem adds_grants {role : Role} (hrole : role ∈ w.rbac.roles) {ps : List Permission}
    (hps : ∀ p ∈ ps, p ∈ w.rbac.permissions) :
    Adds env (forEach (fun permission => upsertRolePermission role.id permission.id) ps) w fun _ w' =>
      (∀ p ∈ ps, ⟨role.id, p.id⟩ ∈ w'.rbac.rolePermissions) ∧
        w'.rbac.permissions = w.rbac.permissions := by
  intro hw
  have keep (p q : Permission) (s s' : World) (hd : ⟨role.id, p.id⟩ ∈ s.rbac.rolePermissions)
      (hr : (upsertRolePermission role.id q.id).run s = (.ok (), s')) :
      ⟨role.id, p.id⟩ ∈ s'.rbac.rolePermissions := by
    rw [upsertRolePermission, run_atomic] at hr
    split at hr
    · cases hr
      exact hd
    · split at hr <;> cases hr
      exact List.mem_append_left _ hd
  obtain ⟨w', hr, ⟨hc, hv, hp⟩, hd⟩ := run_forEach
    (f := fun permission : Permission => upsertRolePermission role.id permission.id)
    (I := fun s => Conserves w s ∧ SchemaValid env s ∧ s.rbac.permissions = w.rbac.permissions)
    (D := fun p s => ⟨role.id, p.id⟩ ∈ s.rbac.rolePermissions) (s := w)
    (fun p hp s hs => by
      obtain ⟨hc, hv, hsame⟩ := hs
      obtain ⟨_, s', hr, hc', hv', hd, hsame'⟩ := adds_upsertRolePermission
        ⟨role, hc.roles.subset hrole, rfl⟩ ⟨p, hsame ▸ hps p hp, rfl⟩ hv
      exact ⟨s', hr, ⟨hc.trans hc', hv', hsame'.trans hsame⟩, hd⟩)
    (List.pairwise_of_forall keep) ⟨.refl w, hw, rfl⟩
  exact ⟨(), w', hr, hc, hv, hd, hp⟩

/-! ## The whole seed -/

/-- The catalogue and the two roles are there, the role named admin has every
permission, and the user with the address has that role. -/
structure Seeded (email : Option String) (w : World) : Prop where
  catalogue : ∀ entry ∈ PERMISSIONS, Catalogued entry w
  user : ∃ role ∈ w.rbac.roles, role.name = "user"
  admin : ∃ role ∈ w.rbac.roles, role.name = "admin" ∧
    (∀ p ∈ w.rbac.permissions, ⟨role.id, p.id⟩ ∈ w.rbac.rolePermissions) ∧
    ∀ u ∈ w.users, truthy email = some u.email → ⟨u.id, role.id⟩ ∈ w.rbac.userRoles

theorem Adds.bind {α β : Type} {p : SeedApp α} {k : α → SeedApp β} {Q : α → World → Prop}
    {Q' : β → World → Prop} (hp : Adds env p w Q)
    (hk : ∀ a w', Conserves w w' → Q a w' → Adds env (k a) w' Q') : Adds env (p >>= k) w Q' := by
  intro hw
  obtain ⟨a, w', hr, hc, hv, hq⟩ := hp hw
  obtain ⟨b, w'', hr', hc', hv', hq'⟩ := hk a w' hc hq hv
  exact ⟨b, w'', (run_bind_of_ok hr).trans hr', hc.trans hc', hv', hq'⟩

theorem Adds.ret {α : Type} {a : α} {Q : α → World → Prop} (h : SchemaValid env w → Q a w) :
    Adds env (.ret a) w Q :=
  fun hw => ⟨a, w, rfl, .refl w, hw, h hw⟩

theorem Adds.query_bind {α β : Type} {l : SeedCall} {f : World → α} {k : α → SeedApp β}
    {Q : β → World → Prop} (hk : Adds env (k (f w)) w Q) : Adds env (query l f >>= k) w Q := by
  intro hw
  obtain ⟨b, w', hr, h⟩ := hk hw
  exact ⟨b, w', (run_bind_of_ok (run_query l f w)).trans hr, h⟩

theorem adds_main {ADMIN_EMAIL : Option String} {order : List Permission → List Permission}
    (horder : ∀ ps, (order ps).Perm ps) :
    Adds env (main env ADMIN_EMAIL order) w fun _ w' => Seeded (adminEmail env ADMIN_EMAIL) w' := by
  unfold main
  refine .bind adds_catalogue fun _ w₁ _ hcat => ?_
  refine .bind (adds_upsertRole _ _) fun admin w₂ _ ⟨hadmin, hname, hp₂⟩ => ?_
  refine .bind (adds_upsertRole _ _) fun user w₃ hc₃ ⟨huser, huname, hp₃⟩ => ?_
  refine .query_bind ?_
  have hadmin₃ := hc₃.roles.subset hadmin
  refine .bind (adds_grants hadmin₃ fun p hp => (horder _).subset hp) fun _ w₄ hc₄ ⟨hg, hp₄⟩ => ?_
  -- The last step keeps the permissions and conserves the roles and the grants.
  have seeded {w' : World} (hc : Conserves w₄ w') (hp : w'.rbac.permissions = w₄.rbac.permissions)
      (hu : ∀ u ∈ w'.users, truthy (adminEmail env ADMIN_EMAIL) = some u.email →
        ⟨u.id, admin.id⟩ ∈ w'.rbac.userRoles) : Seeded (adminEmail env ADMIN_EMAIL) w' := by
    refine ⟨fun entry he => ?_, ⟨user, hc.roles.subset (hc₄.roles.subset huser), huname⟩,
      admin, hc.roles.subset (hc₄.roles.subset hadmin₃), hname, fun p hp' => ?_, hu⟩
    · obtain ⟨p, hp', h⟩ := hcat entry he
      exact ⟨p, by rwa [hp, hp₄, hp₃, hp₂], h⟩
    · rw [hp, hp₄] at hp'
      exact hc.rolePermissions.subset (hg p ((horder _).mem_iff.mpr hp'))
  cases he : truthy (adminEmail env ADMIN_EMAIL) with
  | none => exact .ret fun _ => seeded (.refl _) rfl fun u _ h => by simp [he] at h
  | some email =>
    refine .query_bind ?_
    cases hf : w₄.users.find? (·.email == email) with
    | none =>
      refine .ret fun _ => seeded (.refl _) rfl fun u hu h => ?_
      rw [he] at h
      cases h
      simpa using List.find?_eq_none.mp hf u hu
    | some u =>
      intro hv
      obtain ⟨huw, hue⟩ := hv.userEmail.find?.mp hf
      obtain ⟨_, w₅, hr, hc₅, hv₅, hheld, hp₅⟩ := adds_upsertUserRole ⟨u, huw, rfl⟩
        ⟨admin, hc₄.roles.subset hadmin₃, rfl⟩ hv
      refine ⟨_, w₅, hr, hc₅, hv₅, seeded hc₅ hp₅ fun u' hu' h => ?_⟩
      rw [he, ← hue] at h
      rw [hc₅.users] at hu'
      rwa [hv.userEmail.eq hu' huw (Option.some.inj h).symm]

/-! ## A second run -/

theorem upsertPermission_of_catalogued {entry : String × String} (hv : SchemaValid env w)
    (h : Catalogued entry w) : (upsertPermission env entry.1 entry.2).run w = (.ok (), w) := by
  obtain ⟨p, hp, hn, hd⟩ := h
  have hsame : updateWhere (·.name == entry.1)
      (fun q : Permission => { q with description := some entry.2 }) w.rbac.permissions =
        w.rbac.permissions := by
    refine updateWhere_of_fixed fun q hq hqn => ?_
    obtain rfl := hv.permissionName.eq hq hp ((by simpa using hqn : q.name = entry.1).trans hn.symm)
    rw [← hd]
  rw [upsertPermission, run_atomic, if_pos (List.any_eq_true.mpr ⟨p, hp, by simpa using hn⟩), hsame]

theorem upsertRole_of_mem {role : Role} (hv : SchemaValid env w) (hr : role ∈ w.rbac.roles)
    (description : String) : (upsertRole env role.name description).run w = (.ok role, w) := by
  rw [upsertRole, run_atomic, hv.roleName.find?.mpr ⟨hr, rfl⟩]

theorem main_of_seeded {ADMIN_EMAIL : Option String} {order : List Permission → List Permission}
    (horder : ∀ ps, (order ps).Perm ps) (hv : SchemaValid env w)
    (h : Seeded (adminEmail env ADMIN_EMAIL) w) :
    (main env ADMIN_EMAIL order).run w = (.ok (), w) := by
  obtain ⟨user, huser, huname⟩ := h.user
  obtain ⟨admin, hadmin, hname, hgrants, hholds⟩ := h.admin
  have hcat : (forEach (fun entry => upsertPermission env entry.1 entry.2) PERMISSIONS).run w =
      (.ok (), w) :=
    run_forEach_of_fixed fun entry he => upsertPermission_of_catalogued hv (h.catalogue entry he)
  have hgrant : (forEach (fun permission => upsertRolePermission admin.id permission.id)
      (order w.rbac.permissions)).run w = (.ok (), w) :=
    run_forEach_of_fixed fun p hp => by
      have hmem := hgrants p ((horder _).mem_iff.mp hp)
      rw [upsertRolePermission, run_atomic, if_pos (by simpa using hmem)]
  rw [main, run_bind_of_ok hcat, ← hname, run_bind_of_ok (upsertRole_of_mem hv hadmin _), ← huname,
    run_bind_of_ok (upsertRole_of_mem hv huser _), findManyPermissions,
    run_bind_of_ok (run_query _ _ _), run_bind_of_ok hgrant]
  cases he : truthy (adminEmail env ADMIN_EMAIL) with
  | none => rfl
  | some email =>
    dsimp only
    rw [findUniqueUser, run_bind_of_ok (run_query _ _ _)]
    cases hf : w.users.find? (·.email == email) with
    | none => rfl
    | some u =>
      obtain ⟨huw, hue⟩ := hv.userEmail.find?.mp hf
      have hmem := hholds u huw (hue ▸ he)
      dsimp only
      rw [upsertUserRole, run_atomic, if_pos (by simpa using hmem)]

/-- A run of the seed, and a second one after it, with the grants of each in any
order. -/
theorem seed_idempotent {ADMIN_EMAIL : Option String}
    {order order' : List Permission → List Permission} (horder : ∀ ps, (order ps).Perm ps)
    (horder' : ∀ ps, (order' ps).Perm ps) (hw : SchemaValid env w) :
    ∃ w', (main env ADMIN_EMAIL order).run w = (.ok (), w') ∧ Conserves w w' ∧ SchemaValid env w' ∧
      Seeded (adminEmail env ADMIN_EMAIL) w' ∧
      (main env ADMIN_EMAIL order').run w' = (.ok (), w') := by
  obtain ⟨_, w', hr, hc, hv, hs⟩ := adds_main horder hw
  exact ⟨w', hr, hc, hv, hs, main_of_seeded horder' hv hs⟩

/-- A store with an account, an admin role that was given another description,
and a permission that is not in the catalogue. -/
def customStore : World where
  now := 0
  drawn := 3
  users := [{ id := "u", email := "root@atlas.dev", passwordHash := "" }]
  rbac := {
    roles := [⟨unary 0, "admin", some "Everything"⟩]
    permissions := [⟨unary 1, "reports:read", none⟩, ⟨unary 2, "users:read", none⟩]
    rolePermissions := [⟨unary 0, unary 2⟩] }

theorem customStore_valid : SchemaValid .sample customStore where
  userId := List.nodup_singleton _
  userEmail := List.nodup_singleton _
  roleId := List.nodup_singleton _
  roleName := List.nodup_singleton _
  roleNew role hr n hn e := by
    obtain rfl := List.mem_singleton.mp hr
    exact absurd (unary_injective e) (by have : 3 ≤ n := hn; omega)
  permissionId := by unfold Table.Unique; decide
  permissionName := by unfold Table.Unique; decide
  permissionNew p hp n hn e := by
    have hn : 3 ≤ n := hn
    rcases List.mem_pair.mp hp with rfl | rfl <;> have := unary_injective e <;> omega
  rolePermissions := List.nodup_singleton _
  granted := by decide
  userRoles := List.nodup_nil
  held := by decide

theorem customStore_seeded :
    ∃ w', (main .sample (some " Root@Atlas.dev ") List.reverse).run customStore = (.ok (), w') ∧
      Conserves customStore w' ∧ SchemaValid .sample w' ∧
      Seeded (adminEmail .sample (some " Root@Atlas.dev ")) w' ∧
      (main .sample (some " Root@Atlas.dev ") id).run w' = (.ok (), w') :=
  seed_idempotent List.reverse_perm (fun _ => .refl _) customStore_valid

/-- An account without an address, which the schema allows. -/
def emptyAddress : World where
  now := 0
  users := [{ id := "u", email := "", passwordHash := "" }]

/-- An empty `ADMIN_EMAIL` counts as none. -/
theorem emptyAddress_not_admin :
    SchemaValid .sample emptyAddress ∧
    let w' := ((main .sample (some "") id).run emptyAddress).2
    ∃ u ∈ w'.users, adminEmail .sample (some "") = some u.email ∧
      ∀ role ∈ w'.rbac.roles, role.name = "admin" → ⟨u.id, role.id⟩ ∉ w'.rbac.userRoles := by
  constructor
  · constructor <;> simp [emptyAddress, Table.Unique]
  · decide +kernel

end AtlasAuth.Seed

import AtlasAuth.Proof.Rbac

/-!
# Which operations on roles and permissions succeed

Whether a request of `RolesService` or `PermissionsService` that runs alone
succeeds is decided by the tables in which it begins: `Request.admitted`
(`administration_admitted`).
-/

namespace AtlasAuth

open Framework Framework.Table Prog

variable {env : Env} {w w' : World} {x : Except Exn Response}

/-- The operations on roles and permissions that the tables admit. -/
def Request.admitted (w : World) : Request → Bool
  | .createRole name _ => !w.rbac.roles.any (·.name == name)
  | .updateRole id name _ =>
    w.rbac.roles.any (·.id == id) && !w.rbac.roles.any fun r => r.id != id && name == some r.name
  | .removeRole id => w.rbac.roles.any (·.id == id)
  | .assignPermission roleId permissionId =>
    w.rbac.roles.any (·.id == roleId) && w.rbac.permissions.any (·.id == permissionId)
  | .revokePermission roleId permissionId =>
    w.rbac.roles.any (·.id == roleId) && w.rbac.rolePermissions.contains ⟨roleId, permissionId⟩
  | .assignToUser userId roleId =>
    w.users.any (fun u => u.id == userId && u.deletedAt.isNone) && w.rbac.roles.any (·.id == roleId)
  | .revokeFromUser userId roleId => w.rbac.userRoles.contains ⟨userId, roleId⟩
  | .createPermission name _ => !w.rbac.permissions.any (·.name == name)
  | .removePermission id => w.rbac.permissions.any (·.id == id)
  | _ => false

/-- A request succeeds if and only if `b`. -/
def SucceedsIff {α : Type} (b : Bool) : Except Exn α → World → Prop
  | .ok _, _ => b = true
  | .error _, _ => b = false

/-- The users and the tables of roles and permissions are as they were. -/
def SameTables (w w' : World) : Prop := w'.rbac = w.rbac ∧ w'.users = w.users

theorem SameTables.lapse (h : SameTables w w') {w'' : World} (hl : (system env).lapse w' w'') :
    SameTables w w'' := by
  obtain ⟨d, rfl⟩ := hl
  exact h

section

variable {α β ρ : Type} {b : Bool}

theorem isSome_find? {p : ρ → Bool} {rows : List ρ} {o : Option ρ} (h : rows.find? p = o) :
    rows.any p = o.isSome := by
  cases o with
  | none => exact List.any_eq_false.mpr (List.find?_eq_none.mp h)
  | some a => exact List.any_eq_true.mpr ⟨a, List.mem_of_find?_eq_some h, List.find?_some h⟩

theorem exists_find? {p : ρ → Bool} {rows : List ρ} (h : rows.any p = true) :
    ∃ a, rows.find? p = some a :=
  Option.isSome_iff_exists.mp ((isSome_find? rfl).symm.trans h)

/-- A lookup of a role that has to be there. -/
theorem succeedsIff_findByIdOrThrow (h : SameTables w w') (id : String)
    {k : RoleWithPermissions → App α} (hno : w.rbac.roles.any (·.id == id) = false → b = false)
    (hk : ∀ role w'', w.rbac.roles.any (·.id == id) = true → SameTables w w'' →
      Leaves env (k role) w'' (SucceedsIff b)) :
    Leaves env (RolesService.findByIdOrThrow id >>= k) w' (SucceedsIff b) := by
  refine ensures_bind.mpr (.query_bind fun v hv => ?_)
  have hv := h.lapse hv
  rw [hv.1]
  cases hr : w.rbac.roles.find? (·.id == id) with
  | none => exact ensures_throw.mpr (hno (isSome_find? hr))
  | some role => exact ensures_ret.mpr (hk _ _ (isSome_find? hr) hv)

/-- The lookup that ends an operation on a role that is there. -/
theorem succeedsIff_found (id : String) (h : w'.rbac.roles.any (·.id == id) = true) (hb : b = true) :
    Leaves env (RolesService.findByIdOrThrow id) w' (SucceedsIff b) := by
  refine .query_bind fun v hv => ?_
  rw [lapse_rbac hv]
  cases hr : w'.rbac.roles.find? (·.id == id) with
  | none => simp [isSome_find? hr] at h
  | some role => exact ensures_ret.mpr hb

/-- A call on the tables that is refused. -/
theorem leaves_refused {call : Call} {f : World → Except Exn (β × Rbac)} (h : SameTables w w')
    (hf : ∀ v, SameTables w v → ∃ e, f v = .error e) (hb : b = false) :
    Leaves env (rbacCall call f) w' (SucceedsIff b) := by
  refine ensures_atomic.mpr fun v hv => ?_
  obtain ⟨e, he⟩ := hf v (h.lapse hv)
  simp only [he]
  exact hb

theorem succeedsIff_refused {call : Call} {f : World → Except Exn (β × Rbac)} {k : β → App α}
    (h : SameTables w w') (hf : ∀ v, SameTables w v → ∃ e, f v = .error e) (hb : b = false) :
    Leaves env (rbacCall call f >>= k) w' (SucceedsIff b) :=
  (leaves_refused h hf hb).bind (fun _ _ ht => by cases hb.symm.trans ht) fun _ _ _ => hb

/-- A call on the tables that is made. -/
theorem leaves_made {call : Call} {f : World → Except Exn (β × Rbac)} {M : β → Rbac → Prop}
    (h : SameTables w w') (hf : ∀ v, SameTables w v → ∃ a r, f v = .ok (a, r) ∧ M a r) :
    Leaves env (rbacCall call f) w' fun x v => ∃ a, x = .ok a ∧ M a v.rbac := by
  refine ensures_atomic.mpr fun v hv => ?_
  obtain ⟨a, r, he, hM⟩ := hf v (h.lapse hv)
  simp only [he]
  exact ⟨a, rfl, hM⟩

theorem succeedsIff_made {call : Call} {f : World → Except Exn (β × Rbac)} (h : SameTables w w')
    (hf : ∀ v, SameTables w v → ∃ a, f v = .ok a) (hb : b = true) :
    Leaves env (rbacCall call f) w' (SucceedsIff b) := by
  refine (leaves_made (M := fun _ _ => True) h fun v hv => ?_).mono ?_
  · obtain ⟨a, he⟩ := hf v hv
    exact ⟨a.1, a.2, he, trivial⟩
  · rintro _ _ ⟨a, rfl, -⟩
    exact hb

end

theorem any_updateWhere_id {id id' : String} {data : Role → Role} {roles : List Role}
    (h : ∀ r, (data r).id = r.id) :
    (updateWhere (·.id == id) data roles).any (·.id == id') = roles.any (·.id == id') := by
  simp only [updateWhere, List.any_map]
  congr 1
  funext r
  simp only [Function.comp_apply]
  split
  · rw [h r]
  · rfl

theorem administration_admitted {r : Request} (hr : r.isAdministration = true)
    (h : Completes env r w x w') : (∃ a, x = .ok a) ↔ r.admitted w = true := by
  suffices hd : Leaves env (program env r) w (SucceedsIff (r.admitted w)) by
    have hx := hd x w' h
    cases x with
    | ok a => exact iff_of_true ⟨a, rfl⟩ hx
    | error e => exact iff_of_false (fun ⟨a, ha⟩ => by cases ha) (Bool.eq_false_iff.mp hx)
  have same : SameTables w w := ⟨rfl, rfl⟩
  have wrap {β : Type} {p : App β} {f : β → Response} (hp : Leaves env p w (SucceedsIff (r.admitted w))) :
      Leaves env (p >>= fun b => .ret (f b)) w (SucceedsIff (r.admitted w)) :=
    hp.bind (fun _ _ h => ensures_ret.mpr h) fun _ _ h => h
  cases r with
  | createRole name d =>
    refine wrap (.query_bind fun v hv => ?_)
    have hv := same.lapse hv
    rw [hv.1]
    cases hn : w.rbac.roles.find? (·.name == name) with
    | some role =>
      exact .ite (fun _ => ensures_throw.mpr (by simp [SucceedsIff, Request.admitted, isSome_find? hn]))
        fun h => absurd rfl h
    | none =>
      have hn := isSome_find? hn
      refine .ite (fun h => by simp at h) fun _ => .bind_of_ok (leaves_made
        (M := fun role r => r.roles.any (·.id == role.id) = true) hv fun v hv => ?_) ?_
      · exact ⟨_, _, by rw [hv.1, if_neg (by simpa using hn)], by simp⟩
      · exact fun role v' hv' => succeedsIff_found _ hv' (by simp [Request.admitted, hn])
  | updateRole id name d =>
    refine wrap (succeedsIff_findByIdOrThrow same id (fun h => by simp [Request.admitted, h]) ?_)
    intro _ v hrole hv
    obtain ⟨role, hid⟩ := exists_find? hrole
    by_cases hn : w.rbac.roles.any fun r => r.id != id && name == some r.name
    · refine succeedsIff_refused hv (fun v hv => ⟨.prisma "P2002", ?_⟩) ?_
      · simp only [hv.1, hid, if_pos hn]
      · simp only [Request.admitted, hn, Bool.not_true, Bool.and_false]
    · refine .bind_of_ok (leaves_made (M := fun _ r => r.roles.any (·.id == id) = true) hv
        fun v hv => ?_) fun _ v' hv' => succeedsIff_found _ hv' ?_
      · refine ⟨_, _, by simp only [hv.1, hid, if_neg hn]; rfl, ?_⟩
        exact (any_updateWhere_id (by exact fun _ => rfl)).trans hrole
      · simp only [Request.admitted, hrole, hn, Bool.not_false, Bool.and_self]
  | removeRole id =>
    refine wrap (succeedsIff_findByIdOrThrow same id (fun h => h) ?_)
    intro _ v hrole hv
    obtain ⟨role, hid⟩ := exists_find? hrole
    refine .bind (succeedsIff_made hv (fun v hv => ⟨_, by simp only [hv.1, hid]; rfl⟩) hrole) ?_
      fun _ _ h => h
    exact fun _ _ h => ensures_ret.mpr h
  | assignPermission roleId permissionId =>
    refine wrap (succeedsIff_findByIdOrThrow same roleId (fun h => by simp [Request.admitted, h]) ?_)
    intro _ v hrole hv
    refine .query_bind fun v' hv' => ?_
    have hv := hv.lapse hv'
    rw [hv.1]
    cases hp : w.rbac.permissions.find? (·.id == permissionId) with
    | none => exact ensures_throw.mpr (by simp [SucceedsIff, Request.admitted, isSome_find? hp])
    | some permission =>
      have hp : w.rbac.permissions.any (·.id == permissionId) = true := isSome_find? hp
      refine .bind_of_ok (leaves_made (M := fun _ r => r.roles = w.rbac.roles) hv fun v hv => ?_)
        fun _ v' hv' => succeedsIff_found _ (by rw [hv', hrole]) ?_
      · by_cases hc : w.rbac.rolePermissions.contains ⟨roleId, permissionId⟩
        · refine ⟨_, _, by rw [hv.1, if_pos hc], ?_⟩
          rfl
        · refine ⟨_, _, by rw [hv.1, if_neg hc, hrole, hp]; rfl, ?_⟩
          rfl
      · simp only [Request.admitted, hrole, hp, Bool.and_self]
  | revokePermission roleId permissionId =>
    refine wrap (succeedsIff_findByIdOrThrow same roleId (fun h => by simp [Request.admitted, h]) ?_)
    intro _ v hrole hv
    by_cases hc : w.rbac.rolePermissions.contains ⟨roleId, permissionId⟩
    · refine .bind_of_ok (leaves_made (M := fun _ r => r.roles = w.rbac.roles) hv fun v hv => ?_)
        fun _ v' hv' => succeedsIff_found _ (by rw [hv', hrole]) ?_
      · refine ⟨_, _, by rw [hv.1, if_pos hc], ?_⟩
        rfl
      · simp only [Request.admitted, hrole, hc, Bool.and_self]
    · refine succeedsIff_refused hv (fun v hv => ⟨_, by rw [hv.1, if_neg hc]⟩) ?_
      simp only [Request.admitted, hc, Bool.and_false]
  | assignToUser userId roleId =>
    refine wrap (.query_bind fun v hv => ?_)
    have hv := same.lapse hv
    rw [hv.2]
    cases hu : w.users.find? fun u => u.id == userId && u.deletedAt.isNone with
    | none => exact ensures_throw.mpr (by simp only [SucceedsIff, Request.admitted, isSome_find? hu]; rfl)
    | some user =>
      have hfound : (user.id == userId && user.deletedAt.isNone) = true := by
        simpa using List.find?_some hu
      have hid : w.users.any (·.id == userId) = true := List.any_eq_true.mpr
        ⟨user, List.mem_of_find?_eq_some hu, (Bool.and_eq_true_iff.mp hfound).1⟩
      refine succeedsIff_findByIdOrThrow hv roleId (fun h => by simp [Request.admitted, h]) ?_
      intro _ v hrole hv
      refine succeedsIff_made hv (fun v hv => ?_) ?_
      · by_cases hc : w.rbac.userRoles.contains ⟨userId, roleId⟩
        · exact ⟨_, by rw [hv.1, if_pos hc]⟩
        · exact ⟨_, by rw [hv.1, hv.2, if_neg hc, hrole, hid]; rfl⟩
      · simp only [Request.admitted, isSome_find? hu, hrole]
        rfl
  | revokeFromUser userId roleId =>
    by_cases hc : w.rbac.userRoles.contains ⟨userId, roleId⟩
    · exact wrap (succeedsIff_made same (fun v hv => ⟨_, by rw [hv.1, if_pos hc]⟩) hc)
    · exact wrap (leaves_refused same (fun v hv => ⟨_, by rw [hv.1, if_neg hc]⟩)
        (Bool.eq_false_iff.mpr hc))
  | createPermission name d =>
    refine wrap (.query_bind fun v hv => ?_)
    have hv := same.lapse hv
    rw [hv.1]
    cases hn : w.rbac.permissions.find? (·.name == name) with
    | some permission =>
      exact .ite (fun _ => ensures_throw.mpr (by simp [SucceedsIff, Request.admitted, isSome_find? hn]))
        fun h => absurd rfl h
    | none =>
      have hn := isSome_find? hn
      refine .ite (fun h => by simp at h) fun _ => succeedsIff_made hv (fun v hv => ?_) ?_
      · exact ⟨_, by rw [hv.1, if_neg (by simpa using hn)]⟩
      · simp [Request.admitted, hn]
  | removePermission id =>
    refine wrap (.query_bind fun v hv => ?_)
    have hv := same.lapse hv
    rw [hv.1]
    cases hp : w.rbac.permissions.find? (·.id == id) with
    | none => exact ensures_throw.mpr (isSome_find? hp)
    | some permission =>
      refine .bind (succeedsIff_made hv (fun v hv => ⟨_, by simp only [hv.1, hp]; rfl⟩)
        (isSome_find? hp)) (fun _ _ h => ensures_ret.mpr h) fun _ _ h => h
  | _ => cases hr

end AtlasAuth

import AtlasAuth.Framework.Ledger
import AtlasAuth.Proof.Rbac

/-!
# Operations on roles and permissions are all or nothing

Each operation of `RolesService` and `PermissionsService` writes at most one
row (`RbacWrite`), and the tables are what these writes make of them. Some
operations read the role back after they have written; if it is no longer
there, they end with an exception although they have written. Then the role
has been deleted in between, and its deletion takes along all that the write
has changed (`RbacWrite.OnlyTouches`). So an operation that ends with an
exception has left no trace (`rbac_all_or_nothing`).
-/

namespace AtlasAuth

open Framework Framework.Table Prog

/-- A write to the tables of roles and permissions. -/
inductive RbacWrite
  | createRole (role : Role)
  | updateRole (id name : String) (description : Option String)
  | deleteRole (id : String)
  | assignPermission (rp : RolePermission)
  | revokePermission (rp : RolePermission)
  | assignToUser (ur : UserRole)
  | revokeFromUser (ur : UserRole)
  | createPermission (permission : Permission)
  | deletePermission (id : String)
  deriving DecidableEq

/-- The row, in the table once. -/
def addRow {α : Type} [DecidableEq α] (x : α) (rows : List α) : List α :=
  if rows.contains x then rows else rows ++ [x]

section addRow

variable {α : Type} [DecidableEq α] {x y : α} {rows : List α}

theorem addRow_of_mem (h : x ∈ rows) : addRow x rows = rows := if_pos (by simpa using h)

theorem addRow_of_not_mem (h : x ∉ rows) : addRow x rows = rows ++ [x] := if_neg (by simpa using h)

theorem mem_addRow : y ∈ addRow x rows ↔ y ∈ rows ∨ y = x := by
  by_cases h : x ∈ rows
  · rw [addRow_of_mem h]
    exact ⟨.inl, fun hy => hy.elim id (· ▸ h)⟩
  · rw [addRow_of_not_mem h, List.mem_append, List.mem_singleton]

/-- Rows that are left out may as well be left out beforehand. -/
theorem filter_addRow {p : α → Bool} :
    (addRow x (rows.filter p)).filter p = (addRow x rows).filter p := by
  by_cases h : x ∈ rows
  · rw [addRow_of_mem h]
    by_cases hp : p x = true
    · rw [addRow_of_mem (List.mem_filter.mpr ⟨h, hp⟩), List.filter_filter]
      simp
    · rw [addRow_of_not_mem (fun h => hp (List.mem_filter.mp h).2), List.filter_append]
      simp [hp]
  · rw [addRow_of_not_mem h, addRow_of_not_mem (fun h' => h (List.mem_of_mem_filter h')),
      List.filter_append, List.filter_append, List.filter_filter]
    simp

/-- A row that is left out. -/
theorem filter_addRow_of_not {p : α → Bool} (hp : p x = false) :
    (addRow x rows).filter p = rows.filter p := by
  by_cases h : x ∈ rows
  · rw [addRow_of_mem h]
  · rw [addRow_of_not_mem h, List.filter_append]
    simp [hp]

end addRow

/-- What the tables are after the write. -/
def RbacWrite.apply : RbacWrite → Rbac → Rbac
  | .createRole role, r => { r with roles := r.roles ++ [role] }
  | .updateRole id name description, r =>
    { r with roles := updateWhere (·.id == id) (fun x => { x with name, description }) r.roles }
  | .deleteRole id, r =>
    { r with
      roles := r.roles.filter (·.id != id)
      rolePermissions := r.rolePermissions.filter (·.roleId != id)
      userRoles := r.userRoles.filter (·.roleId != id) }
  | .assignPermission rp, r => { r with rolePermissions := addRow rp r.rolePermissions }
  | .revokePermission rp, r => { r with rolePermissions := r.rolePermissions.filter (· != rp) }
  | .assignToUser ur, r => { r with userRoles := addRow ur r.userRoles }
  | .revokeFromUser ur, r => { r with userRoles := r.userRoles.filter (· != ur) }
  | .createPermission permission, r => { r with permissions := r.permissions ++ [permission] }
  | .deletePermission id, r =>
    { r with
      permissions := r.permissions.filter (·.id != id)
      rolePermissions := r.rolePermissions.filter (·.permissionId != id) }

/-- What a call has written to these tables. A call that is refused, or only
reads, draws no random value. -/
def rbacWritten (x : Entry World Call) : Option RbacWrite :=
  if x.after.drawn = x.before.drawn then none
  else
    match x.label with
    | .rolesCreate _ => x.after.rbac.roles.getLast?.map .createRole
    | .rolesUpdate id =>
      (x.after.rbac.roles.find? (·.id == id)).map fun role => .updateRole id role.name role.description
    | .rolesDelete id => some (.deleteRole id)
    | .rolesAssignPermission roleId permissionId => some (.assignPermission ⟨roleId, permissionId⟩)
    | .rolesRevokePermission roleId permissionId => some (.revokePermission ⟨roleId, permissionId⟩)
    | .rolesAssignToUser userId roleId => some (.assignToUser ⟨userId, roleId⟩)
    | .rolesRevokeFromUser userId roleId => some (.revokeFromUser ⟨userId, roleId⟩)
    | .permissionsCreate _ => x.after.rbac.permissions.getLast?.map .createPermission
    | .permissionsDelete id => some (.deletePermission id)
    | _ => none

/-! ## Well-formed tables -/

/-- Identifiers and names are unique, and every link is between rows that are
there. -/
structure World.RbacConsistent (env : Env) (w : World) : Prop where
  valid : w.RbacValid env
  granted : ∀ rp ∈ w.rbac.rolePermissions, (∃ role ∈ w.rbac.roles, role.id = rp.roleId) ∧
    ∃ p ∈ w.rbac.permissions, p.id = rp.permissionId
  holders : ∀ ur ∈ w.rbac.userRoles, ∃ u ∈ w.users, u.id = ur.userId

variable {env : Env} {w w' : World}

/-- What the database makes sure of before it makes the write. -/
def RbacWrite.Checked (env : Env) (w : World) : RbacWrite → Prop
  | .createRole role => role.id = env.randomUUID w.drawn ∧ ∀ r ∈ w.rbac.roles, r.name ≠ role.name
  | .updateRole id name _ => ∀ r ∈ w.rbac.roles, r.id ≠ id → r.name ≠ name
  | .assignPermission rp => (∃ role ∈ w.rbac.roles, role.id = rp.roleId) ∧
    ∃ p ∈ w.rbac.permissions, p.id = rp.permissionId
  | .assignToUser ur => (∃ role ∈ w.rbac.roles, role.id = ur.roleId) ∧ ∃ u ∈ w.users, u.id = ur.userId
  | .createPermission p => p.id = env.randomUUID w.drawn ∧ ∀ p' ∈ w.rbac.permissions, p'.name ≠ p.name
  | .deleteRole _ | .revokePermission _ | .revokeFromUser _ | .deletePermission _ => True

theorem RbacWrite.Checked.valid {wr : RbacWrite} (h : wr.Checked env w) (hv : w.RbacValid env) :
    (wr.apply w.rbac).Valid env (w.drawn + 1) := by
  have hm := hv.mono (Nat.le_succ w.drawn)
  cases wr with
  | createRole role => exact (Grants.createRole h.1 h.2).valid hv
  | updateRole id name description =>
    have hg : Grants env w ((RbacWrite.updateRole id name description).apply w.rbac) :=
      .renameRole (fun _ => rfl) (fun _ => rfl) h
    exact hg.valid hv
  | deleteRole id => exact (Withdraws.deleteRole id).valid hm
  | assignPermission rp =>
    by_cases hn : rp ∈ w.rbac.rolePermissions
    · rw [RbacWrite.apply, addRow_of_mem hn]
      exact hm
    · rw [RbacWrite.apply, addRow_of_not_mem hn]
      exact (Grants.assignPermission hn h.1 h.2).valid hv
  | revokePermission rp => exact (Withdraws.revokePermission rp).valid hm
  | assignToUser ur =>
    by_cases hn : ur ∈ w.rbac.userRoles
    · rw [RbacWrite.apply, addRow_of_mem hn]
      exact hm
    · rw [RbacWrite.apply, addRow_of_not_mem hn]
      exact (Grants.assignToUser hn h.1).valid hv
  | revokeFromUser ur => exact (Withdraws.revokeFromUser ur).valid hm
  | createPermission p => exact (Grants.createPermission h.1 h.2).valid hv
  | deletePermission id => exact (Withdraws.deletePermission id).valid hm

/-- Every link of the new tables was there before, or is between rows that
the write has checked; and none is left whose row has been deleted. -/
theorem RbacWrite.Checked.consistent {wr : RbacWrite} (h : wr.Checked env w)
    (hc : w.RbacConsistent env) (hd : w'.drawn = w.drawn + 1) (hr : w'.rbac = wr.apply w.rbac)
    (hu : w'.users = w.users) : w'.RbacConsistent env := by
  have keep : ∀ {rp}, rp ∈ w.rbac.rolePermissions → (∃ role ∈ w.rbac.roles, role.id = rp.roleId) ∧
      ∃ p ∈ w.rbac.permissions, p.id = rp.permissionId := fun h => hc.granted _ h
  refine ⟨by rw [World.RbacValid, hd, hr]; exact h.valid hc.valid, ?_, ?_⟩
  · rw [hr]
    intro rp hrp
    cases wr with
    | createRole role =>
      exact (keep hrp).imp_left (.imp fun _ h => ⟨List.mem_append_left _ h.1, h.2⟩)
    | updateRole id name description =>
      exact (keep hrp).imp_left (exists_updateWhere fun _ => rfl)
    | deleteRole id =>
      obtain ⟨hrp, hne⟩ := List.mem_filter.mp hrp
      refine (keep hrp).imp_left (.imp fun _ h => ⟨List.mem_filter.mpr ⟨h.1, by rwa [h.2]⟩, h.2⟩)
    | assignPermission rp' =>
      rcases mem_addRow.mp hrp with hrp | rfl
      · exact keep hrp
      · exact h
    | revokePermission rp' => exact keep (List.mem_of_mem_filter hrp)
    | assignToUser ur => exact keep hrp
    | revokeFromUser ur => exact keep hrp
    | createPermission p =>
      exact (keep hrp).imp_right (.imp fun _ h => ⟨List.mem_append_left _ h.1, h.2⟩)
    | deletePermission id =>
      obtain ⟨hrp, hne⟩ := List.mem_filter.mp hrp
      refine (keep hrp).imp_right (.imp fun _ h => ⟨List.mem_filter.mpr ⟨h.1, by rwa [h.2]⟩, h.2⟩)
  · rw [hr, hu]
    intro ur hur
    cases wr with
    | deleteRole id => exact hc.holders ur (List.mem_of_mem_filter hur)
    | assignToUser ur' =>
      rcases mem_addRow.mp hur with hur | rfl
      · exact hc.holders ur hur
      · exact h.2
    | revokeFromUser ur' => exact hc.holders ur (List.mem_of_mem_filter hur)
    | _ => exact hc.holders ur hur

/-! ## What belongs to a role -/

/-- The tables without a role and the rows that hang on it. -/
def outside (id : String) : Rbac → Rbac := (RbacWrite.deleteRole id).apply

theorem outside_apply_outside (id : String) (wr : RbacWrite) (r : Rbac) :
    outside id (wr.apply (outside id r)) = outside id (wr.apply r) := by
  have comm {α : Type} (p q : α → Bool) (rows : List α) :
      ((rows.filter p).filter q).filter p = (rows.filter q).filter p := by
    simp only [List.filter_filter]
    exact List.filter_congr fun x _ => by cases p x <;> simp
  cases wr with
  | updateRole id' name description => simp [outside, RbacWrite.apply, filter_updateWhere]
  | assignPermission rp => simp [outside, RbacWrite.apply, filter_addRow]
  | assignToUser ur => simp [outside, RbacWrite.apply, filter_addRow]
  | _ => simp [outside, RbacWrite.apply, comm, -List.filter_filter]

theorem outside_apply_congr {id : String} (wr : RbacWrite) (r r' : Rbac)
    (h : outside id r = outside id r') : outside id (wr.apply r) = outside id (wr.apply r') := by
  rw [← outside_apply_outside, h, outside_apply_outside]

/-- Only its deletion makes a role disappear. -/
theorem RbacWrite.deletes {id : String} {wr : RbacWrite} {r : Rbac}
    (h : ∃ role ∈ r.roles, role.id = id) (h' : ¬∃ role ∈ (wr.apply r).roles, role.id = id) :
    wr = .deleteRole id := by
  cases wr with
  | deleteRole id' =>
    by_cases e : id' = id
    · rw [e]
    · obtain ⟨role, hr, rfl⟩ := h
      exact absurd ⟨role, List.mem_filter.mpr ⟨hr, by simpa using Ne.symm e⟩, rfl⟩ h'
  | createRole role' =>
    obtain ⟨role, hr, e⟩ := h
    exact absurd ⟨role, List.mem_append_left _ hr, e⟩ h'
  | updateRole id' name description =>
    have hid : ∀ x : Role, ({ x with name, description } : Role).id = x.id := fun _ => rfl
    exact absurd (exists_updateWhere hid h) h'
  | _ => exact absurd h h'

/-! ## What one call does -/

/-- A call changes these tables only, by what it has written, and that was
checked. -/
def RbacCall (env : Env) (x : Entry World Call) : Prop :=
  x.after = { x.before with drawn := x.after.drawn, rbac := x.after.rbac } ∧
    ((rbacWritten x = none ∧ x.after.rbac = x.before.rbac ∧ x.before.drawn ≤ x.after.drawn) ∨
      ∃ wr, rbacWritten x = some wr ∧ wr.Checked env x.before ∧
        x.after.drawn = x.before.drawn + 1 ∧ x.after.rbac = wr.apply x.before.rbac)

theorem RbacCall.consistent {x : Entry World Call} (h : RbacCall env x)
    (hc : x.before.RbacConsistent env) : x.after.RbacConsistent env := by
  obtain ⟨he, ⟨-, hr, hd⟩ | ⟨wr, -, hwr, hd, hr⟩⟩ := h <;>
    have hu : x.after.users = x.before.users := by rw [he]
  · refine ⟨?_, ?_, ?_⟩
    · rw [World.RbacValid, hr]
      exact hc.valid.mono hd
    · rw [hr]
      exact hc.granted
    · rw [hr, hu]
      exact hc.holders
  · exact hwr.consistent hc hd hr hu

theorem RbacCall.recorded {x : Entry World Call} (h : RbacCall env x) :
    Recorded rbacWritten RbacWrite.apply World.rbac x := by
  intro i
  obtain ⟨-, ⟨hw, hr, -⟩ | ⟨wr, hw, -, -, hr⟩⟩ := h
  · rw [entered, hw, hr]
    rfl
  · rw [entered, hw, hr]
    rfl

/-! ## What an operation does -/

/-- The calls have written nothing. -/
def Untouched (log : List (Entry World Call)) : Prop := ∀ x ∈ log, rbacWritten x = none

/-- The role is there after the write, and the write changes only the role and
the rows that hang on it. -/
def RbacWrite.Marks (id : String) (wr : RbacWrite) (r : Rbac) : Prop :=
  (∃ role ∈ (wr.apply r).roles, role.id = id) ∧ ∀ r, outside id (wr.apply r) = outside id r

/-- The last call but one has written, and only to a role that was there then;
the last one no longer finds the role. -/
def Wiped (log : List (Entry World Call)) : Prop :=
  ∃ id w x log' wr, log = ⟨.rolesFindById id, w, w⟩ :: x :: log' ∧ Untouched log' ∧
    rbacWritten x = some wr ∧ wr.Marks id x.before.rbac ∧ ¬∃ role ∈ w.rbac.roles, role.id = id

/-- An error of the database or its driver, in which no operation has a say. -/
def Infrastructure (e : Exn) : Prop := ∃ m, e = .error m

/-- An operation that has ended with an exception of its own has written
nothing, or nothing that lasts. -/
def LeavesNoTrace {α : Type} (log : List (Entry World Call)) : Except Exn α → Prop
  | .ok _ => True
  | .error e => Infrastructure e ∨ Untouched log ∨ Wiped log

/-- A call that has written what `M` says, or has been refused. -/
def WritesRow {β : Type} (M : β → RbacWrite → Rbac → Prop) (log : List (Entry World Call)) :
    Except Exn β → Prop
  | .ok b => ∃ x wr log', log = x :: log' ∧ Untouched log' ∧ rbacWritten x = some wr ∧
      M b wr x.before.rbac
  | .error e => Infrastructure e ∨ Untouched log

/-- The assumptions and guarantees of operations on roles and permissions. -/
abbrev RbacHeeds (env : Env) {α : Type} (Q : List (Entry World Call) → Except Exn α → Prop)
    (p : App α) (log : List (Entry World Call)) : Prop :=
  p.Heeds Infrastructure (World.RbacConsistent env) (RbacCall env) Q log

section

variable {α β : Type} {log : List (Entry World Call)} {M : β → RbacWrite → Rbac → Prop}

theorem rbacWritten_read (l : Call) (w : World) : rbacWritten ⟨l, w, w⟩ = none := if_pos rfl

theorem Untouched.read (h : Untouched log) (l : Call) (w : World) : Untouched (⟨l, w, w⟩ :: log) :=
  List.forall_mem_cons.mpr ⟨rbacWritten_read l w, h⟩

theorem RbacCall.read (l : Call) (w : World) : RbacCall env ⟨l, w, w⟩ :=
  ⟨rfl, .inl ⟨rbacWritten_read l w, rfl, Nat.le_refl _⟩⟩

/-- A read at the beginning of an operation, and what follows it. -/
theorem heeds_read (hlog : Untouched log) {l : Call} {f : World → β} {k : β → App α}
    (h : ∀ b log, Untouched log → RbacHeeds env LeavesNoTrace (k b) log) :
    RbacHeeds env LeavesNoTrace (.query l f >>= k) log :=
  .query_bind (fun _ he => .inl he) fun w _ => ⟨.read l w, h _ _ (hlog.read l w)⟩

theorem heeds_refuse (hlog : Untouched log) (e : Exn) :
    RbacHeeds env LeavesNoTrace (.throw e : App α) log := heeds_throw.mpr (.inr (.inl hlog))

theorem heeds_return {p : App β} {f : β → α} (h : RbacHeeds env LeavesNoTrace p log) :
    RbacHeeds env LeavesNoTrace (p >>= fun b => return f b) log :=
  .bind h (fun _ _ _ => trivial) fun _ _ he => he

/-- A write at the end of an operation. -/
theorem heeds_write {p : App β} (h : RbacHeeds env (WritesRow M) p log) :
    RbacHeeds env LeavesNoTrace p log := by
  refine h.mono (fun _ h => h) fun log r h => ?_
  cases r with
  | ok b => trivial
  | error e => exact h.imp_right .inl

/-- The role, or a refusal. -/
theorem heeds_findByIdOrThrow (hlog : Untouched log) (id : String)
    {k : RoleWithPermissions → App α}
    (h : ∀ role log, Untouched log → RbacHeeds env LeavesNoTrace (k role) log) :
    RbacHeeds env LeavesNoTrace (RolesService.findByIdOrThrow id >>= k) log := by
  rw [RolesService.findByIdOrThrow, bind_bind]
  refine heeds_read hlog fun role log hlog => ?_
  cases role with
  | none => exact heeds_refuse hlog _
  | some role => exact h role log hlog

/-- A write to a role, which is then read back. -/
theorem heeds_readBack {p : App β} {id : β → String}
    (h : RbacHeeds env (WritesRow fun b wr r => wr.Marks (id b) r) p log) :
    RbacHeeds env LeavesNoTrace (p >>= fun b => RolesService.findByIdOrThrow (id b)) log := by
  refine .bind h (fun b log hb => ?_) fun _ _ he => he.imp_right .inl
  obtain ⟨x, wr, log', rfl, hlog', hx, hm⟩ := hb
  refine .query_bind (fun _ he => .inl he) fun w _ => ⟨.read _ w, ?_⟩
  cases hf : w.rbac.roles.find? (·.id == id b) with
  | some role => exact heeds_ret.mpr trivial
  | none =>
    refine heeds_throw.mpr (.inr (.inr ⟨id b, w, x, log', wr, rfl, hlog', hx, hm, ?_⟩))
    rintro ⟨role, hr, e⟩
    exact List.find?_eq_none.mp hf role hr (by simpa using e)

/-- A call on the tables, by what it does where it is not refused. -/
theorem heeds_rbacCall (hlog : Untouched log) {call : Call} {f : World → Except Exn (β × Rbac)}
    (h : ∀ w, w.RbacConsistent env → ∀ b rbac, f w = .ok (b, rbac) → ∃ wr,
      rbacWritten ⟨call, w, { w with drawn := w.drawn + 1, rbac }⟩ = some wr ∧ wr.Checked env w ∧
        rbac = wr.apply w.rbac ∧ M b wr w.rbac) :
    RbacHeeds env (WritesRow M) (rbacCall call f) log := by
  refine heeds_atomic.mpr ⟨fun w hw => ?_, fun e he => .inl he⟩
  cases hf : f w with
  | error e => exact ⟨.read call w, .inr (hlog.read call w)⟩
  | ok b =>
    obtain ⟨wr, hwr, hc, hr, hm⟩ := h w hw b.1 b.2 hf
    exact ⟨⟨rfl, .inr ⟨wr, hwr, hc, rfl, hr⟩⟩, _, wr, log, rfl, hlog, hwr, hm⟩

end

/-! ## The repositories -/

section

variable {log : List (Entry World Call)} {id : String}

theorem World.RbacConsistent.hasRole (h : w.RbacConsistent env) {rp : RolePermission}
    (hrp : rp ∈ w.rbac.rolePermissions) : ∃ role ∈ w.rbac.roles, role.id = rp.roleId :=
  (h.granted rp hrp).1

theorem writes_create (hlog : Untouched log) (name : String) (description : Option String) :
    RbacHeeds env (WritesRow fun role wr r => wr.Marks role.id r)
      (RolesRepository.create env name description) log := by
  refine heeds_rbacCall hlog fun w hw role rbac h => ?_
  split at h
  · cases h
  · rename_i hn
    cases h
    refine ⟨.createRole ⟨env.randomUUID w.drawn, name, description⟩, ?_, ⟨rfl, ?_⟩, rfl, ?_, fun r => ?_⟩
    · simp [rbacWritten]
    · exact fun r hr e => hn (List.any_eq_true.mpr ⟨r, hr, by simpa using e⟩)
    · exact ⟨_, List.mem_append_right _ (List.mem_singleton_self _), rfl⟩
    · simp [outside, RbacWrite.apply]

theorem writes_update (hlog : Untouched log) (name description : Option String) :
    RbacHeeds env (WritesRow fun _ wr r => wr.Marks id r)
      (RolesRepository.update id name description) log := by
  refine heeds_rbacCall hlog fun w hw x rbac h => ?_
  split at h
  · cases h
  rename_i role hf
  split at h
  · cases h
  rename_i hn
  cases h
  obtain ⟨hm, rfl⟩ := hw.valid.roleId.find?.mp hf
  let data (r : Role) : Role :=
    { r with name := name.getD r.name, description := description.or r.description }
  have hmem : data role ∈ updateWhere (·.id == role.id) data w.rbac.roles :=
    mem_updateWhere.mpr ⟨role, hm, by simp⟩
  have hupd : updateWhere (·.id == role.id) data w.rbac.roles =
      updateWhere (·.id == role.id)
        (fun x => { x with name := (data role).name, description := (data role).description })
        w.rbac.roles := by
    refine List.map_congr_left fun r hr => ?_
    by_cases e : r.id = role.id
    · rw [hw.valid.roleId.eq hr hm e]
    · simp [e]
  have hfind : (updateWhere (·.id == role.id) data w.rbac.roles).find? (·.id == role.id) =
      some (data role) :=
    (hw.valid.roleId.updateWhere (p := (·.id == role.id)) (g := data) fun _ _ => rfl).find?.mpr
      ⟨hmem, rfl⟩
  refine ⟨.updateRole role.id (data role).name (data role).description, ?_, ?_, ?_, ?_, fun r => ?_⟩
  · simp [rbacWritten, data, hfind]
  · intro r hr hid e
    cases name with
    | none => exact hid (congrArg Role.id (hw.valid.roleName.eq hr hm e))
    | some name =>
      exact hn (List.any_eq_true.mpr ⟨r, hr, by simpa [data] using ⟨hid, Eq.symm e⟩⟩)
  · exact congrArg (fun roles => { w.rbac with roles }) hupd
  · exact exists_updateWhere (fun _ => rfl) ⟨role, hm, rfl⟩
  · refine congrArg (fun roles => { outside role.id r with roles }) ?_
    refine (filter_updateWhere (q := fun r : Role => r.id != role.id) fun _ _ => by rfl).trans ?_
    exact updateWhere_of_none fun r hr => by simpa using (List.mem_filter.mp hr).2

theorem writes_assignPermission (hlog : Untouched log) (permissionId : String) :
    RbacHeeds env (WritesRow fun _ wr r => wr.Marks id r)
      (RolesRepository.assignPermission id permissionId) log := by
  have houtside : ∀ r, outside id ((RbacWrite.assignPermission ⟨id, permissionId⟩).apply r) =
      outside id r := fun r =>
    congrArg (fun rows => { outside id r with rolePermissions := rows })
      (filter_addRow_of_not (p := fun rp => rp.roleId != id) (bne_self_eq_false id))
  refine heeds_rbacCall hlog fun w hw _ rbac h =>
    ⟨.assignPermission ⟨id, permissionId⟩, by simp [rbacWritten], ?_⟩
  split at h
  · rename_i hmem
    cases h
    have hmem := List.contains_iff_mem.mp hmem
    exact ⟨hw.granted _ hmem, by rw [RbacWrite.apply, addRow_of_mem hmem], hw.hasRole hmem, houtside⟩
  · rename_i hn
    split at h
    · rename_i hc
      cases h
      simp only [Bool.and_eq_true, List.any_eq_true, beq_iff_eq] at hc
      refine ⟨hc, ?_, hc.1, houtside⟩
      rw [RbacWrite.apply, addRow_of_not_mem (mt List.contains_iff_mem.mpr hn)]
    · cases h

theorem writes_revokePermission (hlog : Untouched log) (permissionId : String) :
    RbacHeeds env (WritesRow fun _ wr r => wr.Marks id r)
      (RolesRepository.revokePermission id permissionId) log := by
  refine heeds_rbacCall hlog fun w hw _ rbac h => ?_
  split at h
  · rename_i hmem
    cases h
    refine ⟨.revokePermission ⟨id, permissionId⟩, by simp [rbacWritten], trivial, rfl,
      hw.hasRole (List.contains_iff_mem.mp hmem), fun r => ?_⟩
    simp only [outside, RbacWrite.apply, List.filter_filter]
    refine congrArg (fun rows => Rbac.mk _ _ rows _) (List.filter_congr fun rp _ => ?_)
    by_cases e : rp.roleId = id
    · simp [e]
    · have : rp ≠ ⟨id, permissionId⟩ := fun h => e (by rw [h])
      simp [e, this]
  · cases h

/-- The other writes are the last call of their operation. -/
abbrev WritesSome {β : Type} : List (Entry World Call) → Except Exn β → Prop :=
  WritesRow fun _ _ _ => True

theorem writes_delete (hlog : Untouched log) :
    RbacHeeds env WritesSome (RolesRepository.delete id) log := by
  refine heeds_rbacCall hlog fun w hw role rbac h => ?_
  split at h
  · cases h
  · cases h
    exact ⟨.deleteRole id, by simp [rbacWritten], trivial, rfl, trivial⟩

theorem writes_assignToUser (hlog : Untouched log) (userId : String) :
    RbacHeeds env WritesSome (RolesRepository.assignToUser userId id) log := by
  refine heeds_rbacCall hlog fun w hw _ rbac h =>
    ⟨.assignToUser ⟨userId, id⟩, by simp [rbacWritten], ?_⟩
  split at h
  · rename_i hmem
    cases h
    have hmem := List.contains_iff_mem.mp hmem
    exact ⟨⟨hw.valid.held _ hmem, hw.holders _ hmem⟩, by rw [RbacWrite.apply, addRow_of_mem hmem],
      trivial⟩
  · rename_i hn
    split at h
    · rename_i hc
      cases h
      simp only [Bool.and_eq_true, List.any_eq_true, beq_iff_eq] at hc
      refine ⟨hc.symm, ?_, trivial⟩
      rw [RbacWrite.apply, addRow_of_not_mem (mt List.contains_iff_mem.mpr hn)]
    · cases h

theorem writes_revokeFromUser (hlog : Untouched log) (userId : String) :
    RbacHeeds env WritesSome (RolesRepository.revokeFromUser userId id) log := by
  refine heeds_rbacCall hlog fun w hw _ rbac h => ?_
  split at h
  · cases h
    exact ⟨.revokeFromUser ⟨userId, id⟩, by simp [rbacWritten], trivial, rfl, trivial⟩
  · cases h

theorem writes_createPermission (hlog : Untouched log) (name : String) (description : Option String) :
    RbacHeeds env WritesSome (PermissionsRepository.create env name description) log := by
  refine heeds_rbacCall hlog fun w hw p rbac h => ?_
  split at h
  · cases h
  · rename_i hn
    cases h
    refine ⟨.createPermission ⟨env.randomUUID w.drawn, name, description⟩, by simp [rbacWritten],
      ⟨rfl, fun p hp e => hn ?_⟩, rfl, trivial⟩
    exact List.any_eq_true.mpr ⟨p, hp, by simpa using e⟩

theorem writes_deletePermission (hlog : Untouched log) :
    RbacHeeds env WritesSome (PermissionsRepository.delete id) log := by
  refine heeds_rbacCall hlog fun w hw p rbac h => ?_
  split at h
  · cases h
  · cases h
    exact ⟨.deletePermission id, by simp [rbacWritten], trivial, rfl, trivial⟩

end

/-! ## The operations -/

/-- The service, as far as roles and permissions go. -/
def rbacSystem (env : Env) : System { r : Request // r.isAdministration } Time World Call Exn Response where
  program r := program env r.1
  env := World.advance

theorem heeds_program (r : Request) (hr : r.isAdministration) :
    RbacHeeds env LeavesNoTrace (program env r) [] := by
  have none : Untouched [] := fun _ h => absurd h List.not_mem_nil
  cases r with
  | createRole name description =>
    refine heeds_return (heeds_read none fun existing log hlog => ?_)
    cases existing with
    | some role => exact heeds_refuse hlog _
    | none => exact heeds_readBack (writes_create hlog name description)
  | updateRole id name description =>
    exact heeds_return (heeds_findByIdOrThrow none id fun _ _ hlog =>
      heeds_readBack (writes_update hlog name description))
  | removeRole id =>
    exact heeds_return (heeds_findByIdOrThrow none id fun _ _ hlog =>
      heeds_return (heeds_write (writes_delete hlog)))
  | assignPermission roleId permissionId =>
    refine heeds_return (heeds_findByIdOrThrow none roleId fun _ _ hlog =>
      heeds_read hlog fun p log hlog => ?_)
    cases p with
    | none => exact heeds_refuse hlog _
    | some p => exact heeds_readBack (writes_assignPermission hlog permissionId)
  | revokePermission roleId permissionId =>
    exact heeds_return (heeds_findByIdOrThrow none roleId fun _ _ hlog =>
      heeds_readBack (writes_revokePermission hlog permissionId))
  | assignToUser userId roleId =>
    refine heeds_return (heeds_read none fun u log hlog => ?_)
    cases u with
    | none => exact heeds_refuse hlog _
    | some u =>
      exact heeds_findByIdOrThrow hlog roleId fun _ _ hlog => heeds_write (writes_assignToUser hlog userId)
  | revokeFromUser userId roleId => exact heeds_return (heeds_write (writes_revokeFromUser none userId))
  | createPermission name description =>
    refine heeds_return (heeds_read none fun existing log hlog => ?_)
    cases existing with
    | some p => exact heeds_refuse hlog _
    | none => exact heeds_write (writes_createPermission hlog name description)
  | removePermission id =>
    refine heeds_return (heeds_read none fun p log hlog => ?_)
    cases p with
    | none => exact heeds_refuse hlog _
    | some p => exact heeds_return (heeds_write (writes_deletePermission hlog))
  | _ => cases hr

/-! ## Runs -/

/-- What an operation wrote to a role that is no longer there has been wiped
out, along with whatever has followed from it. -/
theorem replay_without_of_placed {ws : List (Nat × RbacWrite)} {r : Rbac} {i : Nat}
    {log : List (Entry World Call)} (h : Wiped log)
    (hp : Placed rbacWritten RbacWrite.apply World.rbac r i log ws) :
    replay RbacWrite.apply (without i ws) r = replay RbacWrite.apply ws r := by
  obtain ⟨id, w, x, log', wr, rfl, hlog, hx, ⟨hthere, honly⟩, hgone⟩ := h
  obtain ⟨ws₁, late, rfl, hlate, hw, pre, mid, rfl, hmid, hbefore, hp⟩ := hp
  have hpre := hp.none hlog
  simp only [entered, hx, rbacWritten_read, Option.map_none, Option.map_some, Option.toList_none,
    Option.toList_some, List.nil_append, List.singleton_append] at *
  rw [hbefore] at hthere
  rw [show w.rbac = _ from hw, replay_append, replay_cons] at hgone
  -- The role was deleted between the write and the read.
  obtain ⟨mid₁, wd, mid₂, rfl, hthere', hdel⟩ :=
    replay_cause (B := fun r : Rbac => ¬∃ role ∈ r.roles, role.id = id) (not_not_intro hthere) hgone
  have hdelete : wd.2 = .deleteRole id := RbacWrite.deletes (not_not.mp hthere') hdel
  have hshape : pre ++ (i, wr) :: (mid₁ ++ wd :: mid₂) ++ late =
      pre ++ (i, wr) :: (mid₁ ++ wd :: (mid₂ ++ late)) := by simp
  rw [hshape]
  refine replay_without_of_wiped (E := fun r r' => outside id r = outside id r') ?_ ?_ ?_ hpre ?_
  · exact outside_apply_congr
  · exact honly
  · intro r r' e
    rw [hdelete]
    exact e
  · intro w' hw'
    simp only [List.mem_append, List.mem_cons] at hw' hmid
    rcases hw' with hw' | rfl | hw' | hw'
    · exact hmid w' (.inl hw')
    · exact hmid w' (.inr (.inl rfl))
    · exact hmid w' (.inr (.inr hw'))
    · exact hlate w' hw'

/-- The only failures are errors of the database or its driver. -/
def OnlyInfrastructureFails {ι Λ α : Type} (_ : Pool ι World Λ Exn α) : Move ι Time Exn → Prop
  | .fault _ e => Infrastructure e
  | _ => True

instance (e : Exn) : Decidable (Infrastructure e) :=
  match e with
  | .error m => .isTrue ⟨m, rfl⟩
  | .badRequest _ | .unauthorized _ | .forbidden _ | .notFound _ | .conflict _ | .prisma _ =>
    .isFalse (by rintro ⟨m, h⟩; cases h)

instance {ι Λ α : Type} (P : Pool ι World Λ Exn α) (m : Move ι Time Exn) :
    Decidable (OnlyInfrastructureFails P m) := by
  cases m <;> unfold OnlyInfrastructureFails <;> infer_instance

/-- Whatever operations on roles and permissions run, in whatever order of
their calls: names stay unique and links stay between rows that are there;
nothing else is written to; and an operation that has ended with an exception
of its own has left no trace, for the other operations' writes alone make the
same store. -/
theorem rbac_all_or_nothing (hw : w.RbacConsistent env)
    {ms : List (Move { r : Request // r.isAdministration } Time Exn)}
    (hms : (rbacSystem env).check OnlyInfrastructureFails ms ⟨w, []⟩ = true) :
    let P := (rbacSystem env).after ms ⟨w, []⟩
    let ws := (rbacSystem env).ledger rbacWritten ms ⟨w, []⟩
    (Unique Role.name P.state.rbac.roles ∧ Unique Permission.name P.state.rbac.permissions ∧
      (∀ rp ∈ P.state.rbac.rolePermissions, (∃ role ∈ P.state.rbac.roles, role.id = rp.roleId) ∧
        ∃ p ∈ P.state.rbac.permissions, p.id = rp.permissionId) ∧
      ∀ ur ∈ P.state.rbac.userRoles, (∃ u ∈ P.state.users, u.id = ur.userId) ∧
        ∃ role ∈ P.state.rbac.roles, role.id = ur.roleId) ∧
    P.state = { w with
      now := P.state.now, drawn := P.state.drawn, rbac := replay RbacWrite.apply ws w.rbac } ∧
    ∀ i t e, P.threads[i]? = some t → t.outcome = some (.error e) → ¬Infrastructure e →
      P.state.rbac = replay RbacWrite.apply (without i ws) w.rbac := by
  intro P ws
  let I (s : World) : Prop := s.RbacConsistent env ∧
    s = { w with now := s.now, drawn := s.drawn, rbac := s.rbac }
  have h : Ledgered Infrastructure I (RbacCall env) (fun _ => LeavesNoTrace) rbacWritten
      RbacWrite.apply World.rbac w.rbac ws P := by
    rw [← List.nil_append ws]
    refine Ledgered.run (fun r => ?_) (fun x hx hj => ⟨⟨hj.consistent hx.1, ?_⟩, hj.recorded⟩)
      (fun d s hs => ⟨⟨⟨hs.1.valid, hs.1.granted, hs.1.holders⟩, ?_⟩, rfl⟩) (fun _ _ _ h => h) ?_ hms
    · exact (heeds_program r.1 r.2).mono (fun _ h => h.1) fun _ _ h => h
    · rw [hj.1, hx.2]
    · exact congrArg (World.advance d) hs.2
    · exact ⟨⟨hw, rfl⟩, rfl, fun _ h => absurd h List.not_mem_nil,
        fun _ h => absurd h List.not_mem_nil, fun i t ht => by cases ht⟩
  obtain ⟨hc, hrest⟩ := h.inv
  have hstore := h.store
  have hplaced := h.placed
  refine ⟨⟨hc.valid.roleName, hc.valid.permissionName, hc.granted, fun ur hur =>
    ⟨hc.holders ur hur, hc.valid.held ur hur⟩⟩, ?_, fun i t e ht ho hne => ?_⟩
  · rw [← hstore]
    exact hrest
  · rcases h.outcome ht ho with he | hlog | hwiped
    · exact absurd he hne
    · rw [without_of_none ((hplaced i t ht).none hlog), hstore]
    · rw [replay_without_of_placed hwiped (hplaced i t ht), hstore]

/-- A role is deleted after it has been created and before it is read back. -/
def lateFailure : List (Move { r : Request // r.isAdministration } Time Exn) :=
  [.start ⟨.createRole "editor" none, rfl⟩, .call 0, .call 0,
   .start ⟨.removeRole (unary 0), rfl⟩, .call 1, .call 1, .call 0]

theorem lateFailure_leaves_no_trace :
    let P := (rbacSystem .sample).after lateFailure ⟨{ now := 0 }, []⟩
    let ws := (rbacSystem .sample).ledger rbacWritten lateFailure ⟨{ now := 0 }, []⟩
    ws.map (·.1) = [0, 1] ∧
    P.threads[0]?.bind Thread.outcome = some (.error (.notFound "Role not found")) ∧
    P.state.rbac = replay RbacWrite.apply (without 0 ws) {} := by
  intro P ws
  have hinit : World.RbacConsistent .sample { now := 0 } :=
    ⟨.init, fun _ h => absurd h List.not_mem_nil, fun _ h => absurd h List.not_mem_nil⟩
  have hms : (rbacSystem .sample).check OnlyInfrastructureFails lateFailure ⟨{ now := 0 }, []⟩ = true := by
    decide +kernel
  obtain ⟨-, -, h⟩ := rbac_all_or_nothing hinit hms
  have hout : P.threads[0]?.bind Thread.outcome = some (.error (.notFound "Role not found")) := by
    decide +kernel
  obtain ⟨t, ht, ho⟩ := Option.bind_eq_some_iff.mp hout
  exact ⟨by decide +kernel, hout, h 0 t _ ht ho (by decide)⟩

end AtlasAuth

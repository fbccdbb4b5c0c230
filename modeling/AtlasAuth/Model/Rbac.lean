import AtlasAuth.Model.Repositories

/-!
# Roles and permissions

The repositories and services of the role and permission tables. Their foreign
keys are checked where a row is made (`P2003`) and cascade where a role or a
permission is deleted.
-/

namespace AtlasAuth

open Framework Framework.Table

section

variable (env : Env)

/-- A role with the permissions granted to it. -/
def Rbac.include (r : Rbac) (role : Role) : RoleWithPermissions :=
  { role,
    permissions := (r.rolePermissions.filter (·.roleId == role.id)).filterMap fun rp =>
      r.permissions.find? (·.id == rp.permissionId) }

/-- The roles of a user, with the permissions granted to them. -/
def Rbac.rolesOf (r : Rbac) (userId : String) : List RoleWithPermissions :=
  (r.userRoles.filter (·.userId == userId)).filterMap fun ur =>
    (r.roles.find? (·.id == ur.roleId)).map r.include

def UsersRepository.findWithAccessById (id : String) : App (Option UserWithAccess) :=
  .query (.usersFindWithAccessById id) fun w =>
    (w.users.find? fun u => u.id == id && u.deletedAt.isNone).map fun user =>
      ⟨user, w.rbac.rolesOf user.id⟩

/-- A call on the tables of roles and permissions, with a random value for
the id of a row it makes. -/
def rbacCall {α : Type} (call : Call) (f : World → Except Exn (α × Rbac)) : App α :=
  .atomic call fun w =>
    match f w with
    | .ok (a, rbac) => (.ok a, { w with drawn := w.drawn + 1, rbac })
    | .error e => (.error e, w)

namespace RolesRepository

def findById (id : String) : App (Option RoleWithPermissions) :=
  .query (.rolesFindById id) fun w => (w.rbac.roles.find? (·.id == id)).map w.rbac.include

def findByName (name : String) : App (Option Role) :=
  .query (.rolesFindByName name) fun w => w.rbac.roles.find? (·.name == name)

def create (name : String) (description : Option String) : App Role :=
  rbacCall (.rolesCreate name) fun w =>
    if w.rbac.roles.any (·.name == name) then .error (.prisma "P2002")
    else
      let role : Role := ⟨env.randomUUID w.drawn, name, description⟩
      .ok (role, { w.rbac with roles := w.rbac.roles ++ [role] })

/-- An absent field of `data` is left unchanged. -/
def update (id : String) (name description : Option String) : App Role :=
  rbacCall (.rolesUpdate id) fun w =>
    match w.rbac.roles.find? (·.id == id) with
    | none => .error (.prisma "P2025")
    | some role =>
      if w.rbac.roles.any fun r => r.id != id && name == some r.name then .error (.prisma "P2002")
      else
        let data := fun r : Role =>
          { r with name := name.getD r.name, description := description.or r.description }
        .ok (data role, { w.rbac with roles := updateWhere (·.id == id) data w.rbac.roles })

def delete (id : String) : App Role :=
  rbacCall (.rolesDelete id) fun w =>
    match w.rbac.roles.find? (·.id == id) with
    | none => .error (.prisma "P2025")
    | some role =>
      .ok (role,
        { w.rbac with
          roles := w.rbac.roles.filter (·.id != id)
          rolePermissions := w.rbac.rolePermissions.filter (·.roleId != id)
          userRoles := w.rbac.userRoles.filter (·.roleId != id) })

def assignPermission (roleId permissionId : String) : App Unit :=
  rbacCall (.rolesAssignPermission roleId permissionId) fun w =>
    if w.rbac.rolePermissions.contains ⟨roleId, permissionId⟩ then .ok ((), w.rbac)
    else if w.rbac.roles.any (·.id == roleId) && w.rbac.permissions.any (·.id == permissionId) then
      .ok ((), { w.rbac with
        rolePermissions := w.rbac.rolePermissions ++ [⟨roleId, permissionId⟩] })
    else .error (.prisma "P2003")

def revokePermission (roleId permissionId : String) : App Unit :=
  rbacCall (.rolesRevokePermission roleId permissionId) fun w =>
    if w.rbac.rolePermissions.contains ⟨roleId, permissionId⟩ then
      .ok ((), { w.rbac with
        rolePermissions := w.rbac.rolePermissions.filter (· != ⟨roleId, permissionId⟩) })
    else .error (.prisma "P2025")

def assignToUser (userId roleId : String) : App Unit :=
  rbacCall (.rolesAssignToUser userId roleId) fun w =>
    if w.rbac.userRoles.contains ⟨userId, roleId⟩ then .ok ((), w.rbac)
    else if w.users.any (·.id == userId) && w.rbac.roles.any (·.id == roleId) then
      .ok ((), { w.rbac with userRoles := w.rbac.userRoles ++ [⟨userId, roleId⟩] })
    else .error (.prisma "P2003")

def revokeFromUser (userId roleId : String) : App Unit :=
  rbacCall (.rolesRevokeFromUser userId roleId) fun w =>
    if w.rbac.userRoles.contains ⟨userId, roleId⟩ then
      .ok ((), { w.rbac with userRoles := w.rbac.userRoles.filter (· != ⟨userId, roleId⟩) })
    else .error (.prisma "P2025")

end RolesRepository

namespace PermissionsRepository

def findById (id : String) : App (Option Permission) :=
  .query (.permissionsFindById id) fun w => w.rbac.permissions.find? (·.id == id)

def findByName (name : String) : App (Option Permission) :=
  .query (.permissionsFindByName name) fun w => w.rbac.permissions.find? (·.name == name)

def create (name : String) (description : Option String) : App Permission :=
  rbacCall (.permissionsCreate name) fun w =>
    if w.rbac.permissions.any (·.name == name) then .error (.prisma "P2002")
    else
      let permission : Permission := ⟨env.randomUUID w.drawn, name, description⟩
      .ok (permission, { w.rbac with permissions := w.rbac.permissions ++ [permission] })

def delete (id : String) : App Permission :=
  rbacCall (.permissionsDelete id) fun w =>
    match w.rbac.permissions.find? (·.id == id) with
    | none => .error (.prisma "P2025")
    | some permission =>
      .ok (permission,
        { w.rbac with
          permissions := w.rbac.permissions.filter (·.id != id)
          rolePermissions := w.rbac.rolePermissions.filter (·.permissionId != id) })

end PermissionsRepository

/-! ## Services -/

namespace RolesService

def findByIdOrThrow (id : String) : App RoleWithPermissions := do
  let some role ← RolesRepository.findById id | throw (.notFound "Role not found")
  return role

def create (name : String) (description : Option String) : App RoleWithPermissions := do
  let existing ← RolesRepository.findByName name
  if existing.isSome then
    throw (.conflict s!"Role \"{name}\" already exists")
  let role ← RolesRepository.create env name description
  findByIdOrThrow role.id

def update (id : String) (name description : Option String) : App RoleWithPermissions := do
  let _ ← findByIdOrThrow id
  let _ ← RolesRepository.update id name description
  findByIdOrThrow id

def remove (id : String) : App Unit := do
  let _ ← findByIdOrThrow id
  let _ ← RolesRepository.delete id

def assignPermission (roleId permissionId : String) : App RoleWithPermissions := do
  let _ ← findByIdOrThrow roleId
  let some _ ← PermissionsRepository.findById permissionId
    | throw (.notFound "Permission not found")
  RolesRepository.assignPermission roleId permissionId
  findByIdOrThrow roleId

def revokePermission (roleId permissionId : String) : App RoleWithPermissions := do
  let _ ← findByIdOrThrow roleId
  RolesRepository.revokePermission roleId permissionId
  findByIdOrThrow roleId

def assignToUser (userId roleId : String) : App Unit := do
  let some _ ← UsersRepository.findById userId | throw (.notFound "User not found")
  let _ ← findByIdOrThrow roleId
  RolesRepository.assignToUser userId roleId

def revokeFromUser (userId roleId : String) : App Unit :=
  RolesRepository.revokeFromUser userId roleId

end RolesService

namespace PermissionsService

def create (name : String) (description : Option String) : App Permission := do
  let existing ← PermissionsRepository.findByName name
  if existing.isSome then
    throw (.conflict s!"Permission \"{name}\" already exists")
  PermissionsRepository.create env name description

def remove (id : String) : App Unit := do
  let some _ ← PermissionsRepository.findById id | throw (.notFound "Permission not found")
  let _ ← PermissionsRepository.delete id

end PermissionsService

end

end AtlasAuth

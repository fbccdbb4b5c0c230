import AtlasAuth.Framework.Loop
import AtlasAuth.Model.Tokens

/-!
# The seed

`main` of `prisma/seed.ts`, a process of its own on the same database. The
grants of `Promise.all` are one call each, and take effect in any order.
-/

namespace AtlasAuth

open Framework Framework.Table

/-- The calls that the seed makes. -/
inductive SeedCall
  | permissionUpsert (name : String)
  | permissionFindMany
  | roleUpsert (name : String)
  | rolePermissionUpsert (roleId permissionId : String)
  | userFindUnique (email : String)
  | userRoleUpsert (userId roleId : String)
  deriving DecidableEq

abbrev SeedApp := Prog World SeedCall Exn

namespace Seed

/-- The name and the description of each permission of the catalogue. -/
def PERMISSIONS : List (String × String) :=
  [("users:read", "View user accounts"),
   ("users:write", "Update user accounts"),
   ("users:delete", "Soft-delete user accounts"),
   ("roles:read", "View roles"),
   ("roles:write", "Create, update, and delete roles"),
   ("roles:assign", "Assign or revoke roles on a user"),
   ("permissions:read", "View permissions"),
   ("permissions:write", "Create and delete permissions"),
   ("sessions:read", "View any user's active sessions"),
   ("sessions:revoke", "Revoke any user's sessions"),
   ("audit:read", "View audit logs")]

section

variable (env : Env)

/-- `permission.upsert`, which updates the description. -/
def upsertPermission (name description : String) : SeedApp Unit :=
  .atomic (.permissionUpsert name) fun w =>
    if w.rbac.permissions.any (·.name == name) then
      (.ok (), { w with rbac := { w.rbac with
        permissions := updateWhere (·.name == name)
          (fun p => { p with description := some description }) w.rbac.permissions } })
    else
      (.ok (), { w with drawn := w.drawn + 1, rbac := { w.rbac with
        permissions := w.rbac.permissions ++ [⟨env.randomUUID w.drawn, name, some description⟩] } })

/-- `role.upsert`, which updates nothing. -/
def upsertRole (name description : String) : SeedApp Role :=
  .atomic (.roleUpsert name) fun w =>
    match w.rbac.roles.find? (·.name == name) with
    | some role => (.ok role, w)
    | none =>
      let role : Role := ⟨env.randomUUID w.drawn, name, some description⟩
      (.ok role, { w with drawn := w.drawn + 1, rbac := { w.rbac with roles := w.rbac.roles ++ [role] } })

def findManyPermissions : SeedApp (List Permission) :=
  .query .permissionFindMany (·.rbac.permissions)

/-- `rolePermission.upsert`, which updates nothing; its foreign keys are
checked where the row is made. -/
def upsertRolePermission (roleId permissionId : String) : SeedApp Unit :=
  .atomic (.rolePermissionUpsert roleId permissionId) fun w =>
    if w.rbac.rolePermissions.contains ⟨roleId, permissionId⟩ then (.ok (), w)
    else if w.rbac.roles.any (·.id == roleId) && w.rbac.permissions.any (·.id == permissionId) then
      (.ok (), { w with rbac := { w.rbac with
        rolePermissions := w.rbac.rolePermissions ++ [⟨roleId, permissionId⟩] } })
    else (.error (.prisma "P2003"), w)

/-- `user.findUnique`, which finds deleted accounts too. -/
def findUniqueUser (email : String) : SeedApp (Option User) :=
  .query (.userFindUnique email) fun w => w.users.find? (·.email == email)

/-- `userRole.upsert`, which updates nothing. -/
def upsertUserRole (userId roleId : String) : SeedApp Unit :=
  .atomic (.userRoleUpsert userId roleId) fun w =>
    if w.rbac.userRoles.contains ⟨userId, roleId⟩ then (.ok (), w)
    else if w.users.any (·.id == userId) && w.rbac.roles.any (·.id == roleId) then
      (.ok (), { w with rbac := { w.rbac with userRoles := w.rbac.userRoles ++ [⟨userId, roleId⟩] } })
    else (.error (.prisma "P2003"), w)

/-- `process.env.ADMIN_EMAIL?.toLowerCase().trim()`. -/
def adminEmail (ADMIN_EMAIL : Option String) : Option String :=
  ADMIN_EMAIL.map fun email => String.ofList (trim (env.toLowerCase email).toList)

/-- The grants take effect in the order `order`. -/
def main (ADMIN_EMAIL : Option String) (order : List Permission → List Permission) :
    SeedApp Unit := do
  Prog.forEach (fun permission => upsertPermission env permission.1 permission.2) PERMISSIONS
  let adminRole ← upsertRole env "admin" "Full administrative access"
  let _ ← upsertRole env "user" "Standard authenticated user"
  let allPermissions ← findManyPermissions
  Prog.forEach (fun permission => upsertRolePermission adminRole.id permission.id)
    (order allPermissions)
  match truthy (adminEmail env ADMIN_EMAIL) with
  | none => return
  | some email =>
    match ← findUniqueUser email with
    | none => return
    | some adminUser => upsertUserRole adminUser.id adminRole.id

end

end Seed

end AtlasAuth

import AtlasAuth.Model.AuthService

/-!
# Guards and the exception filter

`PermissionsGuard` and `RolesGuard`, which look at the claims of an access
token, and `GlobalExceptionFilter`, which turns an exception into the status
and the body of the response.
-/

namespace AtlasAuth

/-- The common part of the two guards: a route that requires nothing is open,
and any other needs the claims of its caller to pass the test. -/
def claimsGuard (claims : JwtPayload → List String)
    (test : List String → (String → Bool) → Bool) (message : String)
    (required : Option (List String)) (user : Option JwtPayload) : Except Exn Bool :=
  match required with
  | none | some [] => .ok true
  | some required =>
    let held := setOf ((user.map claims).getD [])
    if test required held.contains then .ok true else .error (.forbidden message)

def PermissionsGuard.canActivate : Option (List String) → Option JwtPayload → Except Exn Bool :=
  claimsGuard (·.permissions) List.all "Insufficient permissions for this action"

def RolesGuard.canActivate : Option (List String) → Option JwtPayload → Except Exn Bool :=
  claimsGuard (·.roles) List.any "Insufficient role for this action"

/-- What the filter answers: the body without its time stamp and path. -/
structure ErrorBody where
  statusCode : Nat
  error : String
  message : String
  deriving DecidableEq

namespace GlobalExceptionFilter

/-- `target` is the `meta.target` of the error. -/
def resolvePrismaError (code : String) (target : Option (List String)) : ErrorBody :=
  match code with
  | "P2002" =>
    { statusCode := 409, error := "Conflict",
      message := match truthy (target.map (", ".intercalate ·)) with
        | some target => s!"A record with this {target} already exists"
        | none => "Duplicate record" }
  | "P2025" => { statusCode := 404, error := "Not Found", message := "Record not found" }
  | "P2003" =>
    { statusCode := 400, error := "Bad Request",
      message := "This action references a record that no longer exists" }
  | _ => { statusCode := 500, error := "Internal Server Error", message := "Something went wrong" }

def resolve (isProduction : Bool) (target : Option (List String)) : Exn → ErrorBody
  | .badRequest message => { statusCode := 400, error := "Bad Request", message }
  -- Made without a message, the exception has no `error` in its payload.
  | .unauthorized "Unauthorized" =>
    { statusCode := 401, error := "UnauthorizedException", message := "Unauthorized" }
  | .unauthorized message => { statusCode := 401, error := "Unauthorized", message }
  | .forbidden message => { statusCode := 403, error := "Forbidden", message }
  | .notFound message => { statusCode := 404, error := "Not Found", message }
  | .conflict message => { statusCode := 409, error := "Conflict", message }
  | .prisma code => resolvePrismaError code target
  | .error message =>
    { statusCode := 500, error := "Internal Server Error",
      message := if isProduction then "Something went wrong" else message }

end GlobalExceptionFilter

end AtlasAuth

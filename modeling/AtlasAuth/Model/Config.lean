import AtlasAuth.Model.World

/-!
# The configuration of tokens

What `config/env.validation.ts` accepts of the variables `JWT_*` at boot, and
what `config/jwt.config.ts` makes of them.
-/

namespace AtlasAuth

/-- The variables of `process.env` that configure tokens. -/
structure ProcessEnv where
  JWT_ACCESS_SECRET : Option String := none
  JWT_ACCESS_EXPIRES_IN : Option String := none
  JWT_REFRESH_EXPIRES_IN : Option String := none
  JWT_ISSUER : Option String := none
  JWT_AUDIENCE : Option String := none
  deriving DecidableEq

namespace Joi

/-- `Joi.string()`, which refuses the empty string. -/
def string (value : String) : Bool := value ≠ ""

/-- `min(limit)` of a string, in UTF-16 code units. -/
def min (limit : Nat) (value : String) : Bool :=
  limit ≤ (value.toList.map fun c => if c.toNat < 0x10000 then 1 else 2).sum

/-- `required()`: a value that is absent is refused. -/
def required (rule : String → Bool) (value : Option String) : Option String := value.filter rule

/-- `default(value)`, for a value that is absent. -/
def default (value : String) (rule : String → Bool) : Option String → Option String
  | none => some value
  | some given => if rule given then some given else none

end Joi

/-- The rules of the schema for the variables `JWT_*`: the variables with their
defaults, or none when one of them is refused. -/
def envValidationSchema (vars : ProcessEnv) : Option ProcessEnv := do
  let secret ← Joi.required (fun s => Joi.string s && Joi.min 32 s) vars.JWT_ACCESS_SECRET
  let accessExpiresIn ← Joi.default "15m" Joi.string vars.JWT_ACCESS_EXPIRES_IN
  let refreshExpiresIn ← Joi.default "30d" Joi.string vars.JWT_REFRESH_EXPIRES_IN
  let issuer ← Joi.default "atlas-auth" Joi.string vars.JWT_ISSUER
  let audience ← Joi.default "atlas-auth-clients" Joi.string vars.JWT_AUDIENCE
  return ⟨secret, accessExpiresIn, refreshExpiresIn, issuer, audience⟩

structure JwtConfig where
  accessSecret : Option String
  accessExpiresIn : String
  refreshExpiresIn : String
  issuer : String
  audience : String
  deriving DecidableEq

def jwtConfig (vars : ProcessEnv) : JwtConfig where
  accessSecret := vars.JWT_ACCESS_SECRET
  accessExpiresIn := vars.JWT_ACCESS_EXPIRES_IN.getD "15m"
  refreshExpiresIn := vars.JWT_REFRESH_EXPIRES_IN.getD "30d"
  issuer := vars.JWT_ISSUER.getD "atlas-auth"
  audience := vars.JWT_AUDIENCE.getD "atlas-auth-clients"

/-- `ConfigModule.forRoot`: nothing starts with variables that the schema
refuses. -/
def boot (vars : ProcessEnv) : Option JwtConfig := (envValidationSchema vars).map jwtConfig

/-- The service with this configuration of tokens. -/
def Env.configured (env : Env) (config : JwtConfig) : Env :=
  { env with
    accessExpiresIn := config.accessExpiresIn, refreshExpiresIn := config.refreshExpiresIn }

end AtlasAuth

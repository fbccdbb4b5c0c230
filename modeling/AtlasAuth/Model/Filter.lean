import AtlasAuth.Framework.JsValue
import AtlasAuth.Model.Guards

/-!
# The exception filter, on any thrown value

`GlobalExceptionFilter` without the assumption that what is thrown comes from
the service. What is thrown is an `HttpException`, a known error of Prisma, or
any other value (`Thrown`); the payload of the first and the `meta` of the
second (`metadata`) may be any value too. The filter is a program on the HTTP
exchange (`Host`): it writes to the log, sets the status and sends a body, as
Express does.
-/

namespace AtlasAuth.Http

open Framework

/-- An `HttpException`: `getStatus()`, a whole number, `getResponse()`, its name
and message. -/
structure HttpException where
  status : Int
  response : JsValue
  name : String
  message : String

structure PrismaClientKnownRequestError where
  code : String
  message : String
  metadata : JsValue

/-- A thrown value, by the classes that the filter tells apart. -/
inductive Thrown
  | http (exception : HttpException)
  | prisma (exception : PrismaClientKnownRequestError)
  | other (value : JsValue)

/-- An exception of `@nestjs/common` made with a message. -/
def HttpException.ofMessage (status : Int) (name error message : String) : HttpException where
  status
  response := .ofFields
    [("message", .string message), ("error", .string error), ("statusCode", .number (toString status))]
  name
  message

/-- What the service throws, as a value. A Prisma error has a message, and in its
`meta` the fields that a unique constraint is on. -/
def Thrown.ofExn (detail : String) (target : Option (List String)) : Exn → Thrown
  | .badRequest message => .http (.ofMessage 400 "BadRequestException" "Bad Request" message)
  | .unauthorized "Unauthorized" =>
    .http ⟨401, .ofFields [("message", .string "Unauthorized"), ("statusCode", .number "401")],
      "UnauthorizedException", "Unauthorized"⟩
  | .unauthorized message => .http (.ofMessage 401 "UnauthorizedException" "Unauthorized" message)
  | .forbidden message => .http (.ofMessage 403 "ForbiddenException" "Forbidden" message)
  | .notFound message => .http (.ofMessage 404 "NotFoundException" "Not Found" message)
  | .conflict message => .http (.ofMessage 409 "ConflictException" "Conflict" message)
  | .prisma code => .prisma ⟨code, detail,
      .ofFields (target.toList.map fun fields => ("target", .array (fields.map .string)))⟩
  | .error message => .other (.error "Error" message)

/-- `exception?.message`. -/
def Thrown.message : Thrown → Except JsError JsValue
  | .http exception => .ok (.string exception.message)
  | .prisma exception => .ok (.string exception.message)
  | .other value => value.optGet "message"

/-- The exception in a template string. -/
def Thrown.toText : Thrown → Except JsError String
  | .http exception => .ok s!"{exception.name}: {exception.message}"
  | .prisma exception => .ok s!"PrismaClientKnownRequestError: {exception.message}"
  | .other value => value.toText

/-- `exception?.stack`; an `Error` has one. -/
def Thrown.stack : Thrown → Except JsError JsValue
  | .http exception => .ok (.string s!"{exception.name}: {exception.message}")
  | .prisma exception => .ok (.string s!"PrismaClientKnownRequestError: {exception.message}")
  | .other value => value.optGet "stack"

structure ErrorBody where
  statusCode : Int
  error : JsValue
  message : JsValue
  timestamp : String
  path : String

inductive ResponseBody
  | error (body : ErrorBody)
  | message (message : String)

/-- A response, with the body that `json` is given. On the wire there is no body
under the statuses 1xx, 204, 205 and 304. -/
structure Sent where
  status : Int
  body : ResponseBody

/-- The exchange of a request: its method and URL, the time as
`new Date().toISOString()` gives it, the log, the status set so far, and the
responses sent. -/
structure Host where
  method : String
  url : String
  now : String
  log : List (String × JsValue) := []
  status : Int := 200
  sent : List Sent := []

/-- The calls on an exchange. -/
inductive HostCall
  | getRequest
  | toISOString
  | logError
  | status
  | json
  deriving DecidableEq

abbrev Exchange := Prog Host HostCall JsError

namespace Exchange

def logError (text : String) (stack : JsValue) : Exchange Unit :=
  .atomic .logError fun host => (.ok (), { host with log := host.log ++ [(text, stack)] })

/-- `response.status` of Express. -/
def status (code : Int) : Exchange Unit :=
  .atomic .status fun host =>
    if 100 ≤ code ∧ code ≤ 999 then (.ok (), { host with status := code })
    else (.error (.rangeError s!"Invalid status code: {code}."), host)

/-- `response.json`; `fields` are those of the body's fields that may be any
value. -/
def json (body : ResponseBody) (fields : List JsValue) : Exchange Unit :=
  .atomic .json fun host =>
    match JsValue.stringifyAll fields with
    | .ok () => (.ok (), { host with sent := host.sent ++ [⟨host.status, body⟩] })
    | .error e => (.error e, host)

end Exchange

/-- What an exception is turned into. -/
structure Resolved where
  statusCode : Int
  error : JsValue
  message : JsValue

namespace GlobalExceptionFilter

/-- The message about a duplicate, from the `meta` of the error. -/
def duplicateMessage (metadata : JsValue) : Except JsError String := do
  let target ← metadata.optGet "target"
  let target ← target.optJoin ", "
  if target.truthy then
    let text ← target.toText
    return s!"A record with this {text} already exists"
  return "Duplicate record"

def resolvePrismaError (exception : PrismaClientKnownRequestError) : Exchange Resolved :=
  match exception.code with
  | "P2002" => do
    let message ← Prog.ofExcept (duplicateMessage exception.metadata)
    return ⟨409, .string "Conflict", .string message⟩
  | "P2025" => return ⟨404, .string "Not Found", .string "Record not found"⟩
  | "P2003" =>
    return ⟨400, .string "Bad Request",
      .string "This action references a record that no longer exists"⟩
  | code => do
    Exchange.logError s!"Unhandled Prisma error code {code}: {exception.message}" .undefined
    return ⟨500, .string "Internal Server Error", .string "Something went wrong"⟩

/-- The fields of the payload of an `HttpException`. -/
def resolveHttpException (exception : HttpException) : Except JsError Resolved :=
  match exception.response with
  | .string payload => return ⟨exception.status, .string exception.name, .string payload⟩
  | payload => do
    let message ← payload.get "message"
    let error ← payload.get "error"
    return ⟨exception.status, error.coalesce (.string exception.name),
      message.coalesce (.string exception.message)⟩

def resolve (isProduction : Bool) (exception : Thrown) : Exchange Resolved :=
  match exception with
  | .http exception => Prog.ofExcept (resolveHttpException exception)
  | .prisma exception => resolvePrismaError exception
  | .other value => do
    let message ←
      if isProduction then pure (.string "Something went wrong")
      else do
        let message ← Prog.ofExcept (value.optGet "message")
        pure (message.coalesce (.string "Unknown error"))
    return ⟨500, .string "Internal Server Error", message⟩

/-- `exception?.message ?? exception`, in a template string. -/
def describe (exception : Thrown) : Except JsError String := do
  let message ← exception.message
  if message.nullish then exception.toText else message.toText

/-- `catch`. -/
def catchException (isProduction : Bool) (exception : Thrown) : Exchange Unit := do
  let (method, url) ← Prog.query .getRequest fun host : Host => (host.method, host.url)
  let ⟨statusCode, error, message⟩ ← resolve isProduction exception
  if statusCode ≥ 500 then
    let text ← Prog.ofExcept (describe exception)
    let stack ← Prog.ofExcept exception.stack
    Exchange.logError s!"{method} {url} -> {statusCode}: {text}" stack
  let timestamp ← Prog.query .toISOString Host.now
  let body : ErrorBody := { statusCode, error, message, timestamp, path := url }
  Exchange.status statusCode
  Exchange.json (.error body) [error, message]

end GlobalExceptionFilter

end AtlasAuth.Http

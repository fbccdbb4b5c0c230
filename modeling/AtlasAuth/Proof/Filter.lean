import AtlasAuth.Model.Filter

/-!
# What the exception filter answers

The filter sends one response whose body is as declared (`Normalized`) exactly
if what it is given is `Regular`: its status is one that Express accepts, what
it puts in the fields `error` and `message` is text, and what it writes to the
log converts to text (`normalized_iff`). In production every value that is
neither an `HttpException` nor a known error of Prisma gets the same answer
(`sent_of_other`).
-/

namespace AtlasAuth.Http

open Framework Prog

variable {isProduction : Bool} {exception : Thrown} {host host' : Host} {r : Resolved}

/-- The filter returned, and sent one response: its status is the one in its
body, whose `error` is a string and `message` a string or a list of strings. -/
def Normalized (host : Host) (x : Except JsError Unit × Host) : Prop :=
  x.1 = .ok () ∧ ∃ body : ErrorBody, x.2.sent = host.sent ++ [⟨body.statusCode, .error body⟩] ∧
    body.error.isString = true ∧ body.message.isText = true

/-- The value that the filter names in the log converts to text. -/
def Describable (value : JsValue) : Prop :=
  (∃ message text, value.optGet "message" = .ok message ∧
    (message.coalesce value).toText = .ok text) ∧
  ∃ stack, value.optGet "stack" = .ok stack

/-- The status is one that Express accepts, and the fields `message` and `error`
of the payload are absent, or a text and a string. A string has neither. -/
def HttpException.Regular (exception : HttpException) : Prop :=
  (100 ≤ exception.status ∧ exception.status ≤ 999) ∧
  ∃ message error, exception.response.get "message" = .ok message ∧
    exception.response.get "error" = .ok error ∧
    (error.nullish = true ∨ error.isString = true) ∧
    (message.nullish = true ∨ message.isText = true)

/-- The fields that a unique constraint is on are absent, or can be joined. -/
def PrismaClientKnownRequestError.Regular (exception : PrismaClientKnownRequestError) : Prop :=
  exception.code = "P2002" →
    ∃ target joined, exception.metadata.optGet "target" = .ok target ∧
      target.optJoin ", " = .ok joined ∧
      (joined.truthy = true → ∃ text, joined.toText = .ok text)

/-- What the filter can turn into a response of the declared form. -/
def Regular (isProduction : Bool) : Thrown → Prop
  | .http exception => exception.Regular
  | .prisma exception => exception.Regular
  | .other value =>
    Describable value ∧
    (isProduction = false → ∃ message, value.optGet "message" = .ok message ∧
      (message.nullish = true ∨ message.isText = true))

/-! ## The exchange -/

theorem run_status {code : Int} :
    (Exchange.status code).run host =
      if 100 ≤ code ∧ code ≤ 999 then (.ok (), { host with status := code })
      else (.error (.rangeError s!"Invalid status code: {code}."), host) :=
  run_atomic _ _ _

theorem run_json {body : ResponseBody} {fields : List JsValue} :
    (Exchange.json body fields).run host =
      match JsValue.stringifyAll fields with
      | .ok () => (.ok (), { host with sent := host.sent ++ [⟨host.status, body⟩] })
      | .error e => (.error e, host) :=
  run_atomic _ _ _

@[simp] theorem run_logError {text : String} {stack : JsValue} :
    (Exchange.logError text stack).run host =
      (.ok (), { host with log := host.log ++ [(text, stack)] }) :=
  run_atomic _ _ _

theorem not_normalized_error {e : JsError} : ¬Normalized host (.error e, host') := by
  rintro ⟨h, -⟩
  cases h

/-- The last two calls of the filter. -/
def Exchange.send (body : ErrorBody) : Exchange Unit := do
  Exchange.status body.statusCode
  Exchange.json (.error body) [body.error, body.message]

theorem sent_send {body : ErrorBody} :
    ((Exchange.send body).run host).2.sent = host.sent ∨
      ((Exchange.send body).run host).2.sent = host.sent ++ [⟨body.statusCode, .error body⟩] := by
  rw [Exchange.send, run_bind, run_status]
  split
  · rename_i h
    split at h <;> cases h
    rw [run_json]
    split
    · exact .inr rfl
    · exact .inl rfl
  · rename_i h
    split at h <;> cases h
    exact .inl rfl

theorem run_send {body : ErrorBody} (hc : 100 ≤ body.statusCode ∧ body.statusCode ≤ 999)
    (he : body.error.isString = true) (hm : body.message.isText = true) :
    ((Exchange.send body).run host).1 = .ok () ∧
      ((Exchange.send body).run host).2.sent = host.sent ++ [⟨body.statusCode, .error body⟩] := by
  have hj : JsValue.stringifyAll [body.error, body.message] = .ok () := by
    rw [JsValue.stringifyAll, JsValue.stringify_of_isString he, JsValue.stringifyAll,
      JsValue.stringify_of_isText hm]
    rfl
  rw [Exchange.send, run_bind_of_ok (run_status.trans (if_pos hc)), run_json, hj]
  exact ⟨rfl, rfl⟩

theorem normalized_send {body : ErrorBody} (hs : host'.sent = host.sent) :
    Normalized host ((Exchange.send body).run host') ↔
      (100 ≤ body.statusCode ∧ body.statusCode ≤ 999) ∧ body.error.isString = true ∧
        body.message.isText = true := by
  constructor
  · rintro ⟨hok, body', hsent, htext⟩
    have hbody : body' = body := by
      rcases @sent_send host' body with h | h <;> simp_all
    subst hbody
    refine ⟨?_, htext⟩
    by_contra hc
    rw [Exchange.send, run_bind_of_error (run_status.trans (if_neg hc))] at hok
    cases hok
  · rintro ⟨hc, he, hm⟩
    obtain ⟨hok, hsent⟩ := @run_send host' _ hc he hm
    exact ⟨hok, body, hs ▸ hsent, he, hm⟩

/-! ## The exception -/

/-- What the filter resolves an exception into; only the log may be written. -/
def Resolves (isProduction : Bool) (exception : Thrown) (x : Except JsError Resolved) : Prop :=
  ∀ host, ∃ log,
    (GlobalExceptionFilter.resolve isProduction exception).run host = (x, { host with log })

/-- What goes into the log converts to text. -/
def Logs (exception : Thrown) : Prop :=
  (∃ text, GlobalExceptionFilter.describe exception = .ok text) ∧
    ∃ stack, exception.stack = .ok stack

theorem not_normalized_of_resolves {e : JsError} (h : Resolves isProduction exception (.error e)) :
    ¬Normalized host ((GlobalExceptionFilter.catchException isProduction exception).run host) := by
  obtain ⟨log, h⟩ := h host
  simp only [GlobalExceptionFilter.catchException, run_bind, run_query, h]
  exact not_normalized_error

/-- An exception that has been resolved: the filter fails to describe it, or
sends it. -/
theorem catch_of_resolves (h : Resolves isProduction exception (.ok r)) (host : Host) :
    ∃ host', host'.sent = host.sent ∧
      ((¬(500 ≤ r.statusCode → Logs exception) ∧ ∃ e,
        (GlobalExceptionFilter.catchException isProduction exception).run host = (.error e, host')) ∨
      ((500 ≤ r.statusCode → Logs exception) ∧
        (GlobalExceptionFilter.catchException isProduction exception).run host =
          (Exchange.send ⟨r.statusCode, r.error, r.message, host.now, host.url⟩).run host')) := by
  obtain ⟨log, h⟩ := h host
  rw [GlobalExceptionFilter.catchException, run_bind_of_ok (run_query _ _ _), run_bind_of_ok h]
  dsimp only
  by_cases h500 : 500 ≤ r.statusCode
  · rw [if_pos (by exact h500)]
    simp only [h500, true_imp_iff]
    cases hd : GlobalExceptionFilter.describe exception with
    | error e =>
      refine ⟨{ host with log }, rfl, .inl ⟨?_, e, run_bind_of_error (run_ofExcept _ _)⟩⟩
      simp [Logs, hd]
    | ok text =>
      rw [run_bind_of_ok (run_ofExcept _ _)]
      cases hst : exception.stack with
      | error e =>
        refine ⟨{ host with log }, rfl, .inl ⟨?_, e, run_bind_of_error (run_ofExcept _ _)⟩⟩
        simp [Logs, hst]
      | ok stack =>
        rw [run_bind_of_ok (run_ofExcept _ _), run_bind_of_ok run_logError,
          run_bind_of_ok (run_query _ _ _)]
        exact ⟨_, by rfl, .inr ⟨⟨⟨text, hd⟩, stack, hst⟩, rfl⟩⟩
  · rw [if_neg (by exact h500), run_bind_of_ok (run_query _ _ _)]
    exact ⟨_, by rfl, .inr ⟨fun hle => absurd hle h500, rfl⟩⟩

theorem normalized_of_resolves (h : Resolves isProduction exception (.ok r)) :
    Normalized host ((GlobalExceptionFilter.catchException isProduction exception).run host) ↔
      (500 ≤ r.statusCode → Logs exception) ∧ (100 ≤ r.statusCode ∧ r.statusCode ≤ 999) ∧
        r.error.isString = true ∧ r.message.isText = true := by
  obtain ⟨host', hs, ⟨hl, e, he⟩ | ⟨hl, he⟩⟩ := catch_of_resolves h host
  · simp only [he, hl, false_and, iff_false]
    exact not_normalized_error
  · rw [he, normalized_send hs]
    exact (and_iff_right hl).symm

/-- The one response that may be sent for an exception that has been resolved. -/
theorem sent_of_resolves (h : Resolves isProduction exception (.ok r)) (host : Host) :
    let sent := ((GlobalExceptionFilter.catchException isProduction exception).run host).2.sent
    sent = host.sent ∨ sent = host.sent ++
      [⟨r.statusCode, .error ⟨r.statusCode, r.error, r.message, host.now, host.url⟩⟩] := by
  obtain ⟨host', hs, ⟨hl, e, he⟩ | ⟨hl, he⟩⟩ := catch_of_resolves h host
  · exact .inl (by rw [he, hs])
  · rw [he, ← hs]
    exact sent_send

/-! ## The three kinds of exceptions -/

theorem logs_other {value : JsValue} : Logs (.other value) ↔ Describable value := by
  refine and_congr_left' ?_
  simp only [JsValue.coalesce, apply_ite JsValue.toText]
  constructor
  · rintro ⟨text, h⟩
    obtain ⟨message, hm, h⟩ := Except.bind_eq_ok.mp h
    exact ⟨message, text, hm, h⟩
  · rintro ⟨message, text, hm, h⟩
    exact ⟨text, Except.bind_eq_ok.mpr ⟨message, hm, h⟩⟩

theorem resolves_http (e : HttpException) :
    Resolves isProduction (.http e) (GlobalExceptionFilter.resolveHttpException e) :=
  fun host => ⟨host.log, run_ofExcept _ _⟩

/-- The fields of a payload that is not a string. -/
theorem resolves_payload {e : HttpException} (hs : e.response.isString = false) :
    Resolves isProduction (.http e) (do
      let message ← e.response.get "message"
      let error ← e.response.get "error"
      return ⟨e.status, error.coalesce (.string e.name), message.coalesce (.string e.message)⟩) := by
  have h := @resolves_http isProduction e
  unfold GlobalExceptionFilter.resolveHttpException at h
  split at h
  · simp [*] at hs
  · exact h

theorem normalized_http {e : HttpException} :
    Normalized host ((GlobalExceptionFilter.catchException isProduction (.http e)).run host) ↔
      e.Regular := by
  have hl : Logs (.http e) := ⟨⟨_, rfl⟩, _, rfl⟩
  unfold HttpException.Regular
  cases hs : e.response.isString with
  | true =>
    obtain ⟨payload, hp⟩ := JsValue.isString_iff.mp hs
    have hr := @resolves_http isProduction e
    simp only [GlobalExceptionFilter.resolveHttpException, hp] at hr
    rw [normalized_of_resolves hr, hp]
    simp [hl, JsValue.get, JsValue.nullish]
  | false =>
    have hr := @resolves_payload isProduction _ hs
    cases hm : e.response.get "message" with
    | error err =>
      rw [hm] at hr
      simp [not_normalized_of_resolves hr]
    | ok message =>
      cases he : e.response.get "error" with
      | error err =>
        rw [hm, he] at hr
        simp [not_normalized_of_resolves hr]
      | ok error =>
        rw [hm, he] at hr
        rw [normalized_of_resolves hr]
        simp [hl]

theorem duplicateMessage_isOk {metadata : JsValue} :
    (∃ text, GlobalExceptionFilter.duplicateMessage metadata = .ok text) ↔
      ∃ target joined, metadata.optGet "target" = .ok target ∧ target.optJoin ", " = .ok joined ∧
        (joined.truthy = true → ∃ text, joined.toText = .ok text) := by
  constructor
  · rintro ⟨text, h⟩
    obtain ⟨target, ht, h⟩ := Except.bind_eq_ok.mp h
    obtain ⟨joined, hj, h⟩ := Except.bind_eq_ok.mp h
    refine ⟨target, joined, ht, hj, fun htruthy => ?_⟩
    rw [if_pos htruthy] at h
    obtain ⟨text, h, -⟩ := Except.bind_eq_ok.mp h
    exact ⟨text, h⟩
  · rintro ⟨target, joined, ht, hj, h⟩
    by_cases htruthy : joined.truthy = true
    · obtain ⟨text, htext⟩ := h htruthy
      exact ⟨_, Except.bind_eq_ok.mpr ⟨target, ht, Except.bind_eq_ok.mpr ⟨joined, hj,
        (if_pos htruthy).trans (Except.bind_eq_ok.mpr ⟨text, htext, rfl⟩)⟩⟩⟩
    · exact ⟨_, Except.bind_eq_ok.mpr ⟨target, ht, Except.bind_eq_ok.mpr ⟨joined, hj,
        if_neg htruthy⟩⟩⟩

theorem resolves_duplicate {e : PrismaClientKnownRequestError} (hc : e.code = "P2002") :
    Resolves isProduction (.prisma e) (do
      let message ← GlobalExceptionFilter.duplicateMessage e.metadata
      return ⟨409, .string "Conflict", .string message⟩) := by
  intro host
  refine ⟨host.log, ?_⟩
  simp only [GlobalExceptionFilter.resolve, GlobalExceptionFilter.resolvePrismaError, hc]
  cases GlobalExceptionFilter.duplicateMessage e.metadata <;> rfl

theorem resolves_known {e : PrismaClientKnownRequestError} (hc : e.code ≠ "P2002") :
    ∃ r, Resolves isProduction (.prisma e) (.ok r) ∧ (100 ≤ r.statusCode ∧ r.statusCode ≤ 999) ∧
      r.error.isString = true ∧ r.message.isText = true := by
  unfold Resolves GlobalExceptionFilter.resolve GlobalExceptionFilter.resolvePrismaError
  dsimp only
  split
  · exact absurd ‹_› hc
  · exact ⟨_, fun host => ⟨host.log, rfl⟩, by decide, rfl, rfl⟩
  · exact ⟨_, fun host => ⟨host.log, rfl⟩, by decide, rfl, rfl⟩
  · exact ⟨_, fun host => ⟨_, rfl⟩, by decide, rfl, rfl⟩

/-- Only the message about a duplicate depends on more than the code. -/
theorem normalized_prisma {e : PrismaClientKnownRequestError} :
    Normalized host ((GlobalExceptionFilter.catchException isProduction (.prisma e)).run host) ↔
      e.Regular := by
  have hl : Logs (.prisma e) := ⟨⟨_, rfl⟩, _, rfl⟩
  unfold PrismaClientKnownRequestError.Regular
  rw [← duplicateMessage_isOk]
  by_cases hc : e.code = "P2002"
  · have hr := @resolves_duplicate isProduction e hc
    cases hm : GlobalExceptionFilter.duplicateMessage e.metadata with
    | error err =>
      rw [hm] at hr
      simp [not_normalized_of_resolves hr, hc]
    | ok message =>
      rw [hm] at hr
      rw [normalized_of_resolves hr]
      simp [hl]
  · obtain ⟨r, hr, hform⟩ := @resolves_known isProduction e hc
    rw [normalized_of_resolves hr]
    simp [hl, hform, hc]

theorem resolves_other {value : JsValue} :
    Resolves isProduction (.other value) (do
      let message ←
        if isProduction then pure (.string "Something went wrong")
        else do
          let message ← value.optGet "message"
          pure (message.coalesce (.string "Unknown error"))
      return ⟨500, .string "Internal Server Error", message⟩) := by
  intro host
  refine ⟨host.log, ?_⟩
  cases isProduction with
  | true => rfl
  | false =>
    rw [GlobalExceptionFilter.resolve]
    cases value.optGet "message" <;> rfl

theorem normalized_other {value : JsValue} :
    Normalized host ((GlobalExceptionFilter.catchException isProduction (.other value)).run host) ↔
      Regular isProduction (.other value) := by
  have hr := @resolves_other isProduction value
  rw [Regular, ← logs_other]
  cases isProduction with
  | true =>
    rw [normalized_of_resolves (by exact hr)]
    simp
  | false =>
    cases hm : value.optGet "message" with
    | error err =>
      rw [hm] at hr
      simp [not_normalized_of_resolves (by exact hr)]
    | ok message =>
      rw [hm] at hr
      rw [normalized_of_resolves (by exact hr)]
      simp

theorem normalized_iff :
    Normalized host ((GlobalExceptionFilter.catchException isProduction exception).run host) ↔
      Regular isProduction exception := by
  cases exception with
  | http e => exact normalized_http
  | prisma e => exact normalized_prisma
  | other value => exact normalized_other

/-! ## What the service throws -/

theorem joinAll_strings (separator : String) (fields : List String) :
    JsValue.joinAll separator (fields.map .string) = .ok (separator.intercalate fields) := by
  induction fields with
  | nil => rfl
  | cons s fields ih =>
    cases fields with
    | nil =>
      rw [String.intercalate_singleton]
      rfl
    | cons s' fields =>
      rw [List.map_cons] at ih
      rw [List.map_cons, List.map_cons, JsValue.joinAll, ih, String.intercalate_cons_cons]
      · rfl
      · intro h
        cases h

theorem duplicateMessage_ofExn (target : Option (List String)) :
    GlobalExceptionFilter.duplicateMessage
        (.ofFields (target.toList.map fun fields => ("target", .array (fields.map .string)))) =
      .ok (AtlasAuth.GlobalExceptionFilter.resolvePrismaError "P2002" target).message := by
  cases target with
  | none => rfl
  | some fields =>
    have hj : (JsValue.array (fields.map .string)).optJoin ", " =
        .ok (.string (", ".intercalate fields)) := by
      rw [JsValue.optJoin, joinAll_strings]
      rfl
    refine Except.bind_eq_ok.mpr ⟨_, rfl, Except.bind_eq_ok.mpr ⟨_, hj, ?_⟩⟩
    unfold AtlasAuth.GlobalExceptionFilter.resolvePrismaError AtlasAuth.truthy
    rw [Option.map_some]
    generalize ", ".intercalate fields = s
    by_cases h : s = ""
    · subst h
      rfl
    · rw [if_pos (by simp [JsValue.truthy, h])]
      simp [Option.filter, h]
      rfl

/-- An exception of the service is answered as `GlobalExceptionFilter.resolve`
says. -/
theorem resolves_ofExn (detail : String) (target : Option (List String)) (e : Exn) :
    let body := AtlasAuth.GlobalExceptionFilter.resolve isProduction target e
    Resolves isProduction (.ofExn detail target e)
      (.ok ⟨body.statusCode, .string body.error, .string body.message⟩) := by
  intro body
  cases e with
  | badRequest message => exact fun host => ⟨host.log, rfl⟩
  | unauthorized message =>
    by_cases hm : message = "Unauthorized"
    · subst hm
      exact fun host => ⟨host.log, rfl⟩
    · have hb : body = ⟨401, "Unauthorized", message⟩ := by
        simp only [body, AtlasAuth.GlobalExceptionFilter.resolve]
      have ht : Thrown.ofExn detail target (.unauthorized message) =
          .http (.ofMessage 401 "UnauthorizedException" "Unauthorized" message) := by
        simp only [Thrown.ofExn]
      rw [hb, ht]
      exact fun host => ⟨host.log, rfl⟩
  | forbidden message => exact fun host => ⟨host.log, rfl⟩
  | notFound message => exact fun host => ⟨host.log, rfl⟩
  | conflict message => exact fun host => ⟨host.log, rfl⟩
  | prisma code =>
    by_cases h₁ : code = "P2002"
    · subst h₁
      have hr := @resolves_duplicate isProduction ⟨"P2002", detail, .ofFields (target.toList.map fun
        fields => ("target", .array (fields.map .string)))⟩ rfl
      rw [duplicateMessage_ofExn] at hr
      exact hr
    by_cases h₂ : code = "P2025"
    · subst h₂
      exact fun host => ⟨host.log, rfl⟩
    by_cases h₃ : code = "P2003"
    · subst h₃
      exact fun host => ⟨host.log, rfl⟩
    have hb : body = ⟨500, "Internal Server Error", "Something went wrong"⟩ := by
      simp [body, AtlasAuth.GlobalExceptionFilter.resolve,
        AtlasAuth.GlobalExceptionFilter.resolvePrismaError]
    intro host
    rw [hb]
    simp only [Thrown.ofExn, GlobalExceptionFilter.resolve, GlobalExceptionFilter.resolvePrismaError]
    exact ⟨_, rfl⟩
  | error message =>
    cases isProduction <;> exact fun host => ⟨host.log, rfl⟩

theorem statusCode_mem (target : Option (List String)) (e : Exn) :
    400 ≤ (AtlasAuth.GlobalExceptionFilter.resolve isProduction target e).statusCode ∧
      (AtlasAuth.GlobalExceptionFilter.resolve isProduction target e).statusCode ≤ 500 := by
  cases e with
  | unauthorized message =>
    by_cases hm : message = "Unauthorized" <;> simp [AtlasAuth.GlobalExceptionFilter.resolve, hm]
  | prisma code =>
    simp only [AtlasAuth.GlobalExceptionFilter.resolve,
      AtlasAuth.GlobalExceptionFilter.resolvePrismaError]
    split <;> simp
  | _ => simp [AtlasAuth.GlobalExceptionFilter.resolve]

theorem logs_ofExn (detail : String) (target : Option (List String)) (e : Exn) :
    Logs (.ofExn detail target e) := by
  unfold Thrown.ofExn
  split <;> exact ⟨⟨_, rfl⟩, _, rfl⟩

/-- The response to an exception of the service. -/
def Host.refusal (host : Host) (isProduction : Bool) (target : Option (List String)) (e : Exn) :
    Sent :=
  let body := AtlasAuth.GlobalExceptionFilter.resolve isProduction target e
  ⟨body.statusCode,
    .error ⟨body.statusCode, .string body.error, .string body.message, host.now, host.url⟩⟩

theorem catch_ofExn (detail : String) (target : Option (List String)) (e : Exn) (host : Host) :
    let x := (GlobalExceptionFilter.catchException isProduction (.ofExn detail target e)).run host
    x.1 = .ok () ∧ x.2.sent = host.sent ++ [host.refusal isProduction target e] := by
  intro x
  obtain ⟨h₁, h₂⟩ := @statusCode_mem isProduction target e
  obtain ⟨host', hs, ⟨hl, -⟩ | ⟨-, hx⟩⟩ :=
    catch_of_resolves (@resolves_ofExn isProduction detail target e) host
  · exact absurd (fun _ => logs_ofExn detail target e) hl
  · simp only [x, hx, ← hs]
    exact run_send (by constructor <;> dsimp only <;> omega) rfl rfl

/-! ## Every exception -/

/-- The answers agree but for the time and the place. -/
structure ErrorBody.Agrees (b b' : ErrorBody) : Prop where
  statusCode : b.statusCode = b'.statusCode
  error : b.error = b'.error
  message : b.message = b'.message

/-- In production, the response to a value of no known class. -/
theorem sent_of_other {value : JsValue} {sent : Sent}
    (h : ((GlobalExceptionFilter.catchException true (.other value)).run host).2.sent =
      host.sent ++ [sent]) :
    sent = ⟨500, .error ⟨500, .string "Internal Server Error", .string "Something went wrong",
      host.now, host.url⟩⟩ := by
  rcases sent_of_resolves (by exact @resolves_other true value) host with hs | hs
  · simp [hs] at h
  · rw [hs] at h
    simpa using h.symm

/-- The filter normalizes exactly the regular exceptions; and in production it
answers any two values of no known class alike. -/
theorem catch_normalizes_iff_regular (isProduction : Bool) (exception : Thrown) (host : Host) :
    (Normalized host
        ((GlobalExceptionFilter.catchException isProduction exception).run host) ↔
      Regular isProduction exception) ∧
    ∀ (value value' : JsValue) (host' : Host) (status status' : Int) (body body' : ErrorBody),
      ((GlobalExceptionFilter.catchException true (.other value)).run host).2.sent =
        host.sent ++ [⟨status, .error body⟩] →
      ((GlobalExceptionFilter.catchException true (.other value')).run host').2.sent =
        host'.sent ++ [⟨status', .error body'⟩] →
      body.Agrees body' := by
  refine ⟨normalized_iff, ?_⟩
  intro value value' host' status status' body body' h h'
  cases sent_of_other h
  cases sent_of_other h'
  exact ⟨rfl, rfl, rfl⟩

/-- A request in development. -/
def healthRequest : Host where
  method := "GET"
  url := "/api/v1/health"
  now := "2026-01-01T00:00:00.000Z"

/-- What the health check throws while the database is down: its report has a
field `error` of its own. -/
def healthCheckFailed : HttpException where
  status := 503
  response := .ofFields [("status", .string "error"), ("info", .ofFields []),
    ("error", .ofFields [("database", .ofFields [("status", .string "down")])]),
    ("details", .ofFields [("database", .ofFields [("status", .string "down")])])]
  name := "ServiceUnavailableException"
  message := "Service Unavailable Exception"

/-- The report is sent on as the `error` of the body. -/
theorem catch_healthCheckFailed : ¬Normalized healthRequest
    ((GlobalExceptionFilter.catchException false (.http healthCheckFailed)).run healthRequest) := by
  rw [normalized_iff]
  rintro ⟨-, message, error, -, he, herror, -⟩
  cases he
  rcases herror with h | h <;> cases h

theorem catch_agrees_null :
    let null := (GlobalExceptionFilter.catchException true (.other .null)).run healthRequest
    let error := (GlobalExceptionFilter.catchException true
      (.other (.error "TypeError" "x is not a function"))).run healthRequest
    ∃ body body' : ErrorBody, null.2.sent = [⟨500, .error body⟩] ∧
      error.2.sent = [⟨500, .error body'⟩] ∧ body.Agrees body' :=
  ⟨_, _, rfl, rfl, (catch_normalizes_iff_regular true (.other .null) healthRequest).2 .null
    (.error "TypeError" "x is not a function") healthRequest 500 500 _ _ rfl rfl⟩

end AtlasAuth.Http

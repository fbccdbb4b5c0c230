import AtlasAuth.Model.Mail
import AtlasAuth.Proof.Enumeration
import AtlasAuth.Proof.Filter

/-!
# What a forgotten password tells about an account

`POST /auth/forgot-password` is answered with 202 where there is no account
with the address (`sent_of_unknown`). Where there is one, the answer is that of
the mail provider: 202 if it accepts the mail with the link, and what the
exception filter makes of its exception if it does not (`sent_of_known`); before
that the database may refuse the date at which the link expires. So the response
tells whether there is an account exactly if the date or the mail is refused
(`forgotPassword_reply_iff`).
-/

namespace AtlasAuth

open Framework Framework.Table Prog

variable {env : Env} {appUrl : String} {provider : MailProvider} {isProduction : Bool}
  {detail email : String} {target : Option (List String)} {w : World} {host : Http.Host}

/-- The response to a request that succeeded. -/
def resetAccepted : Http.Sent :=
  ⟨202, .message "If an account with that email exists, a reset link has been sent"⟩

theorem sent_of_requestReset :
    (AuthController.forgotPassword env appUrl provider isProduction detail target email w host).sent =
      host.sent ++ [match ((PasswordService.requestReset env email).runWith
          (MailService.fault env appUrl provider) w).1 with
        | .ok () => resetAccepted
        | .error e => host.refusal isProduction target e] := by
  unfold AuthController.forgotPassword
  rw [program, runWith_bind]
  cases (PasswordService.requestReset env email).runWith (MailService.fault env appUrl provider) w with
  | mk x w' =>
    cases x with
    | ok _ => rfl
    | error e => exact (Http.catch_ofExn detail target e host).2

theorem sent_of_unknown
    (h : w.users.find? (fun u => u.email == env.toLowerCase email && u.deletedAt.isNone) = none) :
    (AuthController.forgotPassword env appUrl provider isProduction detail target email w host).sent =
      host.sent ++ [resetAccepted] := by
  have hrun : ((PasswordService.requestReset env email).runWith
      (MailService.fault env appUrl provider) w).1 = .ok () := by
    simp only [PasswordService.requestReset, UsersRepository.findByEmail, Prog.query, runWith_bind,
      runWith_atomic, MailService.fault, h]
    rfl
  rw [sent_of_requestReset, hrun]

/-- A mail is sent if the provider accepts it. -/
theorem runWith_send {recipient token : String} {kind : MailKind} :
    ((MailService.send recipient kind token).runWith (MailService.fault env appUrl provider) w).1 =
      MailService.deliver env appUrl provider ⟨recipient, kind, token⟩ := by
  rw [MailService.send, runWith_atomic]
  simp only [MailService.fault, List.getLast?_concat]
  cases MailService.deliver env appUrl provider ⟨recipient, kind, token⟩ <;> rfl

/-- The mail with the link, to the user of the account. -/
def resetMail (env : Env) (w : World) (u : User) : Mail :=
  ⟨u.email, .passwordReset, env.randomBytes w.drawn⟩

/-- How the making of the link ends, and the mail with it. -/
def resetDelivered (env : Env) (appUrl : String) (provider : MailProvider) (w : World) (u : User) :
    Except Exn Unit :=
  match Prisma.dateTime (JsDate.after w.now (minutesToMs env.passwordResetMinutes)) with
  | .ok _ => MailService.deliver env appUrl provider (resetMail env w u)
  | .error e => .error e

theorem sent_of_known {u : User}
    (hu : w.users.find? (fun u => u.email == env.toLowerCase email && u.deletedAt.isNone) = some u)
    (hw : ∀ t ∈ w.passwordResetTokens, t.tokenHash ≠ env.sha256 (env.randomBytes w.drawn)) :
    (AuthController.forgotPassword env appUrl provider isProduction detail target email w host).sent =
      host.sent ++ [match resetDelivered env appUrl provider w u with
        | .ok () => resetAccepted
        | .error e => host.refusal isProduction target e] := by
  have hrun : ((PasswordService.requestReset env email).runWith
      (MailService.fault env appUrl provider) w).1 = resetDelivered env appUrl provider w u := by
    have hnew : (updateWhere (fun t => t.userId == u.id && t.consumedAt.isNone)
        (fun t => { t with consumedAt := some w.now }) w.passwordResetTokens).any
          (·.tokenHash == env.sha256 (env.randomBytes w.drawn)) = false := by
      refine List.any_eq_false.mpr fun t ht => ?_
      have hne := forall_updateWhere hw (by exact fun t _ h => h) t ht
      simpa using hne
    simp only [PasswordService.requestReset, UsersRepository.findByEmail, Prog.query, runWith_bind,
      runWith_atomic, MailService.fault, hu, PasswordResetRepository.invalidateOutstanding, randomBytes,
      dateNow, PasswordResetRepository.create]
    unfold resetDelivered
    cases Prisma.dateTime (JsDate.after w.now (minutesToMs env.passwordResetMinutes)) with
    | error e => rfl
    | ok expiresAt =>
      simp only [hnew, Bool.false_eq_true, if_false]
      exact runWith_send
  rw [sent_of_requestReset, hrun]

/-- Two stores, in the first of which there is an account with the address and
in the second there is not; the token for the link is new. The second answers
with 202, and the first with the same response exactly if the database accepts
the date at which the link expires, and the mail provider the mail with it. -/
theorem forgotPassword_reply_iff {w' : World} {u : User}
    (hemail : Unique User.email w.users)
    (hfresh : ∀ t ∈ w.passwordResetTokens, t.tokenHash ≠ env.sha256 (env.randomBytes w.drawn))
    (hu : u ∈ w.users) (hlive : u.deletedAt = none) (he : env.toLowerCase email = u.email)
    (hnone : ∀ v ∈ w'.users, v.email = u.email → v.deletedAt ≠ none) :
    let reply := fun w => (AuthController.forgotPassword env appUrl provider isProduction detail target
      email w host).sent
    reply w' = host.sent ++ [resetAccepted] ∧
    (reply w = reply w' ↔ (JsDate.after w.now (minutesToMs env.passwordResetMinutes)).Accepted ∧
      provider (MailService.message env appUrl (resetMail env w u)) = .ok ()) := by
  intro reply
  have h' : reply w' = host.sent ++ [resetAccepted] := by
    refine sent_of_unknown (List.find?_eq_none.mpr fun v hv => ?_)
    rw [he]
    simpa using hnone v hv
  have h : reply w = _ := sent_of_known (he ▸ hemail.find?_and hu (by rw [hlive]; rfl)) hfresh
  refine ⟨h', ?_⟩
  rw [h', h]
  unfold resetDelivered MailService.deliver JsDate.Accepted
  cases Prisma.dateTime (JsDate.after w.now (minutesToMs env.passwordResetMinutes)) with
  | error e => simp [Http.Host.refusal, resetAccepted]
  | ok expiresAt =>
    cases provider (MailService.message env appUrl (resetMail env w u)) with
    | ok _ => simp
    | error e => simp [Http.Host.refusal, resetAccepted]

/-- Resend, answering every request with 500. -/
def resendDown : MailProvider :=
  ResendProvider.send
    { fetch := fun _ => .ok ⟨500, .ok "Internal Server Error"⟩, sendMail := fun _ _ _ => .ok () }
    "re_key" "Atlas <no-reply@atlas.dev>"

def forgotPasswordRequest : Http.Host where
  method := "POST"
  url := "/api/v1/auth/forgot-password"
  now := "2026-01-01T00:00:00.000Z"

def noUser : World := { soleUser with users := [] }

theorem forgotPassword_tells :
    let reply := fun w => (AuthController.forgotPassword .sample "http://localhost:3000" resendDown true
      "" none "a@b.co" w forgotPasswordRequest).sent
    reply soleUser ≠ reply noUser := by
  intro reply h
  have hstatus : (reply soleUser).map (·.status) ≠ (reply noUser).map (·.status) := by decide +kernel
  exact hstatus (congrArg _ h)

theorem forgotPassword_reply_eq :
    let reply := fun w => (AuthController.forgotPassword .sample "http://localhost:3000"
      (fun _ => .ok ()) true "" none "a@b.co" w forgotPasswordRequest).sent
    reply soleUser = reply noUser :=
  (forgotPassword_reply_iff (by rw [soleUser_users]; exact List.nodup_singleton _)
    (by rw [show soleUser.passwordResetTokens = [] by decide +kernel]; simp)
    (by rw [soleUser_users]; exact List.mem_singleton_self soleAccount) rfl rfl
    (by decide)).2.mpr ⟨accepted_minutes.mpr (by decide +kernel), rfl⟩

end AtlasAuth

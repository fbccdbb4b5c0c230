import AtlasAuth.Framework.Faulty
import AtlasAuth.Model.App
import AtlasAuth.Model.Filter

/-!
# Mails and their providers

`MailService`, its templates, the four providers, and the controller of
`POST /auth/forgot-password` up to the response. A provider is known by the
mails that it accepts; `fetch` and the SMTP transport, which the providers call,
may do anything.
-/

namespace AtlasAuth

open Framework

structure MailMessage where
  recipient : String
  subject : String
  html : String
  text : String
  deriving DecidableEq

/-- `MailProvider.send`. -/
abbrev MailProvider := MailMessage → Except Exn Unit

/-! ## Templates -/

structure RenderedTemplate where
  subject : String
  html : String
  text : String

def renderLayout (title bodyHtml : String) : String :=
  let fonts := "-apple-system,Segoe UI,Roboto,Helvetica,Arial,sans-serif"
  let page := s!"margin:0;padding:0;background:#f4f5f7;font-family:{fonts};"
  let outer := "width=\"100%\" cellpadding=\"0\" cellspacing=\"0\""
  let inner := "width=\"560\" cellpadding=\"0\" cellspacing=\"0\""
  let card := "background:#ffffff;border-radius:8px;padding:40px;"
  let heading := "font-size:20px;font-weight:600;color:#111827;padding-bottom:16px;"
  let content := "font-size:15px;line-height:1.6;color:#374151;"
  let footer := "font-size:12px;color:#9ca3af;padding-top:32px;border-top:1px solid #e5e7eb;"
  s!"<!doctype html>
<html>
  <body style=\"{page}\">
    <table role=\"presentation\" {outer} style=\"background:#f4f5f7;padding:32px 0;\">
      <tr>
        <td align=\"center\">
          <table role=\"presentation\" {inner} style=\"{card}\">
            <tr><td style=\"{heading}\">{title}</td></tr>
            <tr><td style=\"{content}\">{bodyHtml}</td></tr>
            <tr><td style=\"{footer}\">
              If you didn't request this, you can safely ignore this email.
            </td></tr>
          </table>
        </td>
      </tr>
    </table>
  </body>
</html>"

def actionButton (url label : String) : String :=
  let button := "background:#4f46e5;color:#ffffff;text-decoration:none;padding:12px 24px;" ++
    "border-radius:6px;font-weight:600;display:inline-block;"
  s!"<p style=\"margin:24px 0;\">
    <a href=\"{url}\" style=\"{button}\">{label}</a>
  </p>
  <p style=\"font-size:13px;color:#6b7280;\">Or paste this link into your browser:<br>{url}</p>"

def verifyEmailTemplate (verificationUrl : String) (ttlMinutes : Nat) : RenderedTemplate :=
  let subject := "Verify your email address"
  let button := actionButton verificationUrl "Verify email"
  let body := s!"
    <p>Thanks for signing up. Confirm your email address to activate your account.</p>
    {button}
    <p>This link expires in {ttlMinutes} minutes.</p>"
  { subject
    html := renderLayout subject body
    text := s!"Verify your email address\n\n" ++
      s!"Open this link to confirm your account:\n{verificationUrl}\n\n" ++
      s!"This link expires in {ttlMinutes} minutes." }

def emailChangeTemplate (verificationUrl : String) (ttlMinutes : Nat) : RenderedTemplate :=
  let subject := "Confirm your new email address"
  let button := actionButton verificationUrl "Confirm new email"
  let body := s!"
    <p>A request was made to change the email on your account to this address.
    Confirm the change below.</p>
    {button}
    <p>This link expires in {ttlMinutes} minutes. If you didn't request this change,
    ignore this email and the address on the account will stay as it is.</p>"
  { subject
    html := renderLayout subject body
    text := s!"Confirm your new email address\n\n" ++
      s!"Open this link to confirm the change:\n{verificationUrl}\n\n" ++
      s!"This link expires in {ttlMinutes} minutes." }

def passwordResetTemplate (resetUrl : String) (ttlMinutes : Nat) : RenderedTemplate :=
  let subject := "Reset your password"
  let button := actionButton resetUrl "Reset password"
  let body := s!"
    <p>A password reset was requested for your account. Set a new password below.</p>
    {button}
    <p>This link expires in {ttlMinutes} minutes. If you didn't request a reset,
    your password is still safe and no action is needed.</p>"
  { subject
    html := renderLayout subject body
    text := s!"Reset your password\n\n" ++
      s!"Open this link to set a new password:\n{resetUrl}\n\n" ++
      s!"This link expires in {ttlMinutes} minutes." }

/-! ## The service -/

/-- The characters that `encodeURIComponent` keeps. -/
def isUnreserved (c : Char) : Bool :=
  c.isAlphanum || ['-', '_', '.', '!', '~', '*', '\'', '(', ')'].contains c

def encodeURIComponent (s : String) : String :=
  String.join (s.toList.map fun c =>
    if isUnreserved c then c.toString
    else String.join ((c.toString.toUTF8.toList).map fun byte =>
      s!"%{hexDigit (byte.toNat / 16)}{hexDigit (byte.toNat % 16)}"))
where
  hexDigit (n : Nat) : Char := ("0123456789ABCDEF".toList)[n]?.getD '0'

namespace MailService

section

variable (env : Env) (appUrl : String)

def buildUrl (path token : String) : String :=
  let appUrl := if appUrl.endsWith "/" then (appUrl.dropEnd 1).toString else appUrl
  s!"{appUrl}{path}?token={encodeURIComponent token}"

/-- What `sendVerificationEmail`, `sendEmailChangeConfirmation` and
`sendPasswordResetEmail` render. -/
def render (kind : MailKind) (token : String) : RenderedTemplate :=
  match kind with
  | .verification =>
    verifyEmailTemplate (buildUrl appUrl "/verify-email" token) env.emailVerificationMinutes
  | .emailChange =>
    emailChangeTemplate (buildUrl appUrl "/verify-email" token) env.emailVerificationMinutes
  | .passwordReset =>
    passwordResetTemplate (buildUrl appUrl "/reset-password" token) env.passwordResetMinutes

def message (mail : Mail) : MailMessage :=
  let { subject, html, text } := render env appUrl mail.kind mail.token
  { recipient := mail.recipient, subject, html, text }

/-- `deliver`, without the line that it logs after the mail has been sent. -/
def deliver (provider : MailProvider) (mail : Mail) : Except Exn Unit :=
  provider (message env appUrl mail)

end

end MailService

/-! ## The providers -/

/-- The body of a request to the API of a provider. -/
inductive ApiBody
  | resend (sender : String) (recipients : List String) (subject html text : String)
  | sendgrid (recipient sender subject text html : String)

structure ApiRequest where
  url : String
  authorization : String
  body : ApiBody

structure FetchResponse where
  status : Nat
  text : Except Exn String

def FetchResponse.ok (response : FetchResponse) : Bool :=
  200 ≤ response.status && response.status ≤ 299

structure SmtpOptions where
  host : String
  port : Nat
  user : Option String
  password : Option String
  secure : Bool
  sender : String

/-- What the providers call: `fetch`, and `sendMail` of the transport that
`createTransport` makes of some options and credentials. -/
structure Network where
  fetch : ApiRequest → Except Exn FetchResponse
  sendMail : SmtpOptions → Option (String × Option String) → MailMessage → Except Exn Unit

section

variable (net : Network)

def ResendProvider.send (apiKey sender : String) : MailProvider := fun message => do
  let response ← net.fetch
    { url := "https://api.resend.com/emails"
      authorization := s!"Bearer {apiKey}"
      body := .resend sender [message.recipient] message.subject message.html message.text }
  if !response.ok then
    let body ← response.text
    throw (.error s!"Resend API responded {response.status}: {body}")

namespace SendgridProvider

/-- What `/<([^>]+)>/` captures first. -/
def captureAddress : List Char → Option (List Char)
  | [] => none
  | c :: cs =>
    let address := cs.takeWhile (· ≠ '>')
    if c = '<' ∧ address ≠ [] ∧ address.length < cs.length then some address
    else captureAddress cs

/-- Accepts either "user@host" or "Display Name <user@host>". -/
def parseAddress (sender : String) : String :=
  match captureAddress sender.toList with
  | some address => String.ofList address
  | none => sender

def send (apiKey sender : String) : MailProvider := fun message => do
  let response ← net.fetch
    { url := "https://api.sendgrid.com/v3/mail/send"
      authorization := s!"Bearer {apiKey}"
      body := .sendgrid message.recipient (parseAddress sender) message.subject message.text
        message.html }
  if !response.ok then
    let body ← response.text
    throw (.error s!"SendGrid API responded {response.status}: {body}")

end SendgridProvider

def SmtpProvider.send (options : SmtpOptions) : MailProvider :=
  net.sendMail options ((truthy options.user).map fun user => (user, options.password))

/-- Mailtrap sandbox is plain SMTP with dedicated credentials. -/
def MailtrapProvider.send (options : SmtpOptions) : MailProvider :=
  SmtpProvider.send net { options with secure := false }

end

structure MailConfig where
  provider : String
  sender : String
  smtp : SmtpOptions
  resendApiKey : Option String
  sendgridApiKey : Option String
  mailtrapHost : Option String
  mailtrapPort : Nat
  mailtrapUser : Option String
  mailtrapPassword : Option String

/-- `config.getOrThrow`. -/
def getOrThrow {α : Type} (key : String) : Option α → Except Exn α
  | some value => .ok value
  | none => .error (.error s!"Configuration key \"{key}\" does not exist")

def createMailProvider (net : Network) (config : MailConfig) : Except Exn MailProvider :=
  match config.provider with
  | "resend" => do
    let apiKey ← getOrThrow "mail.resend.apiKey" config.resendApiKey
    return ResendProvider.send net apiKey config.sender
  | "sendgrid" => do
    let apiKey ← getOrThrow "mail.sendgrid.apiKey" config.sendgridApiKey
    return SendgridProvider.send net apiKey config.sender
  | "mailtrap" => do
    let host ← getOrThrow "mail.mailtrap.host" config.mailtrapHost
    return MailtrapProvider.send net
      { host, port := config.mailtrapPort, user := config.mailtrapUser
        password := config.mailtrapPassword, secure := false, sender := config.sender }
  | _ => do
    return SmtpProvider.send net
      { config.smtp with
        user := truthy config.smtp.user, password := truthy config.smtp.password
        sender := config.sender }

/-! ## The response -/

section

variable (env : Env) (appUrl : String) (provider : MailProvider)

/-- The exception of a call that sends a mail which the provider does not
accept. -/
def MailService.fault : Call → World → World → Option Exn
  | .sendMail, _, w =>
    match w.outbox.getLast? with
    | some mail =>
      match MailService.deliver env appUrl provider mail with
      | .ok () => none
      | .error e => some e
    | none => none
  | _, _, _ => none

/-- The exchange of `POST /auth/forgot-password`; `detail` and `target` are those
of an error of Prisma. -/
def AuthController.forgotPassword (isProduction : Bool) (detail : String)
    (target : Option (List String)) (email : String) (w : World) (host : Http.Host) : Http.Host :=
  match ((program env (.forgotPassword email)).runWith (MailService.fault env appUrl provider) w).1 with
  | .ok _ =>
    ((do
      Http.Exchange.status 202
      Http.Exchange.json
        (.message "If an account with that email exists, a reset link has been sent") []
      : Http.Exchange Unit).run host).2
  | .error e =>
    ((Http.GlobalExceptionFilter.catchException isProduction (.ofExn detail target e)).run host).2

end

end AtlasAuth

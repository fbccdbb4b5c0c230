import AtlasAuth.Framework.Rely
import AtlasAuth.Proof.Blacklist
import AtlasAuth.Proof.Indexes

/-!
# Whose rows a call changes

Every row but those of the role tables belongs to a user: the user's own row,
devices, sessions, refresh tokens and links, and the access tokens signed for
the user. A call changes rows of one user only, and only those parts of them
that `L` allows (`Touches`), or none (`Idle`).

So the references between rows hold (`Joined`): a device, a link and a signed
token have a user, a session has a device and a refresh token a session of the
same user, and a family of refresh tokens belongs to one session. The model of
the repositories leaves the foreign keys of these tables out, because rows are
never deleted and only such calls are made.
-/

namespace AtlasAuth

open Framework Framework.Table Prog

/-! ## References -/

/-- There is such a user. -/
def IsUser (u : String) (w : World) : Prop := ∃ v ∈ w.users, v.id = u

/-- The session is one of the user. -/
def HasSession (u sid : String) (w : World) : Prop := ∃ s ∈ w.sessions, s.id = sid ∧ s.userId = u

/-- The device is one of the user. -/
def HasDevice (u id : String) (w : World) : Prop := ∃ d ∈ w.devices, d.id = id ∧ d.userId = u

structure Joined (env : Env) (w : World) : Prop where
  deviceId : Unique Device.id w.devices
  deviceMinted : Minted Device.id env.randomUUID w.drawn w.devices
  deviceKey : Unique (fun d : Device => (d.userId, d.fingerprint)) w.devices
  deviceUser : ∀ d ∈ w.devices, IsUser d.userId w
  sessionDevice : ∀ s ∈ w.sessions, ∃ id, s.deviceId = some id ∧ HasDevice s.userId id w
  tokenSession : ∀ t ∈ w.refreshTokens, HasSession t.userId t.sessionId w
  family : ∀ t ∈ w.refreshTokens, ∀ t' ∈ w.refreshTokens, t.familyId = t'.familyId →
    t.sessionId = t'.sessionId
  familyMinted : Minted RefreshToken.familyId env.randomUUID w.drawn w.refreshTokens
  tokenHash : Minted RefreshToken.tokenHash (env.sha256 ∘ env.randomBytes) w.drawn w.refreshTokens
  resetUser : ∀ t ∈ w.passwordResetTokens, IsUser t.userId w
  resetHash : Minted PasswordResetToken.tokenHash (env.sha256 ∘ env.randomBytes) w.drawn
    w.passwordResetTokens
  linkUser : ∀ t ∈ w.emailVerificationTokens, IsUser t.userId w
  linkHash : Minted EmailVerificationToken.tokenHash (env.sha256 ∘ env.randomBytes) w.drawn
    w.emailVerificationTokens
  signedSession : ∀ p ∈ w.signed, HasSession p.sub p.sessionId w
  jti : Unique JwtPayload.jti w.signed
  jtiMinted : Minted JwtPayload.jti env.randomUUID w.drawn w.signed
  registered : ∀ u e c, .userRegistered u e c ∈ w.events → IsUser u w

variable {env : Env} {w w' : World} {u : String} {log : List (Entry World Call)}

theorem Joined.init (t : Time) : Joined env { now := t } :=
  ⟨.nil, .nil, .nil, nofun, nofun, nofun, nofun, .nil, .nil, nofun, .nil, nofun, .nil, nofun, .nil,
    .nil, nofun⟩

theorem Joined.sessionUser (h : Joined env w) {sid : String} (hs : HasSession u sid w) :
    IsUser u w := by
  obtain ⟨s, hs, -, rfl⟩ := hs
  obtain ⟨id, -, d, hd, -, hu⟩ := h.sessionDevice s hs
  exact hu ▸ h.deviceUser d hd

/-- The tokens of a family are of one user. -/
theorem Joined.familyUser (h : Joined env w) (hf : Fresh env w) {t t' : RefreshToken}
    (ht : t ∈ w.refreshTokens) (ht' : t' ∈ w.refreshTokens) (e : t.familyId = t'.familyId) :
    t.userId = t'.userId := by
  obtain ⟨s, hs, hid, hu⟩ := h.tokenSession t ht
  obtain ⟨s', hs', hid', hu'⟩ := h.tokenSession t' ht'
  obtain rfl : s = s' := hf.sessionId.eq hs hs' (by rw [hid, hid', h.family t ht t' ht' e])
  exact hu.symm.trans hu'

/-- A session has one user. -/
theorem HasSession.user_eq (hf : Fresh env w) {u' sid : String} (h : HasSession u sid w)
    (h' : HasSession u' sid w) : u = u' := by
  obtain ⟨s, hs, hid, hu⟩ := h
  obtain ⟨s', hs', hid', hu'⟩ := h'
  obtain rfl : s = s' := hf.sessionId.eq hs hs' (hid.trans hid'.symm)
  exact hu.symm.trans hu'

/-! ## Rows -/

/-- The kinds of row that a user has. The row of the user itself is in parts. -/
inductive Part
  | profile
  | address
  | password
  | lockout
  | device
  | session
  | refreshToken
  | accessToken
  | resetLink
  | emailLink
  deriving DecidableEq

def Part.Row : Part → Type
  | .profile => Option String × Option String × Option String × Option Time
  | .address => String × Bool × Option Time
  | .password => String
  | .lockout => Nat × Option Time
  | .device => Device
  | .session => Session
  | .refreshToken => RefreshToken
  | .accessToken => JwtPayload × Option (Held String) × Option (Held String)
  | .resetLink => PasswordResetToken
  | .emailLink => EmailVerificationToken

def User.profile (v : User) : Part.profile.Row :=
  (v.firstName, v.lastName, v.avatarUrl, v.lastLoginAt)

def User.address (v : User) : Part.address.Row := (v.email, v.isEmailVerified, v.deletedAt)

def User.lockout (v : User) : Part.lockout.Row := (v.failedLoginAttempts, v.lockedUntil)

/-- An access token, and whether it or its session is on the blacklist. -/
def World.accessToken (w : World) (p : JwtPayload) : Part.accessToken.Row :=
  (p, w.redis (JTI_PREFIX ++ p.jti), w.redis (SESSION_PREFIX ++ p.sessionId))

/-- What belongs to the user. -/
def World.rows (w : World) (u : String) : (p : Part) → List p.Row
  | .profile => (w.users.filter (·.id == u)).map User.profile
  | .address => (w.users.filter (·.id == u)).map User.address
  | .password => (w.users.filter (·.id == u)).map User.passwordHash
  | .lockout => (w.users.filter (·.id == u)).map User.lockout
  | .device => w.devices.filter (·.userId == u)
  | .session => w.sessions.filter (·.userId == u)
  | .refreshToken => w.refreshTokens.filter (·.userId == u)
  | .accessToken => (w.signed.filter (·.sub == u)).map w.accessToken
  | .resetLink => w.passwordResetTokens.filter (·.userId == u)
  | .emailLink => w.emailVerificationTokens.filter (·.userId == u)

/-! ## Calls -/

/-- A call that changes no user's rows. -/
structure Idle (w w' : World) : Prop where
  drawn : w.drawn ≤ w'.drawn
  users : w'.users = w.users
  devices : w'.devices = w.devices
  sessions : w'.sessions = w.sessions
  refreshTokens : w'.refreshTokens = w.refreshTokens
  signed : w'.signed = w.signed
  passwordResetTokens : w'.passwordResetTokens = w.passwordResetTokens
  emailVerificationTokens : w'.emailVerificationTokens = w.emailVerificationTokens
  redis : w'.redis = w.redis
  registered : ∀ u e c, .userRegistered u e c ∈ w'.events → .userRegistered u e c ∈ w.events

theorem Idle.refl (w : World) : Idle w w :=
  ⟨Nat.le_refl _, rfl, rfl, rfl, rfl, rfl, rfl, rfl, rfl, fun _ _ _ h => h⟩

/-- What `name` makes of a random value that the request has drawn. -/
def DrewName (name : Nat → String) (log : List (Entry World Call)) (w : World) (s : String) : Prop :=
  ∃ n < w.drawn, s = name n ∧ ∃ y ∈ log, y.before.drawn = n ∧ n < y.after.drawn

/-- The family of a token that is to be made: one of the same session, or a new
one. -/
def FamilyFor (env : Env) (log : List (Entry World Call)) (w : World) (t : RefreshToken) : Prop :=
  (∃ t' ∈ w.refreshTokens, t'.familyId = t.familyId ∧ t'.sessionId = t.sessionId) ∨
    (∀ t' ∈ w.refreshTokens, t'.familyId ≠ t.familyId) ∧ DrewName env.randomUUID log w t.familyId

/-- The access token expires when a token signed now does. -/
def ExpiresInTime (env : Env) (w : World) (p : JwtPayload) : Prop :=
  ∃ d, parseDurationToMs env.accessExpiresIn = .ok d ∧
    TokenService.expiry (w.now / 1000) (d.divFloor 1000) = .ok p.exp

/-- An access token that the user could blacklist, by itself or with its
session. -/
def OwnKey (u key : String) (w : World) : Prop :=
  (∃ sid, HasSession u sid w ∧ key = SESSION_PREFIX ++ sid) ∨
    ∃ p ∈ w.signed, p.sub = u ∧ key = JTI_PREFIX ++ p.jti

/-- A call that changes rows of the user `u`, as `L` allows. -/
inductive Touches (env : Env) (log : List (Entry World Call)) (L : Part → Prop) (u : String)
    (w : World) : World → Prop
  | createUser {v : User} (hid : v.id = u) (hu : u = env.randomUUID w.drawn) :
      Touches env log L u w { w with drawn := w.drawn + 1, users := w.users ++ [v] }
  | register (e : String) (c : RequestContext) (hu : IsUser u w) :
      Touches env log L u w { w with events := w.events ++ [.userRegistered u e c] }
  | updateUser {data : User → User} (hid : ∀ v, (data v).id = v.id)
      (hprofile : ¬L .profile → ∀ v, (data v).profile = v.profile)
      (haddress : ¬L .address → ∀ v, (data v).address = v.address)
      (hpassword : ¬L .password → ∀ v, (data v).passwordHash = v.passwordHash)
      (hlockout : ¬L .lockout → ∀ v, (data v).lockout = v.lockout) :
      Touches env log L u w { w with users := updateWhere (·.id == u) data w.users }
  | createDevice (hL : L .device) {d : Device} (hid : d.id = env.randomUUID w.drawn)
      (hu : d.userId = u) (huser : IsUser u w)
      (hkey : ∀ d' ∈ w.devices, d'.userId = u → d'.fingerprint ≠ d.fingerprint) :
      Touches env log L u w { w with drawn := w.drawn + 1, devices := w.devices ++ [d] }
  | updateDevice (hL : L .device) {p : Device → Bool} {data : Device → Device}
      (hp : ∀ d ∈ w.devices, p d = true → d.userId = u)
      (hdata : ∀ d, (data d).id = d.id ∧ (data d).userId = d.userId ∧
        (data d).fingerprint = d.fingerprint) :
      Touches env log L u w { w with devices := updateWhere p data w.devices }
  | createSession (hL : L .session) {s : Session} (hu : s.userId = u)
      (hd : ∃ id, s.deviceId = some id ∧ HasDevice u id w) :
      Touches env log L u w { w with drawn := w.drawn + 1, sessions := w.sessions ++ [s] }
  | createRefreshToken (hL : L .refreshToken) {t : RefreshToken} (hu : t.userId = u)
      (hs : HasSession u t.sessionId w) (hf : FamilyFor env log w t)
      (hhash : DrewName (env.sha256 ∘ env.randomBytes) log w t.tokenHash) :
      Touches env log L u w { w with drawn := w.drawn + 1, refreshTokens := w.refreshTokens ++ [t] }
  | updateSessions {p : Session → Bool} {data : Session → Session} {q : RefreshToken → Bool}
      {data' : RefreshToken → RefreshToken}
      (hp : ∀ s ∈ w.sessions, p s = true → L .session ∧ s.userId = u)
      (hdata : ∀ s, (data s).id = s.id ∧ (data s).userId = s.userId ∧
        (data s).deviceId = s.deviceId)
      (hq : ∀ t ∈ w.refreshTokens, q t = true → L .refreshToken ∧ t.userId = u)
      (hdata' : ∀ t, (data' t).userId = t.userId ∧ (data' t).sessionId = t.sessionId ∧
        (data' t).familyId = t.familyId ∧ (data' t).tokenHash = t.tokenHash) :
      Touches env log L u w
        { w with sessions := updateWhere p data w.sessions,
                 refreshTokens := updateWhere q data' w.refreshTokens }
  | sign (hL : L .accessToken) {p : JwtPayload} (hu : p.sub = u) (hs : HasSession u p.sessionId w)
      (hjti : ∀ p' ∈ w.signed, p'.jti ≠ p.jti) (hname : DrewName env.randomUUID log w p.jti)
      (hexp : ExpiresInTime env w p) :
      Touches env log L u w { w with signed := w.signed ++ [p] }
  | blacklist (hL : L .accessToken) {key : String} (hkey : OwnKey u key w) (h : Held String) :
      Touches env log L u w { w with redis := w.redis.set key h }
  | createReset (hL : L .resetLink) {t : PasswordResetToken} (hu : t.userId = u)
      (huser : IsUser u w) (hhash : DrewName (env.sha256 ∘ env.randomBytes) log w t.tokenHash) :
      Touches env log L u w
        { w with drawn := w.drawn + 1, passwordResetTokens := w.passwordResetTokens ++ [t] }
  | consumeResets (hL : L .resetLink) {p : PasswordResetToken → Bool}
      (hp : ∀ t ∈ w.passwordResetTokens, p t = true → t.userId = u) (now : Time) :
      Touches env log L u w
        { w with passwordResetTokens :=
                   updateWhere p (fun t => { t with consumedAt := some now }) w.passwordResetTokens }
  | createLink (hL : L .emailLink) {t : EmailVerificationToken} (hu : t.userId = u)
      (huser : IsUser u w) (hhash : DrewName (env.sha256 ∘ env.randomBytes) log w t.tokenHash) :
      Touches env log L u w
        { w with drawn := w.drawn + 1, emailVerificationTokens := w.emailVerificationTokens ++ [t] }
  | consumeLinks (hL : L .emailLink) {p : EmailVerificationToken → Bool}
      (hp : ∀ t ∈ w.emailVerificationTokens, p t = true → t.userId = u) (now : Time) :
      Touches env log L u w
        { w with emailVerificationTokens :=
                   updateWhere p (fun t => { t with consumedAt := some now })
                     w.emailVerificationTokens }

variable {L : Part → Prop}

/-! ### Which rows change -/

section

variable {ρ : Type} {rows : List ρ} {owner : ρ → String} {u' : String}

theorem filter_concat_or {r : ρ} (hr : owner r = u) :
    (rows ++ [r]).filter (owner · == u') = rows.filter (owner · == u') ∨ u' = u := by
  by_cases e : u' = u
  · exact .inr e
  · exact .inl (by simp [List.filter_append, hr, Ne.symm e])

theorem filter_updateWhere_or {K : Prop} {p : ρ → Bool} {data : ρ → ρ}
    (hp : ∀ r ∈ rows, p r = true → K ∧ owner r = u) (hdata : ∀ r, owner (data r) = owner r) :
    (updateWhere p data rows).filter (owner · == u') = rows.filter (owner · == u') ∨ u' = u ∧ K := by
  by_cases h : ∃ r ∈ rows, p r = true ∧ owner r = u'
  · obtain ⟨r, hr, hpr, rfl⟩ := h
    obtain ⟨hK, e⟩ := hp r hr hpr
    exact .inr ⟨e, hK⟩
  · refine .inl (filter_updateWhere_of_none (fun r _ => by rw [hdata]) fun r hr hu => ?_)
    exact Bool.eq_false_iff.mpr fun hpr => h ⟨r, hr, hpr, beq_iff_eq.mp hu⟩

/-- A part of the rows that an update leaves alone. -/
theorem map_filter_updateWhere {κ : Type} {c : ρ → κ} {p : ρ → Bool} {data : ρ → ρ}
    (hdata : ∀ r, owner (data r) = owner r) (hc : ∀ r, c (data r) = c r) :
    ((updateWhere p data rows).filter (owner · == u')).map c =
      (rows.filter (owner · == u')).map c := by
  rw [filter_updateWhere fun r _ => by rw [hdata], map_updateWhere fun r _ => hc r]

end

/-- Other users' tokens are not affected. -/
theorem OwnKey.accessToken {key : String} (hkey : OwnKey u key w) (hf : Fresh env w)
    (hj : Joined env w) (h : Held String) {p : JwtPayload} (hp : p ∈ w.signed) (hu : p.sub ≠ u) :
    { w with redis := w.redis.set key h }.accessToken p = w.accessToken p := by
  have hjti : JTI_PREFIX ++ p.jti ≠ key := by
    rintro rfl
    obtain ⟨sid, -, e⟩ | ⟨p', hp', rfl, e⟩ := hkey
    · exact JTI_PREFIX_ne _ _ e
    · exact hu (congrArg JwtPayload.sub (hj.jti.eq hp hp' (JTI_PREFIX_inj e)))
  have hsid : SESSION_PREFIX ++ p.sessionId ≠ key := by
    rintro rfl
    obtain ⟨sid, hs, e⟩ | ⟨p', hp', -, e⟩ := hkey
    · exact hu ((hj.signedSession p hp).user_eq hf (SESSION_PREFIX_inj e ▸ hs))
    · exact JTI_PREFIX_ne _ _ e.symm
  simp only [World.accessToken, Expiring.set_of_ne hjti, Expiring.set_of_ne hsid]
  rfl

theorem Idle.rows (h : Idle w w') (u : String) (p : Part) : w'.rows u p = w.rows u p := by
  cases p with
  | profile | address | password | lockout => simp only [World.rows, h.users]
  | device => simp only [World.rows, h.devices]
  | session => simp only [World.rows, h.sessions]
  | refreshToken => simp only [World.rows, h.refreshTokens]
  | accessToken =>
    have : w'.accessToken = w.accessToken := by
      funext p
      simp only [World.accessToken, h.redis]
      rfl
    simp only [World.rows, h.signed, this]
  | resetLink => simp only [World.rows, h.passwordResetTokens]
  | emailLink => simp only [World.rows, h.emailVerificationTokens]

/-- Only the allowed parts of the user's rows change, unless the user is new. -/
theorem Touches.rows (h : Touches env log L u w w') (hf : Fresh env w) (hj : Joined env w)
    (u' : String) (p : Part) :
    w'.rows u' p = w.rows u' p ∨ u' = u ∧ (L p ∨ ¬IsUser u w ∧ IsUser u w') := by
  cases h with
  | @createUser v hid hu =>
    have hrows : (w.users ++ [v]).filter (·.id == u') = w.users.filter (·.id == u') ∨ u' = u :=
      filter_concat_or hid
    rcases hrows with e | e
    · cases p with
      | profile | address | password | lockout => exact .inl (congrArg (List.map _) e)
      | _ => exact .inl rfl
    · have hnew : IsUser u { w with drawn := w.drawn + 1, users := w.users ++ [v] } :=
        ⟨v, List.mem_append_right _ (List.mem_singleton_self _), hid⟩
      refine .inr ⟨e, .inr ⟨fun ⟨v', hv', hid'⟩ => ?_, hnew⟩⟩
      exact hf.userMinted.ne env.randomUUID_injective hv' (Nat.le_refl _) (hid'.trans hu)
  | register => cases p <;> exact .inl rfl
  | @updateUser data hid hprofile haddress hpassword hlockout =>
    have hrows : (updateWhere (·.id == u) data w.users).filter (·.id == u') =
        w.users.filter (·.id == u') ∨ u' = u ∧ True :=
      filter_updateWhere_or (fun _ _ h => ⟨trivial, beq_iff_eq.mp h⟩) hid
    rcases hrows with e | ⟨e, -⟩
    · cases p with
      | profile | address | password | lockout => exact .inl (congrArg (List.map _) e)
      | _ => exact .inl rfl
    · by_cases hL : L p
      · exact .inr ⟨e, .inl hL⟩
      cases p with
      | profile => exact .inl (map_filter_updateWhere hid (hprofile hL))
      | address => exact .inl (map_filter_updateWhere hid (haddress hL))
      | password => exact .inl (map_filter_updateWhere hid (hpassword hL))
      | lockout => exact .inl (map_filter_updateWhere hid (hlockout hL))
      | _ => exact .inl rfl
  | createDevice hL hid hu =>
    cases p with
    | device => exact (filter_concat_or hu).imp_right fun e => ⟨e, .inl hL⟩
    | _ => exact .inl rfl
  | updateDevice hL hp hdata =>
    cases p with
    | device =>
      exact (filter_updateWhere_or (fun d hd h => ⟨hL, hp d hd h⟩) fun d => (hdata d).2.1).imp_right
        fun ⟨e, hL⟩ => ⟨e, .inl hL⟩
    | _ => exact .inl rfl
  | createSession hL hu =>
    cases p with
    | session => exact (filter_concat_or hu).imp_right fun e => ⟨e, .inl hL⟩
    | _ => exact .inl rfl
  | createRefreshToken hL hu =>
    cases p with
    | refreshToken => exact (filter_concat_or hu).imp_right fun e => ⟨e, .inl hL⟩
    | _ => exact .inl rfl
  | updateSessions hp hdata hq hdata' =>
    cases p with
    | session =>
      exact (filter_updateWhere_or hp fun s => (hdata s).2.1).imp_right fun ⟨e, hL⟩ => ⟨e, .inl hL⟩
    | refreshToken =>
      exact (filter_updateWhere_or hq fun t => (hdata' t).1).imp_right fun ⟨e, hL⟩ => ⟨e, .inl hL⟩
    | _ => exact .inl rfl
  | sign hL hu =>
    cases p with
    | accessToken =>
      exact (filter_concat_or hu).imp (congrArg (List.map _)) fun e => ⟨e, .inl hL⟩
    | _ => exact .inl rfl
  | blacklist hL hkey h =>
    cases p with
    | accessToken =>
      by_cases e : u' = u
      · exact .inr ⟨e, .inl hL⟩
      · refine .inl (List.map_congr_left fun p' hp' => ?_)
        obtain ⟨hp', hu'⟩ := List.mem_filter.mp hp'
        exact hkey.accessToken hf hj h hp' ((beq_iff_eq.mp hu').trans_ne e)
    | _ => exact .inl rfl
  | createReset hL hu =>
    cases p with
    | resetLink => exact (filter_concat_or hu).imp_right fun e => ⟨e, .inl hL⟩
    | _ => exact .inl rfl
  | consumeResets hL hp =>
    cases p with
    | resetLink =>
      exact (filter_updateWhere_or (fun t ht h => ⟨hL, hp t ht h⟩) (by exact fun _ => rfl)).imp_right
        fun ⟨e, hL⟩ => ⟨e, .inl hL⟩
    | _ => exact .inl rfl
  | createLink hL hu =>
    cases p with
    | emailLink => exact (filter_concat_or hu).imp_right fun e => ⟨e, .inl hL⟩
    | _ => exact .inl rfl
  | consumeLinks hL hp =>
    cases p with
    | emailLink =>
      exact (filter_updateWhere_or (fun t ht h => ⟨hL, hp t ht h⟩) (by exact fun _ => rfl)).imp_right
        fun ⟨e, hL⟩ => ⟨e, .inl hL⟩
    | _ => exact .inl rfl

/-! ### The references hold -/

theorem IsUser.updateWhere {p : User → Bool} {data : User → User} (h : IsUser u w)
    (hid : ∀ v, (data v).id = v.id) : IsUser u { w with users := updateWhere p data w.users } :=
  exists_updateWhere hid h

theorem Joined.draw (h : Joined env w) {n : Nat} (hn : w.drawn ≤ n) :
    Joined env { w with drawn := n } :=
  { h with
    deviceMinted := h.deviceMinted.mono hn
    familyMinted := h.familyMinted.mono hn
    tokenHash := h.tokenHash.mono hn
    resetHash := h.resetHash.mono hn
    linkHash := h.linkHash.mono hn
    jtiMinted := h.jtiMinted.mono hn }

theorem Joined.users (h : Joined env w) {us : List User}
    (hu : ∀ u, IsUser u w → IsUser u { w with users := us }) : Joined env { w with users := us } :=
  { h with
    deviceUser := fun d hd => hu _ (h.deviceUser d hd)
    resetUser := fun t ht => hu _ (h.resetUser t ht)
    linkUser := fun t ht => hu _ (h.linkUser t ht)
    registered := fun u e c he => hu _ (h.registered u e c he) }

theorem Joined.devices (h : Joined env w) {p : Device → Bool} {data : Device → Device}
    (hdata : ∀ d, (data d).id = d.id ∧ (data d).userId = d.userId ∧
      (data d).fingerprint = d.fingerprint) :
    Joined env { w with devices := updateWhere p data w.devices } :=
  { h with
    deviceId := h.deviceId.updateWhere fun d _ => (hdata d).1
    deviceMinted := h.deviceMinted.updateWhere fun d _ => (hdata d).1
    deviceKey := h.deviceKey.updateWhere fun d _ => by rw [(hdata d).2.1, (hdata d).2.2]
    deviceUser := forall_updateWhere h.deviceUser fun d _ hd => by rw [(hdata d).2.1]; exact hd
    sessionDevice := fun s hs => by
      obtain ⟨id, hid, d, hd, rfl, hu⟩ := h.sessionDevice s hs
      refine ⟨_, hid, if p d then data d else d, mem_updateWhere.mpr ⟨d, hd, rfl⟩, ?_⟩
      split
      · exact ⟨(hdata d).1, (hdata d).2.1.trans hu⟩
      · exact ⟨rfl, hu⟩ }

theorem Joined.createDevice (h : Joined env w) {d : Device} (hid : d.id = env.randomUUID w.drawn)
    (huser : IsUser d.userId w)
    (hkey : ∀ d' ∈ w.devices, d'.userId = d.userId → d'.fingerprint ≠ d.fingerprint) :
    Joined env { w with drawn := w.drawn + 1, devices := w.devices ++ [d] } :=
  { h.draw (Nat.le_succ _) with
    deviceId := h.deviceId.append_minted h.deviceMinted env.randomUUID_injective hid
    deviceMinted := h.deviceMinted.append hid
    deviceKey := h.deviceKey.append fun d' hd' e =>
      hkey d' hd' (Prod.mk.inj e).1 (Prod.mk.inj e).2
    deviceUser := fun d' hd' => by
      rcases List.mem_append.mp hd' with hd' | hd'
      · exact h.deviceUser d' hd'
      · exact List.mem_singleton.mp hd' ▸ huser
    sessionDevice := fun s hs => by
      obtain ⟨id, hid, d', hd', h⟩ := h.sessionDevice s hs
      exact ⟨id, hid, d', List.mem_append_left _ hd', h⟩ }

theorem Joined.createSession (h : Joined env w) {s : Session}
    (hd : ∃ id, s.deviceId = some id ∧ HasDevice s.userId id w) :
    Joined env { w with drawn := w.drawn + 1, sessions := w.sessions ++ [s] } := by
  have old {u sid : String} (hs : HasSession u sid w) :
      HasSession u sid { w with drawn := w.drawn + 1, sessions := w.sessions ++ [s] } :=
    hs.imp fun _ h => ⟨List.mem_append_left _ h.1, h.2⟩
  exact { h.draw (Nat.le_succ _) with
    sessionDevice := fun s' hs' => by
      rcases List.mem_append.mp hs' with hs' | hs'
      · exact h.sessionDevice s' hs'
      · exact List.mem_singleton.mp hs' ▸ hd
    tokenSession := fun t ht => old (h.tokenSession t ht)
    signedSession := fun p hp => old (h.signedSession p hp) }

theorem Joined.createRefreshToken (h : Joined env w) {t : RefreshToken}
    (hs : HasSession t.userId t.sessionId w) (hf : FamilyFor env log w t)
    (hhash : DrewName (env.sha256 ∘ env.randomBytes) log w t.tokenHash) :
    Joined env { w with drawn := w.drawn + 1, refreshTokens := w.refreshTokens ++ [t] } := by
  have family {t' : RefreshToken} (ht' : t' ∈ w.refreshTokens) (e : t'.familyId = t.familyId) :
      t'.sessionId = t.sessionId := by
    rcases hf with ⟨t₀, ht₀, he, hsid⟩ | ⟨hnew, -⟩
    · exact (h.family t' ht' t₀ ht₀ (e.trans he.symm)).trans hsid
    · exact absurd e (hnew t' ht')
  obtain ⟨k, hk, hhash, -⟩ := hhash
  refine { h.draw (Nat.le_succ _) with
    tokenSession := fun t' ht' => ?_
    family := fun t₁ h₁ t₂ h₂ e => ?_
    familyMinted := ?_
    tokenHash := h.tokenHash.concat (Nat.le_succ _) (Nat.lt_succ_of_lt hk) hhash }
  · rcases List.mem_append.mp ht' with ht' | ht'
    · exact h.tokenSession t' ht'
    · exact List.mem_singleton.mp ht' ▸ hs
  · rcases List.mem_append.mp h₁ with h₁ | h₁ <;> rcases List.mem_append.mp h₂ with h₂ | h₂
    · exact h.family t₁ h₁ t₂ h₂ e
    · rw [List.mem_singleton.mp h₂] at e ⊢
      exact family h₁ e
    · rw [List.mem_singleton.mp h₁] at e ⊢
      exact (family h₂ e.symm).symm
    · rw [List.mem_singleton.mp h₁, List.mem_singleton.mp h₂]
  · rcases hf with ⟨t₀, ht₀, he, -⟩ | ⟨-, n, hn, e, -⟩
    · obtain ⟨n, hn, e⟩ := h.familyMinted t₀ ht₀
      exact h.familyMinted.concat (Nat.le_succ _) (Nat.lt_succ_of_lt hn) (he.symm.trans e)
    · exact h.familyMinted.concat (Nat.le_succ _) (Nat.lt_succ_of_lt hn) e

theorem Joined.updateSessions (h : Joined env w) {p : Session → Bool} {data : Session → Session}
    {q : RefreshToken → Bool} {data' : RefreshToken → RefreshToken}
    (hdata : ∀ s, (data s).id = s.id ∧ (data s).userId = s.userId ∧ (data s).deviceId = s.deviceId)
    (hdata' : ∀ t, (data' t).userId = t.userId ∧ (data' t).sessionId = t.sessionId ∧
      (data' t).familyId = t.familyId ∧ (data' t).tokenHash = t.tokenHash) :
    Joined env { w with sessions := updateWhere p data w.sessions,
                        refreshTokens := updateWhere q data' w.refreshTokens } := by
  have old {u sid : String} (hs : HasSession u sid w) :
      ∃ s ∈ updateWhere p data w.sessions, s.id = sid ∧ s.userId = u := by
    obtain ⟨s, hs, hid, hu⟩ := hs
    refine ⟨if p s then data s else s, mem_updateWhere.mpr ⟨s, hs, rfl⟩, ?_⟩
    split
    · exact ⟨(hdata s).1.trans hid, (hdata s).2.1.trans hu⟩
    · exact ⟨hid, hu⟩
  have token {t : RefreshToken} (ht : t ∈ updateWhere q data' w.refreshTokens) :
      ∃ t₀ ∈ w.refreshTokens, t.userId = t₀.userId ∧ t.sessionId = t₀.sessionId ∧
        t.familyId = t₀.familyId := by
    obtain ⟨t₀, ht₀, rfl⟩ := mem_updateWhere.mp ht
    refine ⟨t₀, ht₀, ?_⟩
    split
    · exact ⟨(hdata' t₀).1, (hdata' t₀).2.1, (hdata' t₀).2.2.1⟩
    · exact ⟨rfl, rfl, rfl⟩
  exact { h with
    sessionDevice := forall_updateWhere h.sessionDevice fun s _ hs => by
      rw [(hdata s).2.1, (hdata s).2.2]
      exact hs
    tokenSession := fun t ht => by
      obtain ⟨t₀, ht₀, hu, hs, -⟩ := token ht
      rw [hu, hs]
      exact old (h.tokenSession t₀ ht₀)
    family := fun t₁ h₁ t₂ h₂ e => by
      obtain ⟨t₁', h₁', -, hs₁, hf₁⟩ := token h₁
      obtain ⟨t₂', h₂', -, hs₂, hf₂⟩ := token h₂
      rw [hs₁, hs₂]
      exact h.family t₁' h₁' t₂' h₂' (hf₁.symm.trans (e.trans hf₂))
    familyMinted := h.familyMinted.updateWhere fun t _ => (hdata' t).2.2.1
    tokenHash := h.tokenHash.updateWhere fun t _ => (hdata' t).2.2.2
    signedSession := fun p hp => old (h.signedSession p hp) }

theorem Idle.joined (h : Idle w w') (hl : Joined env w) : Joined env w' where
  deviceId := h.devices ▸ hl.deviceId
  deviceMinted := h.devices ▸ hl.deviceMinted.mono h.drawn
  deviceKey := h.devices ▸ hl.deviceKey
  deviceUser := by simpa only [IsUser, h.users, h.devices] using hl.deviceUser
  sessionDevice := by simpa only [HasDevice, h.sessions, h.devices] using hl.sessionDevice
  tokenSession := by simpa only [HasSession, h.sessions, h.refreshTokens] using hl.tokenSession
  family := h.refreshTokens ▸ hl.family
  familyMinted := h.refreshTokens ▸ hl.familyMinted.mono h.drawn
  tokenHash := h.refreshTokens ▸ hl.tokenHash.mono h.drawn
  resetHash := h.passwordResetTokens ▸ hl.resetHash.mono h.drawn
  linkHash := h.emailVerificationTokens ▸ hl.linkHash.mono h.drawn
  resetUser := by simpa only [IsUser, h.users, h.passwordResetTokens] using hl.resetUser
  linkUser := by simpa only [IsUser, h.users, h.emailVerificationTokens] using hl.linkUser
  signedSession := by simpa only [HasSession, h.sessions, h.signed] using hl.signedSession
  jti := h.signed ▸ hl.jti
  jtiMinted := h.signed ▸ hl.jtiMinted.mono h.drawn
  registered u e c he := by
    simpa only [IsUser, h.users] using hl.registered u e c (h.registered u e c he)

theorem Touches.joined (h : Touches env log L u w w') (hl : Joined env w) : Joined env w' := by
  cases h with
  | createUser =>
    exact (hl.draw (Nat.le_succ _)).users fun _ h => h.imp fun _ h => ⟨List.mem_append_left _ h.1, h.2⟩
  | register e c hu =>
    refine { hl with registered := fun u' e' c' he => ?_ }
    rcases List.mem_append.mp he with he | he
    · exact hl.registered u' e' c' he
    · cases List.mem_singleton.mp he
      exact hu
  | updateUser hid => exact hl.users fun _ h => h.updateWhere hid
  | createDevice hL hid hu huser hkey =>
    exact hl.createDevice hid (hu ▸ huser) fun d' hd' e => hkey d' hd' (e.trans hu)
  | updateDevice hL hp hdata => exact hl.devices hdata
  | createSession hL hu hd => exact hl.createSession (hu ▸ hd)
  | createRefreshToken hL hu hs hf hhash => exact hl.createRefreshToken (hu ▸ hs) hf hhash
  | updateSessions hp hdata hq hdata' => exact hl.updateSessions hdata hdata'
  | sign hL hu hs hjti hname =>
    obtain ⟨n, hn, e, -⟩ := hname
    refine { hl with
      jti := hl.jti.append hjti
      jtiMinted := hl.jtiMinted.concat (Nat.le_refl _) hn e
      signedSession := fun p hp => ?_ }
    rcases List.mem_append.mp hp with hp | hp
    · exact hl.signedSession p hp
    · obtain rfl := List.mem_singleton.mp hp
      exact hu ▸ hs
  | blacklist => exact { hl with }
  | createReset hL hu huser hhash =>
    obtain ⟨n, hn, e, -⟩ := hhash
    refine { hl.draw (Nat.le_succ _) with
      resetHash := hl.resetHash.concat (Nat.le_succ _) (Nat.lt_succ_of_lt hn) e
      resetUser := fun t ht => ?_ }
    rcases List.mem_append.mp ht with ht | ht
    · exact hl.resetUser t ht
    · obtain rfl := List.mem_singleton.mp ht
      exact hu ▸ huser
  | consumeResets =>
    exact { hl with
      resetUser := forall_updateWhere hl.resetUser fun _ _ h => h
      resetHash := hl.resetHash.updateWhere fun _ _ => rfl }
  | createLink hL hu huser hhash =>
    obtain ⟨n, hn, e, -⟩ := hhash
    refine { hl.draw (Nat.le_succ _) with
      linkHash := hl.linkHash.concat (Nat.le_succ _) (Nat.lt_succ_of_lt hn) e
      linkUser := fun t ht => ?_ }
    rcases List.mem_append.mp ht with ht | ht
    · exact hl.linkUser t ht
    · obtain rfl := List.mem_singleton.mp ht
      exact hu ▸ huser
  | consumeLinks =>
    exact { hl with
      linkUser := forall_updateWhere hl.linkUser fun _ _ h => h
      linkHash := hl.linkHash.updateWhere fun _ _ => rfl }

end AtlasAuth

import AtlasAuth.Proof.Ownership
import AtlasAuth.Proof.Privileges

/-!
# Who may change what

What a request may change of a user's rows depends on what it has been given
(`Request.Entitled`): the password of the user, an access token that is in
force, a refresh token, or a link that was mailed to the user. The address is
enough to fail at a login, which counts, and to be mailed a reset link; and the
listener of a registration makes a link for the user that it is told of. No
request changes anything else of anybody, in any interleaving (`owner_only`); so
what of an account nobody is entitled to stays as it is (`account_isolation`),
and the references between rows hold throughout (`references_hold`).
-/

namespace AtlasAuth

open Framework Framework.Table Prog

variable {env : Env} {α β : Type} {u : String} {log log' : List (Entry World Call)} {p : Part}

/-! ## Credentials -/

/-- The address of the user. -/
def Addressee (email u : String) (w : World) : Prop :=
  ∃ v ∈ w.users, v.id = u ∧ v.deletedAt = none ∧ v.email = email

/-- The password of the user. -/
def PasswordOf (env : Env) (password u : String) (w : World) : Prop :=
  ∃ v ∈ w.users, v.id = u ∧ v.deletedAt = none ∧ env.argon2Verify v.passwordHash password = true

/-- The address and the password of the user. -/
def CredentialsOf (env : Env) (email password u : String) (w : World) : Prop :=
  ∃ v ∈ w.users, v.id = u ∧ v.deletedAt = none ∧ v.email = email ∧
    env.argon2Verify v.passwordHash password = true

/-- A refresh token of the user. -/
def CookieOf (env : Env) (cookie u : String) (w : World) : Prop :=
  ∃ t ∈ w.refreshTokens, t.userId = u ∧ t.tokenHash = env.sha256 cookie

/-- A refresh token of the user that has neither been used nor expired. -/
def LiveCookieOf (env : Env) (cookie u : String) (w : World) : Prop :=
  ∃ t ∈ w.refreshTokens, t.userId = u ∧ t.tokenHash = env.sha256 cookie ∧ t.revokedAt = none ∧
    w.now ≤ t.expiresAt

/-- The link of a mail to the user, which has neither been used nor expired. -/
def ResetLinkOf (env : Env) (token u : String) (w : World) : Prop :=
  ∃ t ∈ w.passwordResetTokens, t.userId = u ∧ t.tokenHash = env.sha256 token ∧
    t.consumedAt = none ∧ w.now ≤ t.expiresAt

def EmailLinkOf (env : Env) (token u : String) (w : World) : Prop :=
  ∃ t ∈ w.emailVerificationTokens, t.userId = u ∧ t.tokenHash = env.sha256 token ∧
    t.consumedAt = none ∧ w.now ≤ t.expiresAt

/-- An access token of the user, which was in force when it was checked. -/
def Bears (bearer : JwtPayload) (u : String) (log : List (Entry World Call)) : Prop :=
  bearer.sub = u ∧ Checked bearer log

theorem Bears.suffix {bearer : JwtPayload} (h : Bears bearer u log) (hl : log <:+ log') :
    Bears bearer u log' :=
  ⟨h.1, h.2.suffix hl⟩

/-- The parts of the rows of `u` that the request may change after the calls
`log`. -/
def Request.Entitled (env : Env) (r : Request) (log : List (Entry World Call)) (u : String)
    (p : Part) : Prop :=
  match r with
  | .register .. => ∃ x ∈ log, ¬IsUser u x.before ∧ IsUser u x.after
  | .login dto _ =>
    p = .lockout ∧ Knows (Addressee (env.toLowerCase dto.email) u) log ∨
      p ∈ [.profile, .lockout, .device, .session, .accessToken, .refreshToken] ∧
        Knows (CredentialsOf env (env.toLowerCase dto.email) dto.password u) log
  | .refresh cookie _ =>
    ∃ token, cookie = some token ∧
      (p ∈ [.session, .refreshToken] ∧ Knows (CookieOf env token u) log ∨
        p = .accessToken ∧ Knows (LiveCookieOf env token u) log)
  | .logout bearer cookie _ =>
    p ∈ [.session, .accessToken] ∧ Bears bearer u log ∨
      p = .refreshToken ∧ ∃ token, cookie = some token ∧ Knows (CookieOf env token u) log
  | .verifyEmail token _ => p ∈ [.address, .emailLink] ∧ Knows (EmailLinkOf env token u) log
  | .resendVerification bearer => p = .emailLink ∧ Bears bearer u log
  | .forgotPassword email => p = .resetLink ∧ Knows (Addressee (env.toLowerCase email) u) log
  | .resetPassword token _ _ =>
    p ∈ [.password, .lockout, .resetLink, .session, .refreshToken, .accessToken] ∧
      Knows (ResetLinkOf env token u) log
  | .changePassword bearer currentPassword _ _ =>
    p ∈ [.password, .lockout, .session, .refreshToken, .accessToken] ∧ Bears bearer u log ∧
      Knows (PasswordOf env currentPassword u) log
  | .updateMe bearer .. => p = .profile ∧ Bears bearer u log
  | .requestEmailChange bearer _ password =>
    p = .emailLink ∧ Bears bearer u log ∧ Knows (PasswordOf env password u) log
  | .deleteSession bearer .. | .deleteOtherSessions bearer _ =>
    p ∈ [.session, .refreshToken, .accessToken] ∧ Bears bearer u log
  | .revokeSession userId .. | .revokeAllOtherSessions userId .. | .revokeAllSessions userId _ =>
    p ∈ [.session, .refreshToken, .accessToken] ∧ userId = u
  | .userRegistered userId email context =>
    p = .emailLink ∧ userId = u ∧ Knows (fun w => .userRegistered userId email context ∈ w.events) log
  | _ => False

theorem Request.Entitled.suffix {r : Request} (h : r.Entitled env log u p) (hl : log <:+ log') :
    r.Entitled env log' u p := by
  cases r with
  | register => exact h.imp fun _ h => ⟨hl.subset h.1, h.2⟩
  | login => exact h.imp (.imp_right (·.suffix hl)) (.imp_right (·.suffix hl))
  | refresh =>
    obtain ⟨token, hc, h⟩ := h
    exact ⟨token, hc, h.imp (.imp_right (·.suffix hl)) (.imp_right (·.suffix hl))⟩
  | logout =>
    refine h.imp (.imp_right (·.suffix hl)) (.imp_right ?_)
    exact Exists.imp fun _ => .imp_right (·.suffix hl)
  | verifyEmail | forgotPassword | resetPassword => exact h.imp_right (·.suffix hl)
  | resendVerification | updateMe | deleteSession | deleteOtherSessions =>
    exact h.imp_right (·.suffix hl)
  | changePassword | requestEmailChange => exact h.imp_right (.imp (·.suffix hl) (·.suffix hl))
  | revokeSession | revokeAllOtherSessions | revokeAllSessions => exact h
  | userRegistered => exact h.imp_right (.imp_right (·.suffix hl))
  | _ => exact h

theorem Request.Entitled.allows {r : Request} {ps : List Part}
    (h : ∀ p ∈ ps, r.Entitled env log u p) : Allows (r.Entitled env) log u ps :=
  fun _ hl p hp => (h p hp).suffix hl

/-! ## Access tokens -/

/-- The access token has been checked, so its user and session are known. -/
structure Admitted (bearer : JwtPayload) (log : List (Entry World Call)) : Prop where
  checked : Checked bearer log
  signed : Knows (fun w => bearer ∈ w.signed) log
  session : Knows (HasSession bearer.sub bearer.sessionId) log
  user : Knows (IsUser bearer.sub) log

theorem Admitted.bears {bearer : JwtPayload} (h : Admitted bearer log) : Bears bearer bearer.sub log :=
  ⟨rfl, h.checked⟩

section

variable {E : List (Entry World Call) → String → Part → Prop}
  {M : List (Entry World Call) → α → Prop} {bearer : JwtPayload} {k : JwtPayload → App α}

theorem upheld_authGuard :
    Upheld env E (fun log' b => b = bearer ∧ Admitted bearer log') (JwtAuthGuard.canActivate bearer)
      log := by
  have verify : Upheld env E (fun log' b => b = bearer ∧ ∃ x ∈ log', x.after = x.before ∧
      bearer ∈ x.before.signed ∧ bearer.expired x.before.now = false ∧ Orderly env x.before)
      (JwtStrategy.verify bearer) log := by
    refine .atomic fun w hw => ?_
    split
    · rename_i h
      obtain ⟨hs, he⟩ := Bool.and_eq_true_iff.mp h
      refine ⟨owned_read .., ?_⟩
      rintro _ ⟨⟩
      exact ⟨rfl, _, .head _, rfl, by simpa using hs, by simpa using he, hw.inv⟩
    · refine ⟨owned_read .., ?_⟩
      rintro _ ⟨⟩
  refine Upholds.bind verify fun b log₁ _ hb => ?_
  obtain ⟨rfl, x, hx, hread, hs, he, ho⟩ := hb
  refine upheld_query fun w₁ log₂ h₂ hw₁ _ => upheld_query fun w₂ log₃ h₃ hw₂ _ => ?_
  split
  · exact .throw _
  · rename_i hr
    obtain ⟨hr₁, hr₂⟩ := Bool.or_eq_false_iff.mp (Bool.eq_false_iff.mpr hr)
    have hx₃ := (h₂.trans h₃).subset hx
    have hsid := ho.joined.signedSession b hs
    exact .ret ⟨rfl, ⟨⟨x, hx₃, hs, he⟩, ⟨_, h₃.subset hw₁, hr₁⟩, ⟨_, hw₂, hr₂⟩⟩,
      ⟨x, hx₃, hread ▸ hs⟩, ⟨x, hx₃, hread ▸ hsid⟩, ⟨x, hx₃, hread ▸ ho.joined.sessionUser hsid⟩⟩

/-- A handler behind the guard. -/
theorem upheld_canActivate
    (hk : ∀ log', log <:+ log' → Admitted bearer log' → Upheld env E M (k bearer) log') :
    Upheld env E M (JwtAuthGuard.canActivate bearer >>= k) log :=
  Upholds.bind upheld_authGuard fun _ log' hl hb => hb.1 ▸ hk log' hl hb.2

end

/-! ## Requests -/

/-- A session that the request hands out, of a user that it is entitled to. -/
structure Request.HandsOut (env : Env) (r : Request) (log : List (Entry World Call))
    (x : User × SessionTokens) : Prop where
  user : Knows (fun w => x.1 ∈ w.users) log
  entitled : r.Entitled env log x.1.id .accessToken
  tokens : TokensOf env x.1.id x.2 log

theorem upheld_register (dto : RegisterDto) (c : RequestContext) :
    Upheld env ((Request.register dto c).Entitled env) ((Request.register dto c).HandsOut env)
      (AuthService.register env dto c) log := by
  refine upheld_query fun _ log₁ h₁ _ _ => .ite (fun _ => .throw _) fun _ => ?_
  refine upheld_seq (idle_hash _) fun _ log₂ h₂ => ?_
  refine Upholds.bind (upheld_usersCreate ..) fun v log₃ h₃ ⟨_, hv⟩ => ?_
  have hmem : Knows (fun w => v ∈ w.users) log₃ := hv.imp fun _ h => ⟨h.1, h.2.2⟩
  have hu : Knows (IsUser v.id) log₃ := hmem.imp fun _ h => ⟨v, h, rfl⟩
  refine Upholds.bind (upheld_emitRegistered hu ..) fun _ log₄ h₄ _ => ?_
  have hE (p : Part) : (Request.register dto c).Entitled env log₄ v.id p :=
    hv.imp fun _ h => ⟨h₄.subset h.1, h.2.1, v, h.2.2, rfl⟩
  exact Upholds.bind (upheld_issueSession (hu.suffix h₄) (Request.Entitled.allows fun p _ => hE p) _)
    fun _ log₅ h₅ ht => .ret ⟨hmem.suffix (h₄.trans h₅), (hE _).suffix h₅, ht.1⟩

theorem upheld_login (dto : LoginDto) (c : RequestContext) :
    Upheld env ((Request.login dto c).Entitled env) ((Request.login dto c).HandsOut env)
      (AuthService.login env dto c) log := by
  refine upheld_query fun w log₁ h₁ hw _ => ?_
  cases hf : w.users.find? fun v => v.email == env.toLowerCase dto.email && v.deletedAt.isNone with
  | none => exact upheld_seq (idle_emit nofun) fun _ _ _ => .throw _
  | some user =>
    have hmem := List.mem_of_find?_eq_some hf
    obtain ⟨he, hd⟩ : user.email = env.toLowerCase dto.email ∧ user.deletedAt = none := by
      simpa using List.find?_some hf
    refine upheld_query fun now log₂ h₂ _ _ => .ite
      (fun _ => upheld_seq (idle_emit nofun) fun _ _ _ => .throw _) fun _ => ?_
    refine Upholds.bind (upheld_verify ..) fun ok log₃ h₃ hok => ?_
    have hw₃ := (h₂.trans h₃).subset hw
    refine .ite (fun _ => ?_) fun hb => ?_
    · -- A wrong password, which counts towards the lockout.
      have hE : Allows ((Request.login dto c).Entitled env) log₃ user.id [.lockout] :=
        Request.Entitled.allows fun p hp =>
          .inl ⟨List.mem_singleton.mp hp, _, hw₃, user, hmem, rfl, hd, he⟩
      refine Upholds.bind (N := Returned user.id) ?_ fun _ _ _ _ =>
        upheld_seq (idle_emit nofun) fun _ _ _ => .throw _
      refine upheld_seq (idle_findUniqueOrThrow _) fun _ log₄ h₄ => .ite
        (fun _ => upheld_query fun _ log₅ h₅ _ _ => ?_) fun _ => ?_
      · exact upheld_updateFailedLogin (hE.suffix (h₄.trans h₅)).mem ..
      · exact upheld_updateFailedLogin (hE.suffix h₄).mem ..
    · have hverify : env.argon2Verify user.passwordHash dto.password = true := by simpa [hok] using hb
      have hE : Allows ((Request.login dto c).Entitled env) log₃ user.id
          [.profile, .lockout, .device, .session, .accessToken, .refreshToken] :=
        Request.Entitled.allows fun p hp =>
          .inr ⟨hp, _, hw₃, user, hmem, rfl, hd, he, hverify⟩
      refine Upholds.bind (upheld_recordSuccessfulLogin hE.mem hE.mem) fun _ log₄ h₄ _ => ?_
      refine Upholds.bind (upheld_issueSession ⟨_, h₄.subset hw₃, user, hmem, rfl⟩
        (hE.suffix h₄).subset _) fun _ log₅ h₅ ht => ?_
      refine upheld_seq (idle_emit nofun) fun _ log₆ h₆ => .ret ?_
      have hl := h₄.trans (h₅.trans h₆)
      exact ⟨⟨_, hl.subset hw₃, hmem⟩, (hE.suffix hl).mem, ht.1.suffix h₆⟩

/-- A refresh token that was found by its hash. -/
theorem cookieOf_find? {w : World} {cookie : String} {t : RefreshToken}
    (h : w.refreshTokens.find? (·.tokenHash == env.sha256 cookie) = some t) :
    CookieOf env cookie t.userId w ∧ HasToken t w :=
  have hmem := List.mem_of_find?_eq_some h
  have hhash := List.find?_some h
  ⟨⟨t, hmem, rfl, beq_iff_eq.mp hhash⟩, t, hmem, .refl t⟩

theorem upheld_refresh (cookie : String) (c : RequestContext) :
    Upheld env ((Request.refresh (some cookie) c).Entitled env)
      ((Request.refresh (some cookie) c).HandsOut env) (AuthService.refresh env cookie c) log := by
  refine upheld_query fun w log₁ h₁ hw hk => ?_
  cases hf : w.refreshTokens.find? (·.tokenHash == TokenService.hashRefreshToken env cookie) with
  | none => exact .throw _
  | some t =>
    obtain ⟨hcookie, htoken⟩ := cookieOf_find? hf
    have hmem := List.mem_of_find?_eq_some hf
    have ht : Knows (HasToken t) log₁ := ⟨_, hw, htoken⟩
    have hs : Knows (HasSession t.userId t.sessionId) log₁ :=
      ⟨_, hw, hk.inv.joined.tokenSession t hmem⟩
    have hE : Allows ((Request.refresh (some cookie) c).Entitled env) log₁ t.userId
        [.session, .refreshToken] :=
      Request.Entitled.allows fun p hp => ⟨cookie, rfl, .inl ⟨hp, _, hw, hcookie⟩⟩
    refine .ite (fun _ => upheld_reuseDetected hE ht hs c) fun hrevoked => ?_
    refine upheld_query fun w₂ log₂ h₂ hw₂ hk₂ => .ite (fun _ => .throw _) fun hexp => ?_
    have hlive : LiveCookieOf env cookie t.userId w := by
      have hhash := List.find?_some hf
      refine ⟨t, hmem, rfl, beq_iff_eq.mp hhash, by simpa using hrevoked, ?_⟩
      exact Nat.le_trans (hk₂.past _ hw).2.grows.now (Nat.not_lt.mp hexp)
    refine upheld_query fun w₃ log₃ h₃ hw₃ _ => ?_
    cases hsess : w₃.sessions.find? (·.id == t.sessionId) with
    | none => exact .throw _
    | some session =>
      have hsid := List.find?_some hsess
      refine .ite (fun _ => .throw _) fun _ => upheld_query fun w₄ log₄ h₄ hw₄ _ => ?_
      cases huser : w₄.users.find? fun v => v.id == t.userId && v.deletedAt.isNone with
      | none => exact .throw _
      | some user =>
        have huid : user.id = t.userId := by
          have := List.find?_some huser
          simp only [Bool.and_eq_true, beq_iff_eq] at this
          exact this.1
        have hl := h₂.trans (h₃.trans h₄)
        have hE₄ : Allows ((Request.refresh (some cookie) c).Entitled env) log₄ t.userId
            [.session, .refreshToken, .accessToken] := by
          refine Request.Entitled.allows fun p hp => ⟨cookie, rfl, ?_⟩
          rcases List.mem_cons.mp hp with rfl | hp
          · exact .inl ⟨by simp, _, hl.subset hw, hcookie⟩
          rcases List.mem_cons.mp hp with rfl | hp
          · exact .inl ⟨by simp, _, hl.subset hw, hcookie⟩
          · exact .inr ⟨List.mem_singleton.mp hp, _, hl.subset hw, hlive⟩
        refine (upheld_rotate hE₄ (ht.suffix hl) (hs.suffix hl) (beq_iff_eq.mp hsid) huid c).mono ?_
        rintro log₅ ⟨_, tokens⟩ h₅ ⟨rfl, htokens⟩
        exact ⟨⟨_, h₅.subset hw₄, List.mem_of_find?_eq_some huser⟩,
          huid ▸ (hE₄.suffix h₅).mem, htokens⟩

theorem upheld_controllerRefresh (cookie : Option String) (c : RequestContext) :
    Upheld env ((Request.refresh cookie c).Entitled env) ((Request.refresh cookie c).HandsOut env)
      (AuthController.refresh env cookie c) log := by
  unfold AuthController.refresh
  split
  · rename_i token hc
    obtain rfl := (Option.filter_eq_some_iff.mp hc).1
    exact upheld_refresh token c
  · exact .throw _

theorem minds_remainingTtlMs {E : List (Entry World Call) → String → Part → Prop} (exp : Option Nat) :
    Minds env E (AuthService.remainingTtlMs env exp) log := by
  unfold AuthService.remainingTtlMs
  split
  · exact upheld_query fun _ _ _ _ _ => minds_ret _
  · exact .ofExcept fun _ _ => trivial

theorem minds_logout {bearer : JwtPayload} {cookie : Option String} {c : RequestContext}
    (hb : Admitted bearer log) :
    Minds env ((Request.logout bearer cookie c).Entitled env)
      (AuthService.logout env bearer.sub bearer.sessionId cookie bearer.jti (some bearer.exp) c) log := by
  have hE : Allows ((Request.logout bearer cookie c).Entitled env) log bearer.sub
      [.session, .accessToken] := Request.Entitled.allows fun p hp => .inl ⟨hp, hb.bears⟩
  have rest (log' : List (Entry World Call)) (hl : log <:+ log') :
      Minds env ((Request.logout bearer cookie c).Entitled env) (do
        let _ ← AuthRepository.revokeSession bearer.sessionId
        let ttl ← AuthService.remainingTtlMs env (some bearer.exp)
        TokenBlacklistService.blacklist bearer.jti ttl
        emit (.userLoggedOut bearer.sub bearer.sessionId c)) log' := by
    refine Upholds.bind (upheld_revokeSession (hE.suffix hl).mem (hb.session.suffix hl))
      fun _ log₁ h₁ _ => ?_
    refine Upholds.bind (minds_remainingTtlMs _) fun d log₂ h₂ _ => ?_
    refine Upholds.bind (N := fun _ _ => True) (.ite (fun _ => minds_ret _) fun _ => ?_)
      fun _ _ _ _ => upheld_idle (idle_emit nofun)
    have hl₂ := hl.trans (h₁.trans h₂)
    refine upheld_redisSet (hE.suffix hl₂).mem (fun s hk => .inr ⟨bearer, ?_, rfl, rfl⟩) _ _
    exact (hb.signed.suffix hl₂).now hk fun _ _ hl h => hl.grows.signed.subset h
  unfold AuthService.logout
  cases hc : truthy cookie with
  | none => exact rest log (List.suffix_refl _)
  | some token =>
    refine upheld_query fun w log₁ h₁ hw hk => ?_
    cases hf : w.refreshTokens.find? (·.tokenHash == TokenService.hashRefreshToken env token) with
    | none => exact rest log₁ h₁
    | some t =>
      obtain ⟨hcookie, htoken⟩ := cookieOf_find? hf
      have htok := (Option.filter_eq_some_iff.mp hc).1
      have hE₁ : (Request.logout bearer cookie c).Entitled env log₁ t.userId .refreshToken :=
        .inr ⟨rfl, token, htok, _, hw, hcookie⟩
      exact Upholds.bind (upheld_revokeRefreshTokenFamily hE₁ ⟨_, hw, htoken⟩) fun _ log₂ h₂ _ =>
        rest log₂ (h₁.trans h₂)

theorem minds_verify (token : String) (c : RequestContext) :
    Minds env ((Request.verifyEmail token c).Entitled env)
      (EmailVerificationService.verify env token c) log := by
  refine upheld_query fun w log₁ h₁ hw hk => ?_
  cases hf : w.emailVerificationTokens.find? (·.tokenHash == env.sha256 token) with
  | none => exact minds_throw _
  | some t =>
    have hmem := List.mem_of_find?_eq_some hf
    have hhash := List.find?_some hf
    refine upheld_query fun w₂ log₂ h₂ hw₂ hk₂ => .ite (fun _ => minds_throw _) fun hlive => ?_
    obtain ⟨hc, hexp⟩ := not_or.mp hlive
    have hlink : EmailLinkOf env token t.userId w := by
      refine ⟨t, hmem, rfl, beq_iff_eq.mp hhash, by simpa using hc, ?_⟩
      exact Nat.le_trans (hk₂.past _ hw).2.grows.now (Nat.not_lt.mp hexp)
    have hE : Allows ((Request.verifyEmail token c).Entitled env) log₂ t.userId
        [.address, .emailLink] := Request.Entitled.allows fun p hp => ⟨hp, _, h₂.subset hw, hlink⟩
    refine upheld_query fun w₃ log₃ h₃ hw₃ _ => ?_
    cases huser : w₃.users.find? fun v => v.id == t.userId && v.deletedAt.isNone with
    | none => exact minds_throw _
    | some user =>
      have huid : user.id = t.userId := by
        have := List.find?_some huser
        simp only [Bool.and_eq_true, beq_iff_eq] at this
        exact this.1
      have apply : Minds env ((Request.verifyEmail token c).Entitled env)
          (EmailVerificationService.applyToken t user) log₃ := by
        have hE₃ : Allows _ log₃ user.id [.address, .emailLink] := huid ▸ hE.suffix h₃
        unfold EmailVerificationService.applyToken
        split
        · split
          · refine upheld_query fun w₄ log₄ h₄ _ _ => .ite (fun _ => minds_throw _) fun _ => ?_
            exact Upholds.bind (upheld_updateEmail (hE₃.suffix h₄).mem _) fun _ _ _ _ => minds_ret _
          · exact minds_throw _
        · exact Upholds.bind (upheld_markEmailVerified hE₃.mem) fun _ _ _ _ => minds_ret _
      refine Upholds.bind apply fun _ log₄ h₄ _ => ?_
      have ht : Knows (HasLink t) log₄ :=
        ⟨_, (h₂.trans (h₃.trans h₄)).subset hw, t, hmem, .refl t⟩
      refine Upholds.bind (upheld_emailVerificationMarkConsumed (hE.suffix (h₃.trans h₄)).mem ht)
        fun _ _ _ _ => upheld_idle (idle_emit nofun)

theorem minds_requestReset (email : String) :
    Minds env ((Request.forgotPassword email).Entitled env) (PasswordService.requestReset env email)
      log := by
  refine upheld_query fun w log₁ h₁ hw _ => ?_
  cases hf : w.users.find? fun v => v.email == env.toLowerCase email && v.deletedAt.isNone with
  | none => exact minds_ret _
  | some user =>
    have hmem := List.mem_of_find?_eq_some hf
    obtain ⟨he, hd⟩ : user.email = env.toLowerCase email ∧ user.deletedAt = none := by
      simpa using List.find?_some hf
    have hE : Allows ((Request.forgotPassword email).Entitled env) log₁ user.id [.resetLink] :=
      Request.Entitled.allows fun p hp => ⟨List.mem_singleton.mp hp, _, hw, user, hmem, rfl, hd, he⟩
    refine Upholds.bind (upheld_passwordResetInvalidate hE.mem) fun _ log₂ h₂ _ => ?_
    refine Upholds.bind upheld_randomBytes fun token log₃ h₃ hnew => ?_
    refine Upholds.bind (upheld_meanwhile upheld_dateNow hnew always_query) fun _ log₄ h₄ h => ?_
    have hl := h₂.trans (h₃.trans h₄)
    exact Upholds.bind (upheld_passwordResetCreate (hE.suffix hl).mem
      ⟨_, hl.subset hw, user, hmem, rfl⟩ h.2 _) fun _ _ _ _ => upheld_idle (idle_send ..)

theorem minds_resetPassword (token new : String) (c : RequestContext) :
    Minds env ((Request.resetPassword token new c).Entitled env)
      (PasswordService.resetPassword env token new c) log := by
  refine upheld_query fun w log₁ h₁ hw hk => ?_
  cases hf : w.passwordResetTokens.find? (·.tokenHash == env.sha256 token) with
  | none => exact minds_throw _
  | some t =>
    have hmem := List.mem_of_find?_eq_some hf
    have hhash := List.find?_some hf
    refine upheld_query fun w₂ log₂ h₂ hw₂ hk₂ => .ite (fun _ => minds_throw _) fun hlive => ?_
    obtain ⟨hc, hexp⟩ := not_or.mp hlive
    have hlink : ResetLinkOf env token t.userId w := by
      refine ⟨t, hmem, rfl, beq_iff_eq.mp hhash, by simpa using hc, ?_⟩
      exact Nat.le_trans (hk₂.past _ hw).2.grows.now (Nat.not_lt.mp hexp)
    have hE : Allows ((Request.resetPassword token new c).Entitled env) log₂ t.userId
        [.password, .lockout, .resetLink, .session, .refreshToken, .accessToken] :=
      Request.Entitled.allows fun p hp => ⟨hp, _, h₂.subset hw, hlink⟩
    refine upheld_seq (idle_hash _) fun _ log₃ h₃ => ?_
    refine Upholds.bind (upheld_updatePassword (hE.suffix h₃).mem (hE.suffix h₃).mem _)
      fun _ log₄ h₄ _ => ?_
    have hl := h₃.trans h₄
    refine Upholds.bind (upheld_passwordResetMarkConsumed (hE.suffix hl).mem
      ⟨_, (h₂.trans hl).subset hw, t, hmem, .refl t⟩) fun _ log₅ h₅ _ => ?_
    exact Upholds.bind (minds_revokeAll (hE.suffix (hl.trans h₅)).subset ..) fun _ _ _ _ =>
      upheld_idle (idle_emit nofun)

theorem minds_changePassword {bearer : JwtPayload} {current new : String} {c : RequestContext}
    (hb : Admitted bearer log) :
    Minds env ((Request.changePassword bearer current new c).Entitled env)
      (PasswordService.changePassword env bearer.sub bearer.sessionId current new c) log := by
  refine upheld_query fun w log₁ h₁ hw _ => ?_
  cases hf : w.users.find? fun v => v.id == bearer.sub && v.deletedAt.isNone with
  | none => exact minds_throw _
  | some user =>
    have hmem := List.mem_of_find?_eq_some hf
    obtain ⟨hid, hd⟩ : user.id = bearer.sub ∧ user.deletedAt = none := by
      simpa using List.find?_some hf
    refine Upholds.bind (upheld_verify ..) fun ok log₂ h₂ hok => .ite (fun _ => minds_throw _)
      fun hne => ?_
    have hpw : env.argon2Verify user.passwordHash current = true := by simpa [hok] using hne
    have hl := h₁.trans h₂
    have hE : Allows ((Request.changePassword bearer current new c).Entitled env) log₂ bearer.sub
        [.password, .lockout, .session, .refreshToken, .accessToken] :=
      Request.Entitled.allows fun p hp =>
        ⟨hp, hb.bears.suffix hl, _, h₂.subset hw, user, hmem, hid, hd, hpw⟩
    refine upheld_seq (idle_hash _) fun _ log₃ h₃ => ?_
    refine Upholds.bind (upheld_updatePassword (hE.suffix h₃).mem (hE.suffix h₃).mem _)
      fun _ log₄ h₄ _ => ?_
    exact Upholds.bind (minds_revokeAll (hE.suffix (h₃.trans h₄)).subset ..) fun _ _ _ _ =>
      upheld_idle (idle_emit nofun)

theorem upheld_getProfile {E : List (Entry World Call) → String → Part → Prop} (id : String) :
    Upheld env E (fun log' v => Returned id log' v ∧ v.deletedAt = none)
      (UsersService.getProfile id) log := by
  refine upheld_query fun w log₁ h₁ hw _ => ?_
  cases hf : w.users.find? fun v => v.id == id && v.deletedAt.isNone with
  | none => exact .throw _
  | some v =>
    obtain ⟨hid, hd⟩ : v.id = id ∧ v.deletedAt = none := by simpa using List.find?_some hf
    exact .ret ⟨⟨_, hw, List.mem_of_find?_eq_some hf, hid⟩, hd⟩

theorem upheld_getMe {E : List (Entry World Call) → String → Part → Prop} (bearer : JwtPayload) :
    Upheld env E (fun log' v => Checked bearer log' ∧ Returned bearer.sub log' v)
      (UsersController.getMe bearer) log :=
  upheld_canActivate fun _ _ hb => (upheld_getProfile _).mono fun _ _ hl h =>
    ⟨hb.checked.suffix hl, h.1⟩

theorem upheld_updateMe {E : List (Entry World Call) → String → Part → Prop} {bearer : JwtPayload}
    (hE : ∀ log, Bears bearer bearer.sub log → E log bearer.sub .profile)
    (first last avatar : Option String) :
    Upheld env E (fun log' v => Checked bearer log' ∧ Returned bearer.sub log' v)
      (UsersController.updateMe bearer first last avatar) log :=
  upheld_canActivate fun _ _ hb => Upholds.bind (upheld_getProfile _) fun _ _ h₁ _ =>
    (upheld_updateProfile (hE _ (hb.bears.suffix h₁)) ..).mono fun _ _ h₂ h =>
      ⟨hb.checked.suffix (h₁.trans h₂), h⟩

theorem minds_requestEmailChange {bearer : JwtPayload} {email password : String}
    (hb : Admitted bearer log) :
    Minds env ((Request.requestEmailChange bearer email password).Entitled env) (do
      let _ ← UsersService.assertPasswordMatches env bearer.sub password
      EmailVerificationService.requestEmailChange env bearer.sub email) log := by
  have matches_ : Upheld env ((Request.requestEmailChange bearer email password).Entitled env)
      (fun log' _ => Knows (PasswordOf env password bearer.sub) log')
      (UsersService.assertPasswordMatches env bearer.sub password) log := by
    refine Upholds.bind (upheld_getProfile _) fun v log₁ h₁ hv => ?_
    refine Upholds.bind (upheld_verify ..) fun ok log₂ h₂ hok => .ite (fun _ => .throw _) fun hne => ?_
    have hpw : env.argon2Verify v.passwordHash password = true := by simpa [hok] using hne
    exact .ret ((hv.1.suffix h₂).imp fun _ h => ⟨v, h.1, h.2, hv.2, hpw⟩)
  refine Upholds.bind matches_ fun _ log₁ h₁ hpw => ?_
  refine upheld_query fun _ log₂ h₂ _ _ => .ite (fun _ => minds_throw _) fun _ => ?_
  have hl := h₁.trans h₂
  have hE : Allows ((Request.requestEmailChange bearer email password).Entitled env) log₂ bearer.sub
      [.emailLink] := Request.Entitled.allows fun p hp =>
    ⟨List.mem_singleton.mp hp, hb.bears.suffix hl, hpw.suffix h₂⟩
  exact Upholds.bind (minds_issueToken hE (hb.user.suffix hl) ..) fun _ _ _ _ =>
    upheld_idle (idle_send ..)

theorem minds_userRegistered (userId email : String) (c : RequestContext) :
    Minds env ((Request.userRegistered userId email c).Entitled env)
      (deliverUserRegistered env userId email c) log := by
  refine upheld_query fun w log₁ h₁ hw hk => .ite (fun he => ?_) fun _ => minds_ret _
  have he := List.contains_iff_mem.mp he
  have hE : Allows ((Request.userRegistered userId email c).Entitled env) log₁ userId [.emailLink] :=
    Request.Entitled.allows fun p hp => ⟨List.mem_singleton.mp hp, rfl, _, hw, he⟩
  exact .handle (minds_sendRegistrationVerification hE
    ⟨_, hw, hk.inv.joined.registered _ _ _ he⟩ _) fun _ _ _ => minds_ret _

/-- An operation on roles and permissions changes those tables only. -/
theorem within_program (r : Request) (hr : r.isAdministration) :
    ∃ name, (program env r).Always (Within env name) := by
  cases r with
  | createRole name d => exact ⟨_, .bind (within_createRole name d) fun _ => always_ret⟩
  | updateRole id name d => exact ⟨_, .bind (within_updateRole id name d) fun _ => always_ret⟩
  | removeRole id => exact ⟨_, .bind (within_removeRole id) fun _ => always_ret⟩
  | assignPermission id p => exact ⟨_, .bind (within_assignPermission id p) fun _ => always_ret⟩
  | revokePermission id p => exact ⟨_, .bind (within_revokePermission id p) fun _ => always_ret⟩
  | assignToUser u id => exact ⟨_, .bind (within_assignToUser u id) fun _ => always_ret⟩
  | revokeFromUser u id => exact ⟨_, .bind (within_revokeFromUser u id) fun _ => always_ret⟩
  | createPermission name d => exact ⟨_, .bind (within_createPermission name d) fun _ => always_ret⟩
  | removePermission id => exact ⟨_, .bind (within_removePermission id) fun _ => always_ret⟩
  | _ => cases hr

theorem Within.idle {name : String} {w w' : World} (h : Within env name w w') : Idle w w' := by
  rw [h.tables]
  exact { Idle.refl w with drawn := h.drawn }

/-- Each request changes only what it is entitled to. -/
theorem minds_program (r : Request) (log : List (Entry World Call)) :
    Minds env (r.Entitled env) (program env r) log := by
  have done {β : Type} {M : List (Entry World Call) → β → Prop} {p : App β} {f : β → Response}
      (h : Upheld env (r.Entitled env) M p log) :
      Minds env (r.Entitled env) (p >>= fun b => return f b) log :=
    Upholds.bind h fun _ _ _ _ => minds_ret _
  have admitted {β : Type} {bearer : JwtPayload} {k : JwtPayload → App β} {f : β → Response}
      (h : ∀ log', log <:+ log' → Admitted bearer log' →
        Minds env (r.Entitled env) (k bearer) log') :
      Minds env (r.Entitled env) ((JwtAuthGuard.canActivate bearer >>= k) >>= fun b => return f b) log :=
    done (upheld_canActivate h)
  have tables (hr : r.isAdministration) : Minds env (r.Entitled env) (program env r) log := by
    obtain ⟨name, h⟩ : ∃ name, (program env r).Always (Within env name) := within_program r hr
    exact upheld_idle (h.mono fun _ _ => Within.idle)
  cases r with
  | register dto c => exact done (upheld_register dto c)
  | login dto c => exact done (upheld_login dto c)
  | refresh cookie c => exact done (upheld_controllerRefresh cookie c)
  | logout bearer cookie c => exact admitted fun log' _ hb => minds_logout hb
  | verifyEmail token c => exact done (minds_verify token c)
  | resendVerification bearer =>
    refine admitted fun log' _ hb => ?_
    have hE : Allows ((Request.resendVerification bearer).Entitled env) log' bearer.sub [.emailLink] :=
      Request.Entitled.allows fun p hp => ⟨List.mem_singleton.mp hp, hb.bears⟩
    exact minds_sendRegistrationVerification hE hb.user _
  | forgotPassword email => exact done (minds_requestReset email)
  | resetPassword token new c => exact done (minds_resetPassword token new c)
  | changePassword bearer current new c => exact admitted fun log' _ hb => minds_changePassword hb
  | getMe bearer => exact done (upheld_getMe bearer)
  | updateMe bearer first last avatar =>
    exact done (upheld_updateMe (fun _ hb => ⟨rfl, hb⟩) first last avatar)
  | requestEmailChange bearer email password =>
    exact admitted fun log' _ hb => minds_requestEmailChange hb
  | deleteSession bearer id c =>
    exact admitted fun log' _ hb => minds_revokeSession (fun _ hl p hp => ⟨hp, hb.bears.suffix hl⟩) _ _
  | deleteOtherSessions bearer c =>
    exact admitted fun log' _ hb => minds_revokeAll (fun _ hl p hp => ⟨hp, hb.bears.suffix hl⟩) _ _
  | revokeSession userId sid c => exact done (minds_revokeSession (fun _ _ p hp => ⟨hp, rfl⟩) _ _)
  | revokeAllOtherSessions userId sid c =>
    exact done (minds_revokeAll (fun _ _ p hp => ⟨hp, rfl⟩) _ _)
  | revokeAllSessions userId c => exact done (minds_revokeAll (fun _ _ p hp => ⟨hp, rfl⟩) _ _)
  | userRegistered userId email c => exact done (minds_userRegistered userId email c)
  | createRole | updateRole | removeRole | assignPermission | revokePermission | assignToUser
  | revokeFromUser | createPermission | removePermission => exact tables rfl

end AtlasAuth

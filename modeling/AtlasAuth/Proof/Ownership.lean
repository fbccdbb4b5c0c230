import AtlasAuth.Proof.Reliance

/-!
# Each service keeps to the rows of one user

The calls of the repositories, and the services put together from them, for
any `E` that says which parts of a user's rows may change after the calls
made so far. A service is called with the rows that its caller has seen
(`Knows`), and for those parts that the caller is allowed (`Allows`).
-/

namespace AtlasAuth

open Framework Framework.Table Prog

variable {env : Env} {α β : Type} {u : String} {log log' : List (Entry World Call)} {s : World}
  {E : List (Entry World Call) → String → Part → Prop}

/-- The program changes rows as `E` allows, and what it returns satisfies `M`. -/
abbrev Upheld (env : Env) (E : List (Entry World Call) → String → Part → Prop)
    (M : List (Entry World Call) → α → Prop) (p : App α) (log : List (Entry World Call)) : Prop :=
  Upholds (reliance env) (Owned env E) M p log

/-- These parts of the user's rows may change from now on. -/
def Allows (E : List (Entry World Call) → String → Part → Prop) (log : List (Entry World Call))
    (u : String) (ps : List Part) : Prop :=
  ∀ log', log <:+ log' → ∀ p ∈ ps, E log' u p

theorem Allows.suffix {ps : List Part} (h : Allows E log u ps) (hl : log <:+ log') :
    Allows E log' u ps :=
  fun _ hl' => h _ (hl.trans hl')

theorem Allows.mem {ps : List Part} (h : Allows E log u ps) {p : Part} (hp : p ∈ ps := by simp) :
    E log u p :=
  h _ (List.suffix_refl _) p hp

theorem Allows.subset {ps ps' : List Part} (h : Allows E log u ps) (hp : ps' ⊆ ps := by simp) :
    Allows E log u ps' :=
  fun _ hl p hp' => h _ hl p (hp hp')

/-! ## Calls that change no user's rows -/

theorem idle_draw (w : World) : Idle w { w with drawn := w.drawn + 1 } :=
  { Idle.refl w with drawn := Nat.le_succ _ }

theorem idle_hash (p : String) : (HashingService.hash env p).Always Idle := always_atomic.mpr idle_draw

theorem idle_emit {e : Event} (he : ∀ u a c, e ≠ .userRegistered u a c) : (emit e).Always Idle :=
  always_atomic.mpr fun w => { Idle.refl w with
    registered := fun u a c h => (List.mem_append.mp h).resolve_right fun h =>
      he u a c (List.mem_singleton.mp h).symm }

theorem idle_send (r : String) (k : MailKind) (t : String) : (MailService.send r k t).Always Idle :=
  always_atomic.mpr fun w => { Idle.refl w with }

theorem idle_findUniqueOrThrow (id : String) :
    (UsersRepository.findUniqueOrThrow id).Always Idle := by
  refine always_atomic.mpr fun w => ?_
  split <;> exact .refl w

section

variable {M : List (Entry World Call) → β → Prop}

theorem owned_read (log : List (Entry World Call)) (l : Call) (w : World) :
    Owned env E log ⟨l, w, w⟩ :=
  .inl (.refl w)

theorem upheld_idle {p : App α} (hp : p.Always Idle) : Upheld env E (fun _ _ => True) p log :=
  .always hp fun _ _ _ _ h => .inl h

/-- A part that changes no user's rows. -/
theorem upheld_seq {p : App α} {k : α → App β} (hp : p.Always Idle)
    (hk : ∀ a log', log <:+ log' → Upheld env E M (k a) log') : Upheld env E M (p >>= k) log :=
  (upheld_idle hp).bind fun a log' hl _ => hk a log' hl

theorem upheld_query {l : Call} {f : World → α} {k : α → App β}
    (h : ∀ s log', log <:+ log' → ⟨l, s, s⟩ ∈ log' → (reliance env).Known log s →
      Upheld env E M (k (f s)) log') : Upheld env E M (.query l f >>= k) log :=
  .query owned_read h

end

theorem upheld_verify (h p : String) :
    Upheld env E (fun _ b => b = env.argon2Verify h p) (HashingService.verify env h p) log :=
  .atomic fun s _ => ⟨.inl { Idle.refl s with }, fun _ e => (Except.ok.inj e).symm⟩

/-! ## Users -/

/-- The row of the user, as a call has found or left it. -/
def Returned (id : String) (log : List (Entry World Call)) (v : User) : Prop :=
  Knows (fun w => v ∈ w.users ∧ v.id = id) log

theorem upheld_usersUpdate {call : Call} {id : String} {data : Time → User → User}
    (hid : ∀ now v, (data now v).id = v.id)
    (hprofile : ¬E log id .profile → ∀ now v, (data now v).profile = v.profile)
    (haddress : ¬E log id .address → ∀ now v, (data now v).address = v.address)
    (hpassword : ¬E log id .password → ∀ now v, (data now v).passwordHash = v.passwordHash)
    (hlockout : ¬E log id .lockout → ∀ now v, (data now v).lockout = v.lockout) :
    Upheld env E (Returned id) (UsersRepository.update call id data) log := by
  refine .atomic fun s _ => ?_
  split
  · exact ⟨.inl (.refl s), nofun⟩
  · rename_i user hf
    refine ⟨.inr ⟨id, .updateUser (hid _) (fun h => hprofile h _) (fun h => haddress h _)
      (fun h => hpassword h _) fun h => hlockout h _⟩, ?_⟩
    rintro _ ⟨⟩
    have huid := List.find?_some hf
    exact ⟨_, .head _, mem_updateWhere.mpr ⟨user, List.mem_of_find?_eq_some hf, (if_pos huid).symm⟩,
      (hid _ user).trans (beq_iff_eq.mp huid)⟩

theorem upheld_markEmailVerified {id : String} (hE : E log id .address) :
    Upheld env E (Returned id) (UsersRepository.markEmailVerified id) log :=
  upheld_usersUpdate (fun _ _ => rfl) (fun _ _ _ => rfl) (absurd hE) (fun _ _ _ => rfl) fun _ _ _ => rfl

theorem upheld_recordSuccessfulLogin {id : String} (hp : E log id .profile) (hl : E log id .lockout) :
    Upheld env E (Returned id) (UsersRepository.recordSuccessfulLogin id) log :=
  upheld_usersUpdate (fun _ _ => rfl) (absurd hp) (fun _ _ _ => rfl) (fun _ _ _ => rfl) (absurd hl)

theorem upheld_updateFailedLogin {id : String} (hl : E log id .lockout) (n : Nat)
    (t : Except Exn (Option Time)) :
    Upheld env E (Returned id) (UsersRepository.updateFailedLogin id n t) log := by
  cases t with
  | ok t =>
    unfold UsersRepository.updateFailedLogin
    exact upheld_usersUpdate (fun _ _ => rfl) (fun _ _ _ => rfl) (fun _ _ _ => rfl) (fun _ _ _ => rfl)
      (absurd hl)
  | error e => exact .atomic fun s _ => ⟨.inl (.refl s), nofun⟩

theorem upheld_updateProfile {id : String} (hp : E log id .profile) (first last avatar : Option String) :
    Upheld env E (Returned id) (UsersRepository.updateProfile id first last avatar) log :=
  upheld_usersUpdate (fun _ _ => rfl) (absurd hp) (fun _ _ _ => rfl) (fun _ _ _ => rfl) fun _ _ _ => rfl

theorem upheld_updatePassword {id : String} (hp : E log id .password) (hl : E log id .lockout)
    (hash : String) :
    Upheld env E (Returned id) (UsersRepository.updatePassword id hash) log :=
  upheld_usersUpdate (fun _ _ => rfl) (fun _ _ _ => rfl) (fun _ _ _ => rfl) (absurd hp) (absurd hl)

theorem upheld_updateEmail {id : String} (hE : E log id .address) (email : String) :
    Upheld env E (fun _ _ => True) (UsersRepository.updateEmail id email) log := by
  refine .atomic fun s _ => ⟨?_, fun _ _ => trivial⟩
  dsimp only
  split
  · exact .inl (.refl s)
  · split
    · exact .inl (.refl s)
    · exact .inr ⟨id, .updateUser (fun _ => rfl) (fun _ _ => rfl) (absurd hE) (fun _ _ => rfl)
        fun _ _ => rfl⟩

/-- A user that is made, and that nobody has been before. -/
theorem upheld_usersCreate (email hash : String) (first last : Option String) :
    Upheld env E (fun log' v => v.email = email ∧
        ∃ x ∈ log', ¬IsUser v.id x.before ∧ v ∈ x.after.users)
      (UsersRepository.create env email hash first last) log := by
  refine .atomic fun s hs => ?_
  dsimp only
  split
  · exact ⟨.inl (.refl s), nofun⟩
  · refine ⟨.inr ⟨_, .createUser rfl rfl⟩, ?_⟩
    rintro v ⟨⟩
    refine ⟨rfl, _, .head _, ?_, List.mem_append_right _ (List.mem_singleton_self _)⟩
    rintro ⟨v', hv', hid⟩
    exact hs.inv.fresh.userMinted.ne env.randomUUID_injective hv' (Nat.le_refl _) hid

theorem upheld_emitRegistered {id : String} (hu : Knows (IsUser id) log) (e : String)
    (c : RequestContext) :
    Upheld env E (fun _ _ => True) (emit (.userRegistered id e c)) log :=
  .atomic fun _ hs => ⟨.inr ⟨id, .register e c (hu.now hs fun _ _ => IsUser.later)⟩,
    fun _ _ => trivial⟩

/-! ## Devices, sessions and refresh tokens -/

theorem upheld_upsertDevice (hE : E log u .device) (hu : Knows (IsUser u) log) (f : String)
    (ua ip : Option String) :
    Upheld env E (fun log' d => Knows (HasDevice u d.id) log')
      (AuthRepository.upsertDevice env u f ua ip) log := by
  refine .atomic fun s hs => ?_
  dsimp only
  split
  · rename_i d hd
    have hk := List.find?_some hd
    simp only [Bool.and_eq_true, beq_iff_eq] at hk
    refine ⟨.inr ⟨u, .updateDevice hE ?_ fun d => ⟨rfl, rfl, rfl⟩⟩, ?_⟩
    · intro d' _ h
      simp only [Bool.and_eq_true, beq_iff_eq] at h
      exact h.1
    · rintro _ ⟨⟩
      refine ⟨_, .head _, _, mem_updateWhere.mpr ⟨d, List.mem_of_find?_eq_some hd, rfl⟩, ?_⟩
      split
      · exact ⟨rfl, hk.1⟩
      · exact ⟨rfl, hk.1⟩
  · rename_i hnone
    refine ⟨.inr ⟨u, .createDevice hE rfl rfl (hu.now hs fun _ _ => IsUser.later) ?_⟩, ?_⟩
    · intro d' hd' hu' hf
      have := List.find?_eq_none.mp hnone d' hd'
      simp [hu', hf] at this
    · rintro _ ⟨⟩
      exact ⟨_, .head _, _, List.mem_append_right _ (List.mem_singleton_self _), rfl, rfl⟩

/-- A call has made the session for the user. -/
def MadeSession (u sid : String) (log : List (Entry World Call)) : Prop :=
  ∃ x ∈ log, (∀ s ∈ x.before.sessions, s.id ≠ sid) ∧ HasSession u sid x.after

theorem MadeSession.suffix {sid : String} (h : MadeSession u sid log) (hl : log <:+ log') :
    MadeSession u sid log' :=
  h.imp fun _ h => ⟨hl.subset h.1, h.2⟩

theorem MadeSession.knows {sid : String} (h : MadeSession u sid log) : Knows (HasSession u sid) log :=
  h.imp fun _ h => ⟨h.1, h.2.2⟩

theorem upheld_createSession (hE : E log u .session) {id : String} (hd : Knows (HasDevice u id) log)
    (ip ua : Option String) (e : JsDate) :
    Upheld env E (fun log' s => MadeSession u s.id log')
      (AuthRepository.createSession env u id ip ua e) log := by
  refine .atomic fun s hs => ?_
  split
  · exact ⟨.inl (.refl s), nofun⟩
  · refine ⟨.inr ⟨u, .createSession hE rfl ⟨id, rfl, hd.now hs fun _ _ => HasDevice.later⟩⟩, ?_⟩
    rintro _ ⟨⟩
    refine ⟨_, .head _, fun s hs' => ?_, _, List.mem_append_right _ (List.mem_singleton_self _), rfl, rfl⟩
    exact hs.inv.fresh.sessionMinted.ne env.randomUUID_injective hs' (Nat.le_refl _)

/-- A name of the number that is drawn is not in use yet. -/
theorem Known.draw (hs : (reliance env).Known log s) {a : Name} (ha : s.drawn = a.number) (l : Call) :
    (reliance env).Unspent a (⟨l, s, { s with drawn := s.drawn + 1 }⟩ :: log) :=
  hs.unspent ha (ha ▸ Nat.lt_succ_self _) (by cases a <;> exact fun h => h)

theorem upheld_randomUUID :
    Upheld env E (fun log' id => ∃ n, id = env.randomUUID n ∧ (reliance env).Unspent (.uuid n) log')
      (randomUUID env) log := by
  refine .atomic fun s hs => ⟨.inl (idle_draw s), ?_⟩
  rintro _ ⟨⟩
  exact ⟨s.drawn, rfl, Known.draw hs rfl _⟩

/-- A random token of which no hash is stored yet. -/
def NewToken (env : Env) (token : String) (log : List (Entry World Call)) : Prop :=
  ∃ n, token = env.randomBytes n ∧ (reliance env).Unspent (.bytes n) log

theorem upheld_randomBytes :
    Upheld env E (fun log' token => NewToken env token log') (randomBytes env) log := by
  refine .atomic fun s hs => ⟨.inl (idle_draw s), ?_⟩
  rintro _ ⟨⟩
  exact ⟨s.drawn, rfl, Known.draw hs rfl _⟩

/-- The hashes of tokens stay as they are. -/
structure KeepsHashes (w w' : World) : Prop where
  refreshTokens : w'.refreshTokens = w.refreshTokens
  passwordResetTokens : w'.passwordResetTokens = w.passwordResetTokens
  emailVerificationTokens : w'.emailVerificationTokens = w.emailVerificationTokens

instance : Std.Refl KeepsHashes := ⟨fun _ => ⟨rfl, rfl, rfl⟩⟩

/-- A part of a program between the drawing of a token and its use. -/
theorem upheld_meanwhile {M : List (Entry World Call) → α → Prop} {p : App α} {token : String}
    (h : Upheld env E M p log) (ht : NewToken env token log) (hp : p.Always KeepsHashes) :
    Upheld env E (fun log' a => M log' a ∧ NewToken env token log') p log := by
  obtain ⟨n, rfl, hn⟩ := ht
  refine (h.unspent hn (hp.mono fun w w' hk hu => ?_)).mono fun _ _ _ h => ⟨h.1, n, rfl, h.2⟩
  rwa [show (reliance env).used w' (.bytes n) ↔ (reliance env).used w (.bytes n) by
    simp only [reliance, Used, hk.refreshTokens, hk.passwordResetTokens, hk.emailVerificationTokens]]
    at hu

theorem upheld_dateNow : Upheld env E (fun log' now => Knows (fun w => w.now = now) log') dateNow log :=
  .atomic fun _ _ => ⟨owned_read .., fun _ e => ⟨_, .head _, Except.ok.inj e⟩⟩

theorem keepsHashes_createSession (id : String) (ip ua : Option String) (e : JsDate) :
    (AuthRepository.createSession env u id ip ua e).Always KeepsHashes :=
  always_atomic.mpr fun _ => by split <;> exact ⟨rfl, rfl, rfl⟩

theorem keepsHashes_randomUUID : (randomUUID env).Always KeepsHashes :=
  always_atomic.mpr fun _ => ⟨rfl, rfl, rfl⟩

theorem keepsHashes_signAccessTokenForUser (user : User) (sid : String) :
    (AuthService.signAccessTokenForUser env user sid).Always KeepsHashes :=
  always_query.bind fun _ => keepsHashes_randomUUID.bind fun _ => always_ofExcept.bind fun _ =>
    .bind (always_atomic.mpr fun _ => by dsimp only; split <;> exact ⟨rfl, rfl, rfl⟩) fun _ =>
      always_query.bind fun _ => always_ret

/-- Such a value, when it is brought into use. -/
theorem Unspent.drewName {a : Name} (ha : (reliance env).Unspent a log)
    (hs : (reliance env).Known log s) (name : Nat → String) :
    DrewName name log s (name a.number) := by
  obtain ⟨y, hy, hd⟩ := ha.drew
  exact ⟨a.number, Nat.lt_of_lt_of_le hd.2 (hs.past y hy).2.grows.drawn, rfl, y, hy, hd⟩

theorem NewToken.drewName {token : String} (ht : NewToken env token log)
    (hs : (reliance env).Known log s) :
    DrewName (env.sha256 ∘ env.randomBytes) log s (env.sha256 token) := by
  obtain ⟨n, rfl, hn⟩ := ht
  exact Unspent.drewName hn hs (env.sha256 ∘ env.randomBytes)

/-- An access token that was signed for the session. -/
structure AccessOf (u sid : String) (token : JwtPayload) (log : List (Entry World Call)) : Prop where
  sub : token.sub = u
  session : token.sessionId = sid
  signed : Knows (fun w => token ∈ w.signed) log

theorem AccessOf.suffix {sid : String} {token : JwtPayload} (h : AccessOf u sid token log)
    (hl : log <:+ log') : AccessOf u sid token log' :=
  ⟨h.sub, h.session, h.signed.suffix hl⟩

theorem upheld_jwtSign (hE : E log u .accessToken) {sid : String}
    (hsid : Knows (HasSession u sid) log) {n : Nat} (hn : (reliance env).Unspent (.uuid n) log)
    {d : Double} (hd : parseDurationToMs env.accessExpiresIn = .ok d) (email : String)
    (rs ps : List String) :
    Upheld env E (fun log' token => AccessOf u sid token log')
      (TokenService.jwtSign u email rs ps sid (env.randomUUID n) (d.divFloor 1000)) log := by
  refine .atomic fun s hs => ?_
  dsimp only
  split
  · exact ⟨.inl (.refl s), nofun⟩
  · rename_i hexp
    refine ⟨.inr ⟨u, .sign hE rfl (hsid.now hs fun _ _ => HasSession.later) (fun p' hp' e => ?_)
      (Unspent.drewName hn hs _) ⟨d, hd, hexp⟩⟩, ?_⟩
    · exact hs.unused _ hn (.inr ⟨p', hp', e⟩)
    · rintro _ ⟨⟩
      exact ⟨rfl, rfl, _, .head _, List.mem_append_right _ (List.mem_singleton_self _)⟩

/-- The family of a token that is to be made for the session. -/
def KnowsFamily (env : Env) (sid familyId : String) (log : List (Entry World Call)) : Prop :=
  (∃ n, familyId = env.randomUUID n ∧ (reliance env).Unspent (.uuid n) log) ∨
    ∃ t, t.familyId = familyId ∧ t.sessionId = sid ∧ Knows (HasToken t) log

/-- A refresh token of the session. -/
def RefreshOf (u sid hash : String) (w : World) : Prop :=
  ∃ t ∈ w.refreshTokens, t.userId = u ∧ t.sessionId = sid ∧ t.tokenHash = hash

theorem upheld_createRefreshToken (hE : E log u .refreshToken) {sid familyId : String}
    (hsid : Knows (HasSession u sid) log) (hf : KnowsFamily env sid familyId log) {token : String}
    (ht : NewToken env token log) (e : JsDate) (ip : Option String) :
    Upheld env E (fun log' _ => Knows (RefreshOf u sid (env.sha256 token)) log')
      (AuthRepository.createRefreshToken env u sid familyId (env.sha256 token) e ip) log := by
  refine .atomic fun s hs => ?_
  split
  · exact ⟨.inl (.refl s), nofun⟩
  · split
    · exact ⟨.inl (.refl s), nofun⟩
    · refine ⟨.inr ⟨u, .createRefreshToken hE rfl (hsid.now hs fun _ _ => HasSession.later) ?_
        (ht.drewName hs)⟩, fun _ _ => ?_⟩
      · rcases hf with ⟨n, rfl, hn⟩ | ⟨t, rfl, rfl, ht⟩
        · exact .inr ⟨fun t' ht' e => hs.unused _ hn (.inl ⟨t', ht', e⟩), Unspent.drewName hn hs _⟩
        · obtain ⟨t', ht', hk⟩ := ht.now hs fun _ _ => HasToken.later
          exact .inl ⟨t', ht', hk.2.2.2.1, hk.2.2.1⟩
      · exact ⟨_, .head _, _, List.mem_append_right _ (List.mem_singleton_self _), rfl, rfl, rfl⟩

theorem Touches.updateSession {L : Part → Prop} {w : World} {p : Session → Bool}
    {data : Session → Session} (hp : ∀ s ∈ w.sessions, p s = true → L .session ∧ s.userId = u)
    (hdata : ∀ s, (data s).id = s.id ∧ (data s).userId = s.userId ∧ (data s).deviceId = s.deviceId) :
    Touches env log L u w { w with sessions := updateWhere p data w.sessions } := by
  have h : Touches env log L u w _ := .updateSessions hp hdata (q := fun _ => false)
    (fun _ _ => nofun) fun _ => ⟨rfl, rfl, rfl, rfl⟩
  rwa [updateWhere_of_none fun _ _ => rfl] at h

theorem Touches.updateTokens {L : Part → Prop} {w : World} {q : RefreshToken → Bool}
    {data : RefreshToken → RefreshToken}
    (hq : ∀ t ∈ w.refreshTokens, q t = true → L .refreshToken ∧ t.userId = u)
    (hdata : ∀ t, (data t).userId = t.userId ∧ (data t).sessionId = t.sessionId ∧
      (data t).familyId = t.familyId ∧ (data t).tokenHash = t.tokenHash) :
    Touches env log L u w { w with refreshTokens := updateWhere q data w.refreshTokens } := by
  have h : Touches env log L u w _ := .updateSessions (p := fun _ => false) (fun _ _ => nofun)
    (fun _ => ⟨rfl, rfl, rfl⟩) hq hdata
  rwa [updateWhere_of_none fun _ _ => rfl] at h

/-- The session of this id is one of the user. -/
theorem HasSession.owner {sid : String} (h : HasSession u sid s) (hf : Fresh env s) {x : Session}
    (hx : x ∈ s.sessions) (e : x.id = sid) : x.userId = u :=
  HasSession.user_eq hf ⟨x, hx, e, rfl⟩ h

theorem HasSession.tokenOwner {sid : String} (h : HasSession u sid s) (ho : Orderly env s)
    {t : RefreshToken} (ht : t ∈ s.refreshTokens) (e : t.sessionId = sid) : t.userId = u :=
  (e ▸ ho.joined.tokenSession t ht).user_eq ho.fresh h

theorem upheld_revokeSession (hE : E log u .session) {sid : String}
    (hs : Knows (HasSession u sid) log) :
    Upheld env E (fun _ _ => True) (AuthRepository.revokeSession sid) log := by
  refine .atomic fun s hk => ⟨?_, fun _ _ => trivial⟩
  have hsid := hs.now hk fun _ _ => HasSession.later
  split
  · exact .inl (.refl s)
  · exact .inr ⟨u, .updateSession (fun x hx h =>
      ⟨hE, hsid.owner hk.inv.fresh hx (beq_iff_eq.mp h)⟩) fun _ => ⟨rfl, rfl, rfl⟩⟩

theorem upheld_touchSession (hE : E log u .session) {sid : String}
    (hs : Knows (HasSession u sid) log) (e : JsDate) :
    Upheld env E (fun _ _ => True) (AuthRepository.touchSession sid e) log := by
  refine .atomic fun s hk => ⟨?_, fun _ _ => trivial⟩
  have hsid := hs.now hk fun _ _ => HasSession.later
  dsimp only
  split
  · exact .inl (.refl s)
  · exact .inl (.refl s)
  · exact .inr ⟨u, .updateSession (fun x hx h =>
      ⟨hE, hsid.owner hk.inv.fresh hx (beq_iff_eq.mp h)⟩) fun _ => ⟨rfl, rfl, rfl⟩⟩

theorem upheld_revokeRefreshToken {t : RefreshToken} (hE : E log t.userId .refreshToken)
    (ht : Knows (HasToken t) log) (hash : String) :
    Upheld env E (fun _ _ => True) (AuthRepository.revokeRefreshToken t.id hash) log := by
  refine .atomic fun s hk => ⟨?_, fun _ _ => trivial⟩
  obtain ⟨t', ht', hid, hu, -⟩ := ht.now hk fun _ _ => HasToken.later
  split
  · exact .inl (.refl s)
  · refine .inr ⟨t.userId, .updateTokens (fun x hx h => ⟨hE, ?_⟩) fun _ => ⟨rfl, rfl, rfl, rfl⟩⟩
    rw [hk.inv.fresh.tokenId.eq hx ht' ((beq_iff_eq.mp h).trans hid.symm), hu]

theorem upheld_revokeRefreshTokenFamily {t : RefreshToken} (hE : E log t.userId .refreshToken)
    (ht : Knows (HasToken t) log) :
    Upheld env E (fun _ _ => True) (AuthRepository.revokeRefreshTokenFamily t.familyId) log := by
  refine .atomic fun s hk => ⟨?_, fun _ _ => trivial⟩
  obtain ⟨t', ht', -, hu, -, hf, -⟩ := ht.now hk fun _ _ => HasToken.later
  refine .inr ⟨t.userId, .updateTokens (fun x hx h => ⟨hE, ?_⟩) fun _ => ⟨rfl, rfl, rfl, rfl⟩⟩
  rw [Bool.and_eq_true, beq_iff_eq] at h
  exact (hk.inv.joined.familyUser hk.inv.fresh hx ht' (h.1.trans hf.symm)).trans hu

/-- The sessions, and their refresh tokens, that are revoked in a transaction. -/
theorem Owned.revoke {ids : List String} (hS : E log u .session) (hT : E log u .refreshToken)
    (ho : Orderly env s) (hids : ∀ sid ∈ ids, HasSession u sid s) {l : Call} {p : Session → Bool}
    {q : RefreshToken → Bool} (hp : ∀ x, p x = true → x.id ∈ ids)
    (hq : ∀ t, q t = true → t.sessionId ∈ ids) :
    Owned env E log ⟨l, s,
      { s with sessions := updateWhere p (Session.revoke s.now) s.sessions,
               refreshTokens := updateWhere q (RefreshToken.revoke s.now) s.refreshTokens }⟩ :=
  .inr ⟨u, .updateSessions (fun x hx h => ⟨hS, (hids _ (hp x h)).owner ho.fresh hx rfl⟩)
    (fun _ => ⟨rfl, rfl, rfl⟩) (fun t ht h => ⟨hT, (hids _ (hq t h)).tokenOwner ho ht rfl⟩)
    fun _ => ⟨rfl, rfl, rfl, rfl⟩⟩

theorem upheld_sessionsRevoke (hS : E log u .session) (hT : E log u .refreshToken) {sid : String}
    (hs : Knows (HasSession u sid) log) :
    Upheld env E (fun _ _ => True) (SessionsRepository.revoke sid) log := by
  refine .atomic fun s hk => ⟨?_, fun _ _ => trivial⟩
  have hsid := hs.now hk fun _ _ => HasSession.later
  split
  · exact .inl (.refl s)
  · refine Owned.revoke hS hT hk.inv (List.forall_mem_singleton.mpr hsid) (fun x h => ?_)
      fun t h => ?_
    · exact List.mem_singleton.mpr (beq_iff_eq.mp h)
    · rw [Bool.and_eq_true, beq_iff_eq] at h
      exact List.mem_singleton.mpr h.1

theorem upheld_revokeMany (hS : E log u .session) (hT : E log u .refreshToken) {ids : List String}
    (hs : Knows (fun w => ∀ sid ∈ ids, HasSession u sid w) log) :
    Upheld env E (fun _ _ => True) (SessionsRepository.revokeMany ids) log := by
  refine .atomic fun s hk => ⟨?_, fun _ _ => trivial⟩
  refine Owned.revoke hS hT hk.inv (hs.now hk fun _ _ hl h sid hsid => (h sid hsid).later hl)
    (fun x h => List.contains_iff_mem.mp h) fun t h => ?_
  exact List.contains_iff_mem.mp (Bool.and_eq_true_iff.mp h).1

theorem upheld_redisSet (hE : E log u .accessToken) {key : String}
    (hkey : ∀ s, (reliance env).Known log s → OwnKey u key s) (v : String) (d : Double) :
    Upheld env E (fun _ _ => True) (RedisService.set key v d) log := by
  refine .atomic fun s hk => ⟨?_, fun _ _ => trivial⟩
  split
  · split
    · exact .inr ⟨u, .blacklist hE (hkey s hk) _⟩
    · exact .inl (.refl s)
  · exact .inl (.refl s)

/-! ## Links -/

theorem upheld_passwordResetCreate (hE : E log u .resetLink) (hu : Knows (IsUser u) log)
    {token : String} (ht : NewToken env token log) (e : JsDate) :
    Upheld env E (fun _ _ => True) (PasswordResetRepository.create env u (env.sha256 token) e) log := by
  refine .atomic fun s hk => ⟨?_, fun _ _ => trivial⟩
  split
  · exact .inl (.refl s)
  · split
    · exact .inl (.refl s)
    · exact .inr ⟨u, .createReset hE rfl (hu.now hk fun _ _ => IsUser.later) (ht.drewName hk)⟩

theorem upheld_passwordResetMarkConsumed {t : PasswordResetToken} (hE : E log t.userId .resetLink)
    (ht : Knows (HasReset t) log) :
    Upheld env E (fun _ _ => True) (PasswordResetRepository.markConsumed t.id) log := by
  refine .atomic fun s hk => ⟨?_, fun _ _ => trivial⟩
  obtain ⟨t', ht', hid, hu, -⟩ := ht.now hk fun _ _ => HasReset.later
  split
  · exact .inl (.refl s)
  · refine .inr ⟨t.userId, .consumeResets hE (fun x hx h => ?_) _⟩
    rw [hk.inv.indexed.resetId.eq hx ht' ((beq_iff_eq.mp h).trans hid.symm), hu]

theorem upheld_passwordResetInvalidate (hE : E log u .resetLink) :
    Upheld env E (fun _ _ => True) (PasswordResetRepository.invalidateOutstanding u) log := by
  refine .atomic fun s _ => ⟨.inr ⟨u, .consumeResets hE (fun x _ h => ?_) _⟩, fun _ _ => trivial⟩
  rw [Bool.and_eq_true, beq_iff_eq] at h
  exact h.1

theorem upheld_emailVerificationCreate (hE : E log u .emailLink) (hu : Knows (IsUser u) log)
    {token : String} (ht : NewToken env token log) (type : EmailTokenType) (newEmail : Option String)
    (e : JsDate) :
    Upheld env E (fun _ _ => True)
      (EmailVerificationRepository.create env u (env.sha256 token) type newEmail e) log := by
  refine .atomic fun s hk => ⟨?_, fun _ _ => trivial⟩
  split
  · exact .inl (.refl s)
  · split
    · exact .inl (.refl s)
    · exact .inr ⟨u, .createLink hE rfl (hu.now hk fun _ _ => IsUser.later) (ht.drewName hk)⟩

theorem upheld_emailVerificationMarkConsumed {t : EmailVerificationToken}
    (hE : E log t.userId .emailLink) (ht : Knows (HasLink t) log) :
    Upheld env E (fun _ _ => True) (EmailVerificationRepository.markConsumed t.id) log := by
  refine .atomic fun s hk => ⟨?_, fun _ _ => trivial⟩
  obtain ⟨t', ht', hid, hu, -⟩ := ht.now hk fun _ _ => HasLink.later
  split
  · exact .inl (.refl s)
  · refine .inr ⟨t.userId, .consumeLinks hE (fun x hx h => ?_) _⟩
    rw [hk.inv.indexed.emailId.eq hx ht' ((beq_iff_eq.mp h).trans hid.symm), hu]

theorem upheld_emailVerificationInvalidate (hE : E log u .emailLink) (type : EmailTokenType) :
    Upheld env E (fun _ _ => True) (EmailVerificationRepository.invalidateOutstanding u type) log := by
  refine .atomic fun s _ => ⟨.inr ⟨u, .consumeLinks hE (fun x _ h => ?_) _⟩, fun _ _ => trivial⟩
  rw [Bool.and_eq_true, Bool.and_eq_true, beq_iff_eq] at h
  exact h.1.1

/-! ## `AuthService` -/

/-- What the service may do is all that there is to say of it. -/
abbrev Minds (env : Env) (E : List (Entry World Call) → String → Part → Prop) (p : App α)
    (log : List (Entry World Call)) : Prop :=
  Upheld env E (fun _ _ => True) p log

theorem minds_ret (a : α) : Minds env E (.ret a : App α) log := .ret trivial

theorem minds_throw (e : Exn) : Minds env E (.throw e : App α) log := .throw e

/-- The tokens of a session of the user. -/
structure TokensOf (env : Env) (u : String) (tokens : SessionTokens) (log : List (Entry World Call)) :
    Prop where
  session : Knows (HasSession u tokens.sessionId) log
  access : AccessOf u tokens.sessionId tokens.accessToken.token log
  refresh : Knows (RefreshOf u tokens.sessionId (env.sha256 tokens.refreshToken.token)) log

theorem TokensOf.suffix {tokens : SessionTokens} (h : TokensOf env u tokens log) (hl : log <:+ log') :
    TokensOf env u tokens log' :=
  ⟨h.session.suffix hl, h.access.suffix hl, h.refresh.suffix hl⟩

/-- The date of expiry of a refresh token that is made now. -/
def IsExpiry (env : Env) (expiresAt : JsDate) (w : World) : Prop :=
  ∃ d, parseDurationToMs env.refreshExpiresIn = .ok d ∧ expiresAt = JsDate.after w.now d

theorem upheld_generateRefreshToken :
    Upheld env E (fun log' new => ∃ token expiresAt, new = ⟨token, env.sha256 token, expiresAt⟩ ∧
        NewToken env token log' ∧ Knows (IsExpiry env expiresAt) log')
      (TokenService.generateRefreshToken env) log := by
  refine Upholds.bind upheld_randomBytes fun token log₁ _ ht => ?_
  refine Upholds.bind (N := fun log' d => log' = log₁ ∧ parseDurationToMs env.refreshExpiresIn = .ok d)
    (.ofExcept fun _ hd => ⟨rfl, hd⟩) fun d log₂ _ ⟨e, hd⟩ => ?_
  obtain rfl := e
  exact Upholds.bind (upheld_meanwhile upheld_dateNow ht always_query) fun now _ _ h =>
    .ret ⟨token, _, rfl, h.2, h.1.imp fun _ e => ⟨d, hd, by rw [e]⟩⟩

theorem upheld_signAccessTokenForUser {user : User} {sid : String}
    (hE : Allows E log user.id [.accessToken]) (hs : Knows (HasSession user.id sid) log) :
    Upheld env E (fun log' a => AccessOf user.id sid a.token log')
      (AuthService.signAccessTokenForUser env user sid) log := by
  refine upheld_query fun w log₀ h₀ _ _ => ?_
  refine Upholds.bind upheld_randomUUID fun jti log₁ h₁ hn => ?_
  obtain ⟨n, rfl, hn⟩ := hn
  have h₁ := h₀.trans h₁
  refine Upholds.bind (N := fun log' d => log' = log₁ ∧ parseDurationToMs env.accessExpiresIn = .ok d)
    (.ofExcept fun _ hd => ⟨rfl, hd⟩) fun d log₂ _ ⟨e, hd⟩ => ?_
  obtain rfl := e
  refine Upholds.bind (upheld_jwtSign (hE.suffix h₁).mem (hs.suffix h₁) hn hd ..) fun _ _ _ ha => ?_
  exact upheld_query fun _ _ h _ _ => .ret (ha.suffix h)

theorem upheld_issueSession {user : User} (hu : Knows (IsUser user.id) log)
    (hE : Allows E log user.id [.device, .session, .accessToken, .refreshToken]) (c : RequestContext) :
    Upheld env E (fun log' tokens => TokensOf env user.id tokens log' ∧
      MadeSession user.id tokens.sessionId log') (AuthService.issueSession env user c) log := by
  refine Upholds.bind (upheld_upsertDevice hE.mem hu ..) fun d log₁ h₁ hd => ?_
  refine Upholds.bind upheld_generateRefreshToken fun _ log₂ h₂ hnew => ?_
  obtain ⟨token, expiresAt, rfl, hnew, -⟩ := hnew
  refine Upholds.bind (upheld_meanwhile (upheld_createSession (hE.suffix (h₁.trans h₂)).mem
    (hd.suffix h₂) ..) hnew (keepsHashes_createSession ..)) fun s log₃ h₃ ⟨hmade, hnew⟩ => ?_
  have hE₃ := hE.suffix (h₁.trans (h₂.trans h₃))
  have hs := hmade.knows
  refine Upholds.bind (upheld_meanwhile (upheld_signAccessTokenForUser hE₃.subset hs) hnew
    (keepsHashes_signAccessTokenForUser ..)) fun a log₄ h₄ ⟨ha, hnew⟩ => ?_
  refine Upholds.bind (upheld_meanwhile upheld_randomUUID hnew keepsHashes_randomUUID)
    fun f log₅ h₅ ⟨hn, hnew⟩ => ?_
  have hs₅ := hs.suffix (h₄.trans h₅)
  refine Upholds.bind (upheld_createRefreshToken (hE₃.suffix (h₄.trans h₅)).mem hs₅ (.inl hn) hnew ..)
    fun _ log₆ h₆ hr => .ret ⟨⟨hs₅.suffix h₆, ha.suffix (h₅.trans h₆), hr⟩,
      hmade.suffix (h₄.trans (h₅.trans h₆))⟩

theorem upheld_reuseDetected {t : RefreshToken} (hE : Allows E log t.userId [.session, .refreshToken])
    (ht : Knows (HasToken t) log) (hs : Knows (HasSession t.userId t.sessionId) log)
    {M : List (Entry World Call) → α → Prop} (c : RequestContext) :
    Upheld env E M (AuthService.reuseDetected t c) log := by
  refine Upholds.bind (upheld_revokeRefreshTokenFamily hE.mem ht) fun _ log₁ h₁ _ => ?_
  refine Upholds.bind (upheld_revokeSession (hE.suffix h₁).mem (hs.suffix h₁)) fun _ _ _ _ => ?_
  exact upheld_seq (idle_emit nofun) fun _ _ _ => .throw _

theorem upheld_rotate {t : RefreshToken} {session : Session} {user : User}
    (hE : Allows E log t.userId [.session, .refreshToken, .accessToken])
    (ht : Knows (HasToken t) log) (hs : Knows (HasSession t.userId t.sessionId) log)
    (hsid : session.id = t.sessionId) (hu : user.id = t.userId) (c : RequestContext) :
    Upheld env E (fun log' r => r.1 = user ∧ TokensOf env user.id r.2 log')
      (AuthService.rotate env t session user c) log := by
  rw [← hsid, ← hu] at hs
  refine Upholds.bind upheld_generateRefreshToken fun _ log₁ h₁ hnew => ?_
  obtain ⟨token, expiresAt, rfl, hnew, -⟩ := hnew
  have hE₁ := hu ▸ hE.suffix h₁
  refine Upholds.bind (upheld_createRefreshToken hE₁.mem (hs.suffix h₁)
    (.inr ⟨t, rfl, hsid.symm, ht.suffix h₁⟩) hnew ..) fun _ log₂ h₂ hr => ?_
  refine Upholds.bind (upheld_revokeRefreshToken (hE.suffix (h₁.trans h₂)).mem
    (ht.suffix (h₁.trans h₂)) _) fun _ log₃ h₃ _ => ?_
  have hs₃ := hs.suffix (h₁.trans (h₂.trans h₃))
  refine Upholds.bind (upheld_touchSession (hE₁.suffix (h₂.trans h₃)).mem hs₃ _)
    fun _ log₄ h₄ _ => ?_
  refine Upholds.bind (upheld_signAccessTokenForUser
    (hE₁.suffix (h₂.trans (h₃.trans h₄))).subset (hs₃.suffix h₄)) fun _ log₅ h₅ ha => ?_
  refine upheld_seq (idle_emit nofun) fun _ _ h₆ => .ret ⟨rfl, ?_⟩
  exact ⟨hs₃.suffix (h₄.trans (h₅.trans h₆)), ha.suffix h₆,
    hr.suffix (h₃.trans (h₄.trans (h₅.trans h₆)))⟩

/-! ## Sessions, passwords and links -/

theorem minds_blacklistSession {sid : String} (hE : E log u .accessToken)
    (hs : Knows (HasSession u sid) log) (d : Double) :
    Minds env E (TokenBlacklistService.blacklistSession sid d) log :=
  .ite (fun _ => minds_ret _) fun _ => upheld_redisSet hE
    (fun _ hk => .inl ⟨sid, hs.now hk fun _ _ => HasSession.later, rfl⟩) _ _

theorem minds_promiseAll {ps : List (App Unit)}
    (h : ∀ p ∈ ps, ∀ log', log <:+ log' → Minds env E p log') :
    Minds env E (SessionsService.promiseAll ps) log := by
  induction ps generalizing log with
  | nil => exact minds_ret _
  | cons p ps ih =>
    have rest (log' : List (Entry World Call)) (hl : log <:+ log') :
        Minds env E (SessionsService.promiseAll ps) log' :=
      ih fun q hq log'' hl' => h q (List.mem_cons_of_mem _ hq) log'' (hl.trans hl')
    refine Upholds.bind (N := fun _ _ => True) ?_ fun _ log' hl _ => rest log' hl
    refine .handle (h p (List.mem_cons_self ..) _ (List.suffix_refl _)) fun e log' hl => ?_
    exact Upholds.bind (.handle (rest log' hl) fun _ _ _ => minds_ret _) fun _ _ _ _ => minds_throw e

theorem minds_revokeAll (hE : Allows E log u [.session, .refreshToken, .accessToken])
    (c : RequestContext) (except : Option String) :
    Minds env E (SessionsService.revokeAll env u c except) log := by
  have revoked : Upheld env E (fun log' ids => Knows (fun w => ∀ sid ∈ ids, HasSession u sid w) log')
      (SessionsRepository.revokeAllExcept u except) log := by
    refine upheld_query fun w log' hl hw _ => ?_
    have hids : Knows (fun w' => ∀ sid ∈ (w.sessions.filter fun s => s.userId == u && !s.isRevoked &&
        !((truthy except).any (s.id == ·))).map (·.id), HasSession u sid w') log' := by
      refine ⟨_, hw, fun sid hsid => ?_⟩
      obtain ⟨s, hs, rfl⟩ := List.mem_map.mp hsid
      obtain ⟨hs, hu⟩ := List.mem_filter.mp hs
      simp only [Bool.and_eq_true, beq_iff_eq] at hu
      exact ⟨s, hs, rfl, hu.1.1⟩
    refine .ite (fun _ => .ret ⟨_, hw, fun _ => nofun⟩) fun _ => ?_
    exact Upholds.bind (upheld_revokeMany (hE.suffix hl).mem (hE.suffix hl).mem hids)
      fun _ _ h _ => .ret (hids.suffix h)
  refine Upholds.bind revoked fun ids log₁ h₁ hids => ?_
  refine Upholds.bind (N := fun log' _ => log' = log₁) (.ofExcept fun _ _ => rfl) fun d log₂ _ e => ?_
  obtain rfl := e
  refine Upholds.bind (minds_promiseAll fun p hp log' hl => ?_) fun _ _ _ _ =>
    upheld_seq (idle_emit nofun) fun _ _ _ => minds_ret _
  obtain ⟨sid, hsid, rfl⟩ := List.mem_map.mp hp
  exact minds_blacklistSession (hE.suffix (h₁.trans hl)).mem
    ((hids.imp fun _ h => h sid hsid).suffix hl) d

theorem minds_revokeSession (hE : Allows E log u [.session, .refreshToken, .accessToken])
    (sid : String) (c : RequestContext) :
    Minds env E (SessionsService.revokeSession env u sid c) log := by
  refine upheld_query fun w log' hl hw _ => ?_
  cases hf : w.sessions.find? (·.id == sid) with
  | none => exact minds_throw _
  | some s =>
    refine .ite (fun _ => minds_throw _) fun _ => .ite (fun _ => minds_throw _) fun hu => ?_
    have hid := List.find?_some hf
    have hs : Knows (HasSession u sid) log' :=
      ⟨_, hw, s, List.mem_of_find?_eq_some hf, beq_iff_eq.mp hid, Decidable.not_not.mp hu⟩
    refine Upholds.bind (upheld_sessionsRevoke (hE.suffix hl).mem (hE.suffix hl).mem hs)
      fun _ log₁ h₁ _ => ?_
    refine Upholds.bind (N := fun log' _ => log' = log₁) (.ofExcept fun _ _ => rfl)
      fun d log₂ _ e => ?_
    obtain rfl := e
    refine Upholds.bind (minds_blacklistSession (hE.suffix (hl.trans h₁)).mem (hs.suffix h₁) d)
      fun _ _ _ _ => upheld_idle (idle_emit nofun)

theorem minds_issueToken (hE : Allows E log u [.emailLink]) (hu : Knows (IsUser u) log)
    (type : EmailTokenType) (newEmail : Option String) :
    Minds env E (EmailVerificationService.issueToken env u type newEmail) log := by
  refine Upholds.bind (upheld_emailVerificationInvalidate hE.mem type) fun _ log₁ h₁ _ => ?_
  refine Upholds.bind upheld_randomBytes fun token log₂ h₂ hnew => ?_
  refine Upholds.bind (upheld_meanwhile upheld_dateNow hnew always_query) fun _ log₃ h₃ h => ?_
  have hl := h₁.trans (h₂.trans h₃)
  exact Upholds.bind (upheld_emailVerificationCreate (hE.suffix hl).mem (hu.suffix hl) h.2 ..)
    fun _ _ _ _ => minds_ret _

theorem minds_sendRegistrationVerification (hE : Allows E log u [.emailLink])
    (hu : Knows (IsUser u) log) (email : String) :
    Minds env E (EmailVerificationService.sendRegistrationVerification env u email) log := by
  refine upheld_query fun w log' hl _ _ => .ite (fun _ => minds_throw _) fun _ => ?_
  exact Upholds.bind (minds_issueToken (hE.suffix hl) (hu.suffix hl) ..) fun _ _ _ _ =>
    upheld_idle (idle_send ..)

end AtlasAuth

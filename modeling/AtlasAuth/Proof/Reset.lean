import AtlasAuth.Proof.SessionEnd

/-!
# What a password reset evicts

A password reset revokes the sessions of the user that are not yet revoked,
and puts those on the blacklist. From then on no earlier refresh token of the
user is accepted, and no login with another password; an earlier access token
is rejected if its session was revoked by the reset, but one of a session that
a logout or a reuse had revoked before is as good as it was
(`loggedOutToken_accepted`). The reset evicts everybody exactly if all of these
were spent (`reset_evicts_everybody`).
-/

namespace AtlasAuth

open Framework Framework.Table Prog

variable {env : Env} {w w' : World} {d : Done Request World Exn Response} {u new : String}
  {tr : List (Done Request World Exn Response)}

/-! ## Passwords over histories -/

/-- A password reset of the user that has succeeded. -/
def ResetsPassword (env : Env) (d : Done Request World Exn Response) (u new : String) : Prop :=
  d.outcome = .ok .done ∧ ∃ token c r, d.req = .resetPassword token new c ∧
    d.before.passwordResetTokens.find? (·.tokenHash == env.sha256 token) = some r ∧ r.userId = u

/-- A password reset or change of the user that has succeeded. -/
def UpdatesPassword (env : Env) (d : Done Request World Exn Response) (u new : String) : Prop :=
  ResetsPassword env d u new ∨ d.outcome = .ok .done ∧
    ∃ bearer current c, d.req = .changePassword bearer current new c ∧ bearer.sub = u

theorem passwordOf_congr (h : w'.users.map User.credentials = w.users.map User.credentials)
    (u : String) : passwordOf u w' = passwordOf u w :=
  find?_credentials (·.passwordHash) (·.2.2.1) (fun _ => rfl) h u

theorem passwordOf_withPassword {hash : String} (u v : String)
    (h : w'.users.map User.credentials =
      (updateWhere (·.id == u) (User.withPassword hash) w.users).map User.credentials) :
    passwordOf v w' = (w.users.find? (·.id == v)).map fun x =>
      if x.id == u then hash else x.passwordHash :=
  (passwordOf_congr (w := { w with
    users := updateWhere (·.id == u) (User.withPassword hash) w.users }) h v).trans
    (find?_updateUser (by exact fun _ => rfl) _ _ _)

/-- After a change of the password, the row holds a hash of the new one. -/
theorem PasswordChanged.passwordOf {kept : Option String}
    (h : PasswordChanged env u new kept w w') :
    ∃ k, passwordOf u w' = some (env.argon2Hash k new) := by
  obtain ⟨w₁, h₁, h₂⟩ := h
  obtain ⟨k, hk⟩ := h₁.users
  obtain ⟨x, hx⟩ := Option.isSome_iff_exists.mp h₁.found
  have hid : x.id = u := by simpa using List.find?_some hx
  refine ⟨k, ?_⟩
  rw [passwordOf_congr h₂.users, passwordOf_withPassword u u hk, hx]
  simp [hid]

theorem PasswordChanged.passwordOf_of_ne {v : String} {kept : Option String}
    (h : PasswordChanged env u new kept w w') (hne : v ≠ u) :
    AtlasAuth.passwordOf v w' = AtlasAuth.passwordOf v w := by
  obtain ⟨w₁, h₁, h₂⟩ := h
  obtain ⟨k, hk⟩ := h₁.users
  rw [passwordOf_congr h₂.users, passwordOf_withPassword u v hk, AtlasAuth.passwordOf]
  cases hx : w.users.find? (·.id == v) with
  | none => rfl
  | some x =>
    have hid : x.id = v := by simpa using List.find?_some hx
    simp [hid, hne]

/-- A request that does not update the password of the user. -/
theorem passwordOf_of_not_updates (he : Completes env d.req d.before d.outcome d.after)
    (hx : Answered d.outcome) (hn : ∀ new, ¬UpdatesPassword env d u new) {p : String}
    (hp : passwordOf u d.before = some p) : passwordOf u d.after = some p := by
  cases hu : d.req.updatesPassword with
  | false =>
    exact he.always (samePasswords_program hu) (fun _ _ ⟨m, e⟩ => e ▸ .of_eq rfl) u p hp
  | true =>
    have quiet (h : Refused d.before d.outcome d.after) : passwordOf u d.after = some p :=
      (passwordOf_congr h.2.users u).trans hp
    cases hreq : d.req with
    | resetPassword token new c =>
      rcases completes_resetPassword (hreq ▸ he) hx with ⟨ho, r, hr, h⟩ | h
      · refine (h.passwordOf_of_ne ?_).trans hp
        rintro rfl
        exact hn new (.inl ⟨ho, token, c, r, hreq, hr, rfl⟩)
      · exact quiet h
    | changePassword bearer current new c =>
      rcases completes_changePassword (hreq ▸ he) hx with ⟨ho, -, h⟩ | h
      · refine (h.passwordOf_of_ne ?_).trans hp
        rintro rfl
        exact hn new (.inr ⟨ho, bearer, current, c, hreq, rfl⟩)
      · exact quiet h
    | _ => rw [hreq] at hu; cases hu

/-- As long as nobody updates it, the password stays what it is. -/
theorem passwordOf_history (h : History env w tr w')
    (hn : ∀ d ∈ tr, ∀ new, ¬UpdatesPassword env d u new) {p : String}
    (hp : passwordOf u w = some p) : passwordOf u w' = some p := by
  induction h with
  | nil => exact hp
  | env m _ ih => exact ih hn
  | done h he hx ih =>
    have hp := ih fun d hd => hn d (List.mem_append_left _ hd)
    have hlast := hn _ (List.mem_append_right _ (List.mem_singleton_self _))
    exact passwordOf_of_not_updates (d := ⟨_, _, _, _⟩) he hx hlast hp

/-- A login that succeeds has the password of its user. -/
theorem login_password (hs : Sound env w) {k : Nat}
    (hp : passwordOf u w = some (env.argon2Hash k new)) {dto : LoginDto} {c : RequestContext}
    {user : User} {tokens : SessionTokens}
    (h : Completes env (.login dto c) w (.ok (.session user tokens)) w') (hu : user.id = u) :
    dto.password = new := by
  obtain ⟨r, hl, e⟩ := completes_login hs.ready h
  cases hl with
  | @right x _ _ _ _ _ hx _ _ hv =>
    obtain rfl : user = x := (Response.session.inj (Except.ok.inj e)).1
    have hrow : w.users.find? (·.id == u) = some user :=
      hs.fresh.userId.find?.mpr ⟨List.mem_of_find?_eq_some hx, hu⟩
    rw [passwordOf, hrow] at hp
    have hp : user.passwordHash = env.argon2Hash k new := Option.some.inj hp
    rw [hp, env.argon2Verify_hash] at hv
    exact (of_decide_eq_true hv).symm
  | unknown | locked | wrong | broken => cases e

/-! ## The reset -/

theorem mem_liveSessionsOf_none {s : Session} (hs : s ∈ w.sessions) (hu : s.userId = u)
    (hr : s.isRevoked = false) : s.id ∈ liveSessionsOf w u none :=
  List.mem_map_of_mem (List.mem_filter.mpr ⟨hs, by simp [hu, hr, truthy]⟩)

theorem Evicts.sessionRevoked {ids : List String} {id : String} (h : Evicts env ids w w')
    (hid : id ∈ ids) : SessionRevoked id w' := by
  obtain ⟨w₁, -, hf, h⟩ := h
  exact h.sessionRevoked hid (hf id hid)

/-- The sessions of the user, of which the reset has revoked those that were
not revoked. -/
theorem ResetsPassword.changed (h : ResetsPassword env d u new)
    (he : Completes env d.req d.before d.outcome d.after) :
    PasswordChanged env u new none d.before d.after := by
  obtain ⟨ho, token, c, r, hreq, hr, rfl⟩ := h
  rcases completes_resetPassword (hreq ▸ he) (ho ▸ fun _ => nofun) with ⟨-, r', hr', h⟩ | ⟨⟨e, he⟩, -⟩
  · obtain rfl := Option.some.inj (hr.symm.trans hr')
    exact h
  · cases ho.symm.trans he

theorem session_cases (hs : Sound env w) {id : String}
    (ho : (id, u) ∈ w.sessions.map Session.owner) :
    id ∈ liveSessionsOf w u none ∨ SessionRevoked id w := by
  obtain ⟨s, hfind, hu⟩ := hs.find?_owner ho
  have hid : s.id = id := by simpa using List.find?_some hfind
  cases hr : s.isRevoked with
  | true => exact .inr ⟨s, hfind, hr⟩
  | false => exact .inl (hid ▸ mem_liveSessionsOf_none (List.mem_of_find?_eq_some hfind) hu hr)

/-- Once the sessions of the user are revoked, no refresh token that the user
had before is accepted. -/
theorem refresh_fails_after_evict (hs : Sound env w) {w₁ w₂ w₃ : World}
    (he : Evicts env (liveSessionsOf w u none) w w₁) (hg : GrowsFresh env w w₁)
    (hs₁ : Sound env w₁) (h : History env w₁ tr w₂) {t₀ : RefreshToken} (ht₀ : t₀ ∈ w.refreshTokens)
    (hu : t₀.userId = u) {token : String} {c : RequestContext} {x : Except Exn Response}
    (hhash : t₀.tokenHash = env.sha256 token)
    (hre : Completes env (.refresh (some token) c) w₂ x w₃) : ∃ e, x = .error e := by
  have ho : (t₀.sessionId, u) ∈ w.sessions.map Session.owner :=
    hu ▸ hs.coherent.places.session _ (List.mem_map_of_mem (f := RefreshToken.place) ht₀)
  have hrev : SessionRevoked t₀.sessionId w₁ :=
    (session_cases hs ho).elim he.sessionRevoked (·.grows hg.1)
  obtain ⟨t₁, ht₁, hk⟩ := (hg.1.trans (history_grows h).1).refreshTokens.mem ht₀
  refine refresh_fails (hs₁.history h) ht₁ ?_ hre ht₁ (hk.2.2.2.2.1.trans hhash) (.inl rfl)
  rw [hk.2.2.1]
  exact hrev.grows (history_grows h).1

/-- The reset leaves alone the keys of a token whose session was revoked. -/
theorem Evicts.leavesKeys {p : JwtPayload} (h : Evicts env (liveSessionsOf w u none) w w')
    (hf : Fresh env w) (hr : SessionRevoked p.sessionId w) : LeavesKeys w w' p := by
  obtain ⟨w₁, hc, -, h⟩ := h
  obtain ⟨ttl, -, hk⟩ := h.redis
  rw [hc.redis] at hk
  refine ⟨hk.others _ fun hm => ?_, hk.others _ fun hm => ?_⟩
  · obtain ⟨id, -, e⟩ := List.mem_map.mp hm
    exact JTI_PREFIX_ne _ _ e.symm
  · obtain ⟨id, hid, e⟩ := List.mem_map.mp hm
    obtain rfl := SESSION_PREFIX_inj e
    obtain ⟨s, hfind, hrev⟩ := hr
    obtain ⟨s', hs', e'⟩ := List.mem_map.mp hid
    obtain ⟨hm', hlive⟩ := List.mem_filter.mp hs'
    obtain rfl := Option.some.inj (hfind.symm.trans (hf.sessionId.find?.mpr ⟨hm', e'⟩))
    simp [hrev] at hlive

/-- Nobody who was there before the reset is there after it. -/
structure EvictsEverybody (env : Env) (d : Done Request World Exn Response) (u new : String) :
    Prop where
  refresh : ∀ tr w, History env d.after tr w → ∀ t₀ ∈ d.before.refreshTokens, t₀.userId = u →
    ∀ token c x w', t₀.tokenHash = env.sha256 token →
      Completes env (.refresh (some token) c) w x w' → ∃ e, x = .error e
  access : ∀ p ∈ d.before.signed, p.sub = u → ∀ tr w, History env d.after tr w →
    w.now ≤ maxTime → Rejected w p
  login : ∀ tr w, History env d.after tr w → (∀ d' ∈ tr, ∀ new', ¬UpdatesPassword env d' u new') →
    ∀ dto c user tokens w', Completes env (.login dto c) w (.ok (.session user tokens)) w' →
      user.id = u → dto.password = new

/-- In any run of completed requests, a password reset that succeeds evicts
everybody if and only if all access tokens of the user were spent whose session
was already revoked. -/
theorem reset_evicts_everybody {t : Time} (h : History env { now := t } tr w) (hd : d ∈ tr)
    (hr : ResetsPassword env d u new) (hnow : d.after.now ≤ maxTime) :
    EvictsEverybody env d u new ↔
      ∀ p ∈ d.before.signed, p.sub = u → SessionRevoked p.sessionId d.before → Spent d p := by
  obtain ⟨tr₁, tr₂, h₁, hex, hx, h₂⟩ := System.Trace.mem h hd
  have hs := (Sound.init t).history h₁
  have hl := (Lasting.init t).history (.init t) h₁
  have hstep : History env d.before [d] d.after := System.Trace.one hex hx
  have hchanged := hr.changed hex
  constructor
  · intro hall p hp hu hrev
    exact (hchanged.evicts.leavesKeys hs.fresh hrev).spent (history_grows hstep).1.now
      (hall.access p hp hu [] _ .nil hnow)
  · intro hspent
    refine ⟨fun tr' w' h' t₀ ht₀ hu token c x w'' hhash hre => ?_,
      fun p hp hu tr' w' h' hnow' => ?_, fun tr' w' h' hn dto c user tokens w'' hlogin hid => ?_⟩
    · exact refresh_fails_after_evict hs hchanged.evicts (completes_grows hex) (hs.history hstep) h'
        ht₀ hu hhash hre
    · have hl' := hl.history hs (hstep.trans h')
      rcases session_cases hs (hu ▸ hs.coherent.signedFor p hp) with hlive | hrev
      · have hg := (history_grows hstep).1.trans (history_grows h').1
        exact ((hchanged.evicts.keptOff hl hp hlive).history (hs.history hstep) h').rejected hl'
          (hg.signed.subset hp) hnow'
      · exact (hspent p hp hu hrev).rejected hs hstep hp h' hl' hnow'
    · obtain ⟨k, hk⟩ := hchanged.passwordOf
      exact login_password ((hs.history hstep).history h') (passwordOf_history h' hn hk) hlogin hid

/-- A registration, and a reset that finds its session active. -/
def activeReset : List (Done Request World Exn Response) × World :=
  (system .sample).serve
    [(0, .register ⟨"a@b.co", "Passw0rd!", none, none⟩ ⟨none, none⟩), (1000, .forgotPassword "a@b.co"),
     (1000, .resetPassword (unary 8) "N3wPass!" ⟨none, none⟩)] { now := 0 }

theorem activeReset_evicts : ∃ d ∈ activeReset.1, ResetsPassword .sample d (unary 1) "N3wPass!" ∧
    EvictsEverybody .sample d (unary 1) "N3wPass!" := by
  have h : History .sample { now := 0 } activeReset.1 activeReset.2 := history_serve (by decide +kernel)
  have hrun : ∃ d ∈ activeReset.1, d.req = .resetPassword (unary 8) "N3wPass!" ⟨none, none⟩ ∧
      d.outcome = .ok .done ∧ (d.before.passwordResetTokens.find?
        (·.tokenHash == Env.sample.sha256 (unary 8))).map (·.userId) = some (unary 1) ∧
      d.after.now ≤ maxTime ∧ ∀ p ∈ d.before.signed,
        (d.before.sessions.find? (·.id == p.sessionId)).map (·.isRevoked) = some false := by
    decide +kernel
  obtain ⟨d, hd, hreq, ho, hrow, hnow, hlive⟩ := hrun
  obtain ⟨r, hr, hu⟩ := Option.map_eq_some_iff.mp hrow
  have hreset : ResetsPassword .sample d (unary 1) "N3wPass!" := ⟨ho, unary 8, _, r, hreq, hr, hu⟩
  refine ⟨d, hd, hreset, (reset_evicts_everybody h hd hreset hnow).mpr fun p hp _ hrev => ?_⟩
  obtain ⟨s, hs, hr⟩ := hrev
  have hlive := hlive p hp
  simp [hs, hr] at hlive

/-- A registration and a refresh; the session is logged out with the second
access token before the reset. -/
def loggedOutReset : List (Done Request World Exn Response) × World :=
  (system .sample).serve
    [(0, .register ⟨"a@b.co", "Passw0rd!", none, none⟩ ⟨none, none⟩),
     (1000, .refresh (some (unary 3)) ⟨none, none⟩),
     (1000, .logout secondToken (some (unary 8)) ⟨none, none⟩),
     (1000, .forgotPassword "a@b.co"),
     (1000, .resetPassword (unary 11) "N3wPass!" ⟨none, none⟩)] { now := 0 }

theorem loggedOutToken_accepted :
    History .sample { now := 0 } loggedOutReset.1 loggedOutReset.2 ∧
    ∃ d ∈ loggedOutReset.1, ResetsPassword .sample d (unary 1) "N3wPass!" ∧
      firstToken ∈ d.before.signed ∧ ¬Rejected d.after firstToken ∧
      ¬EvictsEverybody .sample d (unary 1) "N3wPass!" := by
  have hrun : ∃ d ∈ loggedOutReset.1, d.req = .resetPassword (unary 11) "N3wPass!" ⟨none, none⟩ ∧
      d.outcome = .ok .done ∧ (d.before.passwordResetTokens.find?
        (·.tokenHash == Env.sample.sha256 (unary 11))).map (·.userId) = some (unary 1) ∧
      firstToken ∈ d.before.signed ∧ d.after.now ≤ maxTime ∧
      ¬(firstToken.expired d.after.now = true ∨
        d.after.redis.has (JTI_PREFIX ++ firstToken.jti) d.after.now = true ∨
        d.after.redis.has (SESSION_PREFIX ++ firstToken.sessionId) d.after.now = true) := by
    decide +kernel
  obtain ⟨d, hd, hreq, ho, hrow, hm, hnow, hn⟩ := hrun
  obtain ⟨r, hr, hu⟩ := Option.map_eq_some_iff.mp hrow
  have hn : ¬Rejected d.after firstToken := rejected_iff.not.mpr hn
  refine ⟨history_serve (by decide +kernel), d, hd, ⟨ho, unary 11, _, r, hreq, hr, hu⟩, hm, hn,
    fun h => hn ?_⟩
  exact h.access firstToken hm rfl [] _ .nil hnow

end AtlasAuth

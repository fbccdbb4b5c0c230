import AtlasAuth.Proof.AuditTrail
import AtlasAuth.Proof.Replay

/-!
# When a reuse is reported

A refresh reports a reuse if the token it presents is revoked, and a token is
revoked for more reasons than that it has been exchanged: a logout, an eviction
of its session and a reuse of another token of its family revoke it as well
(`Cancels`), and the row does not tell these apart. So a reuse is reported if
and only if the history has exchanged the token or cancelled it
(`reuse_reported_iff`).
-/

namespace AtlasAuth

open Framework Framework.Table Prog

variable {env : Env} {w w' : World} {x : Except Exn Response} {r : Request} {hash : String}

/-- A refresh that has exchanged the token with this hash for its successor. -/
def HasExchanged (env : Env) (hash : String) (d : Done Request World Exn Response) : Prop :=
  ∃ token c u tokens, d.req = .refresh (some token) c ∧ d.outcome = .ok (.session u tokens) ∧
    env.sha256 token = hash

/-- A request that revokes a refresh token without an exchange: a logout that
presents a token of its family, a reuse of one, or the eviction of its session
by `SessionsService`, which a password reset or change brings about, too. -/
inductive Cancels (env : Env) (t : RefreshToken) : Done Request World Exn Response → Prop
  | logout {bearer : JwtPayload} {cookie : Option String} {c : RequestContext} {w w' : World}
      {t' : RefreshToken} (ht : cookieRow env w cookie = some t') (hf : t.familyId = t'.familyId) :
      Cancels env t ⟨.logout bearer cookie c, w, .ok .done, w'⟩
  | reuse {cookie : Option String} {c : RequestContext} {w w' : World} {t' : RefreshToken}
      (ht : cookieRow env w cookie = some t') (hr : t'.revokedAt.isSome = true)
      (hf : t.familyId = t'.familyId) :
      Cancels env t ⟨.refresh cookie c, w, .error reuseError, w'⟩
  | eviction {r : Request} {a : Response} {w w' : World} {ids : List String}
      (hids : r.evicts env w = some ids) (hsid : t.sessionId ∈ ids) :
      Cancels env t ⟨r, w, .ok a, w'⟩

/-- A request that has cancelled the token with this hash, which was not
revoked before. -/
def Cancelled (env : Env) (hash : String) (d : Done Request World Exn Response) : Prop :=
  ∃ t, d.before.refreshTokens.find? (·.tokenHash == hash) = some t ∧ t.revokedAt = none ∧
    Cancels env t d

/-! ## One request -/

/-- Which tokens are revoked after an update that revokes some. -/
theorem tokenRevoked_revoke {q : RefreshToken → Bool} {now : Time}
    (h : w'.refreshTokens = updateWhere q (RefreshToken.revoke now) w.refreshTokens) :
    TokenRevoked hash w' ↔ ∃ t, w.refreshTokens.find? (·.tokenHash == hash) = some t ∧
      (t.revokedAt.isSome = true ∨ q t = true) := by
  rw [TokenRevoked, h, find?_updateWhere (by exact fun _ _ => rfl)]
  cases ht : w.refreshTokens.find? (·.tokenHash == hash) with
  | none => simp
  | some t => by_cases hq : q t = true <;> simp [hq, RefreshToken.revoke]

theorem tokenRevoked_congr (h : w'.refreshTokens = w.refreshTokens) :
    TokenRevoked hash w' ↔ TokenRevoked hash w := by
  rw [TokenRevoked, h, TokenRevoked]

/-- A revocation of the tokens `q`. -/
theorem newlyCancelled {q : RefreshToken → Bool} {now : Time}
    (h : w'.refreshTokens = updateWhere q (RefreshToken.revoke now) w.refreshTokens)
    (hq : ∀ t, q t = true → Cancels env t ⟨r, w, x, w'⟩) (hrev : TokenRevoked hash w') :
    TokenRevoked hash w ∨ HasExchanged env hash ⟨r, w, x, w'⟩ ∨ Cancelled env hash ⟨r, w, x, w'⟩ := by
  obtain ⟨t, ht, hr⟩ := (tokenRevoked_revoke h).mp hrev
  cases hn : t.revokedAt with
  | some now => exact .inl ⟨t, ht, by simp [hn]⟩
  | none => exact .inr (.inr ⟨t, ht, hn, hq t (hr.resolve_left (by simp [hn]))⟩)

theorem Issued.tokenRevoked {u : String} {s : Session} {t : RefreshToken} {p : JwtPayload}
    (h : Issued env u s t p w w') (hrev : TokenRevoked hash w') : TokenRevoked hash w := by
  obtain ⟨t', ht', hr⟩ := hrev
  rw [h.refreshTokens, List.find?_append] at ht'
  rcases Option.or_eq_some_iff.mp ht' with ht' | ⟨-, ht'⟩
  · exact ⟨t', ht', hr⟩
  · obtain rfl := List.mem_singleton.mp (List.mem_of_find?_eq_some ht')
    simp [h.token.2.2.1] at hr

/-- A rotation revokes no token but the one that is exchanged. -/
theorem Rotated.newlyRevoked {t₀ t : RefreshToken} {p : JwtPayload} (h : Rotated env t₀ t p w w')
    (hf' : Fresh env w') (ht₀ : t₀ ∈ w.refreshTokens) (hrev : TokenRevoked hash w') :
    TokenRevoked hash w ∨ t₀.tokenHash = hash := by
  obtain ⟨now, htokens⟩ := h.refreshTokens
  have hids : Unique RefreshToken.id (w.refreshTokens ++ [t]) := by
    have := hf'.tokenId
    rwa [htokens, Table.Unique, map_updateWhere (by exact fun _ _ => rfl)] at this
  obtain ⟨t', ht', hr⟩ := hrev
  rw [htokens, find?_updateWhere (by exact fun _ _ => rfl)] at ht'
  obtain ⟨t₁, ht₁, rfl⟩ := Option.map_eq_some_iff.mp ht'
  by_cases hid : t₁.id = t₀.id
  · obtain rfl := hids.eq (List.mem_of_find?_eq_some ht₁) (List.mem_append_left _ ht₀) hid
    exact .inr (by simpa using List.find?_some ht₁)
  · simp only [beq_iff_eq, hid, if_false] at hr
    rw [List.find?_append] at ht₁
    rcases Option.or_eq_some_iff.mp ht₁ with ht₁ | ⟨-, ht₁⟩
    · exact .inl ⟨t₁, ht₁, hr⟩
    · obtain rfl := List.mem_singleton.mp (List.mem_of_find?_eq_some ht₁)
      obtain ⟨-, -, -, -, hlive, -⟩ := h.token
      simp [hlive] at hr

theorem newlyRetired (hs : Sound env w) (h : Completes env r w x w') (hx : Answered x)
    (hrev : TokenRevoked hash w') :
    TokenRevoked hash w ∨ HasExchanged env hash ⟨r, w, x, w'⟩ ∨ Cancelled env hash ⟨r, w, x, w'⟩ := by
  have kept (h : w'.refreshTokens = w.refreshTokens) : TokenRevoked hash w :=
    (tokenRevoked_congr h).mp hrev
  have issued {w₁ : World} {u : String} {s : Session} {t : RefreshToken} {p : JwtPayload}
      (hc : Calm w w₁) (hi : Issued env u s t p w₁ w') : TokenRevoked hash w :=
    (tokenRevoked_congr hc.refreshTokens).mp (hi.tokenRevoked hrev)
  have evicted {ids : List String} {a : Response} (hids : r.evicts env w = some ids) (ha : x = .ok a)
      (he : Evicts env ids w w') :
      TokenRevoked hash w ∨ HasExchanged env hash ⟨r, w, x, w'⟩ ∨ Cancelled env hash ⟨r, w, x, w'⟩ := by
    obtain ⟨w₁, hc, -, he⟩ := he
    obtain ⟨now, htokens⟩ := he.refreshTokens
    subst ha
    refine newlyCancelled (hc.refreshTokens ▸ htokens) (fun t ht => .eviction hids ?_) hrev
    simpa using (Bool.and_eq_true_iff.mp ht).1
  cases r with
  | register dto c =>
    rcases completes_register hs.ready h hx with ⟨b, -, w₁, s₁, t, hc, -, -, hi⟩ | h'
    · exact .inl (issued hc hi)
    · exact .inl (kept h'.2.refreshTokens)
  | login dto c =>
    obtain ⟨y, h', rfl⟩ := completes_login hs.ready h
    cases h' with
    | unknown _ q _ => exact .inl (kept q.refreshTokens)
    | locked _ _ _ q _ => exact .inl (kept q.refreshTokens)
    | wrong _ _ _ _ _ q _ => exact .inl (kept q.refreshTokens)
    | right _ _ _ _ _ hc _ hi => exact .inl (issued hc hi)
    | broken => exact absurd rfl (hx _)
  | refresh cookie c =>
    rcases completes_refresh hs.ready h with ⟨-, h'⟩ | ⟨token, htok, y, h', rfl⟩
    · exact .inl (kept h'.2.refreshTokens)
    · cases h' with
      | refused _ q => exact .inl (kept q.refreshTokens)
      | broken => exact absurd rfl (hx _)
      | @reused t₀ ht hr hi =>
        obtain ⟨now, htokens⟩ := hi.refreshTokens
        refine newlyCancelled htokens (fun t hq => ?_) hrev
        have hrow : cookieRow env w cookie = some t₀ := by rw [cookieRow, htok, Option.bind_some, ht]
        exact .reuse hrow hr (by simpa using (Bool.and_eq_true_iff.mp hq).1)
      | @rotated t₀ t s u tokens ht _ _ _ _ _ _ hi =>
        have hf' := (completes_grows h).2 hs.fresh
        refine (hi.newlyRevoked hf' (List.mem_of_find?_eq_some ht) hrev).imp_right fun hhash => .inl ?_
        refine ⟨token, c, u, tokens, ?_, rfl, ?_⟩
        · exact congrArg (Request.refresh · c) (Option.eq_some_of_filter_eq_some htok)
        · have := List.find?_some ht
          simp_all
  | logout bearer cookie c =>
    rcases completes_logout hs.ready h hx with ⟨rfl, h'⟩ | h'
    · obtain ⟨now, htokens⟩ := h'.refreshTokens
      refine newlyCancelled htokens (fun t hq => ?_) hrev
      obtain ⟨t₀, ht₀, hq⟩ := (Option.any_eq_true _ _).mp hq
      exact .logout ht₀ (by simpa using (Bool.and_eq_true_iff.mp hq).1)
    · exact .inl (kept h'.2.refreshTokens)
  | resetPassword token new c =>
    rcases completes_resetPassword h hx with ⟨ho, l, hl, h'⟩ | h'
    · exact evicted (by rw [Request.evicts, Option.mem_def.mp hl]; rfl) ho h'.evicts
    · exact .inl (kept h'.2.refreshTokens)
  | changePassword | deleteSession | deleteOtherSessions | revokeSession | revokeAllOtherSessions
  | revokeAllSessions =>
    rcases completes_evicts rfl h hx with ⟨⟨a, ha⟩, h'⟩ | h'
    · exact evicted rfl ha h'
    · exact .inl (kept h'.2.refreshTokens)
  | _ => exact .inl (kept (leaves_minor (minor_program rfl) x w' h).refreshTokens)

theorem tokenRevoked_of_exchanged (hs : Sound env w) (h : Completes env r w x w')
    (he : HasExchanged env hash ⟨r, w, x, w'⟩) : TokenRevoked hash w' := by
  obtain ⟨token, c, u, tokens, rfl, rfl, rfl⟩ := he
  exact (tokenRevoked_of_exchange hs.ready h).2

/-- A token that was not revoked is one of those that are revoked. -/
theorem tokenRevoked_of_cancelled (hs : Sound env w) (h : Completes env r w x w') (hx : Answered x)
    (hc : Cancelled env hash ⟨r, w, x, w'⟩) : TokenRevoked hash w' := by
  obtain ⟨t, ht, hlive, hc⟩ := hc
  have ht : w.refreshTokens.find? (·.tokenHash == hash) = some t := ht
  cases hc with
  | @logout bearer cookie c _ _ t' ht' hf =>
    rcases completes_logout hs.ready h hx with ⟨-, h'⟩ | ⟨⟨e, he⟩, -⟩
    · obtain ⟨now, htokens⟩ := h'.refreshTokens
      refine (tokenRevoked_revoke htokens).mpr ⟨t, ht, .inr ((Option.any_eq_true _ _).mpr ⟨t', ht', ?_⟩)⟩
      simp [liveInFamily, hf, hlive]
    · cases he
  | @reuse cookie c _ _ t' ht' hr hf =>
    obtain ⟨token, htok, ht'⟩ := Option.bind_eq_some_iff.mp ht'
    obtain ⟨-, t₀, ht₀, hi⟩ := reused_of_revoked hs.ready htok ⟨t', ht', hr⟩ h
    obtain rfl := Option.some.inj (ht₀.symm.trans ht')
    obtain ⟨now, htokens⟩ := hi.refreshTokens
    exact (tokenRevoked_revoke htokens).mpr ⟨t, ht, .inr (by simp [liveInFamily, hf, hlive])⟩
  | @eviction _ a _ _ ids hids hsid =>
    rcases completes_evicts hids h hx with ⟨-, w₁, hc, -, he⟩ | ⟨⟨e, he⟩, -⟩
    · obtain ⟨now, htokens⟩ := he.refreshTokens
      refine (tokenRevoked_revoke (hc.refreshTokens ▸ htokens)).mpr ⟨t, ht, .inr ?_⟩
      simp [liveInSessions, hsid, hlive]
    · cases he

/-! ## Histories -/

/-- A token is revoked if and only if it has been exchanged or cancelled. -/
theorem tokenRevoked_iff {t : Time} {tr : List (Done Request World Exn Response)}
    (h : History env { now := t } tr w) :
    TokenRevoked hash w ↔ ∃ d ∈ tr, HasExchanged env hash d ∨ Cancelled env hash d := by
  refine h.exists_iff (P := TokenRevoked hash) ?_ (fun _ _ => Iff.rfl) ?_
  · rintro ⟨t, ht, -⟩
    cases ht
  · intro tr w r x w' h he hx
    have hs := (Sound.init t).history h
    refine ⟨newlyRetired hs he hx, ?_⟩
    rintro (hr | hr | hr)
    · exact hr.grows (completes_grows he).1
    · exact tokenRevoked_of_exchanged hs he hr
    · exact tokenRevoked_of_cancelled hs he hx hr

/-! ## The report -/

/-- The event of a reuse was emitted. -/
def ReportsReuse (d : Done Request World Exn Response) : Prop :=
  ∃ u f c, .tokenReuseDetected u f c ∈ d.after.emittedSince d.before

/-- A reuse was entered in the audit log. -/
def AuditsReuse (d : Done Request World Exn Response) : Prop :=
  ∃ row ∈ (audit d).auditLogs, row.action = AuthEventName.TOKEN_REUSE_DETECTED

/-- The token of the cookie has been exchanged or cancelled. -/
def Retired (env : Env) (tr : List (Done Request World Exn Response)) (cookie : Option String) : Prop :=
  ∃ token, truthy cookie = some token ∧
    ∃ d ∈ tr, HasExchanged env (env.sha256 token) d ∨ Cancelled env (env.sha256 token) d

theorem cookieRow_revoked {cookie : Option String} :
    (∃ t, cookieRow env w cookie = some t ∧ t.revokedAt.isSome = true) ↔
      ∃ token, truthy cookie = some token ∧ TokenRevoked (env.sha256 token) w := by
  simp only [cookieRow, Option.bind_eq_some_iff, TokenRevoked]
  constructor
  · rintro ⟨t, ⟨token, h, ht⟩, hr⟩
    exact ⟨token, h, t, ht, hr⟩
  · rintro ⟨token, h, t, ht, hr⟩
    exact ⟨t, ⟨token, h, ht⟩, hr⟩

variable {cookie : Option String} {c : RequestContext}

/-- What a refresh that presents a revoked token reports. -/
theorem events_of_revoked (hs : Sound env w) (h : Completes env (.refresh cookie c) w x w')
    (hx : Answered x) {t : RefreshToken} (ht : cookieRow env w cookie = some t)
    (hr : t.revokedAt.isSome = true) :
    w'.emittedSince w = [.tokenReuseDetected t.userId t.familyId c] ∧
      operations env ⟨.refresh cookie c, w, x, w'⟩ = [.reuseDetection t.userId t.familyId] := by
  obtain ⟨token, htok, hrev⟩ := cookieRow_revoked.mp ⟨t, ht, hr⟩
  obtain ⟨rfl, -⟩ := reused_of_revoked hs.ready htok hrev h
  rw [emittedSince_completes hs.ready h hx]
  simp [Request.events, Request.alarms, operations, Request.detects, ht, hr, Option.filter_some]

theorem operations_of_not_revoked
    (hn : ¬∃ t, cookieRow env w cookie = some t ∧ t.revokedAt.isSome = true) :
    operations env ⟨.refresh cookie c, w, x, w'⟩ = [] := by
  cases x with
  | ok a => rfl
  | error e =>
    show ((cookieRow env w cookie).filter (·.revokedAt.isSome)).toList.map _ = []
    cases ht : cookieRow env w cookie with
    | none => rfl
    | some t => simp [Option.filter_some, Bool.eq_false_iff.mpr fun hr => hn ⟨t, ht, hr⟩]

theorem reportsReuse_iff (hs : Sound env w) (h : Completes env (.refresh cookie c) w x w')
    (hx : Answered x) : ReportsReuse ⟨.refresh cookie c, w, x, w'⟩ ↔
      ∃ t, cookieRow env w cookie = some t ∧ t.revokedAt.isSome = true := by
  constructor
  · rintro ⟨u, f, c', he⟩
    change _ ∈ w'.emittedSince w at he
    rw [emittedSince_completes hs.ready h hx] at he
    cases x with
    | ok a =>
      cases a with
      | session u tokens => cases List.mem_singleton.mp he
      | _ => cases he
    | error e =>
      obtain ⟨t, ht, -⟩ := List.mem_map.mp he
      exact ⟨t, Option.filter_eq_some_iff.mp (Option.mem_toList.mp ht)⟩
  · rintro ⟨t, ht, hr⟩
    exact ⟨t.userId, t.familyId, c, (events_of_revoked hs h hx ht hr).1 ▸ List.mem_singleton_self _⟩

theorem auditsReuse_iff (hs : Sound env w) (h : Completes env (.refresh cookie c) w x w')
    (hx : Answered x) : AuditsReuse ⟨.refresh cookie c, w, x, w'⟩ ↔
      ∃ t, cookieRow env w cookie = some t ∧ t.revokedAt.isSome = true := by
  have hrows : List.Forall₂ AuditLog.Records (audit ⟨.refresh cookie c, w, x, w'⟩).auditLogs
      (operations env ⟨.refresh cookie c, w, x, w'⟩) := (audit_step hs h hx).1 rfl
  constructor
  · rintro ⟨row, hrow, -⟩
    by_contra hn
    rw [operations_of_not_revoked hn, List.forall₂_nil_right_iff] at hrows
    rw [hrows] at hrow
    cases hrow
  · rintro ⟨t, ht, hr⟩
    rw [(events_of_revoked hs h hx ht hr).2] at hrows
    obtain ⟨row, _, hrec, -, hlogs⟩ := List.forall₂_cons_right_iff.mp hrows
    exact ⟨row, hlogs ▸ List.mem_cons_self, hrec.action⟩

/-- In every state that completed requests lead to, a refresh reports a reuse,
by an event and in the audit log, if and only if the token it presents has been
exchanged before, or cancelled. -/
theorem reuse_reported_iff {t : Time} {tr : List (Done Request World Exn Response)}
    (h : History env { now := t } tr w) (he : Completes env (.refresh cookie c) w x w')
    (hx : Answered x) :
    (ReportsReuse ⟨.refresh cookie c, w, x, w'⟩ ↔ Retired env tr cookie) ∧
      (AuditsReuse ⟨.refresh cookie c, w, x, w'⟩ ↔ Retired env tr cookie) := by
  have hs := (Sound.init t).history h
  have hretired : (∃ t, cookieRow env w cookie = some t ∧ t.revokedAt.isSome = true) ↔
      Retired env tr cookie := by
    rw [cookieRow_revoked, Retired]
    simp only [tokenRevoked_iff h]
  exact ⟨(reportsReuse_iff hs he hx).trans hretired, (auditsReuse_iff hs he hx).trans hretired⟩

/-- A registration, and the exchange of its refresh token. -/
def exchangedOnce : List (Done Request World Exn Response) × World :=
  (system .sample).serve
    [(0, .register ⟨"a@b.co", "Passw0rd!", none, none⟩ ⟨none, none⟩),
     (1000, .refresh (some (unary 3)) ⟨none, none⟩)] { now := 0 }

/-- The token that was exchanged is presented again. -/
def exchangedAgain : Done Request World Exn Response :=
  let x := (program .sample (.refresh (some (unary 3)) ⟨none, none⟩)).run exchangedOnce.2
  ⟨.refresh (some (unary 3)) ⟨none, none⟩, exchangedOnce.2, x.1, x.2⟩

theorem exchangedAgain_reported :
    Retired .sample exchangedOnce.1 (some (unary 3)) ∧ AuditsReuse exchangedAgain := by
  have h : History .sample { now := 0 } exchangedOnce.1 exchangedOnce.2 :=
    history_serve (by decide +kernel)
  have hreport : ReportsReuse exchangedAgain := ⟨unary 1, unary 6, ⟨none, none⟩, by decide +kernel⟩
  have he : Completes .sample (.refresh (some (unary 3)) ⟨none, none⟩) exchangedOnce.2
      exchangedAgain.outcome exchangedAgain.after := completes_run _ _
  have hiff := reuse_reported_iff h he (by decide +kernel)
  exact ⟨hiff.1.mp hreport, hiff.2.mpr (hiff.1.mp hreport)⟩

/-- A registration, and a logout with its refresh token. -/
def loggedOut : List (Done Request World Exn Response) × World :=
  (system .sample).serve
    [(0, .register ⟨"a@b.co", "Passw0rd!", none, none⟩ ⟨none, none⟩),
     (1000, .logout firstToken (some (unary 3)) ⟨none, none⟩)] { now := 0 }

/-- The token that was logged out is presented. -/
def loggedOutRefresh : Done Request World Exn Response :=
  let x := (program .sample (.refresh (some (unary 3)) ⟨none, none⟩)).run loggedOut.2
  ⟨.refresh (some (unary 3)) ⟨none, none⟩, loggedOut.2, x.1, x.2⟩

theorem loggedOut_reported :
    History .sample { now := 0 } (loggedOut.1 ++ [loggedOutRefresh]) loggedOutRefresh.after ∧
      ReportsReuse loggedOutRefresh ∧
      ∀ d ∈ loggedOut.1, ¬HasExchanged .sample (Env.sample.sha256 (unary 3)) d := by
  have h : History .sample { now := 0 } loggedOut.1 loggedOut.2 := history_serve (by decide +kernel)
  have he : Completes .sample (.refresh (some (unary 3)) ⟨none, none⟩) loggedOut.2
      loggedOutRefresh.outcome loggedOutRefresh.after := completes_run _ _
  refine ⟨.done h he (by decide +kernel), ⟨unary 1, unary 6, ⟨none, none⟩, by decide +kernel⟩, ?_⟩
  rintro d hd ⟨token, c, u, tokens, hreq, -⟩
  have hreqs : loggedOut.1.map (·.req) = [.register ⟨"a@b.co", "Passw0rd!", none, none⟩ ⟨none, none⟩,
    .logout firstToken (some (unary 3)) ⟨none, none⟩] := rfl
  have hmem : d.req ∈ loggedOut.1.map (·.req) := List.mem_map_of_mem hd
  simp [hreqs, hreq] at hmem

end AtlasAuth

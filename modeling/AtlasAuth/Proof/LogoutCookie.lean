import AtlasAuth.Proof.Eviction

/-!
# The two sessions of a logout

A logout ends the session of its access token, and revokes the family of the
refresh token in its cookie, which may be that of another session. It leaves
the other sessions alone if and only if the cookie has no refresh token that is
known, or one of the same session, or one whose family is revoked already
(`logout_spares`).
-/

namespace AtlasAuth

open Framework Framework.Table Prog

variable {env : Env} {w w' : World} {x : Except Exn Response} {bearer : JwtPayload}
  {cookie : Option String} {c : RequestContext}

/-- The sessions other than this one and their refresh tokens are as they were,
and those that could be refreshed still can be. -/
structure Spares (env : Env) (sid : String) (w w' : World) : Prop where
  sessions : w'.sessions.filter (·.id != sid) = w.sessions.filter (·.id != sid)
  refreshTokens : w'.refreshTokens.filter (·.sessionId != sid) =
    w.refreshTokens.filter (·.sessionId != sid)
  exchanged : ∀ token n c, (∃ t ∈ w.refreshTokens, t.tokenHash = env.sha256 token ∧ t.sessionId ≠ sid) →
    Exchanges env w token n c → Exchanges env w' token n c

/-- The refresh token in the cookie is unknown, or one of this session, or its
family is revoked. -/
def Harmless (env : Env) (w : World) (sid : String) (cookie : Option String) : Prop :=
  ∀ token, truthy cookie = some token →
    ∀ t₀ ∈ w.refreshTokens.find? (·.tokenHash == env.sha256 token),
      t₀.sessionId = sid ∨ ∀ t ∈ w.refreshTokens, t.familyId = t₀.familyId → t.revokedAt.isSome = true

theorem liveInCookieFamily_iff {t : RefreshToken} :
    liveInCookieFamily env w cookie t = true ↔ ∃ token, truthy cookie = some token ∧
      ∃ t₀ ∈ w.refreshTokens.find? (·.tokenHash == env.sha256 token),
        t.familyId = t₀.familyId ∧ t.revokedAt = none := by
  simp only [liveInCookieFamily, Option.any_eq_true, Option.bind_eq_some_iff, liveInFamily,
    Bool.and_eq_true, beq_iff_eq, Option.isNone_iff_eq_none, Option.mem_def]
  constructor
  · rintro ⟨t₀, ⟨token, htok, ht₀⟩, hl⟩
    exact ⟨token, htok, t₀, ht₀, hl⟩
  · rintro ⟨token, htok, t₀, ht₀, hl⟩
    exact ⟨t₀, ⟨token, htok, ht₀⟩, hl⟩

/-- The family of a refresh token is that of its session. -/
theorem Sound.sameSession (hs : Sound env w) {t t₀ : RefreshToken} (ht : t ∈ w.refreshTokens)
    (h₀ : t₀ ∈ w.refreshTokens) (hf : t.familyId = t₀.familyId) : t.sessionId = t₀.sessionId :=
  (hs.coherent.places.iff _ (List.mem_map_of_mem (f := RefreshToken.place) ht) _
    (List.mem_map_of_mem (f := RefreshToken.place) h₀)).mp hf

/-- A harmless logout revokes no refresh token of another session. -/
theorem Harmless.live_eq_false (hs : Sound env w) (h : Harmless env w bearer.sessionId cookie)
    {t : RefreshToken} (ht : t ∈ w.refreshTokens) (hne : t.sessionId ≠ bearer.sessionId) :
    liveInCookieFamily env w cookie t = false := by
  refine Bool.eq_false_iff.mpr fun hl => ?_
  obtain ⟨token, htok, t₀, ht₀, hf, hr⟩ := liveInCookieFamily_iff.mp hl
  rcases h token htok t₀ ht₀ with hsid | hrev
  · exact hne ((hs.sameSession ht (List.mem_of_find?_eq_some ht₀) hf).trans hsid)
  · simpa [hr] using hrev t ht hf

theorem LoggedOut.spares (hs : Sound env w) (hs' : Sound env w') (hg : Grows w w')
    (h : LoggedOut env bearer cookie w w') (hh : Harmless env w bearer.sessionId cookie) :
    Spares env bearer.sessionId w w' := by
  obtain ⟨now, hsess⟩ := h.sessions
  obtain ⟨now', htok⟩ := h.refreshTokens
  have htokens {q : RefreshToken → Bool} (hq : ∀ t, q t = true → t.sessionId ≠ bearer.sessionId)
      (hrevoke : ∀ t : RefreshToken, q (t.revoke now') = q t) :
      w'.refreshTokens.filter q = w.refreshTokens.filter q := by
    rw [htok]
    exact filter_updateWhere_of_none (fun t _ => hrevoke t) fun t ht hqt =>
      hh.live_eq_false hs ht (hq t hqt)
  refine ⟨?_, htokens (fun t ht => by simpa using ht) fun _ => rfl, fun token n c ⟨t, ht, hhash, hne⟩ => ?_⟩
  · rw [hsess]
    exact filter_updateWhere_of_none (fun _ _ => rfl) fun s _ hne => by simpa using hne
  · refine (exchanges_congr (k := t.sessionId) hs hs' hg ?_ ?_ ⟨t, ht, hhash, rfl⟩).mpr
    · rw [hsess, find?_updateWhere (by exact fun _ _ => rfl)]
      cases hf : w.sessions.find? (·.id == t.sessionId) with
      | none => rfl
      | some s =>
        have hid : s.id = t.sessionId := by simpa using List.find?_some hf
        simp [hid, hne]
    · exact htokens (fun t' ht' => by simpa [show t'.sessionId = t.sessionId by simpa using ht'] using hne)
        fun _ => rfl

theorem LoggedOut.harmless (hs : Sound env w) (h : LoggedOut env bearer cookie w w')
    (hp : Spares env bearer.sessionId w w') : Harmless env w bearer.sessionId cookie := by
  obtain ⟨now, htok⟩ := h.refreshTokens
  intro token hcookie t₀ ht₀
  by_contra hn
  obtain ⟨hne, hlive⟩ := not_or.mp hn
  obtain ⟨t, ht, hf, hr⟩ : ∃ t ∈ w.refreshTokens, t.familyId = t₀.familyId ∧ t.revokedAt = none := by
    simpa using hlive
  have hsid := hs.sameSession ht (List.mem_of_find?_eq_some ht₀) hf
  have hkept : t ∈ w'.refreshTokens.filter (·.sessionId != bearer.sessionId) := by
    rw [hp.refreshTokens]
    exact List.mem_filter.mpr ⟨ht, by simpa [hsid] using hne⟩
  have hmem := (List.mem_filter.mp hkept).1
  rw [htok] at hmem
  obtain ⟨t₁, -, he⟩ := mem_updateWhere.mp hmem
  have hl := liveInCookieFamily_iff.mpr ⟨token, hcookie, t₀, ht₀, hf, hr⟩
  split at he
  · rw [he] at hr
    cases hr
  · rename_i hn
    exact hn (he ▸ hl)

/-- A logout leaves the other sessions alone if and only if its cookie is
harmless to them. -/
theorem logout_spares (hw : Reachable env w)
    (hx : Completes env (.logout bearer cookie c) w (.ok .done) w') :
    Spares env bearer.sessionId w w' ↔ Harmless env w bearer.sessionId cookie := by
  obtain ⟨t, tr, hw⟩ := hw
  have hs := (Sound.init t).history hw
  have hs' : Sound env w' := hs.completes hx fun _ h => by cases h
  obtain ⟨-, h⟩ | ⟨⟨e, he⟩, -⟩ := completes_logout hs.ready hx fun _ h => by cases h
  · exact ⟨h.harmless hs, h.spares hs hs' (completes_grows hx).1⟩
  · cases he

/-- A logout of the first session of a user, with a cookie. -/
def firstLogout (cookie : Option String) : Except Exn Response × World :=
  (program .sample (.logout firstToken cookie ⟨none, none⟩)).run twoDevices.2

/-- The cookie is that of the session which is logged out. -/
theorem firstLogout_spares :
    (twoDevices.2.refreshTokens.any fun t => t.tokenHash == Env.sample.sha256 (unary 3)) = true ∧
      Spares .sample (unary 4) twoDevices.2 (firstLogout (some (unary 3))).2 := by
  have hx : Completes .sample (.logout firstToken (some (unary 3)) ⟨none, none⟩) twoDevices.2 (.ok .done)
      (firstLogout (some (unary 3))).2 := completes_of_run (by decide +kernel)
  refine ⟨by decide +kernel, (logout_spares ⟨0, _, history_serve (by decide +kernel)⟩ hx).mpr ?_⟩
  intro token htoken t₀ ht₀
  have htruthy : truthy (some (unary 3)) = some (unary 3) := by decide +kernel
  obtain rfl : unary 3 = token := Option.some.inj (htruthy.symm.trans htoken)
  have hsession : ∀ t ∈ twoDevices.2.refreshTokens.find? (·.tokenHash == Env.sample.sha256 (unary 3)),
      t.sessionId = unary 4 := by decide +kernel
  exact .inl (hsession t₀ ht₀)

/-- With the refresh token of the second session in its cookie, the logout of
the first revokes it, and the next refresh of the second session counts as a
reuse. -/
theorem firstLogout_reused :
    Reachable .sample twoDevices.2 ∧
    Completes .sample (.logout firstToken (some (unary 8)) ⟨none, none⟩) twoDevices.2 (.ok .done)
      (firstLogout (some (unary 8))).2 ∧
    (twoDevices.2.refreshTokens.find? (·.tokenHash == Env.sample.sha256 (unary 8))).map
      (fun t => (t.sessionId, t.revokedAt)) = some (unary 9, none) ∧
    (∃ u tokens, ((program .sample (.refresh (some (unary 8)) ⟨none, none⟩)).run twoDevices.2).1 =
      .ok (.session u tokens)) ∧
    ((program .sample (.refresh (some (unary 8)) ⟨none, none⟩)).run
      (firstLogout (some (unary 8))).2).1 = .error reuseError :=
  ⟨⟨0, _, history_serve (by decide +kernel)⟩, completes_of_run (by decide +kernel), by decide +kernel,
    exists_session (by decide +kernel), by decide +kernel⟩

end AtlasAuth

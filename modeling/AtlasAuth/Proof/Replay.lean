import AtlasAuth.Proof.Families

/-!
# Replays of a refresh token

A refresh token that has been exchanged is revoked, and stays so. Whoever
presents it again is refused, however much later; the family and the session
of the token are then revoked and nothing else is (`replay_detected`), and no
refresh of that family or that session succeeds any more.
-/

namespace AtlasAuth

open Framework Framework.Table Prog

variable {env : Env} {w w' : World}

/-- A state of completed requests, after one more of them. -/
theorem Sound.completes (h : Sound env w) {r : Request} {x : Except Exn Response}
    (he : Completes env r w x w') (hx : Answered x) : Sound env w' :=
  h.history (System.Trace.one he hx)

/-- The token that a refresh presents is the one in the cookie. -/
theorem eq_of_truthy {token token' : String} (h : truthy (some token) = some token') :
    token' = token :=
  (Option.some.inj (Option.eq_some_of_filter_eq_some h)).symm

theorem Rotated.tokenRevoked {t₀ t : RefreshToken} {p : JwtPayload} {hash : String}
    (h : Rotated env t₀ t p w w')
    (ht : w.refreshTokens.find? (·.tokenHash == hash) = some t₀) : TokenRevoked hash w' := by
  obtain ⟨now, htokens⟩ := h.refreshTokens
  rw [TokenRevoked, htokens, find?_updateWhere (by exact fun _ _ => rfl), List.find?_append, ht]
  exact ⟨_, rfl, by simp⟩

/-- A token that has been exchanged is revoked. -/
theorem tokenRevoked_of_exchange (hr : Ready env w) {token : String} {c : RequestContext}
    {u : User} {tokens : SessionTokens}
    (h : Completes env (.refresh (some token) c) w (.ok (.session u tokens)) w') :
    truthy (some token) = some token ∧ TokenRevoked (env.sha256 token) w' := by
  obtain ⟨-, ⟨e, he⟩, -⟩ | ⟨token', htok, r, hl, e⟩ := completes_refresh hr h
  · cases he
  · obtain rfl := eq_of_truthy htok
    cases hl with
    | rotated ht _ _ _ _ _ _ hi => exact ⟨htok, hi.tokenRevoked ht⟩
    | refused | broken | reused => cases e

/-- A refresh that presents a revoked token. -/
theorem reused_of_revoked (hr : Ready env w) {cookie : Option String} {token : String}
    {c : RequestContext} {x : Except Exn Response} (htok : truthy cookie = some token)
    (hrev : TokenRevoked (env.sha256 token) w) (h : Completes env (.refresh cookie c) w x w') :
    x = .error reuseError ∧ ∃ t₀, w.refreshTokens.find? (·.tokenHash == env.sha256 token) = some t₀ ∧
      Revokes (·.id == t₀.sessionId) (liveInFamily t₀.familyId) w w' := by
  obtain ⟨t, ht, hrevoked⟩ := hrev
  obtain ⟨hnone, -⟩ | ⟨token', htok', r, hl, rfl⟩ := completes_refresh hr h
  · cases hnone.symm.trans htok
  · obtain rfl := Option.some.inj (htok'.symm.trans htok)
    cases hl with
    | reused ht₀ _ hi => exact ⟨rfl, _, ht₀, hi⟩
    | refused hn | broken hn => simp [hn t ht] at hrevoked
    | rotated ht₀ hlive =>
      obtain rfl := Option.some.inj (ht₀.symm.trans ht)
      simp [hlive] at hrevoked

theorem Revokes.family {p : Session → Bool} {f : String} (h : Revokes p (liveInFamily f) w w') :
    ∀ t ∈ w'.family f, t.revokedAt.isSome = true := by
  obtain ⟨now, htokens⟩ := h.refreshTokens
  intro t ht
  obtain ⟨ht, hfam⟩ := List.mem_filter.mp ht
  obtain ⟨t₀, -, rfl⟩ := mem_updateWhere.mp (htokens ▸ ht)
  split at hfam
  · simp [RefreshToken.revoke, *]
  · rename_i hn
    simp only [hn]
    simpa [liveInFamily, hfam, Option.isSome_iff_ne_none] using hn

/-- Everything outside a family and its session is left as it was. -/
theorem Revokes.elsewhere {sid f : String} (h : Revokes (·.id == sid) (liveInFamily f) w w') :
    w'.sessions.filter (·.id != sid) = w.sessions.filter (·.id != sid) ∧
      w'.refreshTokens.filter (·.familyId != f) = w.refreshTokens.filter (·.familyId != f) := by
  obtain ⟨now, hsess⟩ := h.sessions
  obtain ⟨now', htokens⟩ := h.refreshTokens
  rw [hsess, htokens, filter_updateWhere (by exact fun _ _ => rfl),
    filter_updateWhere (by exact fun _ _ => rfl)]
  refine ⟨updateWhere_of_none fun s hs => ?_, updateWhere_of_none fun t ht => ?_⟩
  · simpa using (List.mem_filter.mp hs).2
  · have hne := (List.mem_filter.mp ht).2
    simp_all [liveInFamily]

/-- No refresh of a family or a session succeeds while the session is
revoked. -/
theorem refresh_fails (hs : Sound env w) {t₀ t : RefreshToken} (h₀ : t₀ ∈ w.refreshTokens)
    (hrev : SessionRevoked t₀.sessionId w) {token : String} {c : RequestContext}
    {x : Except Exn Response} (h : Completes env (.refresh (some token) c) w x w')
    (ht : t ∈ w.refreshTokens) (hhash : t.tokenHash = env.sha256 token)
    (hof : t.familyId = t₀.familyId ∨ t.sessionId = t₀.sessionId) : ∃ e, x = .error e := by
  have hsid : t.sessionId = t₀.sessionId := hof.elim
    (hs.coherent.places.iff _ (List.mem_map_of_mem (f := RefreshToken.place) ht) _
      (List.mem_map_of_mem (f := RefreshToken.place) h₀)).mp id
  obtain ⟨-, he, -⟩ | ⟨token', htok, r, hl, rfl⟩ := completes_refresh hs.ready h
  · exact he
  · obtain rfl := eq_of_truthy htok
    cases hl with
    | refused | broken | reused => exact ⟨_, rfl⟩
    | rotated ht' _ hfind hlive =>
      obtain rfl := Option.some.inj (ht'.symm.trans (hs.fresh.tokenHash.find?.mpr ⟨ht, hhash⟩))
      obtain ⟨s, hfind', hr⟩ := hrev
      obtain rfl := Option.some.inj (hfind.symm.trans (hsid ▸ hfind'))
      simp [hlive] at hr

/-- After a token has been exchanged, in any state that completed requests
lead to, a refresh that presents it again is refused. It leaves the session
and the family of the token revoked and everything else as it was, and no
refresh of that family or session ever succeeds. -/
theorem replay_detected {t : Time} {tr₁ tr₂ : List (Done Request World Exn Response)}
    {w₁ w₂ w₃ w₄ : World} {token : String} {c c' : RequestContext} {u : User}
    {tokens : SessionTokens} {x : Except Exn Response} (h₁ : History env { now := t } tr₁ w₁)
    (hex : Completes env (.refresh (some token) c) w₁ (.ok (.session u tokens)) w₂)
    (h₂ : History env w₂ tr₂ w₃) (hre : Completes env (.refresh (some token) c') w₃ x w₄) :
    x = .error reuseError ∧
    ∃ t₀, w₃.refreshTokens.find? (·.tokenHash == env.sha256 token) = some t₀ ∧
      SessionRevoked t₀.sessionId w₄ ∧
      (∀ t' ∈ w₄.family t₀.familyId, t'.revokedAt.isSome = true) ∧
      w₄.sessions.filter (·.id != t₀.sessionId) = w₃.sessions.filter (·.id != t₀.sessionId) ∧
      w₄.refreshTokens.filter (·.familyId != t₀.familyId) =
        w₃.refreshTokens.filter (·.familyId != t₀.familyId) ∧
      ∀ tr₃ w₅, History env w₄ tr₃ w₅ → ∀ d ∈ tr₃, ∀ token' c'',
        d.req = .refresh (some token') c'' →
        (∃ t' ∈ d.before.refreshTokens, t'.tokenHash = env.sha256 token' ∧
          (t'.familyId = t₀.familyId ∨ t'.sessionId = t₀.sessionId)) →
        ∃ e, d.outcome = .error e := by
  have hs₁ := (Sound.init t).history h₁
  have hs₃ := (hs₁.completes hex fun _ => nofun).history h₂
  obtain ⟨htok, hrev⟩ := tokenRevoked_of_exchange hs₁.ready hex
  obtain ⟨rfl, t₀, ht₀, hr⟩ := reused_of_revoked hs₃.ready htok
    (hrev.grows (history_grows h₂).1) hre
  have hm₀ := List.mem_of_find?_eq_some ht₀
  have hrevoked : SessionRevoked t₀.sessionId w₄ := by
    obtain ⟨s, hs⟩ := Option.isSome_iff_exists.mp (hs₃.ready.tokenSession t₀ hm₀)
    obtain ⟨now, hsess⟩ := hr.sessions
    exact ⟨_, hsess ▸ find?_revoke now hs (List.find?_some hs), rfl⟩
  refine ⟨rfl, t₀, ht₀, hrevoked, hr.family, hr.elsewhere.1, hr.elsewhere.2, ?_⟩
  rintro tr₃ w₅ h₃ d hd token' c'' hreq ⟨t', ht', hhash, hof⟩
  obtain ⟨trb, tra, hb, he, -, -⟩ := System.Trace.mem h₃ hd
  have hg := (completes_grows hre).1.trans (history_grows hb).1
  obtain ⟨t₀', hm₀', hk⟩ := hg.refreshTokens.mem hm₀
  have hsb := (hs₃.completes hre (by exact fun _ => nofun)).history hb
  refine refresh_fails hsb hm₀' ?_ (hreq ▸ he) ht' hhash ?_
  · rw [hk.2.2.1]
    exact hrevoked.grows (history_grows hb).1
  · rwa [hk.2.2.1, hk.2.2.2.1]

/-- A registration, and the exchange of its refresh token. -/
def exchanged : List (Done Request World Exn Response) × World :=
  (system .sample).serve [(0, .register ⟨"a@b.co", "Passw0rd!", none, none⟩ ⟨none, none⟩)] { now := 0 }

def exchange : Except Exn Response × World :=
  (program .sample (.refresh (some (unary 3)) ⟨none, none⟩)).run exchanged.2

/-- One more exchange; the first token is presented again after forty days. -/
def fortyDays : List (Done Request World Exn Response) × World :=
  (system .sample).serve
    [(1000, .refresh (some (unary 8)) ⟨none, none⟩), (40 * 86400000, .forgotPassword "b")] exchange.2

def replayed : Except Exn Response × World :=
  (program .sample (.refresh (some (unary 3)) ⟨none, none⟩)).run fortyDays.2

theorem replayed_detected :
    replayed.1 = .error reuseError ∧ SessionRevoked (unary 4) replayed.2 ∧
      ∀ t ∈ replayed.2.family (unary 6), t.revokedAt.isSome = true := by
  have h₁ : History .sample { now := 0 } exchanged.1 exchanged.2 :=
    history_serve (by decide +kernel)
  have h₂ : History .sample exchange.2 fortyDays.1 fortyDays.2 := history_serve (by decide +kernel)
  obtain ⟨u, tokens, hex⟩ : ∃ u tokens, exchange.1 = .ok (.session u tokens) :=
    exists_session (by decide +kernel)
  have hex' : Completes .sample (.refresh (some (unary 3)) ⟨none, none⟩) exchanged.2
      (.ok (.session u tokens)) exchange.2 := hex ▸ completes_run _ _
  obtain ⟨he, t₀, ht₀, hs, hf, -⟩ := replay_detected h₁ hex' h₂ (completes_run _ _)
  have hrow : ∀ t₀, fortyDays.2.refreshTokens.find? (·.tokenHash == Env.sample.sha256 (unary 3)) =
      some t₀ → t₀.sessionId = unary 4 ∧ t₀.familyId = unary 6 := by
    intro t₀ h
    have : (fortyDays.2.refreshTokens.find? (·.tokenHash == Env.sample.sha256 (unary 3))).map
        (fun t => (t.sessionId, t.familyId)) = some (unary 4, unary 6) := by decide +kernel
    rw [h] at this
    exact Prod.mk.inj (Option.some.inj this)
  obtain ⟨e₁, e₂⟩ := hrow t₀ ht₀
  exact ⟨he, e₁ ▸ hs, e₂ ▸ hf⟩

end AtlasAuth

import AtlasAuth.Proof.Blacklist
import AtlasAuth.Proof.Replay

/-!
# The refresh tokens of a revoked session

A session is revoked by a reuse of one of its refresh tokens, by
`SessionsService`, or by a logout. The first two revoke all its refresh tokens
with it; a logout revokes the family of the refresh token it presents, if any
(`newly_revoked`). So the refresh tokens of a revoked session are revoked
unless the session was logged out without any of them, and those that are left
are of no use: a refresh looks at the session, too.
-/

namespace AtlasAuth

open Framework Framework.Table Prog

variable {env : Env} {w w' : World} {x : Except Exn Response}
  {d : Done Request World Exn Response} {tr : List (Done Request World Exn Response)}

/-- Every refresh token of the session is revoked. -/
def NoLiveTokens (sid : String) (w : World) : Prop :=
  ∀ t ∈ w.refreshTokens, t.sessionId = sid → t.revokedAt.isSome = true

/-- A logout of the session that presents none of its refresh tokens. -/
def BareLogout (env : Env) (d : Done Request World Exn Response) (sid : String) : Prop :=
  d.outcome = .ok .done ∧ ∃ bearer cookie c, d.req = .logout bearer cookie c ∧
    bearer.sessionId = sid ∧ ∀ token, truthy cookie = some token →
      ∀ t ∈ d.before.refreshTokens, t.sessionId = sid → t.tokenHash ≠ env.sha256 token

/-! ## One revocation -/

/-- An update that revokes every unrevoked token of the session. -/
theorem noLiveTokens_revoke {sid : String} {q : RefreshToken → Bool} {now : Time}
    (htokens : w'.refreshTokens = updateWhere q (RefreshToken.revoke now) w.refreshTokens)
    (hq : ∀ t ∈ w.refreshTokens, t.sessionId = sid → t.revokedAt = none → q t = true) :
    NoLiveTokens sid w' := by
  intro t ht hsid
  rw [htokens] at ht
  obtain ⟨t₀, ht₀, rfl⟩ := mem_updateWhere.mp ht
  cases hq₀ : q t₀ with
  | true => simp [RefreshToken.revoke]
  | false =>
    simp only [hq₀, Bool.false_eq_true, if_false] at hsid ⊢
    cases hr : t₀.revokedAt with
    | some now => rfl
    | none => simp [hq t₀ ht₀ hsid hr] at hq₀

/-- No session is revoked that was not revoked before. -/
def RevokesNone (w w' : World) : Prop :=
  ∀ s' ∈ w'.sessions, s'.isRevoked = true → ∃ s ∈ w.sessions, s.id = s'.id ∧ s.isRevoked = true

theorem Calm.revokesNone (h : Calm w w') : RevokesNone w w' := fun s' hs' hr =>
  ⟨s', h.sessions ▸ hs', rfl, hr⟩

theorem Issued.revokesNone {u : String} {s : Session} {t : RefreshToken} {p : JwtPayload}
    (h : Issued env u s t p w w') : RevokesNone w w' := by
  intro s' hs' hr
  rw [h.sessions] at hs'
  rcases List.mem_append.mp hs' with hs' | hs'
  · exact ⟨s', hs', rfl, hr⟩
  · rw [List.mem_singleton.mp hs', h.session.2] at hr
    cases hr

theorem Rotated.revokesNone {t₀ t : RefreshToken} {p : JwtPayload} (h : Rotated env t₀ t p w w') :
    RevokesNone w w' := by
  intro s' hs' hr
  obtain ⟨now, hsess⟩ := h.sessions
  rw [hsess] at hs'
  obtain ⟨s, hs, rfl⟩ := mem_updateWhere.mp hs'
  refine ⟨s, hs, ?_, ?_⟩
  · split <;> rfl
  · split at hr <;> exact hr

/-- A session that an update has just revoked is one of those it was for. -/
theorem Fresh.chosen (hf : Fresh env w) {p : Session → Bool} {now : Time} {s s' : Session}
    (hsess : w'.sessions = updateWhere p (Session.revoke now) w.sessions) (hm : s ∈ w.sessions)
    (hn : s.isRevoked = false) (hm' : s' ∈ w'.sessions) (he : s'.id = s.id)
    (hr : s'.isRevoked = true) : p s = true := by
  rw [hsess] at hm'
  obtain ⟨s₀, hm₀, rfl⟩ := mem_updateWhere.mp hm'
  obtain rfl : s₀ = s := by
    refine hf.sessionId.eq hm₀ hm (Eq.trans ?_ he)
    split <;> rfl
  cases hp : p s₀ with
  | true => rfl
  | false => simp [hp, hn] at hr

/-- A family has all the refresh tokens of its session. -/
theorem Sound.liveInFamily (hs : Sound env w) {t₀ t : RefreshToken} (h₀ : t₀ ∈ w.refreshTokens)
    (ht : t ∈ w.refreshTokens) (hsid : t.sessionId = t₀.sessionId) (hr : t.revokedAt = none) :
    AtlasAuth.liveInFamily t₀.familyId t = true := by
  have hfam : t.familyId = t₀.familyId :=
    (hs.coherent.places.iff _ (List.mem_map_of_mem (f := RefreshToken.place) ht) _
      (List.mem_map_of_mem (f := RefreshToken.place) h₀)).mpr hsid
  simp [AtlasAuth.liveInFamily, hfam, hr]

section

variable {s s' : Session}

theorem LoggedOut.newlyRevoked (hs : Sound env w) {bearer : JwtPayload} {cookie : Option String}
    {c : RequestContext} (h : LoggedOut env bearer cookie w w') (hm : s ∈ w.sessions)
    (hn : s.isRevoked = false) (hm' : s' ∈ w'.sessions) (he : s'.id = s.id)
    (hr : s'.isRevoked = true) :
    NoLiveTokens s.id w' ∨ BareLogout env ⟨.logout bearer cookie c, w, .ok .done, w'⟩ s.id := by
  obtain ⟨now, hsess⟩ := h.sessions
  obtain ⟨now', htokens⟩ := h.refreshTokens
  have hsid : s.id = bearer.sessionId := by simpa using hs.fresh.chosen hsess hm hn hm' he hr
  by_cases hp : ∃ token, truthy cookie = some token ∧
      ∃ t₀ ∈ w.refreshTokens, t₀.sessionId = s.id ∧ t₀.tokenHash = env.sha256 token
  · obtain ⟨token, htok, t₀, h₀, hsid₀, hhash⟩ := hp
    refine .inl (noLiveTokens_revoke htokens fun t ht hts hrev => ?_)
    rw [liveInCookieFamily, htok, Option.bind_some, hs.fresh.tokenHash.find?.mpr ⟨h₀, hhash⟩]
    exact hs.liveInFamily h₀ ht (hts.trans hsid₀.symm) hrev
  · refine .inr ⟨rfl, bearer, cookie, c, rfl, hsid.symm, fun token htok t ht hts hhash => hp ?_⟩
    exact ⟨token, htok, t, ht, hts, hhash⟩

theorem Evicts.newlyRevoked (hs : Sound env w) {ids : List String} (h : Evicts env ids w w')
    (hm : s ∈ w.sessions) (hn : s.isRevoked = false) (hm' : s' ∈ w'.sessions) (he : s'.id = s.id)
    (hr : s'.isRevoked = true) : NoLiveTokens s.id w' := by
  obtain ⟨w₁, hc, -, h⟩ := h
  obtain ⟨now, hsess⟩ := h.sessions
  obtain ⟨now', htokens⟩ := h.refreshTokens
  rw [hc.sessions] at hsess
  rw [hc.refreshTokens] at htokens
  have hid : ids.contains s.id = true := hs.fresh.chosen hsess hm hn hm' he hr
  refine noLiveTokens_revoke htokens fun t _ hts hrev => ?_
  rw [liveInSessions, hts, hid, hrev]
  rfl

/-- A session that a request revokes loses its refresh tokens, unless the
request is a logout that presents none of them. -/
theorem newly_revoked (hs : Sound env w) {r : Request} (h : Completes env r w x w') (hx : Answered x)
    (hm : s ∈ w.sessions) (hn : s.isRevoked = false) (hm' : s' ∈ w'.sessions) (he : s'.id = s.id)
    (hr : s'.isRevoked = true) :
    NoLiveTokens s.id w' ∨ BareLogout env ⟨r, w, x, w'⟩ s.id := by
  have kept {P : Prop} (h : RevokesNone w w') : P := by
    obtain ⟨s₀, hm₀, he₀, hr₀⟩ := h s' hm' hr
    obtain rfl := hs.fresh.sessionId.eq hm₀ hm (he₀.trans he)
    simp [hn] at hr₀
  cases r with
  | register dto c =>
    rcases completes_register hs.ready h hx with ⟨b, -, w₁, s₁, t, hc, -, -, hi⟩ | h'
    · exact kept fun s' hs' hr => hc.sessions ▸ hi.revokesNone s' hs' hr
    · exact kept h'.2.calm.revokesNone
  | login dto c =>
    obtain ⟨r, h', rfl⟩ := completes_login hs.ready h
    cases h' with
    | unknown _ q _ => exact kept q.calm.revokesNone
    | locked _ _ _ q _ => exact kept q.calm.revokesNone
    | wrong _ _ _ _ _ q _ => exact kept q.revokesNone
    | right _ _ _ _ _ hc _ hi => exact kept fun s' hs' hr => hc.sessions ▸ hi.revokesNone s' hs' hr
    | broken => exact absurd rfl (hx _)
  | refresh cookie c =>
    rcases completes_refresh hs.ready h with ⟨-, h'⟩ | ⟨token, -, r, h', rfl⟩
    · exact kept h'.2.calm.revokesNone
    · cases h' with
      | refused _ q => exact kept q.calm.revokesNone
      | broken => exact absurd rfl (hx _)
      | @reused t₀ ht _ hi =>
        obtain ⟨now, hsess⟩ := hi.sessions
        obtain ⟨now', htokens⟩ := hi.refreshTokens
        have hsid : s.id = t₀.sessionId := by simpa using hs.fresh.chosen hsess hm hn hm' he hr
        refine .inl (noLiveTokens_revoke htokens fun t ht' hts hrev => ?_)
        exact hs.liveInFamily (List.mem_of_find?_eq_some ht) ht' (hts.trans hsid) hrev
      | rotated _ _ _ _ _ _ _ hi => exact kept hi.revokesNone
  | logout bearer cookie c =>
    rcases completes_logout hs.ready h hx with ⟨rfl, h'⟩ | h'
    · exact h'.newlyRevoked hs hm hn hm' he hr
    · exact kept h'.2.calm.revokesNone
  | resetPassword token new c =>
    rcases completes_resetPassword h hx with ⟨-, r, -, h'⟩ | h'
    · exact .inl (h'.evicts.newlyRevoked hs hm hn hm' he hr)
    · exact kept h'.2.calm.revokesNone
  | changePassword | deleteSession | deleteOtherSessions | revokeSession | revokeAllOtherSessions
  | revokeAllSessions =>
    rcases completes_evicts rfl h hx with ⟨-, h'⟩ | h'
    · exact .inl (h'.newlyRevoked hs hm hn hm' he hr)
    · exact kept h'.2.calm.revokesNone
  | _ => exact kept (leaves_minor (minor_program rfl) x w' h).calm.revokesNone

end

/-! ## Revoked sessions over histories -/

/-- A refresh token that has no new companion in its session stays without. -/
theorem NoLiveTokens.change {s₀ : Session} (h : NoLiveTokens s₀.id w) (hf : Fresh env w)
    (hf' : Fresh env w') (hm : s₀ ∈ w.sessions) (hrev : s₀.isRevoked = true)
    (hc : Change env w w') : NoLiveTokens s₀.id w' := by
  cases hc with
  | calm hc =>
    rw [NoLiveTokens, hc.refreshTokens]
    exact h
  | @issued w₁ u s t p hc hu hi =>
    intro t' ht' hsid'
    rw [hi.refreshTokens, hc.refreshTokens] at ht'
    rcases List.mem_append.mp ht' with ht' | ht'
    · exact h t' ht' hsid'
    · obtain rfl := List.mem_singleton.mp ht'
      have hnew := hi.sessions ▸ hf'.sessionId
      exact absurd (hsid'.symm.trans hi.token.2.1) (hnew.ne_of_append (hc.sessions ▸ hm))
  | @rotated t₀ t s u p _ _ hs hsr _ _ hi =>
    intro t' ht' hsid'
    obtain ⟨now, htokens⟩ := hi.refreshTokens
    rw [htokens] at ht'
    obtain ⟨t₁, ht₁, rfl⟩ := mem_updateWhere.mp ht'
    by_cases hid : t₁.id = t₀.id
    · simp [hid]
    simp only [beq_iff_eq, hid, if_false] at hsid' ⊢
    rcases List.mem_append.mp ht₁ with ht₁ | ht₁
    · exact h t₁ ht₁ hsid'
    · -- Only an unrevoked session gets a new refresh token.
      obtain rfl := List.mem_singleton.mp ht₁
      obtain ⟨hsm, hse⟩ := hf.sessionId.find?.mp hs
      obtain rfl := hf.sessionId.eq hsm hm (hse.trans (hi.token.2.1.symm.trans hsid'))
      simp [hsr] at hrev
  | @revoked p q hr =>
    obtain ⟨now, htokens⟩ := hr.refreshTokens
    rw [NoLiveTokens, htokens]
    exact forall_updateWhere h fun t _ _ _ => rfl

/-- A session that a request makes is not revoked. -/
theorem Change.old_session (hc : Change env w w') {s' : Session} (hs' : s' ∈ w'.sessions)
    (hr : s'.isRevoked = true) : ∃ s ∈ w.sessions, s.id = s'.id := by
  have old (h : RevokesNone w w') : ∃ s ∈ w.sessions, s.id = s'.id := by
    obtain ⟨s, hs, hid, -⟩ := h s' hs' hr
    exact ⟨s, hs, hid⟩
  cases hc with
  | calm hc => exact old hc.revokesNone
  | issued hc _ hi => exact old fun s' hs' hr => hc.sessions ▸ hi.revokesNone s' hs' hr
  | rotated _ _ _ _ _ _ hi => exact old hi.revokesNone
  | revoked h =>
    obtain ⟨now, hsess⟩ := h.sessions
    rw [hsess] at hs'
    obtain ⟨s, hs, rfl⟩ := mem_updateWhere.mp hs'
    refine ⟨s, hs, ?_⟩
    split <;> rfl

/-- The refresh tokens of every revoked session are revoked, but for the
sessions that a bare logout has ended. -/
def RevokedWithTokens (env : Env) (tr : List (Done Request World Exn Response)) (w : World) : Prop :=
  ∀ s ∈ w.sessions, s.isRevoked = true → NoLiveTokens s.id w ∨ ∃ d ∈ tr, BareLogout env d s.id

theorem RevokedWithTokens.completes (h : RevokedWithTokens env tr w) (hs : Sound env w) {r : Request}
    (he : Completes env r w x w') (hx : Answered x) :
    RevokedWithTokens env (tr ++ [⟨r, w, x, w'⟩]) w' := by
  intro s' hs' hr
  have hf' := (completes_grows he).2 hs.fresh
  have hchange := change_program hs.ready he hx
  obtain ⟨s, hm, hid⟩ := hchange.old_session hs' hr
  cases hrev : s.isRevoked with
  | true =>
    refine (h s hm hrev).imp (fun hn => hid ▸ hn.change hs.fresh hf' hm hrev hchange) ?_
    exact fun ⟨d, hd, hb⟩ => ⟨d, List.mem_append_left _ hd, hid ▸ hb⟩
  | false =>
    refine (newly_revoked hs he hx hm hrev hs' hid.symm hr).imp (hid ▸ ·) fun hb => ?_
    exact ⟨_, List.mem_append_right _ (List.mem_singleton_self _), hid ▸ hb⟩

theorem revokedWithTokens {t : Time} (h : History env { now := t } tr w) :
    RevokedWithTokens env tr w := by
  induction h with
  | nil => exact fun _ => nofun
  | env m _ ih => exact ih
  | done h he hx ih => exact ih.completes ((Sound.init t).history h) he hx

/-- In every state that completed requests lead to, every refresh token of a
revoked session is revoked, unless a logout ended the session without
presenting any of them; and no refresh token of a revoked session is accepted,
revoked or not. -/
theorem revoked_session_tokens {t : Time} (h : History env { now := t } tr w) {s : Session}
    (hs : s ∈ w.sessions) (hr : s.isRevoked = true) :
    ((∀ t ∈ w.refreshTokens, t.sessionId = s.id → t.revokedAt.isSome = true) ∨
      ∃ d ∈ tr, BareLogout env d s.id) ∧
    ∀ t ∈ w.refreshTokens, t.sessionId = s.id → ∀ token c x w', t.tokenHash = env.sha256 token →
      Completes env (.refresh (some token) c) w x w' → ∃ e, x = .error e := by
  have hsound := (Sound.init t).history h
  refine ⟨revokedWithTokens h s hs hr, fun t ht hsid token c x w' hhash hc => ?_⟩
  have hrev : SessionRevoked t.sessionId w :=
    ⟨s, hsid ▸ hsound.fresh.sessionId.find?.mpr ⟨hs, rfl⟩, hr⟩
  exact refresh_fails hsound ht hrev hc ht hhash (.inl rfl)

/-- A registration, whose session is revoked by `SessionsService`. -/
def evicted : List (Done Request World Exn Response) × World :=
  (system .sample).serve
    [(0, .register ⟨"a@b.co", "Passw0rd!", none, none⟩ ⟨none, none⟩),
     (1000, .revokeAllSessions (unary 1) ⟨none, none⟩)] { now := 0 }

theorem evicted_session : (∃ s ∈ evicted.2.sessions, s.id = unary 4 ∧ s.isRevoked = true) ∧
    ∀ t ∈ evicted.2.refreshTokens, t.sessionId = unary 4 → t.revokedAt.isSome = true := by
  have h : History .sample { now := 0 } evicted.1 evicted.2 := history_serve (by decide +kernel)
  have hs : ∃ s ∈ evicted.2.sessions, s.id = unary 4 ∧ s.isRevoked = true := by decide +kernel
  refine ⟨hs, ?_⟩
  obtain ⟨s, hm, hid, hr⟩ := hs
  rcases (revoked_session_tokens h hm hr).1 with ht | ⟨d, hd, -, bearer, cookie, c, hreq, -⟩
  · exact hid ▸ ht
  · have hmem : d.req ∈ evicted.1.map (·.req) := List.mem_map_of_mem hd
    have hreqs : evicted.1.map (·.req) = [.register ⟨"a@b.co", "Passw0rd!", none, none⟩ ⟨none, none⟩,
      .revokeAllSessions (unary 1) ⟨none, none⟩] := rfl
    simp [hreqs, hreq] at hmem

/-- A registration, and a logout without a cookie. -/
def bareLogout : List (Done Request World Exn Response) × World :=
  (system .sample).serve
    [(0, .register ⟨"a@b.co", "Passw0rd!", none, none⟩ ⟨none, none⟩),
     (1000, .logout firstToken none ⟨none, none⟩)] { now := 0 }

theorem bareLogout_tokens : History .sample { now := 0 } bareLogout.1 bareLogout.2 ∧
    ∃ s ∈ bareLogout.2.sessions, s.isRevoked = true ∧
      ∃ t ∈ bareLogout.2.refreshTokens, t.sessionId = s.id ∧ t.revokedAt = none :=
  ⟨history_serve (by decide +kernel), by decide +kernel⟩

end AtlasAuth

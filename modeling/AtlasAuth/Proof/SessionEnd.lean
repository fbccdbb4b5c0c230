import AtlasAuth.Proof.Blacklist
import AtlasAuth.Proof.Replay

/-!
# Access tokens of an ended session

A logout and the detection of a reuse revoke the session, but not all of its
access tokens: a logout puts the one that it presents on the blacklist, and
the detection of a reuse none (`otherToken_accepted`). They keep off every
access token of the session exactly if all others were of no use already
(`ended_session_rejected`).
-/

namespace AtlasAuth

open Framework Framework.Table Prog

variable {env : Env} {w w' : World} {d : Done Request World Exn Response}

/-- A request of `AuthService` that has ended the session: a logout, or a
refresh with one of its tokens that was already revoked. -/
def EndsSession (env : Env) (d : Done Request World Exn Response) (sid : String) : Prop :=
  (∃ bearer cookie c, d.req = .logout bearer cookie c ∧ d.outcome = .ok .done ∧
    bearer.sessionId = sid) ∨
  ∃ cookie token c t₀, d.req = .refresh cookie c ∧ truthy cookie = some token ∧
    d.before.refreshTokens.find? (·.tokenHash == env.sha256 token) = some t₀ ∧
    t₀.revokedAt.isSome = true ∧ t₀.sessionId = sid

/-- The access token that a logout presents. -/
def Request.presented : Request → Option JwtPayload
  | .logout bearer _ _ => some bearer
  | _ => none

/-- An access token that is of no use whatever the request does: it has expired
when the request completes, or was on the blacklist before. -/
def Spent (d : Done Request World Exn Response) (p : JwtPayload) : Prop :=
  p.expired d.after.now = true ∨
    ((JwtStrategy.validate p).run d.before).1 = .error (.unauthorized "Token has been revoked")

/-- The request has set no key for this access token or its session. -/
def LeavesKeys (w w' : World) (p : JwtPayload) : Prop :=
  w'.redis (JTI_PREFIX ++ p.jti) = w.redis (JTI_PREFIX ++ p.jti) ∧
    w'.redis (SESSION_PREFIX ++ p.sessionId) = w.redis (SESSION_PREFIX ++ p.sessionId)

/-- What was spent before the request stays of no use. -/
theorem Spent.rejected {p : JwtPayload} (h : Spent d p) (hs : Sound env d.before)
    (hd : History env d.before [d] d.after) (hp : p ∈ d.before.signed)
    {tr : List (Done Request World Exn Response)} (ht : History env d.after tr w)
    (hl : Lasting env w) (hnow : w.now ≤ maxTime) : Rejected w p := by
  have hg := (history_grows hd).1.trans (history_grows ht).1
  rcases h with h | h
  · refine .inl ?_
    have hle : p.exp ≤ d.after.now / 1000 := by simpa [JwtPayload.expired] using h
    have := Nat.div_le_div_right (c := 1000) (history_grows ht).1.now
    simpa [JwtPayload.expired] using hle.trans this
  · have hk : KeptOff d.before p := by
      rcases validate_error_iff.mp h with h | h
      · exact .inl (keySet_of_has h)
      · exact .inr (.inl (keySet_of_has h))
    exact (hk.history hs (hd.trans ht)).rejected hl (hg.signed.subset hp) hnow

/-- What is of no use after a request that sets no key for it was spent. -/
theorem LeavesKeys.spent {p : JwtPayload} (h : LeavesKeys d.before d.after p)
    (hg : d.before.now ≤ d.after.now) (hr : Rejected d.after p) : Spent d p := by
  refine (rejected_iff.mp hr).imp_right fun hr => validate_error_iff.mpr (hr.imp ?_ ?_)
  · exact fun hr => Expiring.has_of_le ((Expiring.has_congr h.1).symm.trans hr) hg
  · exact fun hr => Expiring.has_of_le ((Expiring.has_congr h.2).symm.trans hr) hg

theorem LoggedOut.leavesKeys {bearer p : JwtPayload} {cookie : Option String}
    (h : LoggedOut env bearer cookie w w') (hc : Coherent env w) (hp : p ∈ w.signed)
    (hne : bearer ≠ p) : LeavesKeys w w' p := by
  refine ⟨h.redis.others _ ?_, h.redis.others _ ?_⟩
  · intro hm
    exact hne (hc.jti.eq h.valid hp (JTI_PREFIX_inj (List.mem_singleton.mp hm)).symm)
  · exact fun hm => JTI_PREFIX_ne _ _ (List.mem_singleton.mp hm).symm

/-- What the request that ends a session does to the keys: a logout sets that
of the token it presents, and nothing else is set. -/
theorem EndsSession.keys {sid : String} (h : EndsSession env d sid) (hs : Sound env d.before)
    (he : Completes env d.req d.before d.outcome d.after) :
    (∀ p, d.req.presented = some p → KeptOff d.after p ∧ p.sessionId = sid) ∧
      ∀ p ∈ d.before.signed, d.req.presented ≠ some p → LeavesKeys d.before d.after p := by
  obtain ⟨bearer, cookie, c, hreq, ho, hsid⟩ | ⟨cookie, token, c, t₀, hreq, htok, ht, hr, -⟩ := h
  · rw [hreq] at he ⊢
    obtain ⟨-, h⟩ | ⟨⟨e, he⟩, -⟩ := completes_logout hs.ready he (ho ▸ fun _ => nofun)
    · refine ⟨fun p hp => ?_, fun p hp hne => h.leavesKeys hs.coherent hp fun e => hne (e ▸ rfl)⟩
      obtain rfl := Option.some.inj hp
      exact ⟨h.keptOff, hsid⟩
    · cases ho.symm.trans he
  · rw [hreq] at he ⊢
    obtain ⟨-, _, -, h⟩ := reused_of_revoked hs.ready htok ⟨t₀, ht, hr⟩ he
    exact ⟨fun _ => nofun, fun p _ _ => ⟨congrFun h.redis _, congrFun h.redis _⟩⟩

/-- In any run of completed requests, after a request that has ended a session
every access token of the session is rejected for good if and only if all but
the one that it presented were spent. -/
theorem ended_session_rejected {t : Time} {tr : List (Done Request World Exn Response)}
    (h : History env { now := t } tr w) (hd : d ∈ tr) {sid : String} (he : EndsSession env d sid)
    (hnow : d.after.now ≤ maxTime) :
    (∀ p ∈ d.before.signed, p.sessionId = sid → ∀ tr' w', History env d.after tr' w' →
      w'.now ≤ maxTime → Rejected w' p) ↔
    ∀ p ∈ d.before.signed, p.sessionId = sid → d.req.presented ≠ some p → Spent d p := by
  obtain ⟨tr₁, tr₂, h₁, hex, hx, h₂⟩ := System.Trace.mem h hd
  have hs := (Sound.init t).history h₁
  have hl := (Lasting.init t).history (.init t) h₁
  have hstep : History env d.before [d] d.after := System.Trace.one hex hx
  obtain ⟨hpres, hkeys⟩ := he.keys hs hex
  constructor
  · intro hall p hp hsid hne
    exact (hkeys p hp hne).spent (history_grows hstep).1.now (hall p hp hsid [] _ .nil hnow)
  · intro hspent p hp hsid tr' w' h' hnow'
    have hl' := hl.history hs (hstep.trans h')
    by_cases hpr : d.req.presented = some p
    · have hg := (history_grows hstep).1.trans (history_grows h').1
      exact ((hpres p hpr).1.history (hs.history hstep) h').rejected hl' (hg.signed.subset hp) hnow'
    · exact (hspent p hp hsid hpr).rejected hs hstep hp h' hl' hnow'

/-- The second access token of the session, after a refresh at one second. -/
def secondToken : JwtPayload := { firstToken with jti := unary 10, iat := 1, exp := 901 }

/-- A registration and a logout with its only access token. -/
def onlyToken : List (Done Request World Exn Response) × World :=
  (system .sample).serve
    [(0, .register ⟨"a@b.co", "Passw0rd!", none, none⟩ ⟨none, none⟩),
     (1000, .logout firstToken none ⟨none, none⟩)] { now := 0 }

theorem onlyToken_rejected : firstToken.expired onlyToken.2.now = false ∧
    Rejected onlyToken.2 firstToken := by
  have h : History .sample { now := 0 } onlyToken.1 onlyToken.2 := history_serve (by decide +kernel)
  refine ⟨by decide +kernel, (ended_session_rejected h (.tail _ (.head _))
    (.inl ⟨firstToken, none, _, rfl, by decide +kernel, rfl⟩) (by decide +kernel)).mpr ?_ firstToken
      (by decide +kernel) rfl [] _ .nil (by decide +kernel)⟩
  exact fun p hp _ hne => absurd (congrArg some (List.mem_singleton.mp hp).symm) hne

/-- A logout with the second access token of a session. -/
def otherToken : List (Done Request World Exn Response) × World :=
  (system .sample).serve
    [(0, .register ⟨"a@b.co", "Passw0rd!", none, none⟩ ⟨none, none⟩),
     (1000, .refresh (some (unary 3)) ⟨none, none⟩),
     (1000, .logout secondToken (some (unary 8)) ⟨none, none⟩)] { now := 0 }

/-- The detection of a reuse, after a refresh. -/
def reusedToken : List (Done Request World Exn Response) × World :=
  (system .sample).serve
    [(0, .register ⟨"a@b.co", "Passw0rd!", none, none⟩ ⟨none, none⟩),
     (1000, .refresh (some (unary 3)) ⟨none, none⟩),
     (1000, .refresh (some (unary 3)) ⟨none, none⟩)] { now := 0 }

/-- The first access token of the session is accepted after either. -/
theorem otherToken_accepted :
    (History .sample { now := 0 } otherToken.1 otherToken.2 ∧
      (∃ d ∈ otherToken.1, EndsSession .sample d firstToken.sessionId ∧
        firstToken ∈ d.before.signed) ∧ ¬Rejected otherToken.2 firstToken) ∧
    History .sample { now := 0 } reusedToken.1 reusedToken.2 ∧
      (∃ d ∈ reusedToken.1, EndsSession .sample d firstToken.sessionId ∧
        firstToken ∈ d.before.signed) ∧ ¬Rejected reusedToken.2 firstToken := by
  refine ⟨⟨history_serve (by decide +kernel), ⟨_, .tail _ (.tail _ (.head _)),
    .inl ⟨secondToken, _, _, rfl, by decide +kernel, rfl⟩, by decide +kernel⟩, ?_⟩,
    history_serve (by decide +kernel), ⟨_, .tail _ (.tail _ (.head _)), .inr ?_, by decide +kernel⟩, ?_⟩
  · rw [rejected_iff]
    decide +kernel
  · have hrow : ((reusedToken.1[2]?.bind fun d => d.before.refreshTokens.find?
        (·.tokenHash == Env.sample.sha256 (unary 3))).map
          fun t => (t.revokedAt.isSome, t.sessionId)) = some (true, unary 4) := by decide +kernel
    obtain ⟨t₀, ht₀, e⟩ := Option.map_eq_some_iff.mp hrow
    obtain ⟨hr, hsid⟩ := Prod.mk.inj e
    exact ⟨_, unary 3, _, t₀, rfl, by decide, ht₀, hr, hsid⟩
  · rw [rejected_iff]
    decide +kernel

end AtlasAuth

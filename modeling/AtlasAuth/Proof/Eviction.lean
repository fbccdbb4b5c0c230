import AtlasAuth.Proof.Issuable
import AtlasAuth.Proof.RevokedSessions

/-!
# What a revocation of sessions changes, and what it does not

The revocation of the other sessions of a user revokes every one of them, with
its refresh tokens, and blacklists those that it newly revokes; the session
that is kept, and all that belongs to other users, stays as it was
(`OthersEvicted`). The revocation of one session does that for this session
alone (`OneEvicted`), or is refused and changes nothing (`revocation_exact`).
-/

namespace AtlasAuth

open Framework Framework.Table Prog

variable {env : Env} {w w' w'' : World} {x : Except Exn Response} {ttl : Double} {u k id : String}

/-! ## What a client is answered -/

/-- What the guard answers to an access token at the time `n`. -/
def admission (w : World) (p : JwtPayload) (n : Time) : Except Exn JwtPayload :=
  ((JwtAuthGuard.canActivate p).run { w with now := n }).1

/-- A refresh with this token succeeds at the time `n`. -/
def Exchanges (env : Env) (w : World) (token : String) (n : Time) (c : RequestContext) : Prop :=
  ∃ u tokens, ((program env (.refresh (some token) c)).run { w with now := n }).1 =
    .ok (.session u tokens)

theorem admission_congr {p : JwtPayload} {n : Time} (hs : w'.signed = w.signed)
    (hj : w'.redis (JTI_PREFIX ++ p.jti) = w.redis (JTI_PREFIX ++ p.jti))
    (hk : w'.redis (SESSION_PREFIX ++ p.sessionId) = w.redis (SESSION_PREFIX ++ p.sessionId)) :
    admission w' p n = admission w p n := by
  have hj : w'.redis.has (JTI_PREFIX ++ p.jti) n = w.redis.has (JTI_PREFIX ++ p.jti) n :=
    Expiring.has_congr hj
  have hk : w'.redis.has (SESSION_PREFIX ++ p.sessionId) n =
      w.redis.has (SESSION_PREFIX ++ p.sessionId) n := Expiring.has_congr hk
  simp only [admission, JwtAuthGuard.canActivate, JwtStrategy.verify, JwtStrategy.validate,
    TokenBlacklistService.isBlacklisted, TokenBlacklistService.isSessionBlacklisted,
    RedisService.exists, run_bind, run_atomic, run_query, hs]
  cases w.signed.contains p && !p.expired n with
  | false => rfl
  | true =>
    simp only [if_true, hj, hk]
    split <;> rfl

theorem Sound.exchanges_iff (hs : Sound env w) {token : String} {n : Time} {c : RequestContext} :
    Exchanges env w token n c ↔ Refreshable env w token n := by
  constructor
  · rintro ⟨u, tokens, h⟩
    exact refreshable_of_run h
  · intro h
    have hnow : SameTime { w with now := n } ((program env (.refresh (some token) c)).run
        { w with now := n }).2 :=
      (exec_run (R := Eq) (fun _ => rfl) _ _).always
        ((does_program _).mono fun _ _ => Does.sameTime) fun _ _ e => e ▸ rfl
    exact refresh_succeeds (w := { w with now := n }) hs.coherent.hashMinted hs.fresh.tokenId
      ⟨h.present, h.row, h.issuable⟩ (completes_run _ _) (Nat.le_of_eq hnow)

/-! ## Exactly these sessions -/

/-- The session is on the blacklist, for as long as the access tokens that were
signed for it may live. -/
def Listed (ttl : Double) (w w' : World) (id : String) : Prop :=
  ∀ m, w'.now ≤ m → m < w.now + ttl.toNat → w'.redis.has (SESSION_PREFIX ++ id) m = true

/-- Exactly these sessions are revoked and blacklisted, and exactly those of
their refresh tokens that were not revoked. -/
structure EvictedExactly (ttl : Double) (p : Session → Bool) (w w' : World) : Prop where
  sessions : ∃ now, w'.sessions = updateWhere p (Session.revoke now) w.sessions
  refreshTokens : ∃ now, w'.refreshTokens =
    updateWhere (fun t => (w.sessions.any fun s => p s && s.id == t.sessionId) && t.revokedAt.isNone)
      (RefreshToken.revoke now) w.refreshTokens
  listed : ∀ s ∈ w.sessions, p s = true → Listed ttl w w' s.id
  redis : ∀ key, (∀ s ∈ w.sessions, p s = true → key ≠ SESSION_PREFIX ++ s.id) →
    w'.redis key = w.redis key
  signed : w'.signed = w.signed

/-- Among sessions with ids of their own, those whose id a selection has. -/
theorem Fresh.selected (hf : Fresh env w) {p : Session → Bool} {s : Session} (hs : s ∈ w.sessions) :
    (w.sessions.any fun s' => p s' && s'.id == s.id) = p s := by
  cases hp : p s with
  | true => exact List.any_eq_true.mpr ⟨s, hs, by simp [hp]⟩
  | false =>
    refine List.any_eq_false.mpr fun s' hs' h => ?_
    obtain ⟨hp', hid⟩ : p s' = true ∧ s'.id = s.id := by simpa using h
    rw [hf.sessionId.eq hs' hs hid, hp] at hp'
    cases hp'

theorem Evicts.exactly (hf : Fresh env w) {ids : List String} (h : Evicts env ids w w')
    (httl : parseDurationToMs env.accessExpiresIn = .ok ttl) {p : Session → Bool}
    (hids : ∀ i, ids.contains i = w.sessions.any fun s => p s && s.id == i) :
    EvictedExactly ttl p w w' := by
  obtain ⟨w₁, hc, -, h⟩ := h
  obtain ⟨now, hsess⟩ := h.sessions
  obtain ⟨now', htok⟩ := h.refreshTokens
  obtain ⟨ttl', httl', hk⟩ := h.redis
  obtain rfl := Except.ok.inj (httl.symm.trans httl')
  have hmem {i : String} : i ∈ ids ↔ ∃ s ∈ w.sessions, p s = true ∧ s.id = i := by
    rw [← List.contains_iff_mem, hids]
    simp
  refine ⟨⟨now, ?_⟩, ⟨now', ?_⟩, fun s hs hp m hm hlt => ?_, fun key hkey => ?_, ?_⟩
  · rw [hsess, hc.sessions]
    exact updateWhere_congr fun s hs => (hids _).trans (hf.selected hs)
  · rw [htok, hc.refreshTokens]
    exact congrArg (updateWhere · _ _) (funext fun t => congrArg (· && _) (hids _))
  · have hmem : SESSION_PREFIX ++ s.id ∈ ids.map (SESSION_PREFIX ++ ·) :=
      List.mem_map_of_mem (hmem.mpr ⟨s, hs, hp, rfl⟩)
    have hlt : m < w₁.now + ttl.toNat := Nat.lt_of_lt_of_le hlt (Nat.add_le_add_right hc.now _)
    rcases hk.keys _ hmem with ⟨hle, -⟩ | ⟨e, he, hset⟩
    · exact absurd (hle.trans hm) (Nat.not_le.mpr hlt)
    · exact (Expiring.Until.of_some he hset).has (by rw [hset]; rfl) hlt
  · refine (hk.others _ fun hin => ?_).trans (congrFun hc.redis _)
    obtain ⟨i, hi, rfl⟩ := List.mem_map.mp hin
    obtain ⟨s, hs, hp, rfl⟩ := hmem.mp hi
    exact hkey s hs hp rfl
  · exact h.signed.trans hc.signed

/-! ## The sessions but one -/

/-- The sessions of a user that are revoked with all but `k`. -/
def Session.isOther (u k : String) (s : Session) : Bool :=
  s.userId == u && !s.isRevoked && s.id != k

/-- The other sessions of the user are revoked, and nothing else has changed. -/
structure OthersEvicted (env : Env) (ttl : Double) (u k : String) (w w' : World) : Prop
    extends EvictedExactly ttl (Session.isOther u k) w w' where
  revoked : ∀ s ∈ w'.sessions, s.userId = u → s.id ≠ k → s.isRevoked = true
  tokens : ∀ s ∈ w.sessions, s.userId = u → s.isRevoked = false → s.id ≠ k → NoLiveTokens s.id w'
  kept : w'.sessions.find? (·.id == k) = w.sessions.find? (·.id == k)
  keptTokens : w'.refreshTokens.filter (·.sessionId == k) = w.refreshTokens.filter (·.sessionId == k)
  admitted : ∀ p : JwtPayload, p.sessionId = k → ∀ n, admission w' p n = admission w p n
  exchanged : ∀ token n c,
    (∃ t ∈ w.refreshTokens, t.tokenHash = env.sha256 token ∧ t.sessionId = k) →
      (Exchanges env w' token n c ↔ Exchanges env w token n c)
  otherUsers : w'.sessions.filter (·.userId != u) = w.sessions.filter (·.userId != u)
  otherTokens : w'.refreshTokens.filter (·.userId != u) = w.refreshTokens.filter (·.userId != u)
  otherKeys : ∀ s ∈ w.sessions, s.userId ≠ u →
    w'.redis (SESSION_PREFIX ++ s.id) = w.redis (SESSION_PREFIX ++ s.id)

theorem contains_liveSessionsOf (hk : k ≠ "") (i : String) :
    (liveSessionsOf w u (some k)).contains i =
      w.sessions.any fun s => s.isOther u k && s.id == i := by
  have ht : truthy (some k) = some k := by simp [truthy, hk]
  rw [Bool.eq_iff_iff, List.contains_iff_mem]
  simp [liveSessionsOf, Session.isOther, ht, and_assoc, and_comm, bne]

/-- A refresh token belongs to the user of its session. -/
theorem Sound.userId_eq (hs : Sound env w) {t : RefreshToken} {s : Session}
    (ht : t ∈ w.refreshTokens) (hm : s ∈ w.sessions) (h : s.id = t.sessionId) :
    s.userId = t.userId := by
  obtain ⟨s', hm', he⟩ := List.mem_map.mp
    (hs.coherent.places.session _ (List.mem_map_of_mem (f := RefreshToken.place) ht))
  obtain ⟨hid, hu⟩ := Prod.mk.inj he
  rw [hs.fresh.sessionId.eq hm hm' (h.trans hid.symm), hu]

/-- A user that is there is found later if and only if it was found before. -/
theorem find?_live_iff (hs : Sound env w) (hs' : Sound env w') (hg : Grows w w')
    (hm : ∃ v ∈ w.users, v.id = u) :
    (∃ v, w'.users.find? (fun v => v.id == u && v.deletedAt.isNone) = some v) ↔
      ∃ v, w.users.find? (fun v => v.id == u && v.deletedAt.isNone) = some v := by
  constructor
  · rintro ⟨v', hv'⟩
    obtain ⟨v, hv, rfl⟩ := hm
    obtain ⟨v'', hv'', hid, hdel⟩ := hg.users.mem hv
    have hlive := List.find?_some hv'
    simp only [Bool.and_eq_true, beq_iff_eq] at hlive
    rw [hs'.fresh.userId.eq (List.mem_of_find?_eq_some hv') hv'' (hlive.1.trans hid.symm), hdel] at hlive
    exact ⟨v, hs.fresh.userId.find?_and hv hlive.2⟩
  · rintro ⟨v, hv⟩
    obtain ⟨v', hv', -⟩ := hg.users.find?
      (q := fun v : User => v.id == u && v.deletedAt.isNone)
      (fun a b hab => by rw [hab.1, hab.2]) hv
    exact ⟨v', hv'⟩

/-- The refresh tokens of a session that has not been touched. -/
theorem exchanges_congr (hs : Sound env w) (hs' : Sound env w') (hg : Grows w w') {token : String}
    {n : Time} {c : RequestContext}
    (hsess : w'.sessions.find? (·.id == k) = w.sessions.find? (·.id == k))
    (htok : w'.refreshTokens.filter (·.sessionId == k) = w.refreshTokens.filter (·.sessionId == k))
    (ht : ∃ t ∈ w.refreshTokens, t.tokenHash = env.sha256 token ∧ t.sessionId = k) :
    Exchanges env w' token n c ↔ Exchanges env w token n c := by
  obtain ⟨t, hm, hhash, rfl⟩ := ht
  have hm' : t ∈ w'.refreshTokens := by
    refine (List.mem_filter.mp (?_ : t ∈ w'.refreshTokens.filter (·.sessionId == t.sessionId))).1
    rw [htok]
    exact List.mem_filter.mpr ⟨hm, by simp⟩
  have hf := hs.fresh.tokenHash.find?.mpr ⟨hm, hhash⟩
  have hf' := hs'.fresh.tokenHash.find?.mpr ⟨hm', hhash⟩
  have huser : ∃ v ∈ w.users, v.id = t.userId := by
    obtain ⟨s, hm, he⟩ := List.mem_map.mp
      (hs.coherent.places.session _ (List.mem_map_of_mem (f := RefreshToken.place) hm))
    obtain ⟨v, hv, hid⟩ := hs.coherent.sessionUser s hm
    exact ⟨v, hv, hid.trans (Prod.mk.inj he).2⟩
  have hlive := find?_live_iff hs hs' hg huser
  rw [hs.exchanges_iff, hs'.exchanges_iff]
  constructor
  · rintro ⟨hp, ⟨t', s, v, ht', hrev, hexp, hs', hr, hv⟩, hi⟩
    obtain rfl := Option.some.inj (hf'.symm.trans ht')
    obtain ⟨v', hv'⟩ := hlive.mp ⟨v, hv⟩
    exact ⟨hp, ⟨t, s, v', hf, hrev, hexp, hsess ▸ hs', hr, hv'⟩, hi⟩
  · rintro ⟨hp, ⟨t', s, v, ht', hrev, hexp, hs', hr, hv⟩, hi⟩
    obtain rfl := Option.some.inj (hf.symm.trans ht')
    obtain ⟨v', hv'⟩ := hlive.mpr ⟨v, hv⟩
    exact ⟨hp, ⟨t, s, v', hf', hrev, hexp, hsess ▸ hs', hr, hv'⟩, hi⟩

theorem Session.isOther_iff {s : Session} :
    s.isOther u k = true ↔ s.userId = u ∧ s.isRevoked = false ∧ s.id ≠ k := by
  simp [Session.isOther, and_assoc]

/-- The refresh tokens that are revoked with the sessions `p`. -/
theorem any_session_eq_true {p : Session → Bool} {id : String} :
    (w.sessions.any fun s => p s && s.id == id) = true ↔ ∃ s ∈ w.sessions, p s = true ∧ s.id = id := by
  simp

theorem EvictedExactly.others (hs : Sound env w) (hs' : Sound env w') (hg : Grows w w')
    (h : EvictedExactly ttl (Session.isOther u k) w w') : OthersEvicted env ttl u k w w' := by
  obtain ⟨now, hsess⟩ := h.sessions
  obtain ⟨now', htok⟩ := h.refreshTokens
  have hkept : w'.sessions.find? (·.id == k) = w.sessions.find? (·.id == k) := by
    rw [hsess, find?_updateWhere (by exact fun _ _ => rfl)]
    cases hf : w.sessions.find? (·.id == k) with
    | none => rfl
    | some s =>
      have hid : s.id = k := by simpa using List.find?_some hf
      simp [Session.isOther, hid]
  have hkeptTokens : w'.refreshTokens.filter (·.sessionId == k) =
      w.refreshTokens.filter (·.sessionId == k) := by
    rw [htok]
    refine filter_updateWhere_of_none (fun _ _ => rfl) fun t _ ht => ?_
    refine Bool.and_eq_false_imp.mpr fun hany => ?_
    obtain ⟨s, -, ho, hid⟩ := any_session_eq_true.mp hany
    exact absurd (hid.trans (by simpa using ht)) (Session.isOther_iff.mp ho).2.2
  exact {
    h with
    revoked := fun s' hm hu hid => by
      rw [hsess] at hm
      obtain ⟨s, -, rfl⟩ := mem_updateWhere.mp hm
      cases ho : s.isOther u k with
      | true => rfl
      | false =>
        simp only [ho, Bool.false_eq_true, if_false] at hu hid ⊢
        by_contra hr
        rw [Session.isOther_iff.mpr ⟨hu, by simpa using hr, hid⟩] at ho
        cases ho
    tokens := fun s hm hu hr hid => by
      refine noLiveTokens_revoke htok fun t _ ht hrev => ?_
      rw [any_session_eq_true.mpr ⟨s, hm, Session.isOther_iff.mpr ⟨hu, hr, hid⟩, ht.symm⟩, hrev]
      rfl
    kept := hkept
    keptTokens := hkeptTokens
    admitted := fun p hp n => by
      refine admission_congr h.signed (h.redis _ fun s _ _ => JTI_PREFIX_ne _ _)
        (h.redis _ fun s _ ho he => (Session.isOther_iff.mp ho).2.2 ?_)
      exact (SESSION_PREFIX_inj he).symm.trans hp
    exchanged := fun _ _ _ ht => exchanges_congr hs hs' hg hkept hkeptTokens ht
    otherUsers := by
      rw [hsess]
      refine filter_updateWhere_of_none (fun _ _ => rfl) fun s _ hu => ?_
      exact Bool.eq_false_iff.mpr fun ho => by simp [(Session.isOther_iff.mp ho).1] at hu
    otherTokens := by
      rw [htok]
      refine filter_updateWhere_of_none (fun _ _ => rfl) fun t ht hu => ?_
      refine Bool.and_eq_false_imp.mpr fun hany => ?_
      obtain ⟨s, hm, ho, hid⟩ := any_session_eq_true.mp hany
      simp [← hs.userId_eq ht hm hid, (Session.isOther_iff.mp ho).1] at hu
    otherKeys := fun s hm hu => h.redis _ fun s' hm' ho he => by
      obtain rfl := hs.fresh.sessionId.eq hm hm' (SESSION_PREFIX_inj he)
      exact hu (Session.isOther_iff.mp ho).1 }

/-- The number of sessions that are revoked and were not before. -/
def newlyRevoked (w w' : World) : Nat :=
  w.sessions.countP fun s =>
    !s.isRevoked && (w'.sessions.find? (·.id == s.id)).any (·.isRevoked)

theorem EvictedExactly.newlyRevoked_eq (hf : Fresh env w)
    (h : EvictedExactly ttl (Session.isOther u k) w w') :
    newlyRevoked w w' = w.sessions.countP (Session.isOther u k) := by
  obtain ⟨now, hsess⟩ := h.sessions
  refine List.countP_congr fun s hm => ?_
  rw [hsess, find?_updateWhere (by exact fun _ _ => rfl), hf.sessionId.find?.mpr ⟨hm, rfl⟩]
  cases ho : s.isOther u k with
  | true => simp [ho, Session.revoke, (Session.isOther_iff.mp ho).2.1]
  | false => simp [ho]

theorem length_liveSessionsOf (hk : k ≠ "") :
    (liveSessionsOf w u (some k)).length = w.sessions.countP (Session.isOther u k) := by
  have ht : truthy (some k) = some k := by simp [truthy, hk]
  rw [liveSessionsOf, List.length_map, List.countP_eq_length_filter, ht]
  rfl

/-! ## Requests -/

/-- The user whose other sessions a request revokes, and the session that it
keeps. -/
def Request.spares : Request → Option (String × String)
  | .revokeAllOtherSessions u k _ => some (u, k)
  | .deleteOtherSessions bearer _ | .changePassword bearer _ _ _ =>
    some (bearer.sub, bearer.sessionId)
  | _ => none

theorem Request.evicts_of_spares {r : Request} (h : r.spares = some (u, k)) :
    r.evicts env w = some (liveSessionsOf w u (some k)) := by
  cases r <;> cases h <;> rfl

theorem counts_revokeAll (q : Quiet w w') (u : String) (c : RequestContext) (k : Option String) :
    Leaves env (SessionsService.revokeAll env u c k) w'
      fun r _ => ∀ n, r = .ok n → n = (liveSessionsOf w u k).length := by
  refine (leaves_revokeAll u c k).mono fun r v h n hn => ?_
  subst hn
  rw [← liveSessionsOf_congr q.sessions u k]
  exact h.1

/-- The number that a bulk revocation returns. -/
theorem revokedCount_eq {r : Request} (hr : r.spares = some (u, k)) {n : Nat}
    (h : Completes env r w (.ok (.revokedCount n)) w') :
    n = (liveSessionsOf w u (some k)).length := by
  have counted {p : App Nat} (hp : Leaves env p w
      fun r _ => ∀ n, r = .ok n → n = (liveSessionsOf w u (some k)).length)
      (h : (p >>= fun b => .ret (Response.revokedCount b)).Exec (system env).lapse w
        (.ok (.revokedCount n)) w') : n = (liveSessionsOf w u (some k)).length := by
    obtain ⟨x, hx, he⟩ := exec_map.mp h
    cases x with
    | error e => cases he
    | ok b =>
      cases he
      exact hp _ _ hx _ rfl
  cases r with
  | revokeAllOtherSessions u k c =>
    cases hr
    exact counted (counts_revokeAll (.refl w) _ c _) h
  | deleteOtherSessions bearer c =>
    cases hr
    refine counted ((leaves_canActivate bearer).bind (fun p w₁ ⟨q, hp⟩ => ?_) fun _ _ _ _ h => by cases h) h
    obtain ⟨rfl, -⟩ := hp p rfl
    exact counts_revokeAll q _ c _
  | changePassword bearer current new c =>
    obtain ⟨x, -, he⟩ := exec_map.mp h
    cases x <;> cases he
  | _ => cases hr

/-- What the revocations of sessions by their user change: those of all the
sessions but one, as a number of requests make them, and that of one session. -/
theorem revocation_exact (hw : Reachable env w)
    (httl : parseDurationToMs env.accessExpiresIn = .ok ttl) :
    (∀ {r : Request} {u k : String} {a : Response} {w' : World}, r.spares = some (u, k) → k ≠ "" →
      Completes env r w (.ok a) w' →
        OthersEvicted env ttl u k w w' ∧ ∀ n, a = .revokedCount n → n = newlyRevoked w w') ∧
    ∀ {u id : String} {c : RequestContext} {x : Except Exn Response} {w' : World},
      Completes env (.revokeSession u id c) w x w' → Answered x →
        if (w.sessions.find? (·.id == id)).any fun s => s.userId == u && !s.isRevoked then
          x = .ok .done ∧ EvictedExactly ttl (·.id == id) w w'
        else x = .error (sessionRefusal (w.sessions.find? (·.id == id))) ∧ (system env).lapse w w' := by
  obtain ⟨t, tr, hw⟩ := hw
  have hs := (Sound.init t).history hw
  constructor
  · intro r u k a w' hr hk hx
    have hs' : Sound env w' := hs.history (.one hx fun _ h => by cases h)
    obtain ⟨-, he⟩ | ⟨⟨e, he⟩, -⟩ :=
      completes_evicts (Request.evicts_of_spares hr) hx fun _ h => by cases h
    · have h := he.exactly hs.fresh httl (contains_liveSessionsOf hk)
      refine ⟨h.others hs hs' (completes_grows hx).1, fun n ha => ?_⟩
      rw [h.newlyRevoked_eq hs.fresh, ← length_liveSessionsOf hk]
      exact revokedCount_eq hr (ha ▸ hx)
    · cases he
  · intro u id c x w' hx ha
    split
    · rename_i hown
      obtain ⟨s, hf, hown⟩ := (Option.any_eq_true _ _).mp hown
      obtain ⟨hu, hr⟩ : s.userId = u ∧ s.isRevoked = false := by simpa using hown
      obtain ⟨r, hl, rfl⟩ := exec_map.mp hx
      have h := leaves_revokeLive hf hu hr c r w' hl
      cases r with
      | error e =>
        obtain ⟨m, rfl⟩ := h
        exact absurd rfl (ha m)
      | ok b =>
        have he : Evicts env [id] w w' :=
          EvictsFound.evicts ⟨fun i hi => by simp [List.mem_singleton.mp hi, hf], h⟩
        refine ⟨rfl, he.exactly hs.fresh httl fun i => ?_⟩
        have hid : s.id = id := by simpa using List.find?_some hf
        rw [Bool.eq_iff_iff]
        simp only [List.contains_iff_mem, List.mem_singleton, List.any_eq_true, Bool.and_eq_true,
          beq_iff_eq]
        constructor
        · rintro rfl
          exact ⟨s, List.mem_of_find?_eq_some hf, hid, hid⟩
        · rintro ⟨s', -, h, h'⟩
          exact h'.symm.trans h
    · rename_i hown
      obtain ⟨r, hl, rfl⟩ := exec_map.mp hx
      have hlive : ∀ s ∈ w.sessions.find? (·.id == id), s.userId = u → s.isRevoked = true := by
        intro s hf hu
        by_contra hr
        exact hown ((Option.any_eq_true _ _).mpr ⟨s, hf, by simp [hu, hr]⟩)
      obtain ⟨rfl, hlapse⟩ := refused_revokeSession hlive c r w' hl
      exact ⟨rfl, hlapse⟩

/-- A user with two sessions. -/
def twoDevices : List (Done Request World Exn Response) × World :=
  (system .sample).serve
    [(0, .register ⟨"a@b.co", "Passw0rd!", none, none⟩ ⟨none, none⟩),
      (1000, .login ⟨"a@b.co", "Passw0rd!"⟩ ⟨none, none⟩)] { now := 0 }

theorem revocation_exact_twoDevices :
    (let w' := ((program .sample (.revokeAllOtherSessions (unary 1) (unary 9) ⟨none, none⟩)).run
        twoDevices.2).2
     OthersEvicted .sample (.int 900000) (unary 1) (unary 9) twoDevices.2 w' ∧
      1 = newlyRevoked twoDevices.2 w') ∧
    EvictedExactly (.int 900000) (·.id == unary 4) twoDevices.2
      ((program .sample (.revokeSession (unary 1) (unary 4) ⟨none, none⟩)).run twoDevices.2).2 := by
  have hw : Reachable .sample twoDevices.2 := ⟨0, _, history_serve (by decide +kernel)⟩
  have httl : parseDurationToMs Env.sample.accessExpiresIn = .ok (.int 900000) := by decide +kernel
  obtain ⟨hall, hone⟩ := revocation_exact hw httl
  constructor
  · obtain ⟨h, hn⟩ := hall (r := .revokeAllOtherSessions (unary 1) (unary 9) ⟨none, none⟩) rfl
      (by decide +kernel) (completes_of_run (x := .ok (.revokedCount 1)) (by decide +kernel))
    exact ⟨h, hn 1 rfl⟩
  · have h := hone (completes_of_run (r := .revokeSession (unary 1) (unary 4) ⟨none, none⟩)
      (x := .ok .done) (by decide +kernel)) fun _ h => by cases h
    rw [if_pos (by decide +kernel)] at h
    exact h.2

end AtlasAuth

import AtlasAuth.Proof.Families

/-!
# The blacklist outlives the tokens

The key that a logout sets for its access token, and the key that
`SessionsService` sets for a session, last at least as long as the tokens they
stand for (`Lasting`), so that a token that has been kept off once is kept off
or has expired at every later time (`blacklist_outlives`).
-/

namespace AtlasAuth

open Framework Framework.Table Prog

variable {env : Env} {w w' : World}

/-! ## Lifetimes -/

theorem UNIT_TO_MS_dvd {c : Char} {ms : Nat} (h : UNIT_TO_MS c = some ms) : 1000 ∣ ms := by
  unfold UNIT_TO_MS at h
  split at h <;> cases h <;> decide

/-- The string, without the white space around it, is a number of units, each of
`ms` milliseconds. -/
def IsDuration (duration : String) (amount ms : Nat) : Prop :=
  ∃ digits unit, trim duration.toList = digits ++ [unit] ∧ digits ≠ [] ∧
    digits.all isDigit = true ∧ digitsToNat digits = amount ∧ UNIT_TO_MS unit = some ms

theorem unit_cases {unit : Char} {ms : Nat} (h : UNIT_TO_MS unit = some ms) :
    isDigit unit = false ∧ 0 < ms := by
  unfold UNIT_TO_MS at h
  split at h
  · cases h; decide
  · cases h; decide
  · cases h; decide
  · cases h; decide
  · cases h

theorem IsDuration.pos {duration : String} {amount ms : Nat} (h : IsDuration duration amount ms) :
    0 < ms := by
  obtain ⟨_, _, -, -, -, -, hms⟩ := h
  exact (unit_cases hms).2

theorem parseDurationToMs_of_isDuration {duration : String} {amount ms : Nat}
    (h : IsDuration duration amount ms) :
    parseDurationToMs duration = .ok ((Double.ofNat amount).mul ms) := by
  obtain ⟨digits, unit, htrim, hne, hdigits, rfl, hms⟩ := h
  have hunit := (unit_cases hms).1
  have hall : ∀ c ∈ digits, isDigit c = true := by simpa using hdigits
  have htake : (digits ++ [unit]).takeWhile isDigit = digits := by
    rw [List.takeWhile_append_of_pos hall]
    simp [hunit]
  have hdrop : (digits ++ [unit]).dropWhile isDigit = [unit] := by
    rw [List.dropWhile_append_of_pos hall]
    simp [hunit]
  unfold parseDurationToMs
  simp only [htrim, htake, hdrop]
  cases digits with
  | nil => exact absurd rfl hne
  | cons c cs => simp only [hms]

theorem isDuration_of_parse {duration : String} {d : Double}
    (h : parseDurationToMs duration = .ok d) :
    ∃ amount ms, IsDuration duration amount ms ∧ d = (Double.ofNat amount).mul ms := by
  unfold parseDurationToMs at h
  dsimp only at h
  split at h
  · rename_i c cs unit htake hdrop
    split at h
    · rename_i ms hms
      refine ⟨_, ms, ⟨(trim duration.toList).takeWhile isDigit, unit, ?_, ?_, ?_, rfl, hms⟩,
        (Except.ok.inj h).symm⟩
      · rw [← hdrop, List.takeWhile_append_dropWhile]
      · simp [htake]
      · exact List.all_takeWhile
    · cases h
  · cases h

/-- A lifetime is a product, whose factors are doubles, with a whole number of
seconds. -/
theorem parseDurationToMs_ok {d : String} {ttl : Double} (h : parseDurationToMs d = .ok ttl) :
    ∃ n k, ttl = (Double.ofNat n).mul (k * 1000) := by
  obtain ⟨n, ms, ⟨_, _, -, -, -, -, hms⟩, rfl⟩ := isDuration_of_parse h
  obtain ⟨k, rfl⟩ := UNIT_TO_MS_dvd hms
  exact ⟨n, k, by rw [Nat.mul_comm k]⟩

/-- A lifetime up to `2^53` milliseconds is a whole number of seconds. -/
theorem lifetime_cases {n k : Nat} {i : Int} (h : (Double.ofNat n).mul (k * 1000) = .int i) :
    (∃ m, i = (m * 1000 : Nat) ∧ m * 1000 ≤ 2 ^ 53) ∨ 2 ^ 53 ≤ i := by
  cases hj : Double.ofNat n with
  | infinity => rw [hj] at h; cases h
  | int j =>
    rw [hj] at h
    have hj0 : 0 ≤ j := by exact_mod_cast Double.le_of_ofInt (by decide) (Int.natCast_nonneg n) hj
    obtain ⟨j, rfl⟩ := Int.eq_ofNat_of_zero_le hj0
    have hmul : Double.ofInt (j * k * 1000 : Nat) = .int i := by
      rw [← h]
      simp [Double.mul, Nat.mul_assoc]
    by_cases hle : j * k * 1000 ≤ 2 ^ 53
    · rw [Double.ofInt_of_le hle] at hmul
      exact .inl ⟨j * k, (Double.int.inj hmul).symm, hle⟩
    · refine .inr ?_
      have := Double.le_of_ofInt (m := 2 ^ 53) (Nat.le_refl _) (by omega) hmul
      exact_mod_cast this

/-- A token signed at some time with a lifetime does not last longer than that,
or outlasts the clock. -/
theorem deadline_le {d : String} {now exp : Nat} {ttl : Double}
    (httl : parseDurationToMs d = .ok ttl)
    (hexp : TokenService.expiry (now / 1000) (ttl.divFloor 1000) = .ok exp) :
    min (exp * 1000) (maxTime + 1) ≤ now + ttl.toNat := by
  have hmax : maxTime + 1 ≤ 2 ^ 53 := by decide
  obtain ⟨n, k, rfl⟩ := parseDurationToMs_ok httl
  cases hi : (Double.ofNat n).mul (k * 1000) with
  | infinity => rw [hi] at hexp; cases hexp
  | int i =>
    rw [hi] at hexp
    simp only [Double.toNat]
    rcases lifetime_cases hi with ⟨m, rfl, hm⟩ | hle
    · have hquot : (Double.int (m * 1000 : Nat)).divFloor 1000 = .int m :=
        congrArg (fun q : Nat => Double.int q) (Double.floorQuot_mul (by decide) (by omega))
      rw [hquot] at hexp
      by_cases hsum : now / 1000 + m ≤ 2 ^ 53
      · have hsec : now / 1000 + m = exp := by
          dsimp only [TokenService.expiry] at hexp
          rw [Double.add_of_le hsum] at hexp
          exact Except.ok.inj hexp
        omega
      · omega
    · omega

/-! ## Keys -/

theorem JTI_PREFIX_inj {a b : String} (h : JTI_PREFIX ++ a = JTI_PREFIX ++ b) : a = b :=
  (String.append_right_inj _).mp h

theorem SESSION_PREFIX_inj {a b : String} (h : SESSION_PREFIX ++ a = SESSION_PREFIX ++ b) : a = b :=
  (String.append_right_inj _).mp h

theorem JTI_PREFIX_ne (a b : String) : JTI_PREFIX ++ a ≠ SESSION_PREFIX ++ b := by
  intro h
  have h := congrArg (fun s : String => s.toList[15]?) h
  simp [JTI_PREFIX, SESSION_PREFIX] at h

/-- A key is set, whether or not it has expired. -/
def KeySet (w : World) (k : String) : Prop := (w.redis k).isSome = true

/-- The keys of the blacklist stand for signed tokens and revoked sessions,
and last at least as long as the tokens that they keep off. -/
structure Lasting (env : Env) (w : World) : Prop where
  deadline : ∀ p ∈ w.signed, ∀ ttl, parseDurationToMs env.accessExpiresIn = .ok ttl →
    p.deadline ≤ w.now + ttl.toNat
  jti : ∀ p ∈ w.signed, w.redis.Until (JTI_PREFIX ++ p.jti) p.deadline
  session : ∀ p ∈ w.signed, w.redis.Until (SESSION_PREFIX ++ p.sessionId) p.deadline
  jtiSigned : ∀ j, KeySet w (JTI_PREFIX ++ j) → ∃ p ∈ w.signed, p.jti = j
  sessionRevoked : ∀ id, KeySet w (SESSION_PREFIX ++ id) → SessionRevoked id w

theorem Lasting.init (t : Time) : Lasting env { now := t } where
  deadline := fun _ => nofun
  jti := fun _ => nofun
  session := fun _ => nofun
  jtiSigned := fun _ => nofun
  sessionRevoked := fun _ => nofun

theorem Lasting.calm (h : Lasting env w) (hc : Calm w w') : Lasting env w' where
  deadline := fun p hp ttl httl =>
    (h.deadline p (hc.signed ▸ hp) ttl httl).trans (Nat.add_le_add_right hc.now _)
  jti := by rw [hc.signed, hc.redis]; exact h.jti
  session := by rw [hc.signed, hc.redis]; exact h.session
  jtiSigned := by rw [hc.signed]; unfold KeySet; rw [hc.redis]; exact h.jtiSigned
  sessionRevoked := by
    unfold KeySet SessionRevoked
    rw [hc.redis, hc.sessions]
    exact h.sessionRevoked

/-- One more token is signed, for which no key is set. -/
theorem Lasting.sign (h : Lasting env w) (hg : Grows w w') (hredis : w'.redis = w.redis)
    {u sid : String} {p : JwtPayload} (hsigned : w'.signed = w.signed ++ [p])
    (hp : SignedFor env u sid w w' p) (hjti : ¬KeySet w (JTI_PREFIX ++ p.jti))
    (hsession : ¬KeySet w (SESSION_PREFIX ++ p.sessionId)) : Lasting env w' := by
  have unset {k : String} {e : Nat} (hk : ¬KeySet w k) : w'.redis.Until k e := by
    rw [hredis]
    exact .of_none (Option.not_isSome_iff_eq_none.mp hk)
  refine ⟨fun q hq ttl httl => ?_, fun q hq => ?_, fun q hq => ?_, fun j hj => ?_, fun id hid => ?_⟩
  · rcases List.mem_append.mp (hsigned ▸ hq) with hq | hq
    · exact (h.deadline q hq ttl httl).trans (Nat.add_le_add_right hg.now _)
    · obtain rfl := List.mem_singleton.mp hq
      obtain ⟨now, ttl', -, hn, httl', hiat, hexp⟩ := hp.expiry
      obtain rfl := Except.ok.inj (httl.symm.trans httl')
      exact (deadline_le httl (hiat ▸ hexp)).trans (Nat.add_le_add_right hn _)
  · rcases List.mem_append.mp (hsigned ▸ hq) with hq | hq
    · exact hredis ▸ h.jti q hq
    · obtain rfl := List.mem_singleton.mp hq
      exact unset hjti
  · rcases List.mem_append.mp (hsigned ▸ hq) with hq | hq
    · exact hredis ▸ h.session q hq
    · obtain rfl := List.mem_singleton.mp hq
      exact unset hsession
  · obtain ⟨q, hq, e⟩ := h.jtiSigned j (by rwa [KeySet, ← hredis])
    exact ⟨q, hg.signed.subset hq, e⟩
  · exact (h.sessionRevoked id (by rwa [KeySet, ← hredis])).grows hg

theorem Lasting.issued {w₁ : World} {u : String} {s : Session} {t : RefreshToken}
    {p : JwtPayload} (h : Lasting env w) (hc : Coherent env w) (hf' : Fresh env w')
    (hg : Grows w w') (hcalm : Calm w w₁) (hi : Issued env u s t p w₁ w') : Lasting env w' := by
  obtain ⟨j, hj, -, hjti⟩ := hi.access.jti
  refine h.sign hg (hi.redis.trans hcalm.redis) (hi.signed.trans (by rw [hcalm.signed]))
    (hi.access.mono ⟨hcalm.now, hcalm.drawn⟩ ⟨Nat.le_refl _, Nat.le_refl _⟩) (fun hk => ?_) fun hk => ?_
  · obtain ⟨q, hq, e⟩ := h.jtiSigned _ hk
    exact hc.jtiMinted.ne env.randomUUID_injective hq (hcalm.drawn.trans hj) (e.trans hjti)
  · obtain ⟨s', hs', -⟩ := h.sessionRevoked _ hk
    have hm : s' ∈ w₁.sessions := hcalm.sessions ▸ List.mem_of_find?_eq_some hs'
    have he : s'.id = p.sessionId := by simpa using List.find?_some hs'
    exact (hi.sessions ▸ hf'.sessionId).ne_of_append hm (he.trans hi.access.sessionId)

theorem Lasting.rotated {t₀ t : RefreshToken} {s : Session} {p : JwtPayload}
    (h : Lasting env w) (hc : Coherent env w) (hg : Grows w w')
    (hs : w.sessions.find? (·.id == t₀.sessionId) = some s) (hsr : s.isRevoked = false)
    (hi : Rotated env t₀ t p w w') : Lasting env w' := by
  obtain ⟨j, hj, -, hjti⟩ := hi.access.jti
  refine h.sign hg hi.redis hi.signed hi.access (fun hk => ?_) fun hk => ?_
  · obtain ⟨q, hq, e⟩ := h.jtiSigned _ hk
    exact hc.jtiMinted.ne env.randomUUID_injective hq hj (e.trans hjti)
  · obtain ⟨s', hs', hr⟩ := h.sessionRevoked _ hk
    rw [hi.access.sessionId] at hs'
    obtain rfl := Option.some.inj (hs.symm.trans hs')
    simp [hsr] at hr

theorem Lasting.revoked {p : Session → Bool} {q : RefreshToken → Bool} (h : Lasting env w)
    (hc : Coherent env w) (hg : Grows w w') (hr : Revoked env p q w w') : Lasting env w' := by
  refine ⟨fun x hx ttl httl => ?_, fun x hx => ?_, fun x hx => ?_, fun j hj => ?_, fun id hid => ?_⟩
  · exact (h.deadline x (hr.signed ▸ hx) ttl httl).trans (Nat.add_le_add_right hr.now _)
  · rw [hr.signed] at hx
    cases hr.redis (JTI_PREFIX ++ x.jti) with
    | kept e => exact fun y hy => h.jti x hx y (e ▸ hy)
    | token hp hk he e =>
      obtain rfl := hc.jti.eq hx hp (JTI_PREFIX_inj hk)
      exact .of_some he e
    | session _ hk => exact (JTI_PREFIX_ne _ _ hk).elim
  · rw [hr.signed] at hx
    cases hr.redis (SESSION_PREFIX ++ x.sessionId) with
    | kept e => exact fun y hy => h.session x hx y (e ▸ hy)
    | token _ hk => exact (JTI_PREFIX_ne _ _ hk.symm).elim
    | session _ _ httl he e => exact .of_some ((h.deadline x hx _ httl).trans he) e
  · rw [hr.signed]
    cases hr.redis (JTI_PREFIX ++ j) with
    | kept e => exact h.jtiSigned j (by rwa [KeySet, ← e])
    | token hp hk => exact ⟨_, hp, (JTI_PREFIX_inj hk).symm⟩
    | session _ hk => exact (JTI_PREFIX_ne _ _ hk).elim
  · cases hr.redis (SESSION_PREFIX ++ id) with
    | kept e => exact (h.sessionRevoked id (by rwa [KeySet, ← e])).grows hg
    | token _ hk => exact (JTI_PREFIX_ne _ _ hk.symm).elim
    | session hs hk => exact SESSION_PREFIX_inj hk ▸ hs

theorem Lasting.change (h : Lasting env w) (hs : Sound env w) (hg : GrowsFresh env w w')
    (hc : Change env w w') : Lasting env w' := by
  cases hc with
  | calm hc => exact h.calm hc
  | issued hc _ hi => exact h.issued hs.coherent (hg.2 hs.fresh) hg.1 hc hi
  | rotated _ _ hf hr _ _ hi => exact h.rotated hs.coherent hg.1 hf hr hi
  | revoked hr => exact h.revoked hs.coherent hg.1 hr

/-! ## Histories -/

/-- A state of completed requests, with what is known of its blacklist. -/
theorem Lasting.history {tr : List (Done Request World Exn Response)} (hl : Lasting env w)
    (hs : Sound env w) (h : History env w tr w') : Lasting env w' := by
  refine (h.invariant (I := fun v => Sound env v ∧ Lasting env v) ⟨hs, hl⟩ ?_ ?_).2
  · rintro m w₁ ⟨hs, hl⟩
    exact ⟨hs.history (.env m .nil), hl.calm (Quiet.lapse ⟨m, rfl⟩).calm⟩
  · rintro r w₁ x w₂ ⟨hs, hl⟩ he hx
    exact ⟨hs.history (.one he hx),
      hl.change hs (completes_grows he) (change_program hs.ready he hx)⟩

/-- A key once set is never deleted: it only expires. -/
theorem Change.keySet {k : String} (hc : Change env w w') (h : KeySet w k) : KeySet w' k := by
  unfold KeySet at h ⊢
  cases hc with
  | calm hc => rwa [hc.redis]
  | issued hc _ hi => rwa [hi.redis, hc.redis]
  | rotated _ _ _ _ _ _ hi => rwa [hi.redis]
  | revoked hr =>
    cases hr.redis k with
    | kept e => rwa [e]
    | token _ _ _ e | session _ _ _ _ e => rw [e]; rfl

theorem KeySet.history {tr : List (Done Request World Exn Response)} {k : String}
    (h : KeySet w k) (hs : Sound env w) (ht : History env w tr w') : KeySet w' k := by
  refine (ht.invariant (I := fun v => Sound env v ∧ KeySet v k) ⟨hs, h⟩ ?_ ?_).2
  · rintro m w₁ ⟨hs, hk⟩
    exact ⟨hs.history (.env m .nil), hk⟩
  · rintro r w₁ x w₂ ⟨hs, hk⟩ he hx
    exact ⟨hs.history (.one he hx), (change_program hs.ready he hx).keySet hk⟩

/-- An access token is of no use: it has expired, or the strategy finds it or
its session on the blacklist. -/
def Rejected (w : World) (p : JwtPayload) : Prop :=
  p.expired w.now = true ∨
    ((JwtStrategy.validate p).run w).1 = .error (.unauthorized "Token has been revoked")

theorem validate_error_iff {p : JwtPayload} :
    ((JwtStrategy.validate p).run w).1 = .error (.unauthorized "Token has been revoked") ↔
      w.redis.has (JTI_PREFIX ++ p.jti) w.now = true ∨
        w.redis.has (SESSION_PREFIX ++ p.sessionId) w.now = true := by
  simp only [JwtStrategy.validate, TokenBlacklistService.isBlacklisted, RedisService.exists,
    TokenBlacklistService.isSessionBlacklisted, run_bind, run_query]
  cases w.redis.has (JTI_PREFIX ++ p.jti) w.now <;>
    cases w.redis.has (SESSION_PREFIX ++ p.sessionId) w.now <;> simp

theorem rejected_iff {p : JwtPayload} : Rejected w p ↔ p.expired w.now = true ∨
    w.redis.has (JTI_PREFIX ++ p.jti) w.now = true ∨
      w.redis.has (SESSION_PREFIX ++ p.sessionId) w.now = true :=
  or_congr_right validate_error_iff

/-- A token whose deadline has passed has expired. -/
theorem expired_of_deadline {p : JwtPayload} {now : Nat} (h : p.deadline ≤ now)
    (hnow : now ≤ maxTime) : p.expired now = true := by
  have h : min (p.exp * 1000) (maxTime + 1) ≤ now := h
  have : p.exp ≤ now / 1000 := by omega
  simpa [JwtPayload.expired] using this

theorem keySet_of_has {k : String} {now : Time} (h : w.redis.has k now = true) : KeySet w k := by
  obtain ⟨x, hx, -⟩ := Expiring.has_eq_true.mp h
  rw [KeySet, hx]
  rfl

/-- What keeps an access token off from now on: its key, that of its session,
or that its deadline has passed. -/
def KeptOff (w : World) (p : JwtPayload) : Prop :=
  KeySet w (JTI_PREFIX ++ p.jti) ∨ KeySet w (SESSION_PREFIX ++ p.sessionId) ∨ p.deadline ≤ w.now

theorem KeptOff.rejected {p : JwtPayload} (h : KeptOff w p) (hl : Lasting env w)
    (hp : p ∈ w.signed) (hnow : w.now ≤ maxTime) : Rejected w p := by
  by_cases hd : p.deadline ≤ w.now
  · exact .inl (expired_of_deadline hd hnow)
  · have hd : w.now < p.deadline := Nat.lt_of_not_le hd
    rcases h with h | h | h
    · exact rejected_iff.mpr (.inr (.inl ((hl.jti p hp).has h hd)))
    · exact rejected_iff.mpr (.inr (.inr ((hl.session p hp).has h hd)))
    · omega

theorem KeptOff.history {tr : List (Done Request World Exn Response)} {p : JwtPayload}
    (h : KeptOff w p) (hs : Sound env w) (ht : History env w tr w') : KeptOff w' p :=
  h.imp (·.history hs ht) (.imp (·.history hs ht) (·.trans (history_grows ht).1.now))

theorem LoggedOut.keptOff {bearer : JwtPayload} {cookie : Option String}
    (h : LoggedOut env bearer cookie w w') : KeptOff w' bearer := by
  rcases h.redis.keys _ (List.mem_singleton_self _) with ⟨hd, -⟩ | ⟨e, -, he⟩
  · exact .inr (.inr hd)
  · exact .inl (by rw [KeySet, he]; rfl)

theorem Evicts.keptOff {ids : List String} {p : JwtPayload} (h : Evicts env ids w w')
    (hl : Lasting env w) (hp : p ∈ w.signed) (hid : p.sessionId ∈ ids) : KeptOff w' p := by
  obtain ⟨w₁, hc, -, h⟩ := h
  obtain ⟨ttl, httl, hk⟩ := h.redis
  rcases hk.keys _ (List.mem_map_of_mem (f := (SESSION_PREFIX ++ ·)) hid) with ⟨hd, -⟩ | ⟨e, -, he⟩
  · refine .inr (.inr ?_)
    exact (hl.deadline p hp ttl httl).trans ((Nat.add_le_add_right hc.now _).trans hd)
  · exact .inr (.inl (by rw [KeySet, he]; rfl))

/-- A request after which an access token is to be kept off: a logout with the
token, or the revocation of its session by `SessionsService`. -/
def Blacklists (env : Env) (d : Done Request World Exn Response) (p : JwtPayload) : Prop :=
  (∃ a, d.outcome = .ok a) ∧
    ((∃ cookie c, d.req = .logout p cookie c) ∨
      ∃ ids, d.req.evicts env d.before = some ids ∧ p.sessionId ∈ ids)

theorem Blacklists.keptOff {d : Done Request World Exn Response} {p : JwtPayload}
    (h : Blacklists env d p) (hs : Sound env d.before) (hl : Lasting env d.before)
    (hp : p ∈ d.before.signed) (he : Completes env d.req d.before d.outcome d.after)
    (hx : Answered d.outcome) : KeptOff d.after p := by
  obtain ⟨⟨a, ha⟩, ⟨cookie, c, hreq⟩ | ⟨ids, hids, hid⟩⟩ := h
  · rcases completes_logout hs.ready (hreq ▸ he) hx with ⟨-, h⟩ | ⟨⟨e, he⟩, -⟩
    · exact h.keptOff
    · cases ha.symm.trans he
  · rcases completes_evicts hids he hx with ⟨-, h⟩ | ⟨⟨e, he⟩, -⟩
    · exact h.keptOff hl hp hid
    · cases ha.symm.trans he

/-- An access token that has been used for a logout, or whose session has been
revoked by `SessionsService`, is rejected in every state that completed
requests lead to from then on, whatever the configured lifetime, up to the greatest
time that a clock can show. -/
theorem blacklist_outlives {t : Time} {tr : List (Done Request World Exn Response)}
    (h : History env { now := t } tr w) (hnow : w.now ≤ maxTime) :
    ∀ d ∈ tr, ∀ p ∈ d.before.signed, Blacklists env d p → Rejected w p := by
  intro d hd p hp hb
  obtain ⟨tr₁, tr₂, h₁, he, hx, h₂⟩ := System.Trace.mem h hd
  have hs := (Sound.init t).history h₁
  have hs' := hs.history (System.Trace.one he hx)
  have hkept := (hb.keptOff hs ((Lasting.init t).history (.init t) h₁) hp he hx).history hs' h₂
  have hg := (completes_grows he).1.trans (history_grows h₂).1
  exact hkept.rejected ((Lasting.init t).history (.init t) h) (hg.signed.subset hp) hnow

/-- The access token of the first registration, at time zero. -/
def firstToken : JwtPayload where
  sub := unary 1
  email := "a@b.co"
  roles := []
  permissions := []
  sessionId := unary 4
  jti := unary 5
  iat := 0
  exp := 900

/-- A registration and a logout; the token is used again in its last second. -/
def usedAgain : List (Done Request World Exn Response) × World :=
  (system .sample).serve
    [(0, .register ⟨"a@b.co", "Passw0rd!", none, none⟩ ⟨none, none⟩),
     (500, .logout firstToken none ⟨none, none⟩), (899000, .getMe firstToken)] { now := 0 }

theorem usedAgain_rejected :
    firstToken.expired usedAgain.2.now = false ∧ Rejected usedAgain.2 firstToken := by
  have h : History .sample { now := 0 } usedAgain.1 usedAgain.2 := history_serve (by decide +kernel)
  exact ⟨by decide +kernel, blacklist_outlives h (by decide +kernel) _ (.tail _ (.head _)) firstToken
    (by decide +kernel) ⟨⟨.done, by decide +kernel⟩, .inl ⟨none, _, rfl⟩⟩⟩

end AtlasAuth

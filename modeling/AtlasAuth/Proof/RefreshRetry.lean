import AtlasAuth.Proof.Interrupted

/-!
# Retrying a refresh

A refresh makes the successor of the token, revokes the token, extends the
session and signs an access token, in separate calls. When one of them fails,
what it finds when it is repeated depends on which: before the revocation of
the token the repeated refresh succeeds, after it the token counts as replayed
(`refresh_retried`). In between there are two tokens of the family that are
not revoked.
-/

namespace AtlasAuth

open Framework Framework.Table Prog

variable {env : Env} {w w' w'' : World} {n : Nat} {l : Call} {e : Exn}

/-- The calls that a refresh makes after it has revoked its token. -/
def Call.concludes : Call → Bool
  | .touchSession _ | .usersFindWithAccessById _ | .randomUUID | .jwtSign | .emit => true
  | _ => false

/-- The revocation of a refresh token by its successor. -/
def Call.exchanges : Call → Bool
  | .revokeRefreshToken _ => true
  | _ => false

/-- A successor of the token has been made, and nothing else. -/
structure SuccessorMade (env : Env) (t₀ t : RefreshToken) (w w' : World) : Prop where
  drawn : w.drawn ≤ w'.drawn
  users : w'.users.map User.credentials = w.users.map User.credentials
  sessions : w'.sessions = w.sessions
  refreshTokens : w'.refreshTokens = w.refreshTokens ++ [t]
  token : t.IsNew t₀.userId t₀.sessionId t₀.familyId t.tokenHash
  hash : Drawn (env.sha256 ∘ env.randomBytes) w w' t.tokenHash

/-- What a refresh leaves that ends with an error because the call `l` failed. -/
inductive RefreshInterrupted (env : Env) (l : Call) (t₀ : RefreshToken) (w w' : World) : Prop
  | untouched (hl : l.exchanges = false ∧ l.concludes = false) (h : Quiet w w')
  | successor {t : RefreshToken} (hl : l.exchanges = true) (h : SuccessorMade env t₀ t w w')
  | exchanged {t : RefreshToken} {now : Time} (hl : l.exchanges = false ∧ l.concludes = true)
      (h : w'.refreshTokens = updateWhere (·.id == t₀.id)
        (fun t' => { t' with revokedAt := some now, replacedByTokenHash := some t.tokenHash })
        (w.refreshTokens ++ [t]))
      (ht : t.IsNew t₀.userId t₀.sessionId t₀.familyId t.tokenHash)

theorem RefreshInterrupted.after {t₀ : RefreshToken} (q : Quiet w w')
    (h : RefreshInterrupted env l t₀ w' w'') : RefreshInterrupted env l t₀ w w'' := by
  cases h with
  | untouched hl h => exact .untouched hl (q.trans h)
  | successor hl h =>
    exact .successor hl {
      drawn := q.drawn.trans h.drawn
      users := h.users.trans q.users
      sessions := h.sessions.trans q.sessions
      refreshTokens := q.refreshTokens ▸ h.refreshTokens
      token := h.token
      hash := h.hash.mono q.drawn (Nat.le_refl _) }
  | exchanged hl h ht => exact .exchanged hl (q.refreshTokens ▸ h) ht

theorem without_generateRefreshToken (h : Issuable env n) :
    Without env n l e (TokenService.generateRefreshToken env) w fun r w' => Quiet w w' ∧
      match r with
      | .ok new => new.expiresAt.Accepted ∧ new.tokenHash = env.sha256 new.token ∧
          Drawn env.randomBytes w w' new.token ∧ l ≠ .dateNow
      | .error _ => l.exchanges = false ∧ l.concludes = false := by
  obtain ⟨d, hd, hdate⟩ := h.refresh
  refine .failing_atomic_bind (by rintro rfl; exact ⟨.refl _, rfl, rfl⟩) fun _ w₁ h₁ => ?_
  have q₁ : Quiet w { w₁ with drawn := w₁.drawn + 1 } := .trans (.lapse h₁.1) (Minor.quiet .draw)
  rw [hd]
  refine .failing_query_bind (by rintro rfl; exact ⟨q₁, rfl, rfl⟩) fun hl w₂ h₂ =>
    ensures_ret.mpr ⟨q₁.trans (.lapse h₂.1), accepted_of_le hd h₂.2 hdate, rfl, ?_, Ne.symm hl⟩
  exact ⟨_, (Quiet.lapse h₁.1).drawn, (Quiet.lapse h₂.1).drawn, rfl⟩

theorem without_signAccessTokenForUser (h : Issuable env n) (hl : l ≠ .dateNow) (u : User)
    (sid : String) :
    Without env n l e (AuthService.signAccessTokenForUser env u sid) w fun r w' =>
      w'.refreshTokens = w.refreshTokens ∧
        ((∃ a, r = .ok a) ∨ l.exchanges = false ∧ l.concludes = true) := by
  obtain ⟨d, exp, hd, hexp⟩ := h.access
  have same {w w' : World} (h : lapseUntil env n w w') : w'.refreshTokens = w.refreshTokens :=
    (Quiet.lapse h.1).refreshTokens
  refine .failing_query_bind (by rintro rfl; exact ⟨rfl, .inr ⟨rfl, rfl⟩⟩) fun _ w₁ h₁ => ?_
  have e₁ := same h₁
  refine .failing_atomic_bind (by rintro rfl; exact ⟨e₁, .inr ⟨rfl, rfl⟩⟩) fun _ w₂ h₂ => ?_
  have e₂ := (same h₂).trans e₁
  rw [TokenService.getAccessTokenTtlMs, hd]
  refine .failing_atomic_bind (by rintro rfl; exact ⟨e₂, .inr ⟨rfl, rfl⟩⟩) fun _ w₃ h₃ => ?_
  have e₃ := (same h₃).trans e₂
  obtain ⟨exp', hexp'⟩ := expiry_of_le (Nat.div_le_div_right h₃.2) hexp
  simp only [hexp']
  exact .failing_query_bind (fun h => absurd h.symm hl) fun _ w₄ h₄ =>
    ensures_ret.mpr ⟨(same h₄).trans e₃, .inl ⟨_, rfl⟩⟩

theorem without_rotate (h : Issuable env n) (hw : HashMinted env w) {t₀ : RefreshToken} {s : Session}
    {u : User} (ht : w.refreshTokens.find? (·.id == t₀.id) = some t₀)
    (hs : w.sessions.find? (·.id == s.id) = some s) (hsid : s.id = t₀.sessionId)
    (huid : u.id = t₀.userId) (c : RequestContext) :
    Without env n l e (AuthService.rotate env t₀ s u c) w fun r w' =>
      (∃ b, r = .ok b) ∨ RefreshInterrupted env l t₀ w w' := by
  unfold AuthService.rotate
  refine .failing_bind (without_generateRefreshToken h) ?_ fun e w' ⟨q, hl⟩ => .inr (.untouched hl q)
  rintro new w₁ ⟨q₁, hdate, hhash, ⟨k, hk, hk', hnew⟩, hl⟩
  have hn : ∀ t ∈ w₁.refreshTokens, t.tokenHash ≠ new.tokenHash := by
    rw [q₁.refreshTokens, hhash]
    exact hw.new ⟨k, hk, hk', hnew⟩
  refine without_call_bind (delivers_leaves (delivers_createRefreshToken hn hdate _ _ _ _)
    (leaves_createRefreshToken hn _ _ _ _ _)) ?_ ?_
  · rintro rfl
    exact .inr (.untouched ⟨rfl, rfl⟩ q₁)
  rintro t _ ⟨-, ⟨h₁, h₂, hfamily, hthash, hrev, hrep⟩, -, w₂, q₂, rfl⟩
  have made : SuccessorMade env t₀ t w
      { w₂ with drawn := w₂.drawn + 1, refreshTokens := w₂.refreshTokens ++ [t] } := {
    drawn := Nat.le_succ_of_le (q₁.drawn.trans q₂.drawn)
    users := q₂.users.trans q₁.users
    sessions := q₂.sessions.trans q₁.sessions
    refreshTokens := by simp only [q₂.refreshTokens, q₁.refreshTokens]
    token := ⟨h₁.trans huid, h₂.trans hsid, hfamily, rfl, hrev, hrep⟩
    hash := ⟨k, hk, Nat.lt_succ_of_lt (Nat.lt_of_lt_of_le hk' q₂.drawn), by
      rw [hthash, hhash, hnew]; rfl⟩ }
  refine .failing_atomic_bind ?_ fun _ w₃ h₃ => ?_
  · rintro rfl
    exact .inr (.successor rfl made)
  have q₃ := Quiet.lapse h₃.1
  have ht₃ : w₃.refreshTokens.find? (·.id == t₀.id) = some t₀ := by
    rw [q₃.refreshTokens, made.refreshTokens, List.find?_append, ht, Option.some_or]
  simp only [ht₃]
  -- From here on the token is revoked, and its successor there.
  have exchanged {v : World} (hl : l.exchanges = false ∧ l.concludes = true)
      (hv : v.refreshTokens = updateWhere (·.id == t₀.id)
        (fun t' => { t' with revokedAt := some w₃.now, replacedByTokenHash := some new.tokenHash })
        w₃.refreshTokens) :
      RefreshInterrupted env l t₀ w v :=
    .exchanged hl (by rw [hv, q₃.refreshTokens, made.refreshTokens, hthash]) made.token
  refine .failing_atomic_bind ?_ fun _ w₄ h₄ => ?_
  · rintro rfl
    exact .inr (exchanged ⟨rfl, rfl⟩ rfl)
  have q₄ := Quiet.lapse h₄.1
  have hs₄ : w₄.sessions.find? (·.id == s.id) = some s := by
    rw [q₄.sessions]
    exact (congrArg (List.find? _) (q₃.sessions.trans made.sessions)).trans hs
  obtain ⟨d, hd⟩ := hdate
  rw [hs₄, hd]
  refine .failing_bind (without_signAccessTokenForUser h hl u _) ?_ ?_
  · rintro a w₅ ⟨h₅, -⟩
    refine .failing_atomic_bind ?_ fun _ w₆ h₆ => ensures_ret.mpr (.inl ⟨_, rfl⟩)
    rintro rfl
    exact .inr (exchanged ⟨rfl, rfl⟩ (h₅.trans q₄.refreshTokens))
  · rintro e w₅ ⟨h₅, hr⟩
    obtain ⟨a, ha⟩ | hl := hr
    · cases ha
    · exact .inr (exchanged hl (h₅.trans q₄.refreshTokens))

theorem without_refresh (hw : HashMinted env w) (hid : Unique RefreshToken.id w.refreshTokens)
    {token : String} (h : Refreshable env w token n) {t : RefreshToken}
    (ht : w.refreshTokens.find? (·.tokenHash == env.sha256 token) = some t) (c : RequestContext) :
    Without env n l e (AuthService.refresh env token c) w fun r w' =>
      (∃ b, r = .ok b) ∨ RefreshInterrupted env l t w w' := by
  obtain ⟨t', s, u, ht', hrev, hexp, hsess, hlive, hu⟩ := h.row
  obtain rfl := Option.some.inj (ht'.symm.trans ht)
  have hmem := List.mem_of_find?_eq_some ht
  have hsid : s.id = t'.sessionId := by simpa using List.find?_some hsess
  have huid : u.id = t'.userId := by simpa using And.left (by simpa using List.find?_some hu)
  refine .failing_query_bind ?_ fun _ w₁ h₁ => ?_
  · rintro rfl
    exact .inr (.untouched ⟨rfl, rfl⟩ (.refl w))
  have q₁ := Quiet.lapse h₁.1
  rw [show TokenService.hashRefreshToken env token = env.sha256 token from rfl, q₁.refreshTokens, ht]
  dsimp only
  rw [hrev]
  refine .failing_query_bind ?_ fun _ w₂ h₂ => ?_
  · rintro rfl
    exact .inr (.untouched ⟨rfl, rfl⟩ q₁)
  have q₂ := q₁.trans (.lapse h₂.1)
  rw [if_neg (Nat.not_lt.mpr (Nat.le_trans h₂.2 hexp))]
  refine .failing_query_bind ?_ fun _ w₃ h₃ => ?_
  · rintro rfl
    exact .inr (.untouched ⟨rfl, rfl⟩ q₂)
  have q₃ := q₂.trans (.lapse h₃.1)
  rw [q₃.sessions, hsess]
  dsimp only
  rw [hlive]
  refine .failing_query_bind ?_ fun _ w₄ h₄ => ?_
  · rintro rfl
    exact .inr (.untouched ⟨rfl, rfl⟩ q₃)
  have q₄ := q₃.trans (.lapse h₄.1)
  have husers : w₄.users = w.users := by
    rw [lapse_users h₄.1, lapse_users h₃.1, lapse_users h₂.1, lapse_users h₁.1]
  rw [husers, hu]
  have ht₄ : w₄.refreshTokens.find? (·.id == t'.id) = some t' := by
    rw [q₄.refreshTokens]
    exact hid.find?.mpr ⟨hmem, rfl⟩
  have hs₄ : w₄.sessions.find? (·.id == s.id) = some s := by rw [q₄.sessions, hsid, hsess]
  refine (without_rotate h.issuable (hw.calm q₄.calm) ht₄ hs₄ hsid huid c).mono fun r w' hr => ?_
  exact hr.imp_right fun hr => hr.after q₄

/-! ## The repeated refresh -/

/-- The refresh can be repeated while the users, the sessions and the old
refresh tokens are what they were. -/
theorem Refreshable.of_rows {token : String} (h : Refreshable env w token n)
    (hu : w'.users.map User.credentials = w.users.map User.credentials)
    (hs : w'.sessions = w.sessions) {ts : List RefreshToken}
    (ht : w'.refreshTokens = w.refreshTokens ++ ts) : Refreshable env w' token n := by
  obtain ⟨t, s, u, htok, hrev, hexp, hsess, hlive, huser⟩ := h.row
  obtain ⟨u', hu', -⟩ := (evolves_of_credentials hu).find?
    (q := fun u : User => u.id == t.userId && u.deletedAt.isNone)
    (fun a b (hab : a.SameIdentity b) => by rw [hab.1, hab.2]) huser
  refine ⟨h.present, ⟨t, s, u', ?_, hrev, hexp, hs ▸ hsess, hlive, hu'⟩, h.issuable⟩
  rw [ht, List.find?_append, htok, Option.some_or]

/-- A refresh that presents a revoked token. -/
theorem reuse_of_revoked {token : String} {t : RefreshToken}
    (ht : w.refreshTokens.find? (·.tokenHash == env.sha256 token) = some t)
    (hr : t.revokedAt.isSome = true) (hs : (w.sessions.find? (·.id == t.sessionId)).isSome = true)
    (c : RequestContext) :
    Leaves env (AuthService.refresh env token c) w fun r _ => r = .error reuseError := by
  refine .query_bind fun w₁ h₁ => ?_
  have q₁ := Quiet.lapse h₁
  rw [show TokenService.hashRefreshToken env token = env.sha256 token from rfl, q₁.refreshTokens, ht]
  dsimp only
  rw [if_pos hr]
  exact (leaves_reuseDetected (q₁.sessions ▸ hs) c).mono fun _ _ h => h.1

/-- The refresh tokens of a family that are not revoked. -/
def World.live (w : World) (family : String) : Nat := w.refreshTokens.countP (liveInFamily family)

theorem Sound.eq_of_live (hs : Sound env w) {t t' : RefreshToken} (ht : t ∈ w.refreshTokens)
    (hr : t.revokedAt = none) (ht' : t' ∈ w.refreshTokens)
    (hl : liveInFamily t.familyId t' = true) : t' = t := by
  obtain ⟨hf, hr'⟩ : t'.familyId = t.familyId ∧ t'.revokedAt = none := by
    simpa [liveInFamily] using hl
  have hm : t ∈ w.family t.familyId := List.mem_filter.mpr ⟨ht, by simp⟩
  have hm' : t' ∈ w.family t.familyId := List.mem_filter.mpr ⟨ht', by simp [hf]⟩
  have hc := hs.coherent
  exact (hc.linked _).eq_of_none hm' hm (hc.replaced_eq_none hm' hr') (hc.replaced_eq_none hm hr)

theorem Sound.live_eq_one (hs : Sound env w) {t : RefreshToken} (ht : t ∈ w.refreshTokens)
    (hr : t.revokedAt = none) : w.live t.familyId = 1 := by
  have hnodup : w.refreshTokens.Nodup := .of_map _ hs.fresh.tokenId
  rw [← List.count_eq_one_of_mem hnodup ht]
  refine List.countP_congr fun t' ht' => ?_
  simp only [beq_iff_eq]
  constructor
  · exact hs.eq_of_live ht hr ht'
  · rintro rfl
    simp [liveInFamily, hr]

theorem live_of_untouched {f : String} (h : w'.refreshTokens = w.refreshTokens) :
    w'.live f = w.live f := by
  rw [World.live, h, World.live]

theorem SuccessorMade.live {t₀ t : RefreshToken} (h : SuccessorMade env t₀ t w w')
    (h₁ : w.live t₀.familyId = 1) : w'.live t₀.familyId = 2 := by
  obtain ⟨-, -, hf, -, hr, -⟩ := h.token
  have ht : liveInFamily t₀.familyId t = true := by simp [liveInFamily, hf, hr]
  rw [World.live, h.refreshTokens, List.countP_append, ← World.live, h₁]
  simp [ht]

/-- After the exchange only the successor is not revoked. -/
theorem live_of_exchanged (hs : Sound env w) (hf : Fresh env w') {t₀ t : RefreshToken} {now : Time}
    (ht₀ : t₀ ∈ w.refreshTokens) (hr₀ : t₀.revokedAt = none)
    (h : w'.refreshTokens = updateWhere (·.id == t₀.id)
      (fun t' => { t' with revokedAt := some now, replacedByTokenHash := some t.tokenHash })
      (w.refreshTokens ++ [t]))
    (ht : t.IsNew t₀.userId t₀.sessionId t₀.familyId t.tokenHash) : w'.live t₀.familyId = 1 := by
  obtain ⟨-, -, hfam, -, hr, -⟩ := ht
  have hids : Unique RefreshToken.id (w.refreshTokens ++ [t]) := by
    have := hf.tokenId
    rwa [h, Table.Unique, map_updateWhere (by exact fun _ _ => rfl)] at this
  have hid : t.id ≠ t₀.id := (hids.ne_of_append ht₀).symm
  have hold : (updateWhere (·.id == t₀.id) (fun t' => { t' with
      revokedAt := some now, replacedByTokenHash := some t.tokenHash }) w.refreshTokens).countP
        (liveInFamily t₀.familyId) = 0 := by
    refine List.countP_eq_zero.mpr fun t' ht' hl => ?_
    obtain ⟨t'', ht'', rfl⟩ := mem_updateWhere.mp ht'
    split at hl
    · simp [liveInFamily] at hl
    · rename_i hne
      exact hne (by simp [hs.eq_of_live ht₀ hr₀ ht'' hl])
  have hnew : liveInFamily t₀.familyId t = true := by simp [liveInFamily, hfam, hr]
  rw [World.live, h, updateWhere_append, List.countP_append, hold]
  simp [hid, hnew]

/-- A refresh that would succeed, one call of which fails. Unless it is the
revocation of the token, one token of its family is not revoked then. The
refresh that is repeated succeeds, if the token has not been revoked yet; if it
has, it counts as reused. -/
theorem refresh_retried {t : Time} {tr : List (Done Request World Exn Response)}
    (h : History env { now := t } tr w) {token : String} {c c' : RequestContext} {u : User}
    {tokens : SessionTokens}
    (hok : ((program env (.refresh (some token) c)).run { w with now := n }).1 =
      .ok (.session u tokens)) {e' : Exn}
    (hfail : CompletesWithout env l e (.refresh (some token) c) w (.error e') w') (hn' : w'.now ≤ n)
    {y : Except Exn Response} (hre : Completes env (.refresh (some token) c') w' y w'')
    (hn'' : w''.now ≤ n) :
    ∃ t₀ ∈ w.refreshTokens.find? (·.tokenHash == env.sha256 token),
      w'.live t₀.familyId = (if l.exchanges then 2 else 1) ∧
      if l.concludes then y = .error reuseError else ∃ u tokens, y = .ok (.session u tokens) := by
  have hs := (Sound.init t).history h
  have hr := refreshable_of_run hok
  obtain ⟨t₀, s, -, ht₀, hrev, -, hsess, -⟩ := hr.row
  have hm₀ := List.mem_of_find?_eq_some ht₀
  have hone := hs.live_eq_one hm₀ hrev
  have hg := completesWithout_grows hfail
  have hf := hg.2 hs.fresh
  have hd : Without env n l e (program env (.refresh (some token) c)) w fun r w' =>
      (∃ b, r = .ok b) ∨ RefreshInterrupted env l t₀ w w' := by
    refine .failing_bind (M := fun r w' => (∃ b, r = .ok b) ∨ RefreshInterrupted env l t₀ w w') ?_
      (fun _ _ _ => ensures_ret.mpr (.inl ⟨_, rfl⟩)) ?_
    · unfold AuthController.refresh
      rw [hr.present]
      exact without_refresh hs.coherent.hashMinted hs.fresh.tokenId hr ht₀ c
    · rintro e' v (⟨b, hb⟩ | hv)
      · cases hb
      · exact .inr hv
  -- A repeated refresh that finds the token as it was.
  have again {ts : List RefreshToken} (hu : w'.users.map User.credentials = w.users.map User.credentials)
      (hsess : w'.sessions = w.sessions) (ht : w'.refreshTokens = w.refreshTokens ++ ts)
      (hw : HashMinted env w') : ∃ u tokens, y = .ok (.session u tokens) :=
    refresh_succeeds hw hf.tokenId (hr.of_rows hu hsess ht) hre hn''
  obtain ⟨b, hb⟩ | hi := hd _ _ (completesWithout_until hfail hn')
  · cases hb
  refine ⟨t₀, ht₀, ?_⟩
  cases hi with
  | untouched hl q =>
    rw [hl.1, hl.2]
    have ht : w'.refreshTokens = w.refreshTokens ++ [] := by rw [q.refreshTokens, List.append_nil]
    exact ⟨(live_of_untouched q.refreshTokens).trans hone,
      again q.users q.sessions ht (hs.coherent.hashMinted.calm q.calm)⟩
  | @successor t hl hmade =>
    have hc : l.concludes = false := by
      unfold Call.exchanges at hl
      split at hl
      · rfl
      · cases hl
    rw [hl, hc]
    obtain ⟨k, hk, hk', hhash⟩ := hmade.hash
    refine ⟨hmade.live hone, again hmade.users hmade.sessions hmade.refreshTokens ?_⟩
    rw [HashMinted, hmade.refreshTokens]
    exact hs.coherent.hashMinted.concat hmade.drawn hk' hhash
  | @exchanged t now hl htokens ht =>
    rw [hl.1, hl.2]
    refine ⟨live_of_exchanged hs hf hm₀ hrev htokens ht, ?_⟩
    have htok : w'.refreshTokens.find? (·.tokenHash == env.sha256 token) = some { t₀ with
        revokedAt := some now, replacedByTokenHash := some t.tokenHash } := by
      rw [htokens, find?_updateWhere (by exact fun _ _ => rfl), List.find?_append, ht₀]
      simp
    obtain ⟨s', hs', -⟩ := hg.1.session hsess
    have hl : Leaves env (program env (.refresh (some token) c')) w' fun r _ => r = .error reuseError := by
      refine Ensures.bind (M := fun r _ => r = .error reuseError) ?_ (fun b _ hb => by cases hb) ?_
      · unfold AuthController.refresh
        rw [hr.present]
        exact reuse_of_revoked htok rfl (by rw [hs']; rfl) c'
      · exact fun _ _ he => by rw [Except.error.inj he]
    exact hl _ _ hre

/-- The refresh of the first token, while the call `l` fails. -/
def interruptedRefresh (l : Call) : Except Exn Response × World :=
  ((program .sample (.refresh (some (unary 3)) ⟨none, none⟩)).failing (· = l)
    (.error "connection lost")).run exchanged.2

def repeatedRefresh (l : Call) : Except Exn Response × World :=
  (program .sample (.refresh (some (unary 3)) ⟨none, none⟩)).run (interruptedRefresh l).2

theorem repeatedRefresh_reused :
    (interruptedRefresh (.touchSession (unary 4))).2.live (unary 6) = 1 ∧
      (repeatedRefresh (.touchSession (unary 4))).1 = .error reuseError := by
  have h : History .sample { now := 0 } exchanged.1 exchanged.2 := history_serve (by decide +kernel)
  obtain ⟨u, tokens, hok⟩ : ∃ u tokens, ((program .sample (.refresh (some (unary 3)) ⟨none, none⟩)).run
      { exchanged.2 with now := 0 }).1 = .ok (.session u tokens) :=
    exists_session (by decide +kernel)
  have hfail : CompletesWithout .sample (.touchSession (unary 4)) (.error "connection lost")
      (.refresh (some (unary 3)) ⟨none, none⟩) exchanged.2 (.error (.error "connection lost"))
      (interruptedRefresh (.touchSession (unary 4))).2 := by
    have he : (interruptedRefresh (.touchSession (unary 4))).1 = .error (.error "connection lost") := by
      decide +kernel
    exact he ▸ completesWithout_run _ _ _ _
  have hre : Completes .sample (.refresh (some (unary 3)) ⟨none, none⟩)
      (interruptedRefresh (.touchSession (unary 4))).2 (repeatedRefresh (.touchSession (unary 4))).1
      (repeatedRefresh (.touchSession (unary 4))).2 := completes_run _ _
  obtain ⟨t₀, ht₀, hlive, hy⟩ := refresh_retried h hok hfail (by decide +kernel) hre
    (by decide +kernel)
  have hfam : (exchanged.2.refreshTokens.find? (·.tokenHash == Env.sample.sha256 (unary 3))).map
      (·.familyId) = some (unary 6) := by decide +kernel
  rw [ht₀] at hfam
  exact ⟨Option.some.inj hfam ▸ hlive, hy⟩

/-- The refresh would succeed. When the session cannot be touched, the client
that repeats it is taken for a thief; when the token cannot be revoked, its
family has two tokens that are not. -/
theorem repeatedRefresh_refused :
    History .sample { now := 0 } exchanged.1 exchanged.2 ∧
    (∃ u tokens, ((program .sample (.refresh (some (unary 3)) ⟨none, none⟩)).run exchanged.2).1 =
      .ok (.session u tokens)) ∧
    CompletesWithout .sample (.touchSession (unary 4)) (.error "connection lost")
      (.refresh (some (unary 3)) ⟨none, none⟩) exchanged.2 (.error (.error "connection lost"))
      (interruptedRefresh (.touchSession (unary 4))).2 ∧
    Completes .sample (.refresh (some (unary 3)) ⟨none, none⟩)
      (interruptedRefresh (.touchSession (unary 4))).2 (.error reuseError)
      (repeatedRefresh (.touchSession (unary 4))).2 ∧
    CompletesWithout .sample (.revokeRefreshToken (unary 7)) (.error "connection lost")
      (.refresh (some (unary 3)) ⟨none, none⟩) exchanged.2 (.error (.error "connection lost"))
      (interruptedRefresh (.revokeRefreshToken (unary 7))).2 ∧
    (interruptedRefresh (.revokeRefreshToken (unary 7))).2.live (unary 6) = 2 := by
  have fails {l : Call} (h : (interruptedRefresh l).1 = .error (.error "connection lost")) :
      CompletesWithout .sample l (.error "connection lost") (.refresh (some (unary 3)) ⟨none, none⟩)
        exchanged.2 (.error (.error "connection lost")) (interruptedRefresh l).2 :=
    h ▸ completesWithout_run _ _ _ _
  exact ⟨history_serve (by decide +kernel), exists_session (by decide +kernel),
    fails (by decide +kernel), completes_of_run (by decide +kernel), fails (by decide +kernel),
    by decide +kernel⟩

end AtlasAuth

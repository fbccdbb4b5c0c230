import AtlasAuth.Proof.Blacklist
import AtlasAuth.Proof.Deeds
import AtlasAuth.Proof.Replay

/-!
# When a request can issue tokens

A registration or a refresh that is not refused still depends on the
configured lifetimes and on the clock: expiry dates have to be dates that Prisma
accepts, and the expiry of an access token a finite number (`Issuable`). What
holds of them at some time has held before (`accepted_of_le`, `expiry_of_le`),
so a refresh that would succeed at some time succeeds if it completes by then
(`refresh_succeeds`).
-/

namespace AtlasAuth

open Framework Framework.Table Prog

variable {env : Env} {w w' : World} {n m : Nat}

/-- At this time, refresh tokens have a date of expiry that Prisma accepts, and
access tokens a finite one. -/
structure Issuable (env : Env) (n : Time) : Prop where
  refresh : ∃ d, parseDurationToMs env.refreshExpiresIn = .ok d ∧ (JsDate.after n d).Accepted
  access : ∃ d exp, parseDurationToMs env.accessExpiresIn = .ok d ∧
    TokenService.expiry (n / 1000) (d.divFloor 1000) = .ok exp

/-- A finite lifetime is not negative. -/
theorem parseDurationToMs_nonneg {s : String} {i : Int} (h : parseDurationToMs s = .ok (.int i)) :
    0 ≤ i := by
  obtain ⟨n, k, e⟩ := parseDurationToMs_ok h
  rcases lifetime_cases e.symm with ⟨m, rfl, -⟩ | hle <;> omega

theorem accepted_of_le {s : String} {d : Double} (hd : parseDurationToMs s = .ok d) (h : m ≤ n)
    (hn : (JsDate.after n d).Accepted) : (JsDate.after m d).Accepted := by
  cases d with
  | infinity =>
    obtain ⟨t, ht⟩ := hn
    cases ht
  | int i =>
    obtain ⟨i, rfl⟩ := Int.eq_ofNat_of_zero_le (parseDurationToMs_nonneg hd)
    exact accepted_after.mpr ((Nat.add_le_add_right h i).trans (accepted_after.mp hn))

theorem expiry_of_le {iat iat' exp : Nat} {d : Double} (h : iat' ≤ iat)
    (he : TokenService.expiry iat (d.divFloor 1000) = .ok exp) :
    ∃ exp', TokenService.expiry iat' (d.divFloor 1000) = .ok exp' := by
  cases d with
  | infinity => cases he
  | int i =>
    rw [Double.divFloor] at he ⊢
    generalize Double.floorQuot i.toNat 1000 = q at he ⊢
    unfold TokenService.expiry at he ⊢
    dsimp only at he ⊢
    cases hadd : (Double.int iat).add (.int q) with
    | infinity =>
      rw [hadd] at he
      cases he
    | int e =>
      obtain ⟨j, hj⟩ := Double.add_finite_of_le h hadd
      exact ⟨_, by rw [hj]⟩

/-! ## By a certain time -/

/-- A lapse of time up to a deadline. -/
def lapseUntil (env : Env) (n : Time) (w w' : World) : Prop := (system env).lapse w w' ∧ w'.now ≤ n

/-- A request that completes by the time `n` returns what `M` says. -/
abbrev Delivers (env : Env) (n : Time) {α : Type} (p : App α) (w : World) (M : α → World → Prop) :
    Prop :=
  p.Ensures (lapseUntil env n) (fun r w' => ∃ a, r = .ok a ∧ M a w') w

theorem lapse_of_lapseUntil (h : lapseUntil env n w w') : (system env).lapse w w' := h.1

/-- What it leaves, it leaves by that time too. -/
theorem delivers_leaves {α : Type} {p : App α} {Q : Except Exn α → World → Prop}
    {M : α → World → Prop} (h : Delivers env n p w M) (hq : Leaves env p w Q) :
    Delivers env n p w fun a w' => M a w' ∧ Q (.ok a) w' := by
  refine (h.and (hq.of_rel fun _ _ => lapse_of_lapseUntil)).mono ?_
  rintro _ w' ⟨⟨a, rfl, hm⟩, hq⟩
  exact ⟨a, rfl, hm, hq⟩

theorem delivers_generateRefreshToken (h : Issuable env n) :
    Delivers env n (TokenService.generateRefreshToken env) w fun new _ =>
      new.expiresAt.Accepted := by
  obtain ⟨d, hd, hdate⟩ := h.refresh
  refine .atomic_bind fun w₁ h₁ => ?_
  rw [hd]
  exact .query_bind fun w₂ h₂ => ensures_ret.mpr ⟨_, rfl, accepted_of_le hd h₂.2 hdate⟩

theorem delivers_signAccessTokenForUser (h : Issuable env n) (u : User) (sid : String) :
    Delivers env n (AuthService.signAccessTokenForUser env u sid) w fun _ _ => True := by
  obtain ⟨d, exp, hd, hexp⟩ := h.access
  refine .query_bind fun w₁ h₁ => .atomic_bind fun w₂ h₂ => ?_
  rw [TokenService.getAccessTokenTtlMs, hd]
  refine .atomic_bind fun w₃ h₃ => ?_
  obtain ⟨exp', hexp'⟩ := expiry_of_le (Nat.div_le_div_right h₃.2) hexp
  simp only [hexp']
  exact .query_bind fun w₄ h₄ => ensures_ret.mpr ⟨_, rfl, trivial⟩

theorem delivers_createRefreshToken {hash : String} (h : ∀ t ∈ w.refreshTokens, t.tokenHash ≠ hash)
    {expiresAt : JsDate} (he : expiresAt.Accepted) (u sid family : String) (ip : Option String) :
    Delivers env n (AuthRepository.createRefreshToken env u sid family hash expiresAt ip) w
      fun _ _ => True := by
  obtain ⟨e, he⟩ := he
  refine ensures_atomic.mpr fun w₁ h₁ => ?_
  have hn : ¬w₁.refreshTokens.any (·.tokenHash == hash) = true := by
    simpa [(Quiet.lapse h₁.1).refreshTokens] using h
  rw [he]
  dsimp only
  rw [if_neg hn]
  exact ⟨_, rfl, trivial⟩

theorem delivers_createSession {expiresAt : JsDate} (he : expiresAt.Accepted) (u device : String)
    (ip ua : Option String) :
    Delivers env n (AuthRepository.createSession env u device ip ua expiresAt) w fun _ _ => True := by
  obtain ⟨e, he⟩ := he
  refine ensures_atomic.mpr fun w₁ h₁ => ?_
  rw [he]
  exact ⟨_, rfl, trivial⟩

theorem delivers_upsertDevice (u fingerprint : String) (ua ip : Option String) :
    Delivers env n (AuthRepository.upsertDevice env u fingerprint ua ip) w fun _ _ => True := by
  refine ensures_atomic.mpr fun w₁ h₁ => ?_
  dsimp only
  split <;> exact ⟨_, rfl, trivial⟩

theorem delivers_issueSession (h : Issuable env n) (hw : HashMinted env w) (u : User)
    (c : RequestContext) :
    Delivers env n (AuthService.issueSession env u c) w fun _ _ => True := by
  unfold AuthService.issueSession
  refine .bind_of_ok (delivers_leaves (delivers_upsertDevice _ _ _ _)
    (leaves_minor (minor_upsertDevice _ _ _ _))) ?_
  rintro device w₁ ⟨-, q₁⟩
  refine .bind_of_ok (delivers_leaves (delivers_generateRefreshToken h) leaves_generateRefreshToken) ?_
  rintro new w₂ ⟨hdate, q₂, hhash, k, hk, hk', hnew⟩
  refine .bind_of_ok (delivers_leaves (delivers_createSession hdate _ _ _ _)
    (leaves_createSession _ _ _ _ _)) ?_
  rintro s _ ⟨-, -, -, w₃, q₃, rfl⟩
  refine .bind_of_ok (delivers_leaves (delivers_signAccessTokenForUser h u _)
    (leaves_signAccessTokenForUser u _)) ?_
  rintro a w₄ ⟨-, h₄⟩
  refine .atomic_bind fun w₅ h₅ => ?_
  have hn : ∀ t ∈ w₅.refreshTokens, t.tokenHash ≠ new.tokenHash := by
    rw [(Quiet.lapse h₅.1).refreshTokens, h₄.refreshTokens, hhash]
    rw [show w₃.refreshTokens = w.refreshTokens from
      q₃.refreshTokens.trans (q₂.refreshTokens.trans q₁.refreshTokens)]
    exact hw.new ⟨k, q₁.drawn.trans hk, hk', hnew⟩
  exact .bind_of_ok (delivers_createRefreshToken (by exact hn) hdate _ _ _ _) fun _ w₆ _ =>
    ensures_ret.mpr ⟨_, rfl, trivial⟩

theorem delivers_rotate (h : Issuable env n) (hw : HashMinted env w) {t₀ : RefreshToken}
    {s : Session} {u : User} (ht : w.refreshTokens.find? (·.id == t₀.id) = some t₀)
    (hs : w.sessions.find? (·.id == s.id) = some s) (c : RequestContext) :
    Delivers env n (AuthService.rotate env t₀ s u c) w fun _ _ => True := by
  unfold AuthService.rotate
  refine .bind_of_ok (delivers_leaves (delivers_generateRefreshToken h) leaves_generateRefreshToken) ?_
  rintro new w₁ ⟨hdate, q₁, hhash, k, hk, hk', hnew⟩
  have hn : ∀ t ∈ w₁.refreshTokens, t.tokenHash ≠ new.tokenHash := by
    rw [q₁.refreshTokens, hhash]
    exact hw.new ⟨k, hk, hk', hnew⟩
  refine .bind_of_ok (delivers_leaves (delivers_createRefreshToken hn hdate _ _ _ _)
    (leaves_createRefreshToken hn _ _ _ _ _)) ?_
  rintro t _ ⟨-, -, -, w₂, q₂, rfl⟩
  refine .atomic_bind fun w₃ h₃ => ?_
  have q₃ := Quiet.lapse h₃.1
  have ht₃ : w₃.refreshTokens.find? (·.id == t₀.id) = some t₀ := by
    rw [q₃.refreshTokens, List.find?_append, q₂.refreshTokens, q₁.refreshTokens, ht, Option.some_or]
  simp only [ht₃]
  refine .atomic_bind fun w₄ h₄ => ?_
  have hs₄ : w₄.sessions.find? (·.id == s.id) = some s := by
    rw [(Quiet.lapse h₄.1).sessions]
    exact (congrArg (List.find? _) (q₃.sessions.trans (q₂.sessions.trans q₁.sessions))).trans hs
  obtain ⟨e, he⟩ := hdate
  rw [hs₄, he]
  exact .bind_of_ok (delivers_signAccessTokenForUser h u _) fun a w₅ _ =>
    .atomic_bind fun w₆ h₆ => ensures_ret.mpr ⟨_, rfl, trivial⟩

/-! ## Refreshes -/

/-- At this time, a refresh of the token would succeed. -/
structure Refreshable (env : Env) (w : World) (token : String) (n : Time) : Prop where
  present : truthy (some token) = some token
  row : ∃ t s u, w.refreshTokens.find? (·.tokenHash == env.sha256 token) = some t ∧
    t.revokedAt = none ∧ n ≤ t.expiresAt ∧ w.sessions.find? (·.id == t.sessionId) = some s ∧
    s.isRevoked = false ∧ w.users.find? (fun u => u.id == t.userId && u.deletedAt.isNone) = some u
  issuable : Issuable env n

theorem delivers_refresh (hw : HashMinted env w) (hid : Unique RefreshToken.id w.refreshTokens)
    {token : String} (h : Refreshable env w token n) (c : RequestContext) :
    Delivers env n (AuthService.refresh env token c) w fun _ _ => True := by
  obtain ⟨t, s, u, ht, hrev, hexp, hsess, hlive, hu⟩ := h.row
  have hmem := List.mem_of_find?_eq_some ht
  have hsid : s.id = t.sessionId := by simpa using List.find?_some hsess
  refine .query_bind fun w₁ h₁ => ?_
  have q₁ := Quiet.lapse h₁.1
  rw [show TokenService.hashRefreshToken env token = env.sha256 token from rfl, q₁.refreshTokens, ht]
  dsimp only
  rw [hrev]
  refine .query_bind fun w₂ h₂ => ?_
  rw [if_neg (Nat.not_lt.mpr (Nat.le_trans h₂.2 hexp))]
  refine .query_bind fun w₃ h₃ => ?_
  have q₃ := q₁.trans ((Quiet.lapse h₂.1).trans (.lapse h₃.1))
  rw [q₃.sessions, hsess]
  dsimp only
  rw [hlive]
  refine .query_bind fun w₄ h₄ => ?_
  have q₄ := q₃.trans (.lapse h₄.1)
  have husers : w₄.users = w.users := by
    rw [lapse_users h₄.1, lapse_users h₃.1, lapse_users h₂.1, lapse_users h₁.1]
  rw [husers, hu]
  refine delivers_rotate h.issuable (hw.calm q₄.calm) ?_ ?_ c
  · rw [q₄.refreshTokens]
    exact hid.find?.mpr ⟨hmem, rfl⟩
  · rw [q₄.sessions, hsid, hsess]

/-- A request that completes alone by some time does so with the clock never
beyond it. -/
theorem completes_until {r : Request} {x : Except Exn Response} (h : Completes env r w x w')
    (hn : w'.now ≤ n) : (program env r).Exec (lapseUntil env n) w x w' := by
  have hg := Exec.before h (grows_program r) fun _ _ ⟨d, e⟩ => e ▸ GrowsFresh.advance d _
  exact hg.mono fun _ _ h => ⟨h.1, h.2.1.now.trans hn⟩

theorem refresh_succeeds (hw : HashMinted env w) (hid : Unique RefreshToken.id w.refreshTokens)
    {token : String} (h : Refreshable env w token n) {c : RequestContext} {x : Except Exn Response}
    (hx : Completes env (.refresh (some token) c) w x w') (hn : w'.now ≤ n) :
    ∃ u tokens, x = .ok (.session u tokens) := by
  have hd : Delivers env n (program env (.refresh (some token) c)) w fun a _ =>
      ∃ u tokens, a = .session u tokens := by
    refine .bind_of_ok (M := fun _ _ => True) ?_ fun b w₁ _ => ensures_ret.mpr ⟨_, rfl, _, _, rfl⟩
    unfold AuthController.refresh
    rw [h.present]
    exact delivers_refresh hw hid h c
  obtain ⟨a, rfl, u, tokens, rfl⟩ := hd _ _ (completes_until hx hn)
  exact ⟨u, tokens, rfl⟩

/-! ## At a certain time -/

/-- Two states at the same time. -/
def SameTime (w w' : World) : Prop := w'.now = w.now

instance : IsPreorder World SameTime where
  refl _ := rfl
  trans _ _ _ h h' := h'.trans h

theorem Does.sameTime {L : Deed → Prop} (h : Does env L w w') : SameTime w w' := by
  cases h with
  | aside h => exact h.now
  | _ => rfl

theorem run_bind_ok {α β : Type} {p : App β} {k : β → App α} {a : α} (hp : p.Always SameTime)
    (h : ((p >>= k).run w).1 = .ok a) :
    ∃ b w₁, p.run w = (.ok b, w₁) ∧ w₁.now = w.now ∧ ((k b).run w₁).1 = .ok a := by
  have hnow : SameTime w (p.run w).2 :=
    (exec_run (R := Eq) (fun _ => rfl) p w).always hp fun _ _ e => e ▸ rfl
  rw [run_bind] at h
  split at h
  · rename_i b w₁ hr
    rw [hr] at hnow
    exact ⟨b, w₁, hr, hnow, h⟩
  · cases h

theorem run_query_bind {α β : Type} {l : Call} {f : World → β} {k : β → App α} :
    (query l f >>= k).run w = (k (f w)).run w := by
  rw [run_bind, run_query]

/-- A new refresh token with a date of expiry that is accepted, and an access
token signed at the same time. -/
theorem issuable_of_run {w₁ w₂ w₃ : World} {new : GeneratedRefreshToken} {u : User} {sid : String}
    {a : SignedAccessToken} (hnew : (TokenService.generateRefreshToken env).run w = (.ok new, w₁))
    (hdate : new.expiresAt.Accepted)
    (hsign : (AuthService.signAccessTokenForUser env u sid).run w₂ = (.ok a, w₃))
    (hnow : w₂.now = w.now) (hnow' : w₃.now = w₂.now) : Issuable env w.now := by
  constructor
  · simp only [TokenService.generateRefreshToken, randomBytes, dateNow, run_bind, run_atomic,
      run_query, run_ofExcept] at hnew
    cases hd : parseDurationToMs env.refreshExpiresIn with
    | error e => rw [hd] at hnew; cases hnew
    | ok d =>
      rw [hd] at hnew
      cases hnew
      exact ⟨d, rfl, hdate⟩
  · have hs := @leaves_signAccessTokenForUser env w₂ u sid _ _ (exec_run (fun w => ⟨0, rfl⟩) _ _)
    rw [hsign] at hs
    obtain ⟨now, d, h₁, h₂, hd, hiat, hexp⟩ := SignedFor.expiry hs.access
    have hn : now = w.now := by
      rw [hnow'] at h₂
      rw [← hnow]
      exact Nat.le_antisymm h₂ h₁
    exact ⟨d, _, hd, by rw [← hn, ← hiat]; exact hexp⟩

theorem sameTime_of_does {α : Type} {p : App α} (h : p.Always (Does env fun _ => True)) :
    p.Always SameTime := h.mono fun _ _ => Does.sameTime

/-- A rotation that succeeds at once. -/
theorem issuable_of_rotate {t : RefreshToken} {s : Session} {u : User} {c : RequestContext}
    {b : User × SessionTokens} (h : ((AuthService.rotate env t s u c).run w).1 = .ok b) :
    Issuable env w.now := by
  have st {α : Type} {p : App α} := @sameTime_of_does env α p
  unfold AuthService.rotate at h
  obtain ⟨new, w₁, hnew, e₁, h⟩ := run_bind_ok (st (does_of_made made_generateRefreshToken)) h
  obtain ⟨_, w₂, hcreate, e₂, h⟩ := run_bind_ok (st (does_createRefreshToken ..)) h
  obtain ⟨_, w₃, -, e₃, h⟩ := run_bind_ok (st (does_revokeRefreshToken ..)) h
  obtain ⟨_, w₄, -, e₄, h⟩ := run_bind_ok (st (does_touchSession ..)) h
  obtain ⟨_, w₅, hsign, e₅, -⟩ :=
    run_bind_ok (st (does_of_made (made_signAccessTokenForUser trivial ..))) h
  refine issuable_of_run hnew ?_ hsign (by rw [e₄, e₃, e₂, e₁]) e₅
  cases hd : Prisma.dateTime new.expiresAt with
  | ok t => exact ⟨t, hd⟩
  | error e => simp [AuthRepository.createRefreshToken, hd] at hcreate

theorem row_of_refresh {token : String} {c : RequestContext} {b : User × SessionTokens}
    (h : ((AuthService.refresh env token c).run w).1 = .ok b) :
    (∃ t s u, w.refreshTokens.find? (·.tokenHash == env.sha256 token) = some t ∧
      t.revokedAt = none ∧ w.now ≤ t.expiresAt ∧ w.sessions.find? (·.id == t.sessionId) = some s ∧
      s.isRevoked = false ∧
      w.users.find? (fun u => u.id == t.userId && u.deletedAt.isNone) = some u) ∧
    Issuable env w.now := by
  unfold AuthService.refresh AuthRepository.findRefreshTokenByHash at h
  rw [run_query_bind, show TokenService.hashRefreshToken env token = env.sha256 token from rfl] at h
  cases ht : w.refreshTokens.find? (·.tokenHash == env.sha256 token) with
  | none => rw [ht] at h; cases h
  | some t =>
    rw [ht] at h
    dsimp only at h
    split at h
    · have hr : (AuthService.reuseDetected t c : App (User × SessionTokens)).Returns fun _ => False :=
        .seq fun _ => .seq fun _ => .seq fun _ => trivial
      exact (hr.ensures w _ _ (exec_run (R := Eq) (fun _ => rfl) _ w) b h).elim
    · rename_i hrev
      rw [dateNow, run_query_bind] at h
      split at h
      · cases h
      rename_i hexp
      rw [AuthRepository.findSessionById, run_query_bind] at h
      cases hs : w.sessions.find? (·.id == t.sessionId) with
      | none => rw [hs] at h; cases h
      | some s =>
        rw [hs] at h
        dsimp only at h
        split at h
        · cases h
        rename_i hlive
        rw [UsersRepository.findById, run_query_bind] at h
        cases hu : w.users.find? (fun u => u.id == t.userId && u.deletedAt.isNone) with
        | none => rw [hu] at h; cases h
        | some u =>
          rw [hu] at h
          exact ⟨⟨t, s, u, rfl, by simpa using hrev, Nat.not_lt.mp hexp, hs, by simpa using hlive, hu⟩,
            issuable_of_rotate h⟩

/-- A refresh that succeeds at once, at the time `n`. -/
theorem refreshable_of_run {token : String} {c : RequestContext} {u : User} {tokens : SessionTokens}
    (h : ((program env (.refresh (some token) c)).run { w with now := n }).1 =
      .ok (.session u tokens)) : Refreshable env w token n := by
  rw [program, run_bind] at h
  split at h
  · rename_i b w₁ hr
    replace hr := congrArg Prod.fst hr
    unfold AuthController.refresh at hr
    cases htok : truthy (some token) with
    | none => rw [htok] at hr; cases hr
    | some token' =>
      obtain rfl := eq_of_truthy htok
      rw [htok] at hr
      obtain ⟨hrow, hi⟩ := row_of_refresh (by exact hr)
      exact ⟨htok, hrow, hi⟩
  · cases h

end AtlasAuth

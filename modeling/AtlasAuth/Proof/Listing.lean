import AtlasAuth.Proof.Reset

/-!
# The sessions a user can see

`listActive` decides by the session, whether it is revoked and when it
expires; a refresh decides by the refresh token first. They agree because a
session always expires with the newest of its refresh tokens (`Expiring`), and
only the newest can be unrevoked. So a refresh token that would be accepted is
of a session that its user can see, and none is accepted once the user has
revoked all sessions (`no_hidden_sessions`).
-/

namespace AtlasAuth

open Framework Framework.Table Prog

variable {env : Env} {w w' : World} {tr : List (Done Request World Exn Response)}

/-! ## Expiry -/

/-- When the newest refresh token of the session expires. -/
def newestExpiry (tokens : List RefreshToken) (sid : String) : Option Time :=
  ((tokens.filter (·.sessionId == sid)).map (·.expiresAt)).getLast?

theorem newestExpiry_updateWhere {p : RefreshToken → Bool} {f : RefreshToken → RefreshToken}
    (hs : ∀ t, (f t).sessionId = t.sessionId) (he : ∀ t, (f t).expiresAt = t.expiresAt)
    (tokens : List RefreshToken) (sid : String) :
    newestExpiry (updateWhere p f tokens) sid = newestExpiry tokens sid := by
  rw [newestExpiry, filter_updateWhere fun t _ => by rw [hs], map_updateWhere fun t _ => he t]
  rfl

theorem newestExpiry_concat (tokens : List RefreshToken) (t : RefreshToken) (sid : String) :
    newestExpiry (tokens ++ [t]) sid =
      if t.sessionId = sid then some t.expiresAt else newestExpiry tokens sid := by
  simp only [newestExpiry, List.filter_append, List.map_append, List.getLast?_append]
  split
  · rename_i h
    simp [h]
  · rename_i h
    simp [h]

/-- Every session expires with its newest refresh token. -/
def Expiring (w : World) : Prop :=
  ∀ s ∈ w.sessions, newestExpiry w.refreshTokens s.id = some s.expiresAt

theorem Expiring.calm (h : Expiring w) (hc : Calm w w') : Expiring w' := by
  rw [Expiring, hc.sessions, hc.refreshTokens]
  exact h

theorem Expiring.issued {u : String} {s : Session} {t : RefreshToken} {p : JwtPayload}
    (h : Expiring w) (hf' : Fresh env w') (hi : Issued env u s t p w w') : Expiring w' := by
  intro s' hs'
  have hids := hi.sessions ▸ hf'.sessionId
  rw [hi.refreshTokens, newestExpiry_concat, hi.token.2.1]
  rw [hi.sessions] at hs'
  rcases List.mem_append.mp hs' with hs' | hs'
  · rw [if_neg (hids.ne_of_append hs').symm]
    exact h s' hs'
  · rw [List.mem_singleton.mp hs', if_pos rfl, hi.expiry]

theorem Expiring.rotated {t₀ t : RefreshToken} {p : JwtPayload} (h : Expiring w)
    (hi : Rotated env t₀ t p w w') : Expiring w' := by
  intro s' hs'
  obtain ⟨now, hsess⟩ := hi.sessions
  obtain ⟨now', htokens⟩ := hi.refreshTokens
  rw [htokens, newestExpiry_updateWhere (by exact fun _ => rfl) (by exact fun _ => rfl),
    newestExpiry_concat, hi.token.2.1]
  rw [hsess] at hs'
  obtain ⟨s, hs, rfl⟩ := mem_updateWhere.mp hs'
  by_cases hid : s.id = t₀.sessionId
  · simp [hid]
  · have hne : ¬t₀.sessionId = s.id := fun e => hid e.symm
    simp only [beq_iff_eq, hid, if_false, hne]
    exact h s hs

theorem Expiring.revoked {p : Session → Bool} {q : RefreshToken → Bool} (h : Expiring w)
    (hr : Revoked env p q w w') : Expiring w' := by
  obtain ⟨now, hsess⟩ := hr.sessions
  obtain ⟨now', htokens⟩ := hr.refreshTokens
  rw [Expiring, hsess, htokens]
  refine forall_updateWhere (fun s hs => ?_) fun _ _ h => h
  rw [newestExpiry_updateWhere (by exact fun _ => rfl) (by exact fun _ => rfl)]
  exact h s hs

theorem expiring_history {t : Time} (h : History env { now := t } tr w) : Expiring w := by
  induction h with
  | nil => exact fun _ => nofun
  | env m _ ih => exact ih
  | done h he hx ih =>
    have hs := (Sound.init t).history h
    have hf' := (completes_grows he).2 hs.fresh
    cases change_program hs.ready he hx with
    | calm hc => exact ih.calm hc
    | issued hc _ hi => exact (ih.calm hc).issued hf' hi
    | rotated _ _ _ _ _ _ hi => exact ih.rotated hi
    | revoked hr => exact ih.revoked hr

/-- A refresh token that is not revoked is the newest of its session. -/
theorem newestExpiry_of_live (hs : Sound env w) {x : RefreshToken} (hx : x ∈ w.refreshTokens)
    (hr : x.revokedAt = none) : newestExpiry w.refreshTokens x.sessionId = some x.expiresAt := by
  have hm : x ∈ w.family x.familyId := List.mem_filter.mpr ⟨hx, by simp⟩
  obtain ⟨init, hfam⟩ := (hs.coherent.linked x.familyId).eq_concat hm
    (hs.coherent.replaced_eq_none hm hr)
  have hfilter : w.refreshTokens.filter (·.sessionId == x.sessionId) = w.family x.familyId := by
    refine List.filter_congr fun t ht => ?_
    have := hs.coherent.places.iff _ (List.mem_map_of_mem (f := RefreshToken.place) ht) _
      (List.mem_map_of_mem (f := RefreshToken.place) hx)
    rw [Bool.eq_iff_iff, beq_iff_eq, beq_iff_eq]
    exact this.symm
  rw [newestExpiry, hfilter, hfam, List.map_append, List.map_singleton, List.getLast?_concat]

/-! ## Listing -/

/-- The sessions that `listActive` returns. -/
theorem listActive_run (u : String) (w : World) : ∃ l,
    (SessionsService.listActive u).run w = (.ok l, w) ∧ ∀ s ∈ w.sessions, s.userId = u →
      s.isRevoked = false → w.now < s.expiresAt → ∃ x ∈ l, x.session = s := by
  refine ⟨_, run_query _ _ _, fun s hs hu hr he => ⟨⟨s, _⟩, List.mem_map_of_mem ?_, rfl⟩⟩
  rw [List.mem_mergeSort]
  exact List.mem_filter.mpr ⟨hs, by simp [hu, hr, he]⟩

/-- A refresh that succeeds has found its token unexpired. -/
theorem yields_refresh_unexpired (token : String) (c : RequestContext) :
    Leaves env (AuthService.refresh env token c) w (Yields fun _ _ =>
      ∀ x ∈ w.refreshTokens.find? (·.tokenHash == env.sha256 token), w.now ≤ x.expiresAt) := by
  refine .query_bind fun w₁ h₁ => ?_
  have htokens : w₁.refreshTokens = w.refreshTokens := (Quiet.lapse h₁).refreshTokens
  rw [htokens]
  cases hx : w.refreshTokens.find? (·.tokenHash == TokenService.hashRefreshToken env token) with
  | none => exact leaves_throw _
  | some x =>
    refine .ite (fun _ => ?_) fun _ => .query_bind fun w₂ h₂ => .ite (fun _ => leaves_throw _) fun hn => ?_
    · exact yields_of_returns (.mono (Q := fun _ => False) (.seq fun _ => .seq fun _ => .seq fun _ =>
        trivial) fun _ h => h.elim)
    have hle : w.now ≤ x.expiresAt :=
      ((Quiet.lapse h₁).now.trans (Quiet.lapse h₂).now).trans (Nat.le_of_not_lt hn)
    refine yields_of_returns ((returns_true _).mono fun _ _ y hy => ?_)
    rw [show env.sha256 token = TokenService.hashRefreshToken env token from rfl, hx] at hy
    exact Option.some.inj hy ▸ hle

/-- In every state that completed requests lead to: every session expires with
its newest refresh token; a refresh token that would be accepted is of a
session that `listActive` shows to its user, unless it expires right now; and
once the user has revoked all sessions, none of these refresh tokens is
accepted any more. -/
theorem no_hidden_sessions {t : Time} (h : History env { now := t } tr w) :
    (∀ s ∈ w.sessions, newestExpiry w.refreshTokens s.id = some s.expiresAt) ∧
    (∀ x ∈ w.refreshTokens, w.now ≠ x.expiresAt → ∀ token c u tokens w',
      x.tokenHash = env.sha256 token →
      Completes env (.refresh (some token) c) w (.ok (.session u tokens)) w' →
      ∃ l, (SessionsService.listActive x.userId).run w = (.ok l, w) ∧
        ∃ s ∈ l, s.session.id = x.sessionId) ∧
    ∀ u c a w₁ tr' w₂, Completes env (.revokeAllSessions u c) w (.ok a) w₁ → History env w₁ tr' w₂ →
      ∀ x ∈ w.refreshTokens, x.userId = u → ∀ token c' r w₃, x.tokenHash = env.sha256 token →
        Completes env (.refresh (some token) c') w₂ r w₃ → ∃ e, r = .error e := by
  have hs := (Sound.init t).history h
  have hexp := expiring_history h
  refine ⟨hexp, fun x hx hne token c u tokens w' hhash hc => ?_,
    fun u c a w₁ tr' w₂ hrevoke h' x hx hu token c' r w₃ hhash hc => ?_⟩
  · have hfind := hs.fresh.tokenHash.find?.mpr ⟨hx, hhash⟩
    obtain ⟨-, ⟨e, he⟩, -⟩ | ⟨token', htok, r, hl, e⟩ := completes_refresh hs.ready hc
    · cases he
    obtain rfl := eq_of_truthy htok
    cases hl with
    | @rotated t₀ _ s v _ ht hr hsession hlive =>
      obtain rfl := Option.some.inj (hfind.symm.trans ht)
      obtain ⟨hsm, hsid⟩ := hs.fresh.sessionId.find?.mp hsession
      have howner : s.userId = x.userId := hs.owner_unique
        (List.mem_map_of_mem (f := Session.owner) hsm)
        (hsid ▸ hs.coherent.places.session _ (List.mem_map_of_mem (f := RefreshToken.place) hx))
      have hle : w.now ≤ x.expiresAt := by
        obtain ⟨y, hy, e'⟩ := exec_map.mp hc
        rw [AuthController.refresh, htok] at hy
        cases y with
        | error e'' => cases e'
        | ok b => exact yields_refresh_unexpired _ c _ _ hy x hfind
      have hexpiry : s.expiresAt = x.expiresAt := by
        have := hexp s hsm
        rw [hsid, newestExpiry_of_live hs hx hr] at this
        exact (Option.some.inj this).symm
      obtain ⟨l, hrun, hmem⟩ := listActive_run x.userId w
      obtain ⟨y, hy, rfl⟩ := hmem s hsm howner hlive
        (hexpiry ▸ Nat.lt_of_le_of_ne hle hne)
      exact ⟨l, hrun, y, hy, hsid⟩
    | refused | broken | reused => cases e
  · have hx₁ : Answered (.ok a) := fun m h => by cases h
    rcases completes_evicts rfl hrevoke hx₁ with ⟨-, hevicts⟩ | ⟨⟨e, he⟩, -⟩
    · exact refresh_fails_after_evict hs hevicts (completes_grows hrevoke)
        (hs.completes hrevoke hx₁) h' hx hu hhash hc
    · cases he

/-- A registration and a refresh. -/
def refreshedOnce : List (Done Request World Exn Response) × World :=
  (system .sample).serve
    [(0, .register ⟨"a@b.co", "Passw0rd!", none, none⟩ ⟨none, none⟩),
     (1000, .refresh (some (unary 3)) ⟨none, none⟩)] { now := 0 }

theorem refreshedOnce_listed : ∃ l, (SessionsService.listActive (unary 1)).run refreshedOnce.2 =
    (.ok l, refreshedOnce.2) ∧ ∃ s ∈ l, s.session.id = unary 4 := by
  have h : History .sample { now := 0 } refreshedOnce.1 refreshedOnce.2 :=
    history_serve (by decide +kernel)
  have hx : ∃ x ∈ refreshedOnce.2.refreshTokens, refreshedOnce.2.now ≠ x.expiresAt ∧
      x.tokenHash = Env.sample.sha256 (unary 8) ∧ x.userId = unary 1 ∧ x.sessionId = unary 4 := by
    decide +kernel
  obtain ⟨x, hm, hne, hhash, hu, hsid⟩ := hx
  obtain ⟨u, tokens, e⟩ := exists_session (x := ((program .sample
    (.refresh (some (unary 8)) ⟨none, none⟩)).run refreshedOnce.2).1) (by decide +kernel)
  exact hu ▸ hsid ▸ (no_hidden_sessions h).2.1 x hm hne _ _ u tokens _ hhash (completes_of_run e)

end AtlasAuth

import AtlasAuth.Proof.LinkTables

/-!
# What becomes of a token that is presented

`resetPassword` and `verify` look a token up by its hash, and refuse it if it
is consumed or expired, or if its effect is not possible. Otherwise they have
their effect and consume it: rows of users and tokens are never deleted, so
the updates find them.
-/

namespace AtlasAuth

open Framework Framework.Table Prog

variable {env : Env} {w w' : World} {x : String}

/-- A part of the state that every call of a program keeps. -/
theorem leaves_keep {γ α : Type} (get : World → γ) {p : App α}
    (hp : p.Always fun w w' => get w' = get w) (hget : ∀ d w, get (w.advance d) = get w) :
    Leaves env p w fun _ w' => get w' = get w := by
  refine fun r w' he => (he.failing (F := fun _ => False)).keep get hp ?_
  rintro w _ ⟨d, rfl⟩
  exact hget d w

/-- What is checked of a token that was found. -/
theorem spent_or_expired {consumedAt : Option Time} {expiresAt now : Time}
    (h : consumedAt.isSome = true ∨ expiresAt < now) :
    ¬(consumedAt.isNone = true ∧ now ≤ expiresAt) := by
  rintro ⟨hnone, hle⟩
  rcases h with h | h
  · simp [Option.isNone_iff_eq_none.mp hnone] at h
  · exact absurd hle (Nat.not_le.mpr h)

theorem Enrolled.find?_id {id : String} (h : Enrolled id w) :
    ∃ u, w.users.find? (·.id == id) = some u := by
  obtain ⟨u, hu, rfl, -⟩ := h
  exact Option.isSome_iff_exists.mp (List.find?_isSome.mpr ⟨u, hu, by simp⟩)

/-- The end of a redemption: the update of the user has been made. -/
theorem leaves_evictAndReset (u : String) (c : RequestContext) (e : Event) :
    Leaves env (do
      let _ ← SessionsService.revokeAllSessions env u c
      emit e) w (Succeeds fun _ w' =>
        w.now ≤ w'.now ∧ w'.passwordResetTokens = w.passwordResetTokens) := by
  have hk : (SessionsService.revokeAllSessions env u c).Always
      fun w w' => w'.passwordResetTokens = w.passwordResetTokens :=
    (does_of_made (L := fun _ => False) (made_revokeAll trivial trivial u c none)).mono
      fun _ _ h => h.passwordResetTokens id
  refine ((leaves_revokeAll u c none).and (leaves_keep _ hk fun _ _ => rfl)).bind ?_ fun _ _ h => h.1
  rintro _ w₁ ⟨⟨-, h⟩, hr⟩
  refine ensures_atomic.mpr fun w₂ h₂ => ?_
  have hn : w₁.now ≤ w₂.now := lapse_now h₂
  refine ⟨h.now.trans hn, ?_⟩
  obtain ⟨d, rfl⟩ := h₂
  exact hr

/-- An update of a user that is there. -/
theorem leaves_usersUpdate {call : Call} {id : String} {data : Time → User → User} {u : User}
    (hu : w.users.find? (·.id == id) = some u) :
    Leaves env (UsersRepository.update call id data) w fun r w' =>
      ∃ v, r = .ok v ∧ ∃ w₁, (system env).lapse w w₁ ∧
        w' = { w₁ with users := updateWhere (·.id == id) (data w₁.now) w₁.users } := by
  refine leaves_atomic fun d => ?_
  have hu' : (w.advance d).users.find? (·.id == id) = some u := hu
  simp only [hu']
  exact ⟨_, _, rfl, _, ⟨d, rfl⟩, rfl⟩

theorem leaves_passwordResetMarkConsumed {t : PasswordResetToken}
    (ht : w.passwordResetTokens.find? (·.id == t.id) = some t) :
    Leaves env (PasswordResetRepository.markConsumed t.id) w fun r w' =>
      ∃ v, r = .ok v ∧ ∃ w₁, (system env).lapse w w₁ ∧
        w' = { w₁ with passwordResetTokens :=
                         updateWhere (·.id == t.id) (fun t => { t with consumedAt := some w₁.now })
                           w₁.passwordResetTokens } := by
  refine leaves_atomic fun d => ?_
  have ht' : (w.advance d).passwordResetTokens.find? (·.id == t.id) = some t := ht
  simp only [ht']
  exact ⟨_, _, rfl, _, ⟨d, rfl⟩, rfl⟩

/-- The part of a reset that follows the check of its token. -/
theorem leaves_useReset {u : User} {t : PasswordResetToken} {hash : String}
    (hu : w.users.find? (·.id == t.userId) = some u)
    (ht : w.passwordResetTokens.find? (·.id == t.id) = some t) (c : RequestContext) :
    Leaves env (do
      let _ ← UsersRepository.updatePassword t.userId hash
      let _ ← PasswordResetRepository.markConsumed t.id
      let _ ← SessionsService.revokeAllSessions env t.userId c
      emit (.passwordChanged t.userId .reset c)) w (Succeeds fun _ w' =>
        w.now ≤ w'.now ∧ ∃ now, w'.passwordResetTokens =
          updateWhere (·.id == t.id) (fun t => { t with consumedAt := some now })
            w.passwordResetTokens) := by
  refine (leaves_usersUpdate hu).bind_of_ok ?_
  rintro _ _ ⟨w₁, h₁, rfl⟩
  have hn₁ := lapse_now h₁
  obtain ⟨d₁, rfl⟩ := h₁
  refine (leaves_passwordResetMarkConsumed (by exact ht)).bind_of_ok ?_
  rintro _ _ ⟨w₂, h₂, rfl⟩
  have hn₂ := lapse_now h₂
  obtain ⟨d₂, rfl⟩ := h₂
  refine (leaves_evictAndReset t.userId c _).mono fun r w' h => ?_
  cases r with
  | ok a => exact ⟨hn₁.trans (hn₂.trans h.1), _, h.2⟩
  | error e => exact h

theorem leaves_resetPassword_redeems (hi : Indexed env w) (ht : Traced env w) (new : String)
    (c : RequestContext) :
    Leaves env (PasswordService.resetPassword env x new c) w (resetLinks.Redemption env x w) := by
  refine .query_bind fun w₁ h₁ => ?_
  have hrows : w₁.passwordResetTokens = w.passwordResetTokens := by
    obtain ⟨d, rfl⟩ := h₁
    rfl
  rw [hrows]
  cases hf : w.passwordResetTokens.find? (·.tokenHash == env.sha256 x) with
  | none =>
    refine ensures_throw.mpr (.refused h₁ (Nat.le_refl _) (lapse_now h₁) fun t hm _ hx _ => ?_)
    exact absurd (hi.resetHash.find?.mpr ⟨hm, hx⟩) (by simp [hf])
  | some t =>
    obtain ⟨hm, hx⟩ := hi.resetHash.find?.mp hf
    have htoken (t' : PasswordResetToken) (hm' : t' ∈ w.passwordResetTokens)
        (hx' : t'.tokenHash = env.sha256 x) : t' = t := hi.resetHash.eq hm' hm (hx'.trans hx.symm)
    refine .query_bind fun w₂ h₂ => .ite (fun hc => ensures_throw.mpr ?_) fun hc => ?_
    · exact .dead (lapse_trans h₁ h₂) htoken (spent_or_expired hc)
    · obtain ⟨hnone, hle⟩ : t.consumedAt = none ∧ w₂.now ≤ t.expiresAt := by simpa using hc
      obtain ⟨u, hu⟩ := (ht.resets t hm).find?_id
      have h₀₂ := (lapse_now h₁).trans (lapse_now h₂)
      have hid : w.passwordResetTokens.find? (·.id == t.id) = some t := hi.resetId.find?.mpr ⟨hm, rfl⟩
      refine .atomic_bind fun w₃ h₃ => ?_
      have h₂₃ := lapse_now h₃
      obtain ⟨d₁, rfl⟩ := h₁
      obtain ⟨d₂, rfl⟩ := h₂
      obtain ⟨d₃, rfl⟩ := h₃
      refine (leaves_useReset (by exact hu) (by exact hid) c).mono fun r w' h => ?_
      cases r with
      | ok a =>
        obtain ⟨h₃', now, hrows'⟩ := h
        refine .redeemed h₀₂ (h₂₃.trans h₃') hm (by simp [resetLinks, hnone]) hx hle trivial
          trivial ⟨_, _, ?_, fun t' ht' => ?_, hrows'⟩
        · exact fun _ => ⟨rfl, rfl⟩
        · simp only [beq_iff_eq]
          exact ⟨hi.resetId.eq ht' hm, fun e => e ▸ rfl⟩
      | error e =>
        obtain ⟨m, rfl⟩ := h
        exact .failed m

/-! ## E-mail verifications -/

/-- The effect of a token: it is refused if another account has the address. -/
inductive AppliedTo (env : Env) (t : EmailVerificationToken) (w : World) : Except Exn String → World → Prop
  | refused {e : Exn} {w' : World} (hw : (system env).lapse w w')
      (h : emailLinks.proper (emailLinks.link t) → ¬emailLinks.free (emailLinks.link t) w) :
      AppliedTo env t w (.error e) w'
  | applied {a : String} {w' : World} (hn : w.now ≤ w'.now)
      (hrows : w'.emailVerificationTokens = w.emailVerificationTokens)
      (hfree : emailLinks.free (emailLinks.link t) w)
      (heffect : emailLinks.effect (emailLinks.link t) w w') : AppliedTo env t w (.ok a) w'

theorem leaves_updateEmail {id email : String} {u : User} (hu : w.users.find? (·.id == id) = some u)
    (hfree : ∀ v ∈ w.users, v.email = email → v.id = id) :
    Leaves env (UsersRepository.updateEmail id email) w fun r w' =>
      ∃ v, r = .ok v ∧ ∃ w₁, (system env).lapse w w₁ ∧
        w' = { w₁ with users := updateWhere (·.id == id)
                         (fun u => { u with email, isEmailVerified := true }) w₁.users } := by
  refine leaves_atomic fun d => ?_
  have hu' : (w.advance d).users.find? (·.id == id) = some u := hu
  have hn : ¬((w.advance d).users.any fun u => u.email == email && u.id != id) = true := by
    simpa [World.advance] using hfree
  simp only [hu', hn]
  exact ⟨_, _, rfl, _, ⟨d, rfl⟩, rfl⟩

/-- The check for an address finds an account only if another one has it. -/
theorem Indexed.taken_iff (hi : Indexed env w) {e id : String} :
    (w.users.find? fun v => v.email == e && v.deletedAt.isNone).any (·.id ≠ id) = true ↔
      ¬∀ v ∈ w.users, v.email = e → v.id = id := by
  constructor
  · intro h hfree
    obtain ⟨v, hv, hne⟩ := (Option.any_eq_true ..).mp h
    have he : v.email = e ∧ v.deletedAt = none := by simpa using List.find?_some hv
    exact of_decide_eq_true hne (hfree v (List.mem_of_find?_eq_some hv) he.1)
  · intro h
    push Not at h
    obtain ⟨v, hv, rfl, hne⟩ := h
    simp [hi.find?_email hv, hne]

theorem leaves_applyToken (hi : Indexed env w) {t : EmailVerificationToken} {u : User}
    (hu : u ∈ w.users) (hut : u.id = t.userId) :
    Leaves env (EmailVerificationService.applyToken t u) w (AppliedTo env t w) := by
  have hu₀ : w.users.find? (·.id == u.id) = some u := hi.userId.find?.mpr ⟨hu, rfl⟩
  unfold EmailVerificationService.applyToken
  cases hty : t.type with
  | REGISTRATION =>
    refine (leaves_usersUpdate hu₀).bind_of_ok ?_
    rintro _ _ ⟨w₁, h₁, rfl⟩
    have hn := lapse_now h₁
    obtain ⟨d, rfl⟩ := h₁
    refine ensures_ret.mpr (.applied hn rfl ?_ fun v hv => ?_)
    · simp [emailLinks, hty]
    · refine ⟨_, mem_updateWhere.mpr ⟨v, hv, rfl⟩, ?_⟩
      split <;> exact ⟨rfl, .inl rfl⟩
  | EMAIL_CHANGE =>
    cases htruthy : truthy t.newEmail with
    | none =>
      refine ensures_throw.mpr (.refused ⟨0, rfl⟩ fun hp => ?_)
      obtain ⟨e, hn, he⟩ : ∃ e, t.newEmail = some e ∧ e ≠ "" := hp hty
      simp [truthy, hn, he] at htruthy
    | some e =>
      have hn : t.newEmail = some e := (Option.filter_eq_some_iff.mp htruthy).1
      have hfree : emailLinks.free (emailLinks.link t) w ↔
          ∀ v ∈ w.users, v.email = e → v.id = u.id := by
        simp [emailLinks, hty, hn, hut, eq_comm]
      refine .query_bind fun w₁ h₁ => ?_
      have h₁' := h₁
      obtain ⟨d₁, rfl⟩ := h₁
      refine .ite (fun hc => ensures_throw.mpr (.refused h₁' fun _ => ?_)) fun hc => ?_
      · rw [hfree, ← hi.taken_iff]
        exact hc
      · have hc' : ∀ v ∈ w.users, v.email = e → v.id = u.id := by
          rw [← not_not (a := ∀ v ∈ w.users, _), ← hi.taken_iff]
          exact hc
        refine (leaves_updateEmail (by exact hu₀) (by exact hc')).bind_of_ok ?_
        rintro _ _ ⟨w₂, h₂, rfl⟩
        have hn₁ := lapse_now h₁'
        have hn₂ := lapse_now h₂
        obtain ⟨d₂, rfl⟩ := h₂
        refine ensures_ret.mpr (.applied (hn₁.trans hn₂) rfl (hfree.mpr hc') fun v hv => ?_)
        refine ⟨_, mem_updateWhere.mpr ⟨v, hv, rfl⟩, ?_⟩
        split
        · rename_i hv'
          have hvu : v.id = u.id := by simpa using hv'
          exact ⟨rfl, .inr ⟨by simp [emailLinks, hty, hvu, hut], hn⟩⟩
        · exact ⟨rfl, .inl rfl⟩

theorem leaves_emailVerificationMarkConsumed {t : EmailVerificationToken}
    (ht : w.emailVerificationTokens.find? (·.id == t.id) = some t) :
    Leaves env (EmailVerificationRepository.markConsumed t.id) w fun r w' =>
      ∃ v, r = .ok v ∧ ∃ w₁, (system env).lapse w w₁ ∧
        w' = { w₁ with emailVerificationTokens :=
                         updateWhere (·.id == t.id) (fun t => { t with consumedAt := some w₁.now })
                           w₁.emailVerificationTokens } := by
  refine leaves_atomic fun d => ?_
  have ht' : (w.advance d).emailVerificationTokens.find? (·.id == t.id) = some t := ht
  simp only [ht']
  exact ⟨_, _, rfl, _, ⟨d, rfl⟩, rfl⟩

/-- The part of a verification that follows the check of its token. -/
theorem leaves_useEmail (hi : Indexed env w) {t : EmailVerificationToken} {u : User}
    (hu : u ∈ w.users) (hut : u.id = t.userId)
    (ht : w.emailVerificationTokens.find? (·.id == t.id) = some t) (c : RequestContext) :
    Leaves env (do
      let verifiedEmail ← EmailVerificationService.applyToken t u
      let _ ← EmailVerificationRepository.markConsumed t.id
      emit (.emailVerified u.id verifiedEmail t.type c)) w fun r w' =>
        (∃ e, r = .error e ∧ (system env).lapse w w' ∧
          (emailLinks.proper (emailLinks.link t) → ¬emailLinks.free (emailLinks.link t) w)) ∨
        (r = .ok () ∧ w.now ≤ w'.now ∧ emailLinks.free (emailLinks.link t) w ∧
          emailLinks.effect (emailLinks.link t) w w' ∧ ∃ now, w'.emailVerificationTokens =
            updateWhere (·.id == t.id) (fun t => { t with consumedAt := some now })
              w.emailVerificationTokens) := by
  refine (leaves_applyToken hi hu hut).bind ?_ ?_
  · rintro a w₁ h
    cases h with
    | applied hn₁ hrows hfree heffect =>
      refine (leaves_emailVerificationMarkConsumed (hrows ▸ ht)).bind_of_ok ?_
      rintro _ _ ⟨w₂, h₂, rfl⟩
      have hn₂ := lapse_now h₂
      obtain ⟨d₂, rfl⟩ := h₂
      refine ensures_atomic.mpr fun w₃ h₃ => .inr ⟨rfl, ?_, hfree, ?_, ((system env).env d₂ w₁).now, ?_⟩
      · have hn₃ := lapse_now h₃
        exact hn₁.trans (hn₂.trans hn₃)
      · obtain ⟨d₃, rfl⟩ := h₃
        exact heffect
      · obtain ⟨d₃, rfl⟩ := h₃
        exact hrows ▸ rfl
  · rintro e w₁ h
    cases h with
    | refused hw h => exact .inl ⟨e, rfl, hw, h⟩

theorem leaves_verify_redeems (hi : Indexed env w) (ht : Traced env w) (c : RequestContext) :
    Leaves env (EmailVerificationService.verify env x c) w (emailLinks.Redemption env x w) := by
  refine .query_bind fun w₁ h₁ => ?_
  have hrows : w₁.emailVerificationTokens = w.emailVerificationTokens := by
    obtain ⟨d, rfl⟩ := h₁
    rfl
  rw [hrows]
  cases hf : w.emailVerificationTokens.find? (·.tokenHash == env.sha256 x) with
  | none =>
    refine ensures_throw.mpr (.refused h₁ (Nat.le_refl _) (lapse_now h₁) fun t hm _ hx _ => ?_)
    exact absurd (hi.emailHash.find?.mpr ⟨hm, hx⟩) (by simp [hf])
  | some t =>
    obtain ⟨hm, hx⟩ := hi.emailHash.find?.mp hf
    have htoken (t' : EmailVerificationToken) (hm' : t' ∈ w.emailVerificationTokens)
        (hx' : t'.tokenHash = env.sha256 x) : t' = t := hi.emailHash.eq hm' hm (hx'.trans hx.symm)
    refine .query_bind fun w₂ h₂ => .ite (fun hc => ensures_throw.mpr ?_) fun hc => ?_
    · exact .dead (lapse_trans h₁ h₂) htoken (spent_or_expired hc)
    · obtain ⟨hnone, hle⟩ : t.consumedAt = none ∧ w₂.now ≤ t.expiresAt := by simpa using hc
      obtain ⟨u, hu, hut, -⟩ := ht.emails t hm
      have hid : w.emailVerificationTokens.find? (·.id == t.id) = some t :=
        hi.emailId.find?.mpr ⟨hm, rfl⟩
      have hfind : w.users.find? (fun v => v.id == t.userId && v.deletedAt.isNone) = some u :=
        hut ▸ hi.find?_id hu
      refine .query_bind fun w₃ h₃ => ?_
      have h₀₂ := lapse_now (lapse_trans h₁ h₂)
      have h₂₃ := lapse_now h₃
      have h₀₃ := lapse_trans (lapse_trans h₁ h₂) h₃
      obtain ⟨d, rfl⟩ := h₀₃
      have hfind₃ : ((system env).env d w).users.find?
          (fun v => v.id == t.userId && v.deletedAt.isNone) = some u := hfind
      rw [hfind₃]
      have hi₃ : Indexed env ((system env).env d w) := { hi with }
      refine (leaves_useEmail hi₃ (by exact hu) hut (by exact hid) c).mono fun r w' h => ?_
      rcases h with ⟨e, rfl, hw, hfree⟩ | ⟨rfl, hn, hfree, heffect, now, hrows'⟩
      · have h₃' := lapse_now hw
        refine .refused (lapse_trans ⟨d, rfl⟩ hw) h₀₂ (h₂₃.trans h₃') fun t' hm' _ hx' _ => ?_
        exact htoken t' hm' hx' ▸ hfree
      · refine .redeemed h₀₂ (h₂₃.trans hn) hm (by simp [emailLinks, hnone]) hx hle hfree
          heffect ⟨_, _, ?_, fun t' ht' => ?_, hrows'⟩
        · exact fun _ => ⟨rfl, rfl⟩
        · simp only [beq_iff_eq]
          exact ⟨hi.emailId.eq ht' hm, fun e => e ▸ rfl⟩

end AtlasAuth

import AtlasAuth.Proof.Interrupted

/-!
# Blacklisting sessions while Redis fails

With a positive lifetime of access tokens that Redis accepts (`Accepted`), the
revocation of sessions sets a key for each of them (`Puts`). While some of
these calls fail, `Promise.all` still makes the others, and fails if one of
them did (`failing_promiseAll`).
-/

namespace AtlasAuth

open Framework Framework.Table Prog

variable {env : Env} {w w' w'' : World} {n ttl : Nat} {F : Call → Prop} [DecidablePred F] {e : Exn}

/-- Access tokens live for `ttl` milliseconds, which Redis accepts up to the
time `n`. -/
structure Accepted (env : Env) (n : Time) (ttl : Nat) : Prop where
  lifetime : parseDurationToMs env.accessExpiresIn = .ok (.int ttl)
  pos : 0 < ttl
  accepted : ((n + ttl : Nat) : Int) ≤ redisMaxTime

theorem accepted_sample {n : Nat} (h : n ≤ maxTime) : Accepted .sample n 900000 where
  lifetime := by decide +kernel
  pos := by decide
  accepted := by
    have : maxTime + 900000 ≤ 2 ^ 62 := by decide
    unfold redisMaxTime
    omega

/-- Nothing but the setting of these keys, to last up to the time `d`. -/
structure Puts (keys : List String) (d : Nat) (w w' : World) : Prop where
  now : w.now ≤ w'.now
  others : ∀ k ∉ keys, w'.redis k = w.redis k
  keys : ∀ k ∈ keys, ∃ x, d ≤ x ∧ w'.redis k = some ⟨"1", some x⟩
  rest : w' = { w with now := w'.now, redis := w'.redis }

variable {keys keys' : List String} {d d' : Nat}

theorem Puts.refl (d : Nat) (w : World) : Puts [] d w w :=
  ⟨Nat.le_refl _, fun _ _ => rfl, fun _ h => absurd h List.not_mem_nil, rfl⟩

theorem Puts.mono (hd : d' ≤ d) (h : Puts keys d w w') : Puts keys d' w w' := by
  refine ⟨h.now, h.others, fun k hk => ?_, h.rest⟩
  obtain ⟨x, hx, e⟩ := h.keys k hk
  exact ⟨x, hd.trans hx, e⟩

theorem Puts.trans (h : Puts keys d w w') (h' : Puts keys' d w' w'') :
    Puts (keys ++ keys') d w w'' := by
  refine ⟨h.now.trans h'.now, fun k hk => ?_, fun k hk => ?_, ?_⟩
  · simp only [List.mem_append, not_or] at hk
    exact (h'.others k hk.2).trans (h.others k hk.1)
  · by_cases hk' : k ∈ keys'
    · exact h'.keys k hk'
    · rw [h'.others k hk']
      exact h.keys k ((List.mem_append.mp hk).resolve_right hk')
  · rw [h'.rest, h.rest]

theorem Puts.lapse (h : (system env).lapse w w') (h' : Puts keys d w' w'') : Puts keys d w w'' := by
  obtain ⟨t, rfl⟩ := h
  exact ⟨(Nat.le_add_right _ _).trans h'.now, h'.others, h'.keys, h'.rest⟩

/-! ## The calls -/

/-- The key of a session on the blacklist, and the call that sets it. -/
def keyOf (id : String) : String := SESSION_PREFIX ++ id

theorem failing_blacklistSession (h : Accepted env n ttl) (id : String) :
    ((TokenBlacklistService.blacklistSession id (.int ttl)).failing F e).Ensures (lapseUntil env n)
      (fun r w' => F (.redisSet (keyOf id)) ∧ r = .error e ∧ w' = w ∨
        ¬F (.redisSet (keyOf id)) ∧ r = .ok () ∧ Puts [keyOf id] (w.now + ttl) w w') w := by
  have hpos := h.pos
  have hn : ¬nonPositive (.int ttl) = true := by simpa [nonPositive] using Nat.pos_iff_ne_zero.mp hpos
  unfold TokenBlacklistService.blacklistSession
  rw [if_neg hn]
  refine .failing_atomic (fun hF => .inl ⟨hF, rfl, rfl⟩) fun hF w₁ h₁ => .inr ⟨hF, ?_⟩
  have hset : 0 < (ttl : Int) ∧ (w₁.now : Int) + ttl ≤ redisMaxTime := by
    have h₂ : (w₁.now : Int) ≤ (n : Int) := Int.ofNat_le.mpr h₁.2
    have h₃ := h.accepted
    omega
  dsimp only
  rw [if_pos hset]
  refine ⟨rfl, .lapse h₁.1 ⟨Nat.le_refl _, fun k hk => ?_, fun k hk => ?_, rfl⟩⟩
  · exact Expiring.set_of_ne fun hk' => hk (List.mem_singleton.mpr hk')
  · obtain rfl := List.mem_singleton.mp hk
    exact ⟨_, Nat.add_le_add_right (Quiet.lapse h₁.1).now _, Expiring.set_self⟩

/-- The keys of these sessions whose calls do not fail. -/
def keysUp (F : Call → Prop) [DecidablePred F] (ids : List String) : List String :=
  (ids.map keyOf).filter fun k => ¬F (.redisSet k)

/-- A call of `Promise.all` has failed. -/
def SomeDown (F : Call → Prop) (ids : List String) : Prop := ∃ id ∈ ids, F (.redisSet (keyOf id))

theorem failing_promiseAll (h : Accepted env n ttl) (ids : List String) :
    ((SessionsService.promiseAll (ids.map fun id =>
      TokenBlacklistService.blacklistSession id (.int ttl))).failing F e).Ensures (lapseUntil env n)
        (fun r w' => (SomeDown F ids ∧ r = .error e ∨ ¬SomeDown F ids ∧ r = .ok ()) ∧
          Puts (keysUp F ids) (w.now + ttl) w w') w := by
  induction ids generalizing w with
  | nil => exact ensures_ret.mpr ⟨.inr ⟨by simp [SomeDown], rfl⟩, .refl _ _⟩
  | cons id ids ih =>
    have hcons : SomeDown F (id :: ids) ↔ F (.redisSet (keyOf id)) ∨ SomeDown F ids := by
      simp [SomeDown]
    rw [List.map_cons, SessionsService.promiseAll, failing_bind, tryCatch_def, failing_handle]
    refine .bind (M := fun r w₁ =>
      F (.redisSet (keyOf id)) ∧ r = .error e ∧ Puts (keysUp F ids) (w.now + ttl) w w₁ ∨
        ¬F (.redisSet (keyOf id)) ∧ r = .ok () ∧ Puts [keyOf id] (w.now + ttl) w w₁) ?_ ?_ ?_
    · refine ensures_handle.mpr ((failing_blacklistSession h id).mono ?_)
      rintro _ w₁ (⟨hF, rfl, rfl⟩ | ⟨hF, rfl, hput⟩)
      · -- The handler makes the other calls, and throws the error again.
        dsimp only
        rw [failing_bind, tryCatch_def, failing_handle]
        refine ensures_bind.mpr (ensures_handle.mpr (ih.mono fun r w₂ h₂ => ?_))
        cases r with
        | ok a => exact ensures_throw.mpr (.inl ⟨hF, rfl, h₂.2⟩)
        | error e' => exact ensures_ret.mpr (ensures_throw.mpr (.inl ⟨hF, rfl, h₂.2⟩))
      · exact .inr ⟨hF, rfl, hput⟩
    · rintro _ w₁ (⟨-, hb, -⟩ | ⟨hF, -, hput⟩)
      · cases hb
      · refine ih.mono fun r w₂ ⟨hr, h₂⟩ => ?_
        have hkeys : keysUp F (id :: ids) = [keyOf id] ++ keysUp F ids := by simp [keysUp, hF]
        rw [hcons, hkeys]
        refine ⟨by simpa [hF] using hr, hput.trans (h₂.mono ?_)⟩
        exact Nat.add_le_add_right hput.now _
    · rintro e' w₁ (⟨hF, he, hput⟩ | ⟨-, hb, -⟩)
      · have hkeys : keysUp F (id :: ids) = keysUp F ids := by simp [keysUp, hF]
        rw [hcons, hkeys]
        exact ⟨.inl ⟨.inl hF, he ▸ rfl⟩, hput⟩
      · cases hb

/-! ## Bulk revocation -/

/-- These sessions are revoked in the database, with their refresh tokens, and
the keys are set, to last up to the time `d`. -/
structure Swept (ids keys : List String) (d : Nat) (w w' : World) : Prop where
  sessions : ∃ now, w'.sessions =
    updateWhere (fun s => ids.contains s.id) (Session.revoke now) w.sessions
  refreshTokens : ∃ now, w'.refreshTokens =
    updateWhere (liveInSessions ids) (RefreshToken.revoke now) w.refreshTokens
  others : ∀ k ∉ keys, w'.redis k = w.redis k
  keys : ∀ k ∈ keys, ∃ x, d ≤ x ∧ w'.redis k = some ⟨"1", some x⟩

/-- Nothing but that, and the event. -/
structure Sweeps (ids keys : List String) (d : Nat) (w w' : World) : Prop
    extends Swept ids keys d w w' where
  now : w.now ≤ w'.now
  rest : w' = { w with
    now := w'.now, sessions := w'.sessions, refreshTokens := w'.refreshTokens, redis := w'.redis,
    events := w'.events }

variable {ids : List String}

theorem Sweeps.puts (h : Sweeps ids [] d w w') (h' : Puts keys d w' w'') : Sweeps ids keys d w w'' where
  now := h.now.trans h'.now
  sessions := by rw [h'.rest]; exact h.sessions
  refreshTokens := by rw [h'.rest]; exact h.refreshTokens
  others := fun k hk => (h'.others k hk).trans (h.others k List.not_mem_nil)
  keys := h'.keys
  rest := by rw [h'.rest, h.rest]

theorem Sweeps.emit (h : Sweeps ids keys d w w') (h' : (system env).lapse w' w'') (ev : Event) :
    Sweeps ids keys d w { w'' with events := w''.events ++ [ev] } := by
  obtain ⟨t, rfl⟩ := h'
  exact {
    h with
    now := h.now.trans (Nat.le_add_right _ _)
    rest := by rw [h.rest]; rfl }

theorem failing_revokeAllExcept (u : String) (kept : Option String) :
    ((SessionsRepository.revokeAllExcept u kept).failing F e).Ensures (lapseUntil env n)
      (fun r w' => r = .error e ∧ (system env).lapse w w' ∧
          (F (.sessionsFindUnrevoked u) ∨ F (.sessionsRevokeMany (liveSessionsOf w u kept))) ∨
        r = .ok (liveSessionsOf w u kept) ∧ Sweeps (liveSessionsOf w u kept) [] d w w') w := by
  refine .failing_query_bind (fun hF => .inl ⟨rfl, ⟨0, rfl⟩, .inl hF⟩) fun _ w₁ h₁ => ?_
  obtain ⟨t, rfl⟩ := h₁.1
  have hids : liveSessionsOf ((system env).env t w) u kept = liveSessionsOf w u kept := rfl
  refine .failing_ite (fun h0 => ensures_ret.mpr (.inr ?_)) fun _ =>
    .failing_atomic_bind (fun hF => .inl ⟨rfl, ⟨t, rfl⟩, .inr hF⟩) fun _ w₂ h₂ =>
      ensures_ret.mpr (.inr ⟨rfl, ?_⟩)
  · have h0 : liveSessionsOf w u kept = [] := List.length_eq_zero_iff.mp h0
    rw [h0]
    refine ⟨rfl, ⟨⟨0, ?_⟩, ⟨0, ?_⟩, fun _ _ => rfl, by simp⟩, Nat.le_add_right _ _, rfl⟩
    · exact (updateWhere_of_none fun _ _ => rfl).symm
    · exact (updateWhere_of_none fun _ _ => rfl).symm
  · obtain ⟨t', rfl⟩ := h₂.1
    exact ⟨⟨⟨_, rfl⟩, ⟨_, rfl⟩, fun _ _ => rfl, by simp⟩,
      (Nat.le_add_right _ _).trans (Nat.le_add_right _ _), rfl⟩

/-- How `revokeAll` ends while some of its calls fail. -/
theorem failing_revokeAll (h : Accepted env n ttl) (u : String) (c : RequestContext)
    (kept : Option String) :
    ((SessionsService.revokeAll env u c kept).failing F e).Ensures (lapseUntil env n)
      (fun r w' => r = .error e ∧ (system env).lapse w w' ∧
          (F (.sessionsFindUnrevoked u) ∨ F (.sessionsRevokeMany (liveSessionsOf w u kept))) ∨
        Sweeps (liveSessionsOf w u kept) (keysUp F (liveSessionsOf w u kept)) (w.now + ttl) w w' ∧
          (r = .error e ∧ (SomeDown F (liveSessionsOf w u kept) ∨ F .emit) ∨
            r = .ok (liveSessionsOf w u kept).length ∧ ¬SomeDown F (liveSessionsOf w u kept))) w := by
  refine .failing_bind (failing_revokeAllExcept (d := w.now + ttl) u kept) ?_ ?_
  · rintro _ w₁ (⟨hb, -⟩ | ⟨hb, h₁⟩)
    · cases hb
    obtain rfl := Except.ok.inj hb
    simp only [TokenService.getAccessTokenTtlMs, h.lifetime, Prog.ofExcept, ret_bind]
    refine .failing_bind (failing_promiseAll h _) ?_ ?_
    · rintro _ w₂ ⟨⟨-, hb⟩ | ⟨hdown, -⟩, h₂⟩
      · cases hb
      have h₂ := h₁.puts (h₂.mono (Nat.add_le_add_right h₁.now ttl))
      exact .failing_atomic_bind (fun hF => .inr ⟨h₂, .inl ⟨rfl, .inr hF⟩⟩) fun _ w₃ h₃ =>
        ensures_ret.mpr (.inr ⟨h₂.emit h₃.1 _, .inr ⟨rfl, hdown⟩⟩)
    · rintro e' w₂ ⟨⟨hdown, hb⟩ | ⟨-, hb⟩, h₂⟩
      · obtain rfl := Except.error.inj hb
        exact .inr ⟨h₁.puts (h₂.mono (Nat.add_le_add_right h₁.now ttl)), .inl ⟨rfl, .inl hdown⟩⟩
      · cases hb
  · rintro e' w₁ (⟨hb, h₁⟩ | ⟨hb, -⟩)
    · obtain rfl := Except.error.inj hb
      exact .inl ⟨rfl, h₁⟩
    · cases hb

end AtlasAuth

import AtlasAuth.Proof.Eviction
import AtlasAuth.Proof.RedisOutage

/-!
# Retrying a revocation

A revocation marks the sessions in the database before it sets their keys.
When some of the keys cannot be set, the caller that repeats it finds no
session left to revoke: the sessions whose keys were not set the first time are
never put on the blacklist (`revocation_retried`).
-/

namespace AtlasAuth

open Framework Framework.Table Prog

variable {env : Env} {w w' w'' : World} {n ttl : Nat} {u k id : String} {r : Request}
  {down : List String} {x : Except Exn Response} {m : String}

/-- The setting of one of these keys. -/
def Call.isDown (down : List String) : Call → Bool
  | .redisSet key => down.contains key
  | _ => false

/-- The request completes while the keys `down` cannot be set. -/
def Attempted (env : Env) (r : Request) (down : List String) (m : String) (w : World)
    (x : Except Exn Response) (w' : World) : Prop :=
  ((program env r).failing (fun l => l.isDown down = true) (.error m)).Exec (system env).lapse w x w'

/-- The request is repeated until it ends with an answer. The keys `down` are
those that cannot be set the first time. -/
inductive Retries (env : Env) (r : Request) : List String → World → World → Prop
  | done {down : List String} {m : String} {x : Except Exn Response} {w w' : World}
      (h : Attempted env r down m w x w') (hx : Answered x) : Retries env r down w w'
  | again {down down' : List String} {m m' : String} {w w' w'' : World}
      (h : Attempted env r down m w (.error (.error m')) w') (rest : Retries env r down' w' w'') :
      Retries env r down w w''

/-- The sessions that a call of `SessionsService` revokes, if it is a call of
its own. -/
def Request.revokes (w : World) : Request → Option (List String)
  | .revokeSession u id _ =>
    some (if (w.sessions.find? (·.id == id)).any fun s => s.userId == u && !s.isRevoked then [id] else [])
  | .revokeAllOtherSessions u k _ => some (liveSessionsOf w u (some k))
  | .revokeAllSessions u _ => some (liveSessionsOf w u none)
  | _ => none

/-! ## One attempt -/

theorem Sweeps.lapse {d : Nat} (h : (system env).lapse w w') : Sweeps [] [] d w w' := by
  obtain ⟨t, rfl⟩ := h
  refine ⟨⟨⟨0, ?_⟩, ⟨0, ?_⟩, fun _ _ => rfl, by simp⟩, Nat.le_add_right _ _, rfl⟩
  · exact (updateWhere_of_none fun _ _ => rfl).symm
  · exact (updateWhere_of_none fun _ _ => rfl).symm

theorem attempt_revokeAll (h : Accepted env n ttl) (u : String) (c : RequestContext)
    (k : Option String) :
    ((SessionsService.revokeAll env u c k).failing (fun l => l.isDown down = true) (.error m)).Ensures
      (lapseUntil env n) (fun _ w' => Sweeps (liveSessionsOf w u k)
        (keysUp (fun l => l.isDown down = true) (liveSessionsOf w u k)) (w.now + ttl) w w') w := by
  refine (failing_revokeAll h u c k).mono ?_
  rintro r w' (⟨-, -, hd | hd⟩ | ⟨hs, -⟩)
  · cases hd
  · cases hd
  · exact hs

/-- The end of the revocation of one session. -/
theorem attempt_blacklist (h : Accepted env n ttl) (hs : Sweeps [id] [] (w.now + ttl) w w')
    (ev : Event) :
    ((do
      let ttl ← TokenService.getAccessTokenTtlMs env
      TokenBlacklistService.blacklistSession id ttl
      emit ev : App Unit).failing (fun l => l.isDown down = true) (.error m)).Ensures
        (lapseUntil env n) (fun _ w'' =>
          Sweeps [id] (keysUp (fun l => l.isDown down = true) [id]) (w.now + ttl) w w'') w' := by
  simp only [TokenService.getAccessTokenTtlMs, h.lifetime, Prog.ofExcept, ret_bind]
  refine .failing_bind (failing_blacklistSession h id) ?_ ?_
  · rintro _ w₁ (⟨-, hb, -⟩ | ⟨hup, -, hput⟩)
    · cases hb
    · have hkeys : keysUp (fun l => l.isDown down = true) [id] = [keyOf id] := by simp [keysUp, hup]
      rw [hkeys]
      exact .failing_atomic (fun hd => by cases hd) fun _ w₂ h₂ =>
        (hs.puts (hput.mono (Nat.add_le_add_right hs.now ttl))).emit h₂.1 ev
  · rintro e w₁ (⟨hdown, -, rfl⟩ | ⟨-, hb, -⟩)
    · have hkeys : keysUp (fun l => l.isDown down = true) [id] = [] := by simp [keysUp, hdown]
      rwa [hkeys]
    · cases hb

theorem attempt_revokeSession (h : Accepted env n ttl) (u id : String) (c : RequestContext) :
    ((SessionsService.revokeSession env u id c).failing (fun l => l.isDown down = true)
      (.error m)).Ensures (lapseUntil env n) (fun _ w' => ∀ ids,
        (Request.revokeSession u id c).revokes w = some ids →
          Sweeps ids (keysUp (fun l => l.isDown down = true) ids) (w.now + ttl) w w') w := by
  refine .failing_query_bind (fun hd => by cases hd) fun _ w₁ h₁ => ?_
  obtain ⟨t₁, rfl⟩ := h₁.1
  rw [show ((system env).env t₁ w).sessions = w.sessions from rfl]
  simp only [Request.revokes, Option.some.injEq, forall_eq']
  cases hs : w.sessions.find? (·.id == id) with
  | none => exact ensures_throw.mpr (.lapse ⟨t₁, rfl⟩)
  | some s =>
    refine .failing_ite (fun hr => ?_) fun hr => .failing_ite (fun hu => ?_) fun hu => ?_
    · rw [if_neg (by simp [hr])]
      exact ensures_throw.mpr (.lapse ⟨t₁, rfl⟩)
    · rw [if_neg (by simp [hu])]
      exact ensures_throw.mpr (.lapse ⟨t₁, rfl⟩)
    rw [if_pos (by simpa [hr] using hu)]
    refine .failing_atomic_bind (fun hd => by cases hd) fun _ w₂ h₂ => ?_
    obtain ⟨t₂, rfl⟩ := h₂.1
    simp only [show ((system env).env t₂ ((system env).env t₁ w)).sessions = w.sessions from rfl, hs]
    refine attempt_blacklist h ?_ _
    refine ⟨⟨⟨w.now + t₁ + t₂, ?_⟩, ⟨w.now + t₁ + t₂, ?_⟩, fun _ _ => rfl, by simp⟩, ?_, rfl⟩
    · exact updateWhere_congr fun s _ => by simp [beq_eq_decide]
    · exact updateWhere_congr fun t _ => by simp [liveInSessions, beq_eq_decide]
    · exact (Nat.le_add_right _ _).trans (Nat.le_add_right _ _)

/-- An attempt revokes the sessions in the database, and sets the keys that can
be set, however it ends. -/
theorem Attempted.sweeps (ha : Attempted env r down m w x w') (h : Accepted env n ttl) (hn : w'.now ≤ n)
    {ids : List String} (hr : r.revokes w = some ids) :
    Sweeps ids (keysUp (fun l => l.isDown down = true) ids) (w.now + ttl) w w' := by
  have ha := failing_until ha hn
  have wrap {β : Type} {p : App β} {f : β → Response}
      (hp : (p.failing (fun l => l.isDown down = true) (.error m)).Ensures (lapseUntil env n)
        (fun _ w' => Sweeps ids (keysUp (fun l => l.isDown down = true) ids) (w.now + ttl) w w') w)
      (ha : ((p >>= fun b => .ret (f b)).failing (fun l => l.isDown down = true) (.error m)).Exec
        (lapseUntil env n) w x w') :
      Sweeps ids (keysUp (fun l => l.isDown down = true) ids) (w.now + ttl) w w' := by
    rw [failing_bind] at ha
    obtain ⟨y, hy, -⟩ := exec_map.mp ha
    exact hp _ _ hy
  cases r with
  | revokeSession u id c => exact wrap ((attempt_revokeSession h u id c).mono fun _ _ hs => hs ids hr) ha
  | revokeAllOtherSessions u k c =>
    cases hr
    exact wrap (attempt_revokeAll h u c (some k)) ha
  | revokeAllSessions u c =>
    cases hr
    exact wrap (attempt_revokeAll h u c none) ha
  | _ => cases hr

/-! ## The attempts that follow -/

theorem Attempted.now (h : Attempted env r down m w x w') : w.now ≤ w'.now := (failing_grows h).1.now

theorem Retries.now (h : Retries env r down w w') : w.now ≤ w'.now := by
  induction h with
  | done h _ => exact h.now
  | again h _ ih => exact h.now.trans ih

/-- What is revoked once is not selected again. -/
theorem liveSessionsOf_swept {kept : Option String} {keys : List String} {d : Nat}
    (h : Sweeps (liveSessionsOf w u kept) keys d w w') : liveSessionsOf w' u kept = [] := by
  obtain ⟨now, hsess⟩ := h.sessions
  refine List.map_eq_nil_iff.mpr (List.filter_eq_nil_iff.mpr fun s' hs' hl => ?_)
  rw [hsess] at hs'
  obtain ⟨s, hs, rfl⟩ := mem_updateWhere.mp hs'
  split at hl
  · simp [Session.revoke] at hl
  · rename_i hn
    exact hn (List.contains_iff_mem.mpr (List.mem_map_of_mem (List.mem_filter.mpr ⟨hs, hl⟩)))

theorem revokes_swept {ids keys : List String} {d : Nat} (hr : r.revokes w = some ids)
    (h : Sweeps ids keys d w w') : r.revokes w' = some [] := by
  cases r with
  | revokeSession u id c =>
    obtain rfl := Option.some.inj hr
    obtain ⟨now, hsess⟩ := h.sessions
    simp only [Request.revokes, Option.some.injEq]
    refine if_neg fun hl => ?_
    rw [hsess, find?_updateWhere (by exact fun _ _ => rfl)] at hl
    cases hf : w.sessions.find? (·.id == id) with
    | none => simp [hf] at hl
    | some s =>
      have hid : s.id = id := by simpa using List.find?_some hf
      cases hown : s.userId == u && !s.isRevoked with
      | true => simp [hf, hown, hid, Session.revoke] at hl
      | false => simp [hf, hown] at hl
  | revokeAllOtherSessions u k c =>
    obtain rfl := Option.some.inj hr
    exact congrArg some (liveSessionsOf_swept h)
  | revokeAllSessions u c =>
    obtain rfl := Option.some.inj hr
    exact congrArg some (liveSessionsOf_swept h)
  | _ => cases hr

/-- Nothing is left to be done. -/
theorem Retries.settled (ht : Retries env r down w w') (h : Accepted env n ttl) (hn : w'.now ≤ n)
    (hr : r.revokes w = some []) :
    w'.sessions = w.sessions ∧ w'.redis = w.redis ∧ w'.signed = w.signed := by
  have still {w w' : World} {d : Nat} (hs : Sweeps [] [] d w w') :
      w'.sessions = w.sessions ∧ w'.redis = w.redis ∧ w'.signed = w.signed := by
    obtain ⟨now, hsess⟩ := hs.sessions
    exact ⟨hsess.trans (updateWhere_of_none fun _ _ => rfl),
      funext fun k => hs.others k List.not_mem_nil, by rw [hs.rest]⟩
  induction ht with
  | done ha hx => exact still (ha.sweeps h hn hr)
  | again ha rest ih =>
    have hs := ha.sweeps h (rest.now.trans hn) hr
    obtain ⟨h₁, h₂, h₃⟩ := still hs
    obtain ⟨h₁', h₂', h₃'⟩ := ih hn (revokes_swept hr hs)
    exact ⟨h₁'.trans h₁, h₂'.trans h₂, h₃'.trans h₃⟩

/-- What the attempts leave is what the first of them has left. -/
theorem Retries.first (ht : Retries env r down w w') (h : Accepted env n ttl) (hn : w'.now ≤ n)
    {ids : List String} (hr : r.revokes w = some ids) : ∃ w₁, w₁.now ≤ w'.now ∧
      Sweeps ids (keysUp (fun l => l.isDown down = true) ids) (w.now + ttl) w w₁ ∧
        w'.sessions = w₁.sessions ∧ w'.redis = w₁.redis ∧ w'.signed = w₁.signed := by
  cases ht with
  | done ha hx => exact ⟨w', Nat.le_refl _, ha.sweeps h hn hr, rfl, rfl, rfl⟩
  | @again _ _ _ _ _ w₁ _ ha rest =>
    have hs := ha.sweeps h (rest.now.trans hn) hr
    exact ⟨w₁, rest.now, hs, rest.settled h hn (revokes_swept hr hs)⟩

/-- The session is on the blacklist for as long as an access token that was
signed for it before may live, so that it is rejected. -/
structure Blacklisted (ttl : Nat) (w w' : World) (id : String) : Prop where
  key : ∃ x, w.now + ttl ≤ x ∧ w'.redis (keyOf id) = some ⟨"1", some x⟩
  rejected : ∀ p ∈ w'.signed, p.sessionId = id → w'.now ≤ maxTime → Rejected w' p

/-- The sessions that a request selects are there, and not revoked. -/
theorem live_of_revokes {ids : List String} (hr : r.revokes w = some ids) (hid : id ∈ ids) :
    ∃ s ∈ w.sessions, s.id = id ∧ s.isRevoked = false := by
  have live {u : String} {kept : Option String} (hid : id ∈ liveSessionsOf w u kept) :
      ∃ s ∈ w.sessions, s.id = id ∧ s.isRevoked = false := by
    obtain ⟨s, hs, rfl⟩ := List.mem_map.mp hid
    obtain ⟨hm, hl⟩ := List.mem_filter.mp hs
    simp only [Bool.and_eq_true, Bool.not_eq_true'] at hl
    exact ⟨s, hm, rfl, hl.1.2⟩
  cases r with
  | revokeSession u i c =>
    obtain rfl := Option.some.inj hr
    split at hid
    · rename_i hown
      obtain rfl := List.mem_singleton.mp hid
      obtain ⟨s, hf, hown⟩ := (Option.any_eq_true _ _).mp hown
      simp only [Bool.and_eq_true, Bool.not_eq_true'] at hown
      exact ⟨s, List.mem_of_find?_eq_some hf, by simpa using List.find?_some hf, hown.2⟩
    · cases hid
  | revokeAllOtherSessions u k c =>
    obtain rfl := Option.some.inj hr
    exact live hid
  | revokeAllSessions u c =>
    obtain rfl := Option.some.inj hr
    exact live hid
  | _ => cases hr

/-- The sessions that a revocation and its repetitions have revoked are all on
the blacklist if and only if the first attempt could set their keys. -/
theorem revocation_retried (hw : Reachable env w) (h : Accepted env w'.now ttl) {ids : List String}
    (hr : r.revokes w = some ids) (ht : Retries env r down w w') :
    (∀ s ∈ w.sessions, s.isRevoked = false → SessionRevoked s.id w' → Blacklisted ttl w w' s.id) ↔
      ∀ id ∈ ids, keyOf id ∉ down := by
  obtain ⟨t, tr, hw⟩ := hw
  have hs := (Sound.init t).history hw
  have hl := (Lasting.init t).history (.init t) hw
  obtain ⟨w₁, hn, hsweep, hsess, hredis, hsigned⟩ := ht.first h (Nat.le_refl _) hr
  obtain ⟨now, hswept⟩ := hsweep.sessions
  constructor
  · intro hall id hid hdown
    obtain ⟨s, hm, rfl, hlive⟩ := live_of_revokes hr hid
    have hf := hs.fresh.sessionId.find?.mpr ⟨hm, rfl⟩
    have hrev : SessionRevoked s.id w' :=
      ⟨_, by rw [hsess, hswept]; exact find?_revoke now hf (List.contains_iff_mem.mpr hid), rfl⟩
    obtain ⟨x, -, hkey⟩ := (hall s hm hlive hrev).key
    have hkept : w₁.redis (keyOf s.id) = w.redis (keyOf s.id) :=
      hsweep.others _ fun hup => by simp [keysUp, Call.isDown, hdown] at hup
    -- The key of a session that is not revoked has never been set.
    have hset : KeySet w (keyOf s.id) := by
      rw [KeySet, ← hkept, ← hredis, hkey]
      rfl
    obtain ⟨s', hf', hr'⟩ := hl.sessionRevoked s.id hset
    obtain rfl := Option.some.inj (hf.symm.trans hf')
    simp [hlive] at hr'
  · rintro hup s hm hlive ⟨s', hf', hr'⟩
    have hchosen := hs.fresh.chosen (hsess.trans hswept) hm hlive (List.mem_of_find?_eq_some hf')
      (by simpa using List.find?_some hf') hr'
    have hid : s.id ∈ ids := List.contains_iff_mem.mp hchosen
    have hmem : keyOf s.id ∈ keysUp (fun l => l.isDown down = true) ids := by
      refine List.mem_filter.mpr ⟨List.mem_map_of_mem hid, ?_⟩
      simp [Call.isDown, hup _ hid]
    obtain ⟨x, hx, hkey⟩ := hsweep.keys _ hmem
    rw [← hredis] at hkey
    refine ⟨⟨x, hx, hkey⟩, fun p hp hsid hmax => rejected_iff.mpr ?_⟩
    by_cases hlt : w'.now < x
    · refine .inr (.inr ?_)
      rw [hsid]
      exact (Expiring.Until.of_some (Nat.le_refl x) hkey).has (by rw [hkey]; rfl) hlt
    · have hp : p ∈ w.signed := by
        rw [hsigned, hsweep.rest] at hp
        exact hp
      refine .inl (expired_of_deadline ?_ hmax)
      exact (hl.deadline p hp _ h.lifetime).trans (hx.trans (Nat.le_of_not_lt hlt))

/-- The revocation of both sessions of a user, while these keys cannot be set. -/
def revokeBoth (down : List String) (w : World) : Except Exn Response × World :=
  ((program .sample (.revokeAllSessions (unary 1) ⟨none, none⟩)).failing (fun l => l.isDown down = true)
    (.error "connection lost")).run w

theorem attempt_revokeBoth {down : List String} {w : World} {x : Except Exn Response}
    (h : (revokeBoth down w).1 = x) :
    Attempted .sample (.revokeAllSessions (unary 1) ⟨none, none⟩) down "connection lost" w x
      (revokeBoth down w).2 :=
  h ▸ exec_run (fun _ => ⟨0, rfl⟩) _ _

theorem revokeBoth_blacklisted :
    Blacklisted 900000 twoDevices.2 (revokeBoth [] twoDevices.2).2 (unary 4) := by
  have hsome : (twoDevices.2.sessions.find? (·.id == unary 4)).any (fun s => !s.isRevoked) = true := by
    decide +kernel
  obtain ⟨s, hf, hlive⟩ := (Option.any_eq_true _ _).mp hsome
  have hid : s.id = unary 4 := by simpa using List.find?_some hf
  have hrev : ((revokeBoth [] twoDevices.2).2.sessions.find? (·.id == unary 4)).any (·.isRevoked) =
      true := by decide +kernel
  rw [← hid] at hrev ⊢
  obtain ⟨s', hf', hr'⟩ := (Option.any_eq_true _ _).mp hrev
  exact (revocation_retried ⟨0, _, history_serve (by decide +kernel)⟩
    (accepted_sample (by decide +kernel)) rfl (.done (attempt_revokeBoth (x := .ok (.revokedCount 2))
      (by decide +kernel)) fun _ h => by cases h)).mpr (fun _ _ => List.not_mem_nil) s
        (List.mem_of_find?_eq_some hf) (by simpa using hlive) ⟨s', hf', hr'⟩

/-- The key of the first session cannot be set. The revocation is repeated, and
succeeds; the access token of that session is still accepted. -/
theorem revokeBoth_accepted :
    Reachable .sample twoDevices.2 ∧
    (let w₁ := (revokeBoth [keyOf (unary 4)] twoDevices.2).2
     Attempted .sample (.revokeAllSessions (unary 1) ⟨none, none⟩) [keyOf (unary 4)] "connection lost"
       twoDevices.2 (.error (.error "connection lost")) w₁ ∧
     Attempted .sample (.revokeAllSessions (unary 1) ⟨none, none⟩) [] "connection lost" w₁
       (.ok (.revokedCount 0)) (revokeBoth [] w₁).2 ∧
     (twoDevices.2.sessions.find? (·.id == unary 4)).map (·.isRevoked) = some false ∧
     ((revokeBoth [] w₁).2.sessions.find? (·.id == unary 4)).map (·.isRevoked) = some true ∧
     admission (revokeBoth [] w₁).2 firstToken (revokeBoth [] w₁).2.now = .ok firstToken) :=
  ⟨⟨0, _, history_serve (by decide +kernel)⟩, attempt_revokeBoth (by decide +kernel),
    attempt_revokeBoth (by decide +kernel), by decide +kernel, by decide +kernel, by decide +kernel⟩

end AtlasAuth

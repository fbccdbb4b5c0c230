import AtlasAuth.Proof.Revocation

/-!
# What logins and password changes have done

A login looks its user up, checks the lockout and the password against the row
it has read, and creates its session some calls later (`LoginCall`). A
password change updates the hash, lists the sessions of the user, and revokes
the listed ones (`ChangeDone`); from the listing on it leaves passwords alone
(`ChangeCall`). `obeys_program_race` says so of every request, whatever the
others do between its calls.
-/

namespace AtlasAuth

open Framework Framework.Table Prog

variable {env : Env} {P P' : AppPool}

/-! ## Passwords -/

def passwordOf (u : String) (w : World) : Option String :=
  (w.users.find? (·.id == u)).map (·.passwordHash)

/-- The passwords of all users stay as they are. -/
def SamePasswords (w w' : World) : Prop :=
  ∀ u h, passwordOf u w = some h → passwordOf u w' = some h

theorem SamePasswords.of_eq {w w' : World} (h : w'.users = w.users) : SamePasswords w w' := by
  intro u hash hu
  rwa [passwordOf, h]

instance : IsPreorder World SamePasswords where
  refl _ := .of_eq rfl
  trans _ _ _ h h' u p hu := h' u p (h u p hu)

theorem SamePasswords.updateWhere {w : World} {id : String} {data : User → User}
    (hd : ∀ u : User, u.SamePassword (data u)) :
    SamePasswords w { w with users := updateWhere (·.id == id) data w.users } := by
  intro u h hu
  simp only [passwordOf] at hu ⊢
  rw [find?_updateWhere fun v _ => by rw [(hd v).1]]
  obtain ⟨v, hv, rfl⟩ := Option.map_eq_some_iff.mp hu
  rw [hv]
  simp only [Option.map_some, Option.some.injEq]
  split
  · exact (hd v).2.2
  · rfl

theorem Minor.samePasswords {w w' : World} (h : Minor w w') : SamePasswords w w' := by
  cases h with
  | updateUser h => exact .updateWhere fun u => ⟨(h u).1, (h u).2.1, (h u).2.2.1⟩
  | _ => exact .of_eq rfl

theorem Effect.samePasswords {lockout : Prop} {w w' : World} (h : Effect env lockout False w w') :
    SamePasswords w w' := by
  cases h with
  | minor h => exact h.samePasswords
  | updateLockout _ h => exact .updateWhere h
  | updatePassword hp => exact hp.elim
  | createUser =>
    intro u h hu
    obtain ⟨v, hv, rfl⟩ := Option.map_eq_some_iff.mp hu
    simp [passwordOf, List.find?_append, hv]
  | _ => exact .of_eq rfl

/-- The requests that leave passwords alone. -/
theorem samePasswords_program {r : Request} (h : r.updatesPassword = false) :
    (program env r).Always SamePasswords := by
  have he : (program env r).Always (Effect env True False) :=
    effect_program (fun _ => trivial) (by simp [h])
  exact he.mono fun _ _ => Effect.samePasswords

/-! ## What a login has done -/

/-- The user that a login has found: its first call is the lookup. -/
def loginUser (log : List (Entry World Call)) : Option User :=
  log.getLast?.bind fun x =>
    match x.label with
    | .usersFindByEmail email =>
      x.before.users.find? fun u => u.email == email && u.deletedAt.isNone
    | _ => none

/-- The time at which a login has checked the lockout: its second call is
`new Date()`. -/
def lockCheck (log : List (Entry World Call)) : Option Time := log.reverse[1]?.map (·.before.now)

/-- The password of the login is right for the hash it has read, and it has
not found the account locked. -/
def Authenticates (env : Env) (password : String) (user : User) (log : List (Entry World Call)) :
    Prop :=
  env.argon2Verify user.passwordHash password = true ∧
    ∀ t ∈ lockCheck log, user.lockedUntil.any (t < ·) = false

/-- The session that a login has created. -/
def createdSession (log : List (Entry World Call)) : Option Session :=
  log.findSome? fun x =>
    match x.label with
    | .createSession _ =>
      if x.before.sessions.length < x.after.sessions.length then x.after.sessions.getLast? else none
    | _ => none

def Creates : Call → Bool
  | .createSession _ => true
  | _ => false

/-- A login creates at most one session, for the user it has found and
authenticated. -/
def LoginCall (env : Env) (dto : LoginDto) (log : List (Entry World Call)) (x : Entry World Call) :
    Prop :=
  ∀ u, x.label = .createSession u → createdSession log = none ∧
    (∃ user ∈ loginUser log, user.id = u ∧ Authenticates env dto.password user log) ∧
    (x.after.sessions = x.before.sessions ∨
      ∃ s, s.userId = u ∧ x.after.sessions = x.before.sessions ++ [s])

def LoginObeys {α : Type} (env : Env) (dto : LoginDto) (p : App α)
    (log : List (Entry World Call)) : Prop :=
  p.Obeys (fun _ _ => True) (LoginCall env dto) (fun _ _ => True) log

section

variable {dto : LoginDto} {log : List (Entry World Call)}

theorem loginCall_of_not_creates {x : Entry World Call} (h : ¬Creates x.label) :
    LoginCall env dto log x := by
  intro u e
  rw [e] at h
  exact (h rfl).elim

theorem LoginObeys.skip {α β : Type} {p : App β} {k : β → App α} (h : p.Calls (¬Creates ·))
    (hk : ∀ b log', Extends (¬Creates ·) log log' → LoginObeys env dto (k b) log') :
    LoginObeys env dto (p >>= k) log :=
  h.obeys_bind (fun _ _ _ => loginCall_of_not_creates) (fun _ _ _ => trivial) hk

theorem LoginObeys.of_calls {α : Type} {p : App α} (h : p.Calls (¬Creates ·)) :
    LoginObeys env dto p log :=
  h.obeys (fun _ _ _ => loginCall_of_not_creates) fun _ _ _ => trivial

theorem createdSession_eq_none (h : ∀ x ∈ log, ¬Creates x.label) : createdSession log = none := by
  refine List.findSome?_eq_none_iff.mpr fun x hx => ?_
  have hx := h x hx
  split
  · rename_i e
    rw [e] at hx
    exact (hx rfl).elim
  · rfl

/-- What a login has found out stays what it is. -/
theorem login_extends {L : Call → Prop} {log' : List (Entry World Call)} (h : Extends L log log')
    (h2 : 2 ≤ log.length) : loginUser log' = loginUser log ∧ lockCheck log' = lockCheck log := by
  obtain ⟨new, rfl, -⟩ := h
  have hne : log ≠ [] := by rintro rfl; simp at h2
  refine ⟨by rw [loginUser, loginUser, List.getLast?_append_of_ne_nil _ hne], ?_⟩
  rw [lockCheck, lockCheck, List.reverse_append, List.getElem?_append_left (by simp; omega)]

theorem obeys_issueSession {u : User} (c : RequestContext) (h2 : 2 ≤ log.length)
    (hn : ∀ x ∈ log, ¬Creates x.label) (hu : loginUser log = some u)
    (ha : Authenticates env dto.password u log) :
    LoginObeys env dto (AuthService.issueSession env u c) log := by
  refine .skip (calls_atomic.mpr nofun) fun device log₁ h₁ => ?_
  refine .skip (calls_generateRefreshToken nofun nofun) fun new log₂ h₂ => ?_
  have h := h₁.trans h₂
  obtain ⟨hu₂, hl₂⟩ := login_extends h h2
  refine obeys_bind.mpr (obeys_atomic.mpr ⟨fun w _ => ⟨?_, ?_⟩, fun _ => trivial⟩)
  · rintro v ⟨⟩
    refine ⟨createdSession_eq_none fun x hx => ?_, ⟨u, hu₂.trans hu, rfl, ha.1, hl₂ ▸ ha.2⟩, ?_⟩
    · by_cases hc : Creates x.label
      · exact hn x (h.mem hx (not_not.mpr hc))
      · exact hc
    · dsimp only
      split
      · exact .inl rfl
      · exact .inr ⟨_, rfl, rfl⟩
  · split
    · exact LoginObeys.of_calls
        (.bind (calls_signAccessTokenForUser (fun _ => nofun) nofun nofun nofun ..) fun _ =>
          .bind (calls_atomic.mpr nofun) fun _ => .bind (calls_atomic.mpr nofun) fun _ => trivial)
    · trivial

theorem calls_updateFailedLogin {L : Call → Prop} {id : String} (h : L (.usersUpdateFailedLogin id))
    (n : Nat) (t : Except Exn (Option Time)) : (UsersRepository.updateFailedLogin id n t).Calls L := by
  cases t with
  | ok t => exact calls_atomic.mpr h
  | error e => exact calls_atomic.mpr h

theorem obeys_login (c : RequestContext) : LoginObeys env dto (AuthService.login env dto c) [] := by
  refine .query_bind (fun _ => trivial) fun w _ => ⟨loginCall_of_not_creates nofun, ?_⟩
  cases hu : w.users.find? fun u => u.email == env.toLowerCase dto.email && u.deletedAt.isNone with
  | none => exact LoginObeys.of_calls (.bind (calls_atomic.mpr nofun) fun _ => trivial)
  | some user =>
    refine .query_bind (fun _ => trivial) fun w₁ _ => ⟨loginCall_of_not_creates nofun, ?_⟩
    split
    · exact LoginObeys.of_calls (.bind (calls_atomic.mpr nofun) fun _ => trivial)
    rename_i hlock
    refine obeys_bind.mpr (obeys_atomic.mpr
      ⟨fun w₂ _ => ⟨loginCall_of_not_creates nofun, ?_⟩, fun _ => trivial⟩)
    dsimp only
    split
    · refine LoginObeys.of_calls (.bind ?_ fun _ => .bind (calls_atomic.mpr nofun) fun _ => trivial)
      exact .bind (calls_atomic.mpr nofun) fun _ => .ite
        (.bind (calls_query.mpr nofun) fun _ => calls_updateFailedLogin nofun ..)
        (calls_updateFailedLogin nofun ..)
    · rename_i hv
      refine LoginObeys.skip (calls_atomic.mpr nofun) fun _ log h => ?_
      obtain ⟨hl, hc⟩ := login_extends h (by simp)
      have hn : ∀ x ∈ log, ¬Creates x.label := by
        intro x hx hc
        have := h.mem hx (not_not.mpr hc)
        simp only [List.mem_cons, List.not_mem_nil, or_false] at this
        rcases this with rfl | rfl | rfl <;> cases hc
      refine obeys_bind.mpr ((obeys_issueSession c (Nat.le_trans (by simp) h.length_le) hn
        (hl.trans hu) ⟨by simpa using hv, ?_⟩).mono (fun _ _ h => h) (fun _ _ h => h) ?_)
      · rw [hc]
        rintro t ⟨⟩
        simpa using hlock
      · rintro log (e | tokens) -
        · trivial
        · exact LoginObeys.of_calls (.bind (calls_atomic.mpr nofun) fun _ => trivial)

end

/-! ## What a password change has done -/

def Updates : Call → Bool
  | .usersUpdatePassword _ => true
  | _ => false

def Lists : Call → Bool
  | .sessionsFindUnrevoked _ => true
  | _ => false

/-- From its listing of the sessions on, a password change leaves passwords
alone. -/
def ChangeCall (log : List (Entry World Call)) (x : Entry World Call) : Prop :=
  (∃ y ∈ x :: log, Lists y.label) → SamePasswords x.before x.after

/-- What a password change has done that has succeeded: it has listed the
sessions of the user, and all of these but the kept one are revoked. -/
def ChangeDone (kept : Option String) (log : List (Entry World Call)) : Prop :=
  ∀ u, (∃ x ∈ log, x.label = .usersUpdatePassword u) →
    ∃ x ∈ log, x.label = .sessionsFindUnrevoked u ∧
      ∀ s ∈ x.before.sessions, s.userId = u → some s.id ≠ kept →
        ∃ y ∈ log, SessionRevoked s.id y.after

def ChangeObeys {α : Type} (env : Env) (kept : Option String) (p : App α)
    (log : List (Entry World Call)) : Prop :=
  p.Obeys (Since env) ChangeCall (fun log r => ∀ a, r = .ok a → ChangeDone kept log) log

section

variable {kept : Option String} {log : List (Entry World Call)} {α β : Type}

/-- A part of a password change that neither updates the password nor lists
the sessions. -/
theorem ChangeObeys.skip_returns {M : β → Prop} {p : App β} {k : β → App α} (hr : p.Returns M)
    (ha : p.Always SamePasswords) (hc : p.Calls fun l => ¬Updates l ∧ ¬Lists l)
    (hk : ∀ b log', M b → Extends (fun l => ¬Updates l ∧ ¬Lists l) log log' →
      ChangeObeys env kept (k b) log') : ChangeObeys env kept (p >>= k) log := by
  have hc' : p.Obeys (fun _ _ => True) (fun _ _ => True)
      (fun log' _ => Extends (fun l => ¬Updates l ∧ ¬Lists l) log log') log :=
    hc.obeys (fun _ _ _ _ => trivial) fun _ _ h => h
  have hr' := hr.obeys (A := fun _ _ => True) log
  refine obeys_bind.mpr (((ha.obeys log).and (hc'.and hr')).mono
    (fun _ _ _ => ⟨trivial, trivial, trivial⟩) (fun _ _ h _ => h.1) fun log' r h => ?_)
  cases r with
  | ok b => exact hk b log' (h.2.2 b rfl) h.2.1
  | error e => exact nofun

theorem ChangeObeys.skip {p : App β} {k : β → App α} (ha : p.Always SamePasswords)
    (hc : p.Calls fun l => ¬Updates l ∧ ¬Lists l)
    (hk : ∀ b log', Extends (fun l => ¬Updates l ∧ ¬Lists l) log log' →
      ChangeObeys env kept (k b) log') : ChangeObeys env kept (p >>= k) log :=
  .skip_returns (returns_true p) ha hc fun b log' _ => hk b log'

theorem ChangeObeys.throw (e : Exn) : ChangeObeys env kept (.throw e : App α) log := fun _ => nofun

theorem ChangeDone.extends {log' : List (Entry World Call)} (h : ChangeDone kept log)
    (he : Extends (fun l => ¬Updates l ∧ ¬Lists l) log log') : ChangeDone kept log' := by
  rintro u ⟨x, hx, hl⟩
  have hx : x ∈ log := he.mem hx fun h => h.1 (by rw [hl]; rfl)
  obtain ⟨y, hy, hl', hs⟩ := h u ⟨x, hx, hl⟩
  refine ⟨y, he.subset hy, hl', fun s hm hu hk => ?_⟩
  obtain ⟨z, hz, hr⟩ := hs s hm hu hk
  exact ⟨z, he.subset hz, hr⟩

/-- The sessions that a listing finds unrevoked. -/
theorem mem_unrevoked {w : World} {u : String} {k : Option String} {s : Session}
    (hs : s ∈ w.sessions) (hu : s.userId = u) (hk : some s.id ≠ k) (hr : s.isRevoked = false) :
    s.id ∈ (w.sessions.filter fun s => s.userId == u && !s.isRevoked &&
      !((truthy k).any (s.id == ·))).map (·.id) := by
  refine List.mem_map.mpr ⟨s, List.mem_filter.mpr ⟨hs, ?_⟩, rfl⟩
  have hk : (truthy k).any (s.id == ·) = false := by
    cases k with
    | none => rfl
    | some k =>
      simp only [ne_eq, Option.some.injEq] at hk
      simp only [truthy, Option.filter]
      split <;> simp [hk]
  simp [hu, hr, hk]

theorem obeys_revokeAll {u : String} (c : RequestContext) (k : Option String)
    (hu : ∀ x ∈ log, ∀ v, x.label = .usersUpdatePassword v → v = u) :
    ChangeObeys env k (SessionsService.revokeAll env u c k) log := by
  have tail (ids : List String) (log' : List (Entry World Call)) (hd : ChangeDone k log') :
      ChangeObeys env k (do
        let accessTtl ← TokenService.getAccessTokenTtlMs env
        SessionsService.promiseAll (ids.map fun sessionId =>
          TokenBlacklistService.blacklistSession sessionId accessTtl)
        emit (.allSessionsRevoked u ids.length k c)
        return ids.length) log' := by
    refine .skip always_ofExcept calls_ofExcept fun ttl log₁ h₁ => ?_
    have hkeys : (SessionsService.promiseAll (ids.map fun sessionId =>
        TokenBlacklistService.blacklistSession sessionId ttl)).Always (Effect env False False) := by
      refine effect_of_made (made_promiseAll fun p hp => ?_)
      obtain ⟨s, -, rfl⟩ := List.mem_map.mp hp
      exact made_blacklistSession trivial ..
    refine .skip (hkeys.mono fun _ _ => Effect.samePasswords) (calls_promiseAll fun p hp => ?_)
      fun _ log₂ h₂ => ?_
    · obtain ⟨s, -, rfl⟩ := List.mem_map.mp hp
      exact calls_blacklistSession (fun _ => ⟨nofun, nofun⟩) ..
    refine .skip (always_atomic.mpr fun _ => .of_eq rfl) (calls_atomic.mpr ⟨nofun, nofun⟩)
      fun _ log₃ h₃ => ?_
    exact fun _ _ => hd.extends ((h₁.trans h₂).trans h₃)
  refine obeys_bind.mpr (.query_bind (fun _ _ => nofun) fun w ⟨hf, _⟩ =>
    ⟨fun _ => .of_eq rfl, ?_⟩)
  let x : Entry World Call := ⟨.sessionsFindUnrevoked u, w, w⟩
  have done {log' : List (Entry World Call)} (hx : x ∈ log')
      (hv : ∀ y ∈ log', ∀ v, y.label = .usersUpdatePassword v → v = u)
      (hs : ∀ s ∈ w.sessions, s.userId = u → some s.id ≠ k → s.isRevoked = false →
        ∃ y ∈ log', SessionRevoked s.id y.after) : ChangeDone k log' := by
    rintro v ⟨y, hy, hl⟩
    obtain rfl := hv y hy v hl
    refine ⟨x, hx, rfl, fun s hm hu hk => ?_⟩
    by_cases hr : s.isRevoked = true
    · exact ⟨x, hx, s, hf.sessionId.find?.mpr ⟨hm, rfl⟩, hr⟩
    · exact hs s hm hu hk (by simpa using hr)
  split
  · rename_i h0
    refine tail _ _ (done (List.mem_cons_self ..) (fun y hy v hl => ?_) fun s hm hu hk hr => ?_)
    · rcases List.mem_cons.mp hy with rfl | hy
      · cases hl
      · exact hu y hy v hl
    · have := mem_unrevoked hm hu hk hr
      rw [List.length_eq_zero_iff.mp h0] at this
      cases this
  · refine obeys_bind.mpr (obeys_atomic.mpr
      ⟨fun w₂ ⟨hf₂, hs₂⟩ => ⟨fun _ => .of_eq rfl, ?_⟩, fun _ _ => nofun⟩)
    refine tail _ _ (done (List.mem_cons_of_mem _ (List.mem_cons_self ..)) (fun y hy v hl => ?_)
      fun s hm hu hk hr => ⟨_, List.mem_cons_self .., ?_⟩)
    · simp only [List.mem_cons] at hy
      rcases hy with rfl | rfl | hy
      · cases hl
      · cases hl
      · exact hu y hy v hl
    · have hg : Grows w w₂ := (hs₂ x (List.mem_cons_self ..)).2.1
      obtain ⟨s', hs', hk'⟩ := hg.session (hf.sessionId.find?.mpr ⟨hm, rfl⟩)
      have hc := List.contains_iff_mem.mpr (mem_unrevoked hm hu hk hr)
      rw [← hk'.1] at hc
      exact ⟨_, find?_revoke w₂.now hs' hc, rfl⟩

theorem minor_skip {p : App β} {k : β → App α} (ha : p.Always Minor)
    (hc : p.Calls fun l => ¬Updates l ∧ ¬Lists l)
    (hk : ∀ b log', Extends (fun l => ¬Updates l ∧ ¬Lists l) log log' →
      ChangeObeys env kept (k b) log') : ChangeObeys env kept (p >>= k) log :=
  .skip (ha.mono fun _ _ => Minor.samePasswords) hc hk

/-- No password has been updated yet, and no sessions have been listed. -/
def Before (log : List (Entry World Call)) : Prop := ∀ x ∈ log, ¬Updates x.label ∧ ¬Lists x.label

theorem Before.extends {log' : List (Entry World Call)} (h : Before log)
    (he : Extends (fun l => ¬Updates l ∧ ¬Lists l) log log') : Before log' := by
  intro x hx
  by_cases hl : ¬Updates x.label ∧ ¬Lists x.label
  · exact hl
  · exact h x (he.mem hx hl)

theorem ChangeObeys.update {u hash : String} {k : User → App α} (hb : Before log)
    (hk : ∀ b x, x.label = .usersUpdatePassword u → ChangeObeys env kept (k b) (x :: log)) :
    ChangeObeys env kept (UsersRepository.updatePassword u hash >>= k) log := by
  refine obeys_bind.mpr (obeys_atomic.mpr
    ⟨fun w _ => ⟨fun ⟨y, hy, hl⟩ => ?_, ?_⟩, fun _ _ => nofun⟩)
  · rcases List.mem_cons.mp hy with rfl | hy
    · cases hl
    · exact ((hb y hy).2 hl).elim
  split
  · exact hk _ _ rfl
  · exact fun _ => nofun

/-- The end of a password change, after the update of the hash `x` and what
has come in between. -/
theorem obeys_evict {u : String} (c : RequestContext) (k : Option String) (e : Event)
    {x : Entry World Call} (hx : x.label = .usersUpdatePassword u) (hb : Before log)
    {log' : List (Entry World Call)}
    (he : Extends (fun l => ¬Updates l ∧ ¬Lists l) (x :: log) log') :
    ChangeObeys env k (do
      let _ ← SessionsService.revokeAll env u c k
      emit e) log' := by
  refine obeys_bind.mpr ((obeys_revokeAll c k fun y hy v hl => ?_).mono
    (fun _ _ h => h) (fun _ _ h => h) ?_)
  · rcases List.mem_cons.mp (he.mem hy fun h => h.1 (by rw [hl]; rfl)) with rfl | hy
    · rw [hx] at hl
      exact (Call.usersUpdatePassword.inj hl).symm
    · exact ((hb y hy).1 (by rw [hl]; rfl)).elim
  · rintro log₁ (_ | n) hd
    · exact fun _ => nofun
    · refine obeys_atomic.mpr ⟨fun w _ => ⟨fun _ => .of_eq rfl, fun _ _ => ?_⟩, fun _ _ => nofun⟩
      exact (hd _ rfl).extends (.cons ⟨nofun, nofun⟩)

theorem obeys_resetPassword (token new : String) (c : RequestContext) :
    ChangeObeys env none (PasswordService.resetPassword env token new c) [] := by
  refine minor_skip always_query (calls_query.mpr ⟨nofun, nofun⟩) fun record log₁ h₁ => ?_
  cases record with
  | none => exact ChangeObeys.throw _
  | some record =>
    refine minor_skip always_query (calls_query.mpr ⟨nofun, nofun⟩) fun now log₂ h₂ => ?_
    split
    · exact ChangeObeys.throw _
    refine minor_skip (minor_hash _) (calls_atomic.mpr ⟨nofun, nofun⟩) fun hash log₃ h₃ => ?_
    have hb : Before log₃ := Before.extends (fun _ h => absurd h List.not_mem_nil)
      ((h₁.trans h₂).trans h₃)
    refine .update hb fun _ x hx => ?_
    refine minor_skip (minor_passwordResetMarkConsumed _) (calls_atomic.mpr ⟨nofun, nofun⟩)
      fun _ log₄ h₄ => ?_
    exact obeys_evict c none _ hx hb h₄

theorem obeys_changePassword (u sid current new : String) (c : RequestContext) (hb : Before log) :
    ChangeObeys env (some sid) (PasswordService.changePassword env u sid current new c) log := by
  refine minor_skip always_query (calls_query.mpr ⟨nofun, nofun⟩) fun user log₁ h₁ => ?_
  cases user with
  | none => exact ChangeObeys.throw _
  | some user =>
    refine minor_skip (minor_verify ..) (calls_atomic.mpr ⟨nofun, nofun⟩) fun _ log₂ h₂ => ?_
    split
    · exact ChangeObeys.throw _
    refine minor_skip (minor_hash _) (calls_atomic.mpr ⟨nofun, nofun⟩) fun hash log₃ h₃ => ?_
    have hb : Before log₃ := hb.extends ((h₁.trans h₂).trans h₃)
    refine .update hb fun _ x hx => ?_
    exact obeys_evict c (some sid) _ hx hb (.refl _)

end

/-! ## What each request promises -/

/-- The session that a password change keeps. -/
def Request.kept : Request → Option String
  | .changePassword bearer .. => some bearer.sessionId
  | _ => none

def RaceCall (env : Env) (r : Request) (log : List (Entry World Call)) (x : Entry World Call) :
    Prop :=
  (r.updatesPassword = false → SamePasswords x.before x.after) ∧
  (r.updatesPassword = true → ChangeCall log x) ∧
  ∀ dto c, r = .login dto c → LoginCall env dto log x

def RaceDone (r : Request) (log : List (Entry World Call)) (x : Except Exn Response) : Prop :=
  r.updatesPassword = true → ∀ a, x = .ok a → ChangeDone r.kept log

/-- A password change, from what its service promises. -/
theorem obeys_change {r : Request} {p : App Response} {log : List (Entry World Call)}
    (hr : r.updatesPassword = true) (hp : ChangeObeys env r.kept p log) :
    p.Obeys (Since env) (RaceCall env r) (RaceDone r) log := by
  refine Obeys.mono hp (fun _ _ h => h) (fun _ _ h => ⟨by simp [hr], fun _ => h, ?_⟩)
    fun _ _ h _ => h
  rintro dto c rfl
  cases hr

theorem obeys_program_race (r : Request) :
    (program env r).Obeys (Since env) (RaceCall env r) (RaceDone r) [] := by
  have quiet (h : r.updatesPassword = false) : (program env r).Obeys (fun _ _ => True)
      (fun _ x => SamePasswords x.before x.after) (fun _ _ => True) [] :=
    (samePasswords_program h).obeys []
  have other (h : r.updatesPassword = false) (hl : r.isLogin = false) :
      (program env r).Obeys (Since env) (RaceCall env r) (RaceDone r) [] := by
    refine (quiet h).mono (fun _ _ _ => trivial) (fun _ _ hx => ⟨fun _ => hx, by simp [h], ?_⟩)
      (fun _ _ _ => by simp [RaceDone, h])
    rintro dto c rfl
    cases hl
  cases r with
  | login dto c =>
    have hl : (program env (.login dto c)).Obeys (fun _ _ => True) (LoginCall env dto)
        (fun _ _ => True) [] := by
      refine obeys_bind.mpr ((obeys_login c).mono (fun _ _ h => h) (fun _ _ h => h) ?_)
      rintro log (_ | ⟨u, tokens⟩) - <;> trivial
    refine ((quiet rfl).and hl).mono (fun _ _ _ => ⟨trivial, trivial⟩)
      (fun _ _ hx => ⟨fun _ => hx.1, nofun, ?_⟩) fun _ _ _ => nofun
    rintro dto' c' ⟨⟩
    exact hx.2
  | resetPassword token new c =>
    refine obeys_change rfl (obeys_bind.mpr ((obeys_resetPassword token new c).mono
      (fun _ _ h => h) (fun _ _ h => h) ?_))
    rintro log (_ | _) h
    · exact fun _ => nofun
    · exact fun _ _ => h _ rfl
  | changePassword bearer current new c =>
    refine obeys_change rfl (obeys_bind.mpr ?_)
    have h : ChangeObeys env (some bearer.sessionId)
        (AuthController.changePassword env bearer current new c) [] := by
      refine .skip_returns (returns_canActivate bearer)
        ((minor_of_made env (made_canActivate bearer)).mono fun _ _ => Minor.samePasswords) ?_ ?_
      · exact .bind (calls_atomic.mpr ⟨nofun, nofun⟩) fun _ => .bind (calls_query.mpr ⟨nofun, nofun⟩)
          fun _ => .bind (calls_query.mpr ⟨nofun, nofun⟩) fun _ => .ite trivial trivial
      · rintro _ log rfl h
        exact obeys_changePassword _ _ _ _ c (Before.extends (fun _ h => absurd h List.not_mem_nil) h)
    refine h.mono (fun _ _ h => h) (fun _ _ h => h) ?_
    rintro log (_ | _) h
    · exact fun _ => nofun
    · exact fun _ _ => h _ rfl
  | _ => exact other rfl rfl

end AtlasAuth

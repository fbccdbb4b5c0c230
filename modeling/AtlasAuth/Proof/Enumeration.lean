import AtlasAuth.Proof.Lockout

/-!
# What failed logins tell about an account

A login with a wrong password is answered alike whether or not there is an
account, but for the lockout: an account that is locked says so. Of a sequence
of such logins on an account, the ones that meet the lock are those that
`Counter.meetsLock` computes from the counter of the account and the times of
the logins (`run_wrongLogins`); all the others, and every one where there is
no account, get the same answer (`enumeration_by_lockout`), as long as the end
of a lock is a date that Prisma accepts.
-/

namespace AtlasAuth

open Framework Framework.Table Prog

variable {env : Env} {w : World}

/-- The answer to a login of an unknown user, or with a wrong password. -/
def invalidCredentials : Exn := .unauthorized "Invalid credentials"

/-- There is an account with this address, password hash and counter. -/
def HasAccount (email hash : String) (c : Counter) (w : World) : Prop :=
  ∃ u, w.users.find? (fun u => u.email == email && u.deletedAt.isNone) = some u ∧
    w.users.find? (·.id == u.id) = some u ∧ u.passwordHash = hash ∧ u.counter = c

theorem run_login_unknown {dto : LoginDto} (ctx : RequestContext) (h : loginRow env w dto = none) :
    ((program env (.login dto ctx)).run w).1 = .error invalidCredentials ∧
      ((program env (.login dto ctx)).run w).2.users = w.users := by
  have h : w.users.find? (fun u => u.email == env.toLowerCase dto.email && u.deletedAt.isNone) =
      none := h
  simp only [program, AuthService.login, UsersRepository.findByEmail, run_bind, run_query, h]
  exact ⟨rfl, rfl⟩

/-- An account, after a failed attempt. -/
theorem HasAccount.failed {email hash : String} {c : Counter} {u : User} {N D : Nat} {t : Time}
    {w' : World} (he : w.users.find? (fun u => u.email == email && u.deletedAt.isNone) = some u)
    (hid : w.users.find? (·.id == u.id) = some u) (hh : u.passwordHash = hash) (hc : u.counter = c)
    (hw' : w'.users = updateWhere (·.id == u.id) (u.failed N D t).withLockout w.users) :
    HasAccount email hash (c.after N (D * 60 * 1000) t .failure) w' := by
  have hself : (u.failed N D t).withLockout u = u.failed N D t := User.withLockout_failed_self t u
  have hfid : (u.failed N D t).id = u.id := by
    unfold User.failed
    split <;> rfl
  refine ⟨u.failed N D t, ?_, ?_, ?_, ?_⟩
  · rw [hw', find?_updateWhere (by exact fun _ _ => rfl), he]
    simp [hself]
  · rw [hw', hfid, find?_updateWhere (by exact fun _ _ => rfl), hid]
    simp [hself]
  · rw [← hh, User.failed]
    split <;> rfl
  · rw [counter_failed, hc]

/-- A login with a wrong password, where there is an account. -/
theorem run_login_wrong {email hash : String} {c : Counter} {dto : LoginDto} (ctx : RequestContext)
    (h : HasAccount email hash c w) (he : env.toLowerCase dto.email = email)
    (hp : env.argon2Verify hash dto.password = false)
    (hd : (JsDate.after w.now (minutesToMs env.durationMinutes)).Accepted) :
    ((program env (.login dto ctx)).run w).1 =
        .error (if c.locked w.now then AuthService.accountLocked else invalidCredentials) ∧
      HasAccount email hash
        (if c.locked w.now then c else c.after env.maxAttempts env.lockDuration w.now .failure)
        ((program env (.login dto ctx)).run w).2 ∧
      ((program env (.login dto ctx)).run w).2.now = w.now := by
  obtain ⟨u, hu, hid, hh, hc⟩ := h
  subst he
  have hlock : u.lockedUntil.any (w.now < ·) = c.locked w.now := hc ▸ rfl
  simp only [program, AuthService.login, UsersRepository.findByEmail, run_bind, run_query, hu, dateNow,
    hlock]
  by_cases hl : c.locked w.now = true
  · simp only [hl, if_true, emit, run_bind, run_atomic, throw_def, run_throw]
    exact ⟨trivial, ⟨u, hu, hid, hh, hc⟩, trivial⟩
  · obtain ⟨v, hv⟩ := run_registerFailedLoginAttempt (N := env.maxAttempts)
      (D := env.durationMinutes)
      (w := { w with verified := w.verified ++ [(u.passwordHash, dto.password)] }) hid
      fun _ => accepted_minutes.mp hd
    rw [hh] at hv
    simp only [hl, Bool.false_eq_true, if_false, HashingService.verify, run_bind, run_atomic, hh, hp, hv,
      Bool.not_false, if_true, emit, throw_def, run_throw]
    exact ⟨rfl, .failed hu hid hh hc rfl, trivial⟩

/-! ## Sequences of logins -/

/-- The answers to logins, each of which comes some time after the one before. -/
def answers (env : Env) (w : World) (rs : List (Time × LoginDto × RequestContext)) :
    List (Except Exn Response) :=
  ((system env).serve (rs.map fun (wait, dto, ctx) => (wait, .login dto ctx)) w).1.map (·.outcome)

@[simp] theorem answers_nil : answers env w [] = [] := rfl

theorem answers_cons {wait : Time} {dto : LoginDto} {ctx : RequestContext}
    {rs : List (Time × LoginDto × RequestContext)} :
    answers env w ((wait, dto, ctx) :: rs) =
      ((program env (.login dto ctx)).run (w.advance wait)).1 ::
        answers env ((program env (.login dto ctx)).run (w.advance wait)).2 rs := rfl

theorem run_unknownLogins {email : String} {rs : List (Time × LoginDto × RequestContext)}
    (hw : w.users.find? (fun u => u.email == email && u.deletedAt.isNone) = none)
    (hrs : ∀ r ∈ rs, env.toLowerCase r.2.1.email = email) :
    answers env w rs = rs.map fun _ => .error invalidCredentials := by
  induction rs generalizing w with
  | nil => rfl
  | cons r rs ih =>
    obtain ⟨wait, dto, ctx⟩ := r
    obtain ⟨hr, hrs⟩ := List.forall_mem_cons.mp hrs
    have hnone : loginRow env (w.advance wait) dto = none := by
      unfold loginRow
      rw [hr]
      exact hw
    obtain ⟨ho, husers⟩ := run_login_unknown ctx hnone
    rw [answers_cons, ho, List.map_cons, ih (by rw [husers]; exact hw) hrs]

/-- The answers where there is an account. -/
theorem run_wrongLogins {email hash : String} {c : Counter}
    {rs : List (Time × LoginDto × RequestContext)} (hw : HasAccount email hash c w)
    (hrs : ∀ r ∈ rs, env.toLowerCase r.2.1.email = email ∧
      env.argon2Verify hash r.2.1.password = false)
    (hd : (JsDate.after (w.now + (rs.map (·.1)).sum) (minutesToMs env.durationMinutes)).Accepted) :
    answers env w rs = (c.meetsLock env.maxAttempts env.lockDuration w.now (rs.map (·.1))).map
      fun locked => .error (if locked then AuthService.accountLocked else invalidCredentials) := by
  induction rs generalizing w c with
  | nil => rfl
  | cons r rs ih =>
    obtain ⟨wait, dto, ctx⟩ := r
    obtain ⟨⟨he, hp⟩, hrs⟩ := List.forall_mem_cons.mp hrs
    rw [List.map_cons, List.sum_cons, ← Nat.add_assoc] at hd
    obtain ⟨ho, hw', hnow⟩ := run_login_wrong ctx (w := w.advance wait) hw he hp
      (accepted_minutes_of_le (Nat.le_add_right _ _) hd)
    rw [answers_cons, ho, ih hw' hrs (by rw [hnow]; exact hd), hnow]
    rfl

/-- A store with an account and the store without it. To logins with a wrong
password, at any times, the answers are the same wherever the account is not
locked, and where it is they say so; in particular they are all the same if
the account is not locked at first and there are no more logins than it takes
to lock it. The end of a lock that the last login sets has to be a date that
Prisma accepts. -/
theorem enumeration_by_lockout {u : User} {rs : List (Time × LoginDto × RequestContext)}
    (hid : Table.Unique User.id w.users) (hemail : Table.Unique User.email w.users)
    (hu : u ∈ w.users) (hlive : u.deletedAt = none)
    (hrs : ∀ r ∈ rs, env.toLowerCase r.2.1.email = u.email ∧
      env.argon2Verify u.passwordHash r.2.1.password = false)
    (hd : (JsDate.after (w.now + (rs.map (·.1)).sum) (minutesToMs env.durationMinutes)).Accepted) :
    let without : World := { w with users := w.users.filter (·.id != u.id) }
    let locked := u.counter.meetsLock env.maxAttempts env.lockDuration w.now (rs.map (·.1))
    answers env without rs = locked.map (fun _ => .error invalidCredentials) ∧
    answers env w rs = locked.map (fun locked =>
      .error (if locked then AuthService.accountLocked else invalidCredentials)) ∧
    (u.counter.locked w.now = false → u.failedLoginAttempts + rs.length ≤ env.maxAttempts →
      answers env w rs = answers env without rs) := by
  intro without locked
  have hfind : w.users.find? (fun x => x.email == u.email && x.deletedAt.isNone) = some u :=
    hemail.find?_and hu (by rw [hlive]; rfl)
  have hnone : without.users.find? (fun x => x.email == u.email && x.deletedAt.isNone) = none := by
    refine List.find?_eq_none.mpr fun x hx => ?_
    obtain ⟨hx, hne⟩ := List.mem_filter.mp hx
    have : x.email ≠ u.email := fun e => by simp [hemail.eq hx hu e] at hne
    simp [this]
  have h₁ : answers env without rs = locked.map fun _ => .error invalidCredentials := by
    rw [run_unknownLogins hnone fun r hr => (hrs r hr).1, List.map_const', List.map_const']
    simp only [locked, Counter.length_meetsLock, List.length_map]
  have h₂ := run_wrongLogins ⟨u, hfind, hid.find?.mpr ⟨hu, rfl⟩, rfl, rfl⟩ hrs hd
  refine ⟨h₁, h₂, fun hfree hfew => h₂.trans (.trans ?_ h₁.symm)⟩
  refine List.map_congr_left fun b hb => ?_
  rw [Counter.meetsLock_of_few hfree (by rw [List.length_map]; exact hfew) b hb]
  rfl

/-- After a registration. -/
def soleUser : World :=
  ((program .sample (.register ⟨"a@b.co", "Passw0rd!", none, none⟩ ⟨none, none⟩)).run { now := 0 }).2

def soleAccount : User where
  id := unary 1
  email := "a@b.co"
  passwordHash := Env.sample.argon2Hash 0 "Passw0rd!"

/-- Six logins, each a second after the one before. -/
def wrongLogins : List (Time × LoginDto × RequestContext) :=
  List.replicate 6 (1000, ⟨"a@b.co", "wrong"⟩, ⟨none, none⟩)

theorem soleUser_users : soleUser.users = [soleAccount] := by decide +kernel

theorem wrongLogins_tell :
    Env.sample.argon2Verify soleAccount.passwordHash "wrong" = false ∧
    answers .sample soleUser wrongLogins ≠
      answers .sample { soleUser with users := soleUser.users.filter (·.id != soleAccount.id) }
        wrongLogins := by
  decide +kernel

theorem wrongLogins_answers :
    answers .sample soleUser wrongLogins = [false, false, false, false, false, true].map fun locked =>
      .error (if locked then AuthService.accountLocked else invalidCredentials) := by
  have hwrong : ∀ r ∈ wrongLogins, Env.sample.toLowerCase r.2.1.email = soleAccount.email ∧
      Env.sample.argon2Verify soleAccount.passwordHash r.2.1.password = false := by
    decide +kernel
  have hall := @enumeration_by_lockout .sample soleUser soleAccount wrongLogins
    (by rw [soleUser_users]; exact List.nodup_singleton _)
    (by rw [soleUser_users]; exact List.nodup_singleton _)
    (by rw [soleUser_users]; exact List.mem_singleton_self _) rfl hwrong
    (accepted_minutes.mpr (by decide +kernel))
  have hlocks : soleAccount.counter.meetsLock Env.sample.maxAttempts Env.sample.lockDuration
      soleUser.now (wrongLogins.map (·.1)) = [false, false, false, false, false, true] := by
    decide +kernel
  exact hall.2.1.trans (by rw [hlocks])

end AtlasAuth

import AtlasAuth.Framework.Lockout
import AtlasAuth.Proof.Reset

/-!
# What it means for an account to be locked

The two columns of the lockout stand for the history of the account: the count
is that of the failures since the latest success, password update or lock, and
a login is refused as locked exactly if its history says so
(`lockout_exact`). Of each completed request it has only to be known which
attempt on the account it is, if any (`attemptOf`), and that the columns change
as the attempt says (`tracks_program`).
-/

namespace AtlasAuth

open Framework Framework.Table Prog

variable {env : Env} {w w' w'' : World} {d : Done Request World Exn Response} {u : String}
  {tr : List (Done Request World Exn Response)}

/-! ## Counters -/

def User.counter (u : User) : Counter := ⟨u.failedLoginAttempts, u.lockedUntil⟩

def counterOf (u : String) (w : World) : Option Counter :=
  (w.users.find? (·.id == u)).map User.counter

/-- `security.accountLockout.durationMinutes`, in milliseconds. -/
def Env.lockDuration (env : Env) : Nat := env.durationMinutes * 60 * 1000

theorem counter_failed (N D : Nat) (t : Time) (u : User) :
    (u.failed N D t).counter = u.counter.after N (D * 60 * 1000) t .failure := by
  unfold User.failed Counter.after
  by_cases h : u.failedLoginAttempts + 1 ≥ N <;> simp [h, User.counter]

theorem counterOf_congr (h : w'.users.map User.credentials = w.users.map User.credentials)
    (u : String) : counterOf u w' = counterOf u w :=
  find?_credentials User.counter (fun c => ⟨c.2.2.2.1, c.2.2.2.2⟩) (fun _ => rfl) h u

/-- The counters after an update of the row `v`. -/
theorem counterOf_update {f : User → User} (hid : ∀ x, (f x).id = x.id) {v : String}
    (h : w'.users.map User.credentials = (updateWhere (·.id == v) f w.users).map User.credentials)
    (u : String) : counterOf u w' =
      (w.users.find? (·.id == u)).map fun x => if x.id == v then (f x).counter else x.counter :=
  (counterOf_congr (w := { w with users := updateWhere (·.id == v) f w.users }) h u).trans
    (find?_updateUser hid _ _ _)

/-- The counter of the row that was updated, and those of the others. -/
theorem counterOf_update_cases {f : User → User} (hid : ∀ x, (f x).id = x.id) {v : String}
    (h : w'.users.map User.credentials = (updateWhere (·.id == v) f w.users).map User.credentials) :
    (∀ x, w.users.find? (·.id == v) = some x → counterOf v w' = some (f x).counter) ∧
      ∀ u ≠ v, counterOf u w' = counterOf u w := by
  refine ⟨fun x hx => ?_, fun u hne => ?_⟩
  · have hxv : x.id = v := by simpa using List.find?_some hx
    rw [counterOf_update hid h, hx]
    simp [hxv]
  · rw [counterOf_update hid h, counterOf]
    cases hx : w.users.find? (·.id == u) with
    | none => rfl
    | some x =>
      have hxu : x.id = u := by simpa using List.find?_some hx
      simp [hxu, hne]

/-- The counters stay as they are, and those of new users are zero. -/
def CountersKept (w w' : World) : Prop :=
  ∀ u, counterOf u w' = counterOf u w ∨ counterOf u w = none ∧ counterOf u w' = some .zero

instance : IsPreorder World CountersKept where
  refl _ _ := .inl rfl
  trans _ _ _ h h' u := by
    rcases h u with e | ⟨e, e'⟩ <;> rcases h' u with e₁ | ⟨e₁, e₁'⟩
    · exact .inl (e₁.trans e)
    · exact .inr ⟨e ▸ e₁, e₁'⟩
    · exact .inr ⟨e, e₁.trans e'⟩
    · cases e'.symm.trans e₁

theorem Effect.countersKept (h : Effect env False False w w') : CountersKept w w' := by
  intro u
  cases h with
  | minor h => exact .inl (counterOf_congr h.quiet.users u)
  | @createUser x hid hd hl =>
    unfold counterOf
    rw [List.find?_append]
    cases hx : w.users.find? (·.id == u) with
    | some y => exact .inl rfl
    | none =>
      by_cases hxu : x.id = u
      · exact .inr ⟨rfl, by simp [hxu, User.counter, hl.1, hl.2, Counter.zero]⟩
      · exact .inl (by simp [hxu])
  | updateLockout hl => exact hl.elim
  | updatePassword hp => exact hp.elim
  | _ => exact .inl rfl

/-! ## Attempts -/

/-- The attempt on the account that a completed request is: a login whose
password was checked and wrong, a login that has succeeded, or a password reset
or change that has. -/
def attemptOf (env : Env) (u : String) (d : Done Request World Exn Response) : Option Attempt :=
  match d.req with
  | .login dto _ =>
    match loginRow env d.before dto, d.after.verified[d.before.verified.length]? with
    | some user, some (hash, password) =>
      if user.id = u then
        if env.argon2Verify hash password then
          if d.outcome.isOk then some .success else none
        else some .failure
      else none
    | _, _ => none
  | .resetPassword token _ _ =>
    if d.outcome = .ok .done ∧ (d.before.passwordResetTokens.find?
      (·.tokenHash == env.sha256 token)).any (·.userId == u) then some .update else none
  | .changePassword bearer _ _ _ =>
    if d.outcome = .ok .done ∧ bearer.sub = u then some .update else none
  | _ => none

/-- The attempts on the account, newest first. -/
def attemptsOn (env : Env) (u : String) (tr : List (Done Request World Exn Response)) : Attempts :=
  (tr.filterMap fun d => (attemptOf env u d).map (d.before.now, ·)).reverse

theorem attemptsOn_concat : attemptsOn env u (tr ++ [d]) =
    match attemptOf env u d with
    | none => attemptsOn env u tr
    | some a => (d.before.now, a) :: attemptsOn env u tr := by
  unfold attemptsOn
  rw [List.filterMap_append, List.reverse_append]
  cases h : attemptOf env u d <;> simp [h]

/-- What a request does to a counter: nothing, or what its attempt says, which
is made when the account is not locked unless it is an update. -/
inductive Counts (env : Env) (d : Done Request World Exn Response) (c : Counter) :
    Option Attempt → Counter → Prop
  | kept : Counts env d c none c
  | attempt {a : Attempt} {t' t : Nat} (h : d.before.now ≤ t' ∧ t' ≤ t ∧ t ≤ d.after.now)
      (hfree : a ≠ .update → c.locked t' = false) :
      Counts env d c (some a) (c.after env.maxAttempts env.lockDuration t a)

/-- What a request does to the counter of the account: `Counts` if there is
one, and a new one is zero. -/
def Tracks (env : Env) (u : String) (d : Done Request World Exn Response) : Prop :=
  (∀ c, counterOf u d.before = some c →
    ∃ c', counterOf u d.after = some c' ∧ Counts env d c (attemptOf env u d) c') ∧
  (counterOf u d.before = none → attemptOf env u d = none ∧
    ∀ c, counterOf u d.after = some c → c = .zero)

theorem tracks_kept (ha : attemptOf env u d = none)
    (h : counterOf u d.after = counterOf u d.before ∨
      counterOf u d.before = none ∧ counterOf u d.after = some .zero) : Tracks env u d := by
  refine ⟨fun c hc => ?_, fun hn => ⟨ha, fun c hc => ?_⟩⟩
  · rcases h with e | ⟨e, -⟩
    · exact ⟨c, e.trans hc, ha ▸ .kept⟩
    · cases hc.symm.trans e
  · rcases h with e | ⟨-, e⟩
    · cases hc.symm.trans (e.trans hn)
    · exact (Option.some.inj (e.symm.trans hc)).symm

theorem tracks_attempt {a : Attempt} {c : Counter} {t' t : Nat} (ha : attemptOf env u d = some a)
    (hc : counterOf u d.before = some c)
    (hc' : counterOf u d.after = some (c.after env.maxAttempts env.lockDuration t a))
    (ht : d.before.now ≤ t' ∧ t' ≤ t ∧ t ≤ d.after.now)
    (hfree : a ≠ .update → c.locked t' = false) : Tracks env u d := by
  refine ⟨fun c₁ hc₁ => ?_, fun hn => ?_⟩
  · obtain rfl := Option.some.inj (hc.symm.trans hc₁)
    exact ⟨_, hc', ha ▸ .attempt ht hfree⟩
  · cases hc.symm.trans hn

theorem attemptOf_login {dto : LoginDto} {c : RequestContext} {user : User}
    {hash password : String} (hreq : d.req = .login dto c)
    (hu : loginRow env d.before dto = some user)
    (hv : d.before.verified ++ [(hash, password)] <+: d.after.verified)
    (ho : env.argon2Verify hash password = true → d.outcome.isOk = true) : attemptOf env u d =
      if user.id = u then
        some (if env.argon2Verify hash password then .success else .failure)
      else none := by
  have hv : d.after.verified[d.before.verified.length]? = some (hash, password) := by
    obtain ⟨rest, e⟩ := hv
    rw [← e]
    simp
  simp only [attemptOf, hreq, hu, hv]
  cases hp : env.argon2Verify hash password with
  | true => simp [ho hp]
  | false => rfl

theorem attemptOf_unchecked {dto : LoginDto} {c : RequestContext} (hreq : d.req = .login dto c)
    (hv : d.after.verified = d.before.verified) : attemptOf env u d = none := by
  simp only [attemptOf, hreq, hv, List.getElem?_length]
  cases loginRow env d.before dto <;> rfl

/-- A login whose password was checked. -/
theorem tracks_checked (hs : Sound env d.before) {dto : LoginDto} {c : RequestContext}
    {user : User} (f : User → User) {a : Attempt} {t' t : Nat} (hreq : d.req = .login dto c)
    (hu : loginRow env d.before dto = some user)
    (hv : d.before.verified ++ [(user.passwordHash, dto.password)] <+: d.after.verified)
    (ho : env.argon2Verify user.passwordHash dto.password = true → d.outcome.isOk = true)
    (ha : (if env.argon2Verify user.passwordHash dto.password then Attempt.success
      else .failure) = a)
    (hl : user.counter.locked t' = false) (ht : d.before.now ≤ t' ∧ t' ≤ t ∧ t ≤ d.after.now)
    (hid : ∀ x, (f x).id = x.id)
    (husers : d.after.users.map User.credentials =
      (updateWhere (·.id == user.id) f d.before.users).map User.credentials)
    (hf : (f user).counter = user.counter.after env.maxAttempts env.lockDuration t a) :
    Tracks env u d := by
  have hfind : d.before.users.find? (·.id == user.id) = some user :=
    hs.fresh.userId.find?.mpr ⟨List.mem_of_find?_eq_some hu, rfl⟩
  obtain ⟨hself, hother⟩ := counterOf_update_cases hid husers
  have hatt := attemptOf_login (u := u) hreq hu hv ho
  by_cases he : user.id = u
  · subst he
    exact tracks_attempt (hatt.trans (by rw [if_pos rfl, ha])) (by rw [counterOf, hfind]; rfl)
      (hf ▸ hself user hfind) ht fun _ => hl
  · exact tracks_kept (hatt.trans (if_neg he)) (.inl (hother u (Ne.symm he)))

theorem tracks_login (hs : Sound env d.before) {dto : LoginDto} {c : RequestContext}
    (hreq : d.req = .login dto c) (he : Completes env d.req d.before d.outcome d.after)
    (hx : Answered d.outcome) : Tracks env u d := by
  obtain ⟨r, hl, ho⟩ := completes_login hs.ready (hreq ▸ he)
  cases hl with
  | unknown _ h hv => exact tracks_kept (attemptOf_unchecked hreq hv) (.inl (counterOf_congr h.users u))
  | locked _ _ _ h hv => exact tracks_kept (attemptOf_unchecked hreq hv) (.inl (counterOf_congr h.users u))
  | wrong hu hnow hl hp hv _ husers =>
    exact tracks_checked hs _ (a := .failure) hreq hu (hv ▸ List.prefix_rfl)
      (by simp [hp]) (by rw [hp]; rfl) hl hnow (by exact fun _ => rfl) husers (counter_failed _ _ _ _)
  | right hu hnow hl hp hv _ husers h =>
    exact tracks_checked hs _ (a := .success) hreq hu hv (fun _ => ho ▸ rfl) (by rw [hp]; rfl) hl
      ⟨hnow.1, Nat.le_refl _, hnow.2⟩ (by exact fun _ => rfl) (h.users.trans husers) rfl
  | broken => exact absurd ho (hx _)

theorem PasswordChanged.counterOf {v new : String} {kept : Option String}
    (h : PasswordChanged env v new kept w w') :
    (∃ c, AtlasAuth.counterOf v w = some c) ∧ AtlasAuth.counterOf v w' = some .zero ∧
      ∀ u ≠ v, AtlasAuth.counterOf u w' = AtlasAuth.counterOf u w := by
  obtain ⟨w₁, h₁, h₂⟩ := h
  obtain ⟨k, hk⟩ := h₁.users
  obtain ⟨x, hx⟩ := Option.isSome_iff_exists.mp h₁.found
  obtain ⟨hself, hother⟩ := counterOf_update_cases (by exact fun _ => rfl) (h₂.users.trans hk)
  exact ⟨⟨x.counter, by rw [AtlasAuth.counterOf, hx]; rfl⟩, hself x hx, hother⟩

/-- A password update of the row `v`. -/
theorem tracks_update {v new : String} {kept : Option String}
    (h : PasswordChanged env v new kept d.before d.after)
    (ha : attemptOf env u d = if v = u then some .update else none) (hg : d.before.now ≤ d.after.now) :
    Tracks env u d := by
  obtain ⟨⟨c, hc⟩, hself, hother⟩ := h.counterOf
  by_cases he : v = u
  · subst he
    have ht : d.before.now ≤ d.before.now ∧ d.before.now ≤ d.before.now ∧ d.before.now ≤ d.after.now :=
      ⟨Nat.le_refl _, Nat.le_refl _, hg⟩
    exact tracks_attempt (ha.trans (if_pos rfl)) hc hself ht fun hne => absurd rfl hne
  · exact tracks_kept (ha.trans (if_neg he)) (.inl (hother u (Ne.symm he)))

theorem tracks_refused (h : Refused d.before d.outcome d.after) (hreq : d.req.isLogin = false) :
    Tracks env u d := by
  obtain ⟨⟨e, ho⟩, q⟩ := h
  refine tracks_kept ?_ (.inl (counterOf_congr q.users u))
  unfold attemptOf
  split
  · rw [‹d.req = _›] at hreq
    cases hreq
  all_goals simp [ho]

/-- Every completed request. -/
theorem tracks_program (hs : Sound env d.before)
    (he : Completes env d.req d.before d.outcome d.after) (hx : Answered d.outcome) :
    Tracks env u d := by
  have hg := (completes_grows he).1.now
  cases hreq : d.req with
  | login dto c => exact tracks_login hs hreq he hx
  | resetPassword token new c =>
    rcases completes_resetPassword (hreq ▸ he) hx with ⟨ho, r, hr, h⟩ | h
    · have hr : d.before.passwordResetTokens.find? (·.tokenHash == env.sha256 token) = some r := hr
      exact tracks_update h (by simp [attemptOf, hreq, ho, hr]) hg
    · exact tracks_refused h (by rw [hreq]; rfl)
  | changePassword bearer current new c =>
    rcases completes_changePassword (hreq ▸ he) hx with ⟨ho, -, h⟩ | h
    · exact tracks_update h (by simp [attemptOf, hreq, ho]) hg
    · exact tracks_refused h (by rw [hreq]; rfl)
  | _ =>
    have hkept : CountersKept d.before d.after := by
      have hcalls : (program env d.req).Always (Effect env False False) :=
        effect_program (by rw [hreq]; exact nofun) (by rw [hreq]; exact nofun)
      exact he.always (hcalls.mono fun _ _ => Effect.countersKept) fun _ _ h u =>
        .inl (counterOf_congr (Quiet.lapse h).users u)
    exact tracks_kept (by simp only [attemptOf, hreq]) (hkept u)

/-! ## Histories -/

/-- Each completes at the time at which it begins. -/
def Instantaneous (tr : List (Done Request World Exn Response)) : Prop :=
  ∀ d ∈ tr, d.after.now = d.before.now

/-- The counters stand for the attempts. -/
structure Tracked (env : Env) (w : World) (tr : List (Done Request World Exn Response)) : Prop where
  failed : ∀ u c, counterOf u w = some c →
    c.failed = failures env.maxAttempts (attemptsOn env u tr) ∧ c.failed < env.maxAttempts
  locked : Instantaneous tr → ∀ u c, counterOf u w = some c →
    c.Means env.maxAttempts env.lockDuration w.now (attemptsOn env u tr)
  new : ∀ u, counterOf u w = none → attemptsOn env u tr = []

theorem Tracked.init (t : Time) : Tracked env { now := t } [] :=
  ⟨fun _ _ => nofun, fun _ _ _ => nofun, fun _ _ => rfl⟩

theorem Tracked.lapse (h : Tracked env w tr) (m : Time) : Tracked env (w.advance m) tr :=
  ⟨h.failed, fun hi u c hc => (h.locked hi u c hc).later (Nat.le_add_right _ _), h.new⟩

theorem Tracked.done (hn : 1 ≤ env.maxAttempts) (h : Tracked env d.before tr)
    (hd : ∀ u, Tracks env u d) : Tracked env d.after (tr ++ [d]) := by
  have hsplit : Instantaneous (tr ++ [d]) → Instantaneous tr ∧ d.after.now = d.before.now :=
    fun hi => ⟨fun x hx => hi x (List.mem_append_left _ hx),
      hi d (List.mem_append_right _ (List.mem_singleton_self d))⟩
  -- A row is new, or its counter has changed as its attempt says.
  have cases (u : String) (c' : Counter) (hc' : counterOf u d.after = some c') :
      (c' = .zero ∧ attemptsOn env u (tr ++ [d]) = []) ∨
        ∃ c, counterOf u d.before = some c ∧ Counts env d c (attemptOf env u d) c' := by
    cases hb : counterOf u d.before with
    | none =>
      obtain ⟨ha, hz⟩ := (hd u).2 hb
      refine .inl ⟨hz c' hc', ?_⟩
      rw [attemptsOn_concat, ha]
      exact h.new u hb
    | some c =>
      obtain ⟨c'', hc'', hcounts⟩ := (hd u).1 c hb
      obtain rfl := Option.some.inj (hc''.symm.trans hc')
      exact .inr ⟨c, rfl, hcounts⟩
  refine ⟨fun u c' hc' => ?_, fun hi u c' hc' => ?_, fun u hnone => ?_⟩
  · rcases cases u c' hc' with ⟨rfl, e⟩ | ⟨c, hc, hcounts⟩
    · rw [e]
      exact ⟨rfl, hn⟩
    · rw [attemptsOn_concat]
      generalize attemptOf env u d = o at hcounts
      cases hcounts with
      | kept => exact h.failed u _ hc
      | attempt => exact Counter.failed_after hn (h.failed u c hc)
  · obtain ⟨hi, hnow⟩ := hsplit hi
    rcases cases u c' hc' with ⟨rfl, e⟩ | ⟨c, hc, hcounts⟩
    · rw [e]
      exact .zero
    · have hm := h.locked hi u c hc
      rw [attemptsOn_concat, hnow]
      generalize attemptOf env u d = o at hcounts
      cases hcounts with
      | kept => exact hm
      | @attempt a t' t ht hfree =>
        obtain ⟨h₁, h₂, h₃⟩ := ht
        obtain rfl : t = d.before.now := Nat.le_antisymm (hnow ▸ h₃) (h₁.trans h₂)
        obtain rfl : t' = d.before.now := Nat.le_antisymm h₂ h₁
        exact hm.step (h.failed u c hc) (Nat.le_refl _) hfree
  · cases hb : counterOf u d.before with
    | none =>
      rw [attemptsOn_concat, ((hd u).2 hb).1]
      exact h.new u hb
    | some c =>
      obtain ⟨c', hc', -⟩ := (hd u).1 c hb
      cases hnone.symm.trans hc'

theorem tracked_history (hn : 1 ≤ env.maxAttempts) {t : Time}
    (h : History env { now := t } tr w) : Tracked env w tr := by
  induction h with
  | nil => exact .init t
  | env m _ ih => exact ih.lapse m
  | @done tr s₁ x s₂ r h he hx ih =>
    exact .done (d := ⟨r, s₁, x, s₂⟩) hn ih
      fun _ => tracks_program ((Sound.init t).history h) he hx

/-- In every state that completed requests lead to, the count of a user is
that of the failures on the account, and less than the maximum. If the requests
take no time, a login is refused as locked exactly if the history of the
account says so; then the password is not checked and the login is no attempt. -/
theorem lockout_exact (hn : 1 ≤ env.maxAttempts) {t : Time}
    (h : History env { now := t } tr w) :
    (∀ user ∈ w.users, user.failedLoginAttempts < env.maxAttempts ∧
      user.failedLoginAttempts = failures env.maxAttempts (attemptsOn env user.id tr)) ∧
    (Instantaneous tr → ∀ dto c x w' user, loginRow env w dto = some user →
      Completes env (.login dto c) w x w' → w'.now = w.now → Answered x →
      (x = .error AuthService.accountLocked ↔
        LockedOut env.maxAttempts env.lockDuration w.now (attemptsOn env user.id tr)) ∧
      (x = .error AuthService.accountLocked → w'.verified = w.verified ∧
        attemptOf env user.id ⟨.login dto c, w, x, w'⟩ = none)) := by
  have hs := (Sound.init t).history h
  have htr := tracked_history hn h
  have hcounter {user : User} (hu : user ∈ w.users) : counterOf user.id w = some user.counter := by
    rw [counterOf, hs.fresh.userId.find?.mpr ⟨hu, rfl⟩]
    rfl
  refine ⟨fun user hu => (htr.failed _ _ (hcounter hu)).symm, ?_⟩
  intro hi dto c x w' user hu he hnow hx
  have hm := htr.locked hi _ _ (hcounter (List.mem_of_find?_eq_some hu)) w.now (Nat.le_refl _)
  rw [← hm]
  obtain ⟨r, hl, rfl⟩ := completes_login hs.ready he
  cases hl with
  | unknown hu' => cases hu.symm.trans hu'
  | @locked user' now hu' hnow' hl _ hv =>
    obtain rfl := Option.some.inj (hu.symm.trans hu')
    obtain rfl : now = w.now := Nat.le_antisymm (hnow ▸ hnow'.2) hnow'.1
    exact ⟨iff_of_true rfl hl, fun _ => ⟨hv, attemptOf_unchecked rfl hv⟩⟩
  | @wrong user' now _ hu' hnow' hl =>
    obtain rfl := Option.some.inj (hu.symm.trans hu')
    obtain rfl : now = w.now := Nat.le_antisymm (hnow ▸ hnow'.2.1.trans hnow'.2.2) hnow'.1
    exact ⟨iff_of_false nofun (Bool.eq_false_iff.mp hl), nofun⟩
  | @right user' now _ _ _ _ hu' hnow' hl =>
    obtain rfl := Option.some.inj (hu.symm.trans hu')
    obtain rfl : now = w.now := Nat.le_antisymm (hnow ▸ hnow'.2) hnow'.1
    exact ⟨iff_of_false nofun (Bool.eq_false_iff.mp hl), nofun⟩
  | broken => exact absurd rfl (hx _)

/-- A registration and five logins with a wrong password. -/
def lockedUser : List (Done Request World Exn Response) × World :=
  (system .sample).serve
    ((0, .register ⟨"a@b.co", "Passw0rd!", none, none⟩ ⟨none, none⟩) ::
      List.replicate 5 (1000, .login ⟨"a@b.co", "wrong"⟩ ⟨none, none⟩)) { now := 0 }

theorem lockedUser_refused :
    ((program .sample (.login ⟨"a@b.co", "Passw0rd!"⟩ ⟨none, none⟩)).run lockedUser.2).1 =
        .error AuthService.accountLocked ∧
      LockedOut 5 900000 lockedUser.2.now (attemptsOn .sample (unary 1) lockedUser.1) := by
  have h : History .sample { now := 0 } lockedUser.1 lockedUser.2 := history_serve (by decide +kernel)
  have hi : Instantaneous lockedUser.1 := by
    have : ∀ d ∈ lockedUser.1, d.after.now = d.before.now := by decide +kernel
    exact this
  have hrow : (loginRow .sample lockedUser.2 ⟨"a@b.co", "Passw0rd!"⟩).map (·.id) = some (unary 1) := by
    decide +kernel
  obtain ⟨user, hu, hid⟩ := Option.map_eq_some_iff.mp hrow
  have hx : ((program .sample (.login ⟨"a@b.co", "Passw0rd!"⟩ ⟨none, none⟩)).run lockedUser.2).1 =
      .error AuthService.accountLocked := by decide +kernel
  have hlock := (lockout_exact (by decide) h).2 hi ⟨"a@b.co", "Passw0rd!"⟩ ⟨none, none⟩ _ _ user hu
    (completes_run _ _) (by decide +kernel) (by rw [hx]; exact fun _ => nofun)
  exact ⟨hx, hid ▸ hlock.1.mp hx⟩

end AtlasAuth

import AtlasAuth.Proof.PasswordCalls
import AtlasAuth.Proof.SingleUse

/-!
# Logins during a password change

A login that reads the old hash, and creates its session only after a password
change has listed the sessions of the user, is not evicted (`evadingLogin`).

As long as no such login is under way when the sessions are listed
(`Settled`), every session of a login that read another hash than the present
one is on the list (`Evicted`), so that it is revoked when the change is done
(`old_password_evicted`).
-/

namespace AtlasAuth

open Framework Prog

variable {env : Env} {P P' : AppPool}

def Request.loginDto : Request → Option LoginDto
  | .login dto _ => some dto
  | _ => none

theorem Request.loginDto_eq_none {r : Request} (h : r.updatesPassword = true) :
    r.loginDto = none := by
  cases r with
  | login => cases h
  | _ => rfl

/-- A login under way that has authenticated the user against another hash
than the present one, and has not created its session yet. -/
def PendingLogin (env : Env) (u : String) (w : World) (th : AppThread) : Prop :=
  ∃ dto ∈ th.req.loginDto, th.outcome.isNone = true ∧ createdSession th.log = none ∧
    ∃ user ∈ loginUser th.log, user.id = u ∧ passwordOf u w ≠ some user.passwordHash ∧
      Authenticates env dto.password user th.log

/-- The user whose sessions a password change lists next. -/
def listsNext (th : AppThread) : Option String :=
  match th.req.updatesPassword, th.next with
  | true, some (.sessionsFindUnrevoked u) => some u
  | _, _ => none

/-- No other password change starts, and none lists the sessions of the user
while a login of that user is pending. -/
def Settled (env : Env) (P : AppPool) : Move Request Time Exn → Prop
  | .start r => r.updatesPassword = false
  | .call i => ∀ th ∈ P.threads[i]?, ∀ u ∈ listsNext th,
      ∀ th' ∈ P.threads, ¬PendingLogin env u P.state th'
  | _ => True

/-- A login of the user `u` that has read another hash than the present one. -/
def Stale (u : String) (w : World) (th : AppThread) : Prop :=
  (∃ dto, dto ∈ th.req.loginDto) ∧ ∃ user ∈ loginUser th.log, user.id = u ∧
    passwordOf u w ≠ some user.passwordHash

/-- A login, seen from a listing `x` of the sessions of its user: it is not
pending, and its session is on the list. -/
structure OnList (env : Env) (u : String) (w : World) (x : Entry World Call) (th : AppThread) :
    Prop where
  settled : ¬PendingLogin env u w th
  listed : ∀ s, createdSession th.log = some s →
    ∃ s' ∈ x.before.sessions, s'.id = s.id ∧ s'.userId = u

/-- The user whose password request number `i` has changed, with success. -/
def AppPool.changed (P : AppPool) (i : Nat) : Option String :=
  P.threads[i]?.bind fun th =>
    match th.outcome with
    | some (.ok _) =>
      th.log.findSome? fun x =>
        match x.label with
        | .usersUpdatePassword u => some u
        | _ => none
    | _ => none

/-- The user that request number `i`, a login, has authenticated, as it read
the row, and the session it has created. -/
def AppPool.loggedIn (P : AppPool) (i : Nat) : Option (User × Session) :=
  P.threads[i]?.bind fun th =>
    match th.req, loginUser th.log, createdSession th.log with
    | .login .., some user, some s => some (user, s)
    | _, _, _ => none

theorem AppPool.changed_eq_some {i : Nat} {th : AppThread} {u : String}
    (hth : P.threads[i]? = some th) (h : P.changed i = some u) :
    ∃ a x, th.outcome = some (.ok a) ∧ x ∈ th.log ∧ x.label = .usersUpdatePassword u := by
  simp only [AppPool.changed, hth, Option.bind_some] at h
  split at h
  · rename_i a ho
    obtain ⟨x, hx, hl⟩ := List.exists_of_findSome?_eq_some h
    refine ⟨a, x, ho, hx, ?_⟩
    split at hl
    · rename_i hl'
      rw [hl', Option.some.inj hl]
    · cases hl
  · cases h

theorem AppPool.loggedIn_eq_some {i : Nat} {user : User} {s : Session}
    (h : P.loggedIn i = some (user, s)) :
    ∃ th ∈ P.threads, (∃ dto, dto ∈ th.req.loginDto) ∧ loginUser th.log = some user ∧
      createdSession th.log = some s := by
  obtain ⟨th, hth, h⟩ := Option.bind_eq_some_iff.mp h
  refine ⟨th, List.mem_of_getElem? hth, ?_⟩
  split at h
  · rename_i dto _ _ _ hr hu hs
    cases h
    exact ⟨⟨dto, by rw [hr]; rfl⟩, hu, hs⟩
  · cases h

/-- The invariant of a password change, request number 0: once it has listed
the sessions, the list has those of all logins that read another hash. -/
structure Evicted (env : Env) (P : AppPool) : Prop where
  fresh : Fresh env P.state
  always : System.AllAlways (GrowsFresh env) P
  obeys : System.ObeyFrom (fun _ => Since env) (RaceCall env) RaceDone 0 P
  only : ∀ {i : Nat} {th : AppThread}, P.threads[i]? = some th → th.req.updatesPassword = true → i = 0
  onList : ∀ {th₀ : AppThread} {x : Entry World Call} {u : String}, P.threads[0]? = some th₀ →
    th₀.req.updatesPassword = true → x ∈ th₀.log → x.label = .sessionsFindUnrevoked u →
    ∀ th ∈ P.threads, Stale u P.state th → OnList env u P.state x th

section

variable {u : String} {w w' : World} {th : AppThread} {x e : Entry World Call}
  {log : List (Entry World Call)} {m : Move Request Time Exn}

theorem Stale.earlier (h : SamePasswords w w') (hs : Stale u w' th) : Stale u w th := by
  obtain ⟨hd, user, hu, hid, hn⟩ := hs
  exact ⟨hd, user, hu, hid, mt (h u _) hn⟩

theorem PendingLogin.earlier (h : SamePasswords w w') (hp : PendingLogin env u w' th) :
    PendingLogin env u w th := by
  obtain ⟨dto, hd, ho, hc, user, hu, hid, hn, ha⟩ := hp
  exact ⟨dto, hd, ho, hc, user, hu, hid, mt (h u _) hn, ha⟩

theorem loginUser_suffix {log' : List (Entry World Call)} (h : log' <:+ log) (hne : log' ≠ []) :
    loginUser log = loginUser log' := by
  obtain ⟨new, rfl⟩ := h
  rw [loginUser, loginUser, List.getLast?_append_of_ne_nil _ hne]

theorem Authenticates.earlier {p : String} {user : User} (h : Authenticates env p user (e :: log)) :
    Authenticates env p user log := by
  refine ⟨h.1, fun t ht => h.2 t ?_⟩
  obtain ⟨y, hy, rfl⟩ := Option.map_eq_some_iff.mp ht
  refine Option.map_eq_some_iff.mpr ⟨y, ?_, rfl⟩
  obtain ⟨hlt, -⟩ := List.getElem?_eq_some_iff.mp hy
  rw [List.reverse_cons, List.getElem?_append_left hlt, hy]

theorem createdSession_cons (h : ¬Creates e.label) :
    createdSession (e :: log) = createdSession log := by
  have hn : createdSession [e] = none := createdSession_eq_none (by simpa using h)
  simp only [createdSession] at hn ⊢
  rw [← List.singleton_append, List.findSome?_append, hn, Option.none_or]

/-- Since the listing, passwords have stayed as they are. -/
theorem Evicted.samePasswords (h : Evicted env P) (hs : (system env).step P m = some P')
    {th₀ : AppThread} (h₀ : P.threads[0]? = some th₀) (hr : th₀.req.updatesPassword = true)
    (hx : x ∈ th₀.log) (hl : Lists x.label) : SamePasswords P.state P'.state := by
  rcases System.step_cases hs with ⟨_, _, rfl⟩ | ⟨i, r, log, l, next, eff, fail, -, ht, rfl⟩ |
    ⟨_, _, _, _, _, _, _, _, _, _, rfl⟩ | ⟨d, _, rfl⟩
  · exact .of_eq rfl
  · have hc := h.obeys.call (Nat.zero_le i) ht
      (since_of_mem h.fresh h.always (List.mem_of_getElem? ht))
    cases hu : r.updatesPassword with
    | false => exact hc.1 hu
    | true =>
      obtain rfl := h.only ht hu
      obtain rfl := Option.some.inj (h₀.symm.trans ht)
      exact hc.2.1 hu ⟨x, List.mem_cons_of_mem _ hx, hl⟩
  · exact .of_eq rfl
  · exact .of_eq rfl

/-- A login that made its first call just now has read the present hash. -/
theorem Evicted.not_stale_first (h : Evicted env P) (hw : SamePasswords P.state w)
    {r : Request} {p : App Response} (he : e.before = P.state) :
    ¬Stale u w ⟨r, [e], p⟩ := by
  rintro ⟨-, user, hu, rfl, hn⟩
  refine hn (hw _ _ ?_)
  simp only [loginUser, List.getLast?_singleton, Option.bind_some, Option.mem_def] at hu
  split at hu
  · rw [he] at hu
    rw [passwordOf, h.fresh.userId.find?.mpr ⟨List.mem_of_find?_eq_some hu, rfl⟩, Option.map_some]
  · cases hu

/-- A login that is seen from an earlier listing makes a call. -/
theorem OnList.call {r : Request} {l : Call} {next : World → App Response} {eff : World → World}
    {fail : Exn → App Response} (h : OnList env u w x ⟨r, log, .call l next eff fail⟩)
    (hw : SamePasswords w w') (hs : Stale u w ⟨r, log, .call l next eff fail⟩)
    (hc : RaceCall env r log e) (p : App Response) : OnList env u w' x ⟨r, e :: log, p⟩ := by
  obtain ⟨⟨dto, hd⟩, user, hu, rfl, hn⟩ := hs
  have hne : log ≠ [] := by rintro rfl; cases hu
  have hcreates : ¬Creates e.label := by
    intro hl
    obtain ⟨dto', c, rfl⟩ : ∃ dto c, r = .login dto c := by
      cases r with
      | login dto c => exact ⟨dto, c, rfl⟩
      | _ => cases hd
    obtain ⟨v, hv⟩ : ∃ v, e.label = .createSession v := by
      cases hl' : e.label with
      | createSession v => exact ⟨v, rfl⟩
      | _ => rw [hl'] at hl; cases hl
    obtain ⟨hnone, ⟨user', hu', -, ha⟩, -⟩ := hc.2.2 dto' c rfl v hv
    obtain rfl := Option.some.inj (hu.symm.trans hu')
    exact h.settled ⟨dto', rfl, rfl, hnone, user, hu, rfl, hn, ha⟩
  refine ⟨fun hp => h.settled ?_, fun s hsess => h.listed s ?_⟩
  · obtain ⟨dto', hd', -, hnone, user', hu', hid, hn', ha⟩ := hp
    rw [loginUser_suffix (List.suffix_cons e log) hne] at hu'
    exact ⟨dto', hd', rfl, (createdSession_cons hcreates).symm.trans hnone, user', hu', hid,
      mt (hw _ _) hn', ha.earlier⟩
  · rwa [createdSession_cons hcreates] at hsess

/-- The session of a login is in the table, with its user. -/
theorem Evicted.session (h : Evicted env P) (hth : th ∈ P.threads) (hs : Stale u w th) {s : Session}
    (hc : createdSession th.log = some s) :
    ∃ s' ∈ P.state.sessions, s'.id = s.id ∧ s'.userId = u := by
  obtain ⟨⟨dto, hd⟩, user, hu, rfl, -⟩ := hs
  obtain ⟨i, hi⟩ := List.getElem?_of_mem hth
  obtain ⟨y, hy, hsome⟩ := List.exists_of_findSome?_eq_some hc
  obtain ⟨log', hsuf, hcall⟩ := (h.obeys i th (Nat.zero_le i) hi).2.mem hy
  obtain ⟨dto', c, hreq⟩ : ∃ dto c, th.req = .login dto c := by
    cases hr : th.req with
    | login dto c => exact ⟨dto, c, rfl⟩
    | _ => rw [hr] at hd; cases hd
  split at hsome
  · rename_i v hl
    obtain ⟨-, ⟨user', hu', rfl, -⟩, hrow⟩ := hcall.2.2 dto' c hreq v hl
    have hne : log' ≠ [] := by rintro rfl; cases hu'
    rw [loginUser_suffix ((List.suffix_cons y log').trans hsuf) hne] at hu
    obtain rfl := Option.some.inj (hu.symm.trans hu')
    rcases hrow with he | ⟨s', hv, he⟩
    · simp [he] at hsome
    · obtain rfl : s' = s := by simpa [he] using hsome
      obtain ⟨s'', hm, hk⟩ := ((h.always th hth).2 y hy).2.1.sessions.mem
        (r := s') (by rw [he]; exact List.mem_append_right _ (List.mem_singleton_self _))
      exact ⟨s'', hm, hk.1, hk.2.1.trans hv⟩
  · cases hsome

/-- The logins seen from a listing that was made before the move. -/
theorem Evicted.onList_before (h : Evicted env P) (hs : (system env).step P m = some P')
    {th₀ : AppThread} (h₀ : P.threads[0]? = some th₀) (hr : th₀.req.updatesPassword = true)
    (hx : x ∈ th₀.log) (hl : x.label = .sessionsFindUnrevoked u) (hth : th ∈ P'.threads)
    (hst : Stale u P'.state th) : OnList env u P'.state x th := by
  have hw := h.samePasswords hs h₀ hr hx (by rw [hl]; rfl)
  have hstale := hst.earlier hw
  have old {th : AppThread} (ht : th ∈ P.threads) (hst : Stale u P.state th) :=
    h.onList h₀ hr hx hl th ht hst
  obtain ⟨j, hj⟩ := List.getElem?_of_mem hth
  rcases System.thread_cases hs hj with ⟨r, -, -, rfl⟩ |
    ⟨r, log, l, next, eff, fail, -, hp, -, rfl⟩ | ⟨_, r, log, l, next, eff, fail, -, hp, rfl⟩ | hp
  · obtain ⟨-, user, hu, -⟩ := hst
    cases hu
  · have hp' := List.mem_of_getElem? hp
    cases log with
    | nil => exact (h.not_stale_first hw rfl hst).elim
    | cons y log =>
      have hs₀ : Stale u P.state ⟨r, y :: log, .call l next eff fail⟩ := by
        obtain ⟨hd, user, hu, hn⟩ := hstale
        rw [loginUser_suffix (List.suffix_cons _ (y :: log)) (List.cons_ne_nil _ _)] at hu
        exact ⟨hd, user, hu, hn⟩
      exact (old hp' hs₀).call hw hs₀
        (h.obeys.call (Nat.zero_le j) hp (since_of_mem h.fresh h.always hp')) _
  · obtain ⟨hset, hlist⟩ := old (List.mem_of_getElem? hp) hstale
    refine ⟨fun hpend => hset ?_, hlist⟩
    obtain ⟨dto, hd, -, hrest⟩ := hpend.earlier hw
    exact ⟨dto, hd, rfl, hrest⟩
  · obtain ⟨hset, hlist⟩ := old (List.mem_of_getElem? hp) hstale
    exact ⟨fun hpend => hset (hpend.earlier hw), hlist⟩

/-- The logins seen from the listing that the move makes. -/
theorem Evicted.onList_now (h : Evicted env P) (hm : Settled env P (.call 0))
    (hs : (system env).step P (.call 0) = some P') {r : Request}
    {l : Call} {next : World → App Response} {eff : World → World} {fail : Exn → App Response}
    (h₀ : P.threads[0]? = some ⟨r, log, .call l next eff fail⟩) (hr : r.updatesPassword = true)
    (he : P'.state = eff P.state) (hl : l = .sessionsFindUnrevoked u) (hth : th ∈ P'.threads)
    (hst : Stale u P'.state th) : OnList env u P'.state ⟨l, P.state, eff P.state⟩ th := by
  have hc := h.obeys.call (Nat.zero_le 0) h₀
    (since_of_mem h.fresh h.always (List.mem_of_getElem? h₀))
  have hw : SamePasswords P.state P'.state :=
    he ▸ hc.2.1 hr ⟨_, List.mem_cons_self .., by rw [hl]; rfl⟩
  obtain ⟨j, hj⟩ := List.getElem?_of_mem hth
  have hp : P.threads[j]? = some th := by
    rcases System.thread_cases hs hj with ⟨_, hm, -⟩ | ⟨r', log', l', next', eff', fail', hm, hp, -, rfl⟩ |
      ⟨_, _, _, _, _, _, _, hm, -⟩ | hp
    · cases hm
    · -- The password change itself is not a login.
      obtain rfl := Move.call.inj hm
      obtain ⟨⟨dto, hd⟩, -⟩ := hst
      rw [h₀, Option.some.injEq, Thread.mk.injEq] at hp
      obtain ⟨rfl, -⟩ := hp
      rw [Request.loginDto_eq_none hr] at hd
      cases hd
    · cases hm
    · exact hp
  have hth := List.mem_of_getElem? hp
  refine ⟨fun hpend => ?_, fun s hsess => h.session hth (hst.earlier hw) hsess⟩
  refine hm _ h₀ u ?_ th hth (hpend.earlier hw)
  simp [listsNext, hr, Thread.next, hl]

theorem Evicted.step (h : Evicted env P) (hm : Settled env P m)
    (hs : (system env).step P m = some P') : Evicted env P' := by
  obtain ⟨hg, ha⟩ := h.always.step grows_program .advance hs
  refine ⟨hg.2 h.fresh, ha, h.obeys.step obeys_program_race (fun i th _ hth =>
    since_of_mem h.fresh h.always (List.mem_of_getElem? hth)) hs, fun {i th} hi hu => ?_, ?_⟩
  · rcases System.thread_cases hs hi with ⟨r, rfl, -, rfl⟩ |
      ⟨r, log, l, next, eff, fail, -, hp, -, rfl⟩ | ⟨e, r, log, l, next, eff, fail, -, hp, rfl⟩ | hp
    · simp only [Settled] at hm
      rw [hm] at hu
      cases hu
    · exact h.only hp hu
    · exact h.only hp hu
    · exact h.only hp hu
  · intro th₀ x u h₀ hr hx hl th hth hst
    rcases System.thread_cases hs h₀ with ⟨r, -, -, rfl⟩ |
      ⟨r, log, l, next, eff, fail, rfl, hp, he, rfl⟩ | ⟨e, r, log, l, next, eff, fail, -, hp, rfl⟩ | hp
    · cases hx
    · rcases List.mem_cons.mp hx with rfl | hx
      · exact h.onList_now hm hs hp hr he hl hth hst
      · exact h.onList_before hs hp hr hx hl hth hst
    · exact h.onList_before hs hp hr hx hl hth hst
    · exact h.onList_before hs hp hr hx hl hth hst

theorem Evicted.start {t : Time} (h₀ : Interleaving env (.init t) P) {r : Request} :
    Evicted env ⟨P.state, [⟨r, [], program env r⟩]⟩ where
  fresh := h₀.fresh.1
  always := by
    rintro th hth
    obtain rfl := List.mem_singleton.mp hth
    exact ⟨grows_program r, by simp⟩
  obeys := by
    intro i th _ hth
    obtain rfl := List.mem_singleton.mp (List.mem_of_getElem? hth)
    exact ⟨obeys_program_race r, trivial⟩
  only := by
    intro i th hth _
    obtain ⟨hi, -⟩ := List.getElem?_eq_some_iff.mp hth
    simpa using hi
  onList := by
    intro th₀ x u hth _ hx
    obtain rfl := List.mem_singleton.mp (List.mem_of_getElem? hth)
    cases hx

end

instance (password : String) (user : User) (log : List (Entry World Call)) :
    Decidable (Authenticates env password user log) :=
  inferInstanceAs (Decidable (_ ∧ _))

instance (u : String) (w : World) (th : AppThread) : Decidable (PendingLogin env u w th) :=
  inferInstanceAs (Decidable (∃ dto ∈ th.req.loginDto, _))

instance (m : Move Request Time Exn) : Decidable (Settled env P m) :=
  match m with
  | .start r => inferInstanceAs (Decidable (r.updatesPassword = false))
  | .call i => inferInstanceAs (Decidable (∀ th ∈ P.threads[i]?, ∀ u ∈ listsNext th,
      ∀ th' ∈ P.threads, ¬PendingLogin env u P.state th'))
  | .fault _ _ | .env _ => inferInstanceAs (Decidable True)

def loginRequest : Request := .login ⟨"a@b.co", "Passw0rd!"⟩ ⟨none, none⟩

def resetRequest : Request := .resetPassword (unary 8) "N3wPass!" ⟨none, none⟩

/-- A registration, whose user then asks for a reset of the password: the
token sent is `unary 8`. -/
def resetRequested : AppPool :=
  (system .sample).after (registered ++ .start (.forgotPassword "a@b.co") :: List.replicate 6 (.call 1))
    (AppPool.init 0)

/-- A login during a reset, which creates its session before the sessions are
listed. -/
def overtakenLogin : AppPool :=
  (system .sample).after
    (.start loginRequest :: List.replicate 3 (.call 1) ++ List.replicate 4 (.call 0) ++
      List.replicate 12 (.call 1) ++ List.replicate 7 (.call 0))
    ⟨resetRequested.state, [⟨resetRequest, [], program .sample resetRequest⟩]⟩

/-- A login during a reset, which creates its session after the sessions are
listed. -/
def evadingLogin : AppPool :=
  (system .sample).after
    (.start loginRequest :: List.replicate 3 (.call 1) ++ List.replicate 10 (.call 0) ++
      List.replicate 12 (.call 1))
    ⟨resetRequested.state, [⟨resetRequest, [], program .sample resetRequest⟩]⟩

end AtlasAuth

import AtlasAuth.Proof.Dates
import AtlasAuth.Proof.PasswordRace

/-!
# Failed logins at the same time

`registerFailedLoginAttempt` reads the row of the user, and writes the two
columns of the lockout as they follow from what it has read. One that reads
the row before another one's write, and writes after it, undoes what the other
one has counted, and may undo its lock (`clearedLock`).

As long as every write is what it would be from the row it is made on
(`Undisturbed`), any number of concurrent attempts leave the row as they would
one after the other, in the order of their writes
(`failed_attempts_one_by_one`).
-/

namespace AtlasAuth

open Framework Framework.Table Prog

/-! ## One attempt -/

/-- The row of a user after a failed attempt that is written. -/
def User.failed (maxAttempts lockDurationMinutes : Nat) (now : Time) (u : User) : User :=
  if u.failedLoginAttempts + 1 ≥ maxAttempts then
    { u with failedLoginAttempts := 0, lockedUntil := some (now + lockDurationMinutes * 60 * 1000) }
  else { u with failedLoginAttempts := u.failedLoginAttempts + 1 }

/-- The end of a lock, if this attempt sets one, is a date that Prisma accepts. -/
def User.LockDated (maxAttempts lockDurationMinutes : Nat) (now : Time) (u : User) : Prop :=
  u.failedLoginAttempts + 1 ≥ maxAttempts →
    now + lockDurationMinutes * 60 * 1000 ≤ Prisma.maxDateTime

instance {N D : Nat} {t : Time} {u : User} : Decidable (u.LockDated N D t) :=
  inferInstanceAs (Decidable (_ → _))

/-- The row after an attempt, which writes nothing where the end of the lock is
refused. -/
def User.attempted (maxAttempts lockDurationMinutes : Nat) (now : Time) (u : User) : User :=
  if u.LockDated maxAttempts lockDurationMinutes now then u.failed maxAttempts lockDurationMinutes now
  else u

/-- The lockout of the row `r`, in the row `u`. -/
def User.withLockout (r u : User) : User :=
  { u with failedLoginAttempts := r.failedLoginAttempts, lockedUntil := r.lockedUntil }

variable {id : String} {N D : Nat}

theorem User.withLockout_failed_self (t : Time) (u : User) :
    (u.failed N D t).withLockout u = u.failed N D t := by
  unfold failed withLockout
  split <;> rfl

theorem run_updateFailedLogin {w : World} {u : User} (hu : w.users.find? (·.id == id) = some u)
    (n : Nat) (l : Option Time) :
    (UsersRepository.updateFailedLogin id n (.ok l)).run w =
      (.ok { u with failedLoginAttempts := n, lockedUntil := l },
        { w with
          users := updateWhere (·.id == id)
            (fun u => { u with failedLoginAttempts := n, lockedUntil := l }) w.users }) := by
  simp only [UsersRepository.updateFailedLogin, UsersRepository.update, run_atomic, hu]

/-- An attempt that runs alone. -/
theorem run_registerFailedLoginAttempt {w : World} {u : User}
    (hu : w.users.find? (·.id == id) = some u) (hd : u.LockDated N D w.now) :
    ∃ v, (UsersRepository.registerFailedLoginAttempt id N D).run w = (.ok v,
      { w with users := updateWhere (·.id == id) (u.failed N D w.now).withLockout w.users }) := by
  unfold UsersRepository.registerFailedLoginAttempt UsersRepository.findUniqueOrThrow
  simp only [run_bind, run_atomic, hu]
  unfold User.failed
  split
  · rename_i hN
    simp only [run_bind, dateNow, run_query, dateTime_minutes.mpr ⟨rfl, hd hN⟩]
    exact ⟨_, run_updateFailedLogin hu ..⟩
  · exact ⟨_, run_updateFailedLogin hu ..⟩

/-- One that sets no lock because Prisma refuses its end. -/
theorem run_registerFailedLoginAttempt_refused {w : World} {u : User}
    (hu : w.users.find? (·.id == id) = some u) (hd : ¬u.LockDated N D w.now) :
    ((UsersRepository.registerFailedLoginAttempt id N D).run w).2 = w := by
  obtain ⟨hN, hlate⟩ := Classical.not_imp.mp hd
  obtain ⟨-, h⟩ | ⟨-, m, hm⟩ := dateTime_minutes_cases w.now D
  · exact absurd h hlate
  · unfold UsersRepository.registerFailedLoginAttempt UsersRepository.findUniqueOrThrow
    simp only [run_bind, run_atomic, hu, if_pos hN, dateNow, run_query, hm]
    rfl

theorem find?_withLockout {w : World} {r u : User} (hu : w.users.find? (·.id == id) = some u) :
    (updateWhere (·.id == id) r.withLockout w.users).find? (·.id == id) =
      some (r.withLockout u) := by
  have hid : u.id = id := by simpa using List.find?_some hu
  rw [find?_updateWhere (by exact fun _ _ => rfl), hu]
  simp [hid]

/-- The attempts, made one after the other at these times. -/
def oneByOne (id : String) (maxAttempts lockDurationMinutes : Nat) (ts : List Time) (w : World) :
    World :=
  ts.foldl (fun w t => ((UsersRepository.registerFailedLoginAttempt id maxAttempts
    lockDurationMinutes).run { w with now := t }).2) w

theorem find?_registerFailedLoginAttempt {w : World} {u : User}
    (hu : w.users.find? (·.id == id) = some u) :
    ((UsersRepository.registerFailedLoginAttempt id N D).run w).2.users.find? (·.id == id) =
      some (u.attempted N D w.now) := by
  unfold User.attempted
  split
  · rename_i hd
    obtain ⟨v, hv⟩ := run_registerFailedLoginAttempt hu hd
    rw [hv]
    exact (find?_withLockout hu).trans (congrArg some (User.withLockout_failed_self ..))
  · rename_i hd
    rw [run_registerFailedLoginAttempt_refused hu hd, hu]

theorem oneByOne_concat (ts : List Time) (t : Time) (w : World) :
    oneByOne id N D (ts ++ [t]) w = ((UsersRepository.registerFailedLoginAttempt id N D).run
      { oneByOne id N D ts w with now := t }).2 := by
  simp [oneByOne]

/-- One more attempt. -/
theorem find?_oneByOne (ts : List Time) (t : Time) {w : World} {u : User}
    (hu : (oneByOne id N D ts w).users.find? (·.id == id) = some u) :
    (oneByOne id N D (ts ++ [t]) w).users.find? (·.id == id) = some (u.attempted N D t) := by
  rw [oneByOne_concat]
  exact find?_registerFailedLoginAttempt (by exact hu)

/-! ## Many attempts -/

/-- The attempts on one account, and a clock. -/
def attempts (id : String) (maxAttempts lockDurationMinutes : Nat) :
    System Unit Time World Call Exn User where
  program _ := UsersRepository.registerFailedLoginAttempt id maxAttempts lockDurationMinutes
  env := World.advance

abbrev AttemptPool := Pool Unit World Call Exn User

def Writes : Call → Bool
  | .usersUpdateFailedLogin _ => true
  | _ => false

/-- The row that an attempt has read: its first call is the lookup. -/
def rowRead (id : String) (log : List (Entry World Call)) : Option User :=
  log.getLast?.bind fun x => x.before.users.find? (·.id == id)

/-- What an attempt writes from the row it has read is what it would write from
the present one. -/
def SameAttempt (N : Nat) (r u : User) : Prop :=
  (N ≤ r.failedLoginAttempts + 1 ∧ N ≤ u.failedLoginAttempts + 1) ∨
    (r.failedLoginAttempts = u.failedLoginAttempts ∧ r.lockedUntil = u.lockedUntil)

/-- What an attempt does at each call: it writes at most once, what follows
from the row it has read, and from a time since it has begun. That is what
follows from the present row, if the two are the same for it. -/
def AttemptCall (id : String) (N D : Nat) (log : List (Entry World Call)) (x : Entry World Call) :
    Prop :=
  if Writes x.label then
    (∀ y ∈ log, ¬Writes y.label) ∧ x.after.now = x.before.now ∧ ∃ r ∈ rowRead id log, ∃ t,
      (∃ y ∈ x :: log, t = y.before.now) ∧
        ∀ u, x.before.users.find? (·.id == id) = some u → SameAttempt N r u →
          x.after.users.find? (·.id == id) = some (u.attempted N D t)
  else x.after = x.before

/-- The row is still there, since some time. -/
def RowSince (id : String) (t₀ : Time) (log : List (Entry World Call)) (w : World) : Prop :=
  (w.users.find? (·.id == id)).isSome = true ∧ t₀ ≤ w.now ∧
    ∀ y ∈ log, t₀ ≤ y.before.now ∧ y.before.now ≤ w.now

/-- What `updateFailedLogin` makes of a row. -/
def User.written (n : Nat) (l : Except Exn (Option Time)) (u : User) : User :=
  match l with
  | .ok l => { u with failedLoginAttempts := n, lockedUntil := l }
  | .error _ => u

theorem updateFailedLogin_eq (id : String) (n : Nat) (l : Except Exn (Option Time)) :
    ∃ f, UsersRepository.updateFailedLogin id n l = .atomic (.usersUpdateFailedLogin id) f ∧
      ∀ w, (f w).2.now = w.now ∧ ∀ u, w.users.find? (·.id == id) = some u →
        (f w).2.users.find? (·.id == id) = some (u.written n l) := by
  cases l with
  | error e => exact ⟨_, rfl, fun w => ⟨rfl, fun u hu => hu⟩⟩
  | ok l =>
    refine ⟨_, rfl, fun w => ⟨?_, fun u hu => ?_⟩⟩
    · dsimp only
      split <;> rfl
    · have hid : u.id = id := by simpa using List.find?_some hu
      rw [hu]
      dsimp only
      rw [find?_updateWhere (by exact fun _ _ => rfl), hu]
      simp [hid, User.written]

theorem SameAttempt.attempted_of_le {r u : User} {t : Time} (h : SameAttempt N r u)
    (hN : r.failedLoginAttempts + 1 ≥ N) : u.attempted N D t =
      u.written 0 ((Prisma.dateTime (JsDate.after t (minutesToMs D))).map some) := by
  have hN : u.failedLoginAttempts + 1 ≥ N := by
    rcases h with ⟨-, h⟩ | ⟨h, -⟩
    · exact h
    · exact h ▸ hN
  obtain ⟨hd, h⟩ | ⟨h, m, hd⟩ := dateTime_minutes_cases t D
  · have : u.LockDated N D t := fun _ => h
    rw [hd, User.attempted, if_pos this, User.failed, if_pos hN]
    rfl
  · have : ¬u.LockDated N D t := fun hu => absurd (hu hN) (Nat.not_le_of_lt h)
    rw [hd, User.attempted, if_neg this]
    rfl

theorem SameAttempt.attempted_of_lt {r u : User} {t : Time} (h : SameAttempt N r u)
    (hN : ¬r.failedLoginAttempts + 1 ≥ N) :
    u.attempted N D t = u.written (r.failedLoginAttempts + 1) (.ok r.lockedUntil) := by
  rcases h with ⟨h, -⟩ | ⟨hn, hl⟩
  · exact absurd h hN
  · rw [hn] at hN ⊢
    have : u.LockDated N D t := fun h => absurd h hN
    rw [User.attempted, if_pos this, User.failed, if_neg hN, hl]
    rfl

theorem obeys_registerFailedLoginAttempt (t₀ : Time) :
    (UsersRepository.registerFailedLoginAttempt id N D).Obeys (RowSince id t₀) (AttemptCall id N D)
      (fun log x => ∀ a, x = .ok a → ∃ y ∈ log, Writes y.label) [] := by
  refine obeys_bind.mpr (obeys_atomic.mpr ⟨fun w ⟨hw, _⟩ => ?_, fun _ _ => nofun⟩)
  obtain ⟨r, hr⟩ := Option.isSome_iff_exists.mp hw
  simp only [hr]
  refine ⟨by simp [AttemptCall, Writes], ?_⟩
  -- The write, given the calls before it and what it makes of the present row.
  have write {log : List (Entry World Call)} {n : Nat} {l : Except Exn (Option Time)}
      (hlog : ∀ y ∈ log, ¬Writes y.label) (hread : rowRead id log = some r)
      (hl : ∀ w : World, ∃ t, (t = w.now ∨ ∃ y ∈ log, t = y.before.now) ∧
        ∀ u, SameAttempt N r u → u.attempted N D t = u.written n l) :
      (UsersRepository.updateFailedLogin id n l).Obeys (RowSince id t₀) (AttemptCall id N D)
        (fun log x => ∀ a, x = .ok a → ∃ y ∈ log, Writes y.label) log := by
    obtain ⟨f, hf, hrow⟩ := updateFailedLogin_eq id n l
    rw [hf]
    refine obeys_atomic.mpr ⟨fun w _ => ?_, fun _ _ => nofun⟩
    obtain ⟨t, hty, ht⟩ := hl w
    refine ⟨?_, fun _ _ => ⟨_, List.mem_cons_self .., rfl⟩⟩
    simp only [AttemptCall, Writes, if_true]
    refine ⟨hlog, (hrow w).1, r, hread, t, ?_, fun u hu hsame => ?_⟩
    · rcases hty with rfl | ⟨y, hy, rfl⟩
      · exact ⟨_, List.mem_cons_self .., rfl⟩
      · exact ⟨y, List.mem_cons_of_mem _ hy, rfl⟩
    · rw [ht u hsame]
      exact (hrow w).2 u hu
  split
  · rename_i hN
    refine .query_bind (fun _ _ => nofun) fun w₁ _ => ⟨by simp [AttemptCall, Writes], ?_⟩
    refine write (by simp [Writes]) (by simp [rowRead, hr]) fun _ =>
      ⟨w₁.now, .inr ⟨_, List.mem_cons_self .., rfl⟩, fun u hsame => ?_⟩
    exact hsame.attempted_of_le hN
  · rename_i hN
    refine write (by simp [Writes]) (by simp [rowRead, hr]) fun w => ⟨w.now, .inl rfl, fun u hsame => ?_⟩
    exact hsame.attempted_of_lt hN

/-- Every write is what it would be from the present row. -/
def Undisturbed (id : String) (N : Nat) (P : AttemptPool) : Move Unit Time Exn → Prop
  | .call i => ∀ th ∈ P.threads[i]?, th.next.any Writes = true →
      ∀ r ∈ rowRead id th.log, ∀ u ∈ P.state.users.find? (·.id == id), SameAttempt N r u
  | _ => True

/-- An attempt that has written. -/
def written (th : Thread Unit World Call Exn User) : Bool := th.log.any (Writes ·.label)

/-- The row is that of the attempts that have written, one after the other, at
some times since the beginning. -/
structure OneByOne (id : String) (N D : Nat) (w : World) (P : AttemptPool) : Prop where
  row : ∃ ts : List Time, ts.length = P.threads.countP written ∧
    (∀ t ∈ ts, w.now ≤ t ∧ t ≤ P.state.now) ∧
    (oneByOne id N D ts w).users.find? (·.id == id) = P.state.users.find? (·.id == id)
  since : (P.state.users.find? (·.id == id)).isSome = true ∧ w.now ≤ P.state.now
  times : ∀ th ∈ P.threads, ∀ x ∈ th.log, w.now ≤ x.before.now ∧ x.before.now ≤ P.state.now
  obeys : System.ObeyFrom (fun _ => RowSince id w.now) (fun _ => AttemptCall id N D)
    (fun _ log x => ∀ a, x = .ok a → ∃ y ∈ log, Writes y.label) 0 P

variable {w : World} {P P' : AttemptPool} {m : Move Unit Time Exn}

theorem OneByOne.rowSince (h : OneByOne id N D w P) {th : Thread Unit World Call Exn User}
    (hth : th ∈ P.threads) : RowSince id w.now th.log P.state :=
  ⟨h.since.1, h.since.2, h.times th hth⟩

theorem written_set {i : Nat} {th : Thread Unit World Call Exn User}
    (hth : P.threads[i]? = some th) (th' : Thread Unit World Call Exn User) :
    (P.threads.set i th').countP written + (if written th then 1 else 0) =
      P.threads.countP written + if written th' then 1 else 0 := by
  obtain ⟨hlt, hget⟩ := List.getElem?_eq_some_iff.mp hth
  have hle := List.boole_getElem_le_countP (p := written) hlt
  rw [hget] at hle
  rw [List.countP_set hlt, hget]
  omega

/-- The time at which a thread makes a call. -/
theorem OneByOne.times_step (h : OneByOne id N D w P)
    (hs : (attempts id N D).step P m = some P') (hnow : P.state.now ≤ P'.state.now) :
    ∀ th ∈ P'.threads, ∀ x ∈ th.log, w.now ≤ x.before.now ∧ x.before.now ≤ P'.state.now := by
  intro th hth x hx
  have old {th : Thread Unit World Call Exn User} (hth : th ∈ P.threads) (hx : x ∈ th.log) :=
    And.imp_right (Nat.le_trans · hnow) (h.times th hth x hx)
  obtain ⟨j, hj⟩ := List.getElem?_of_mem hth
  rcases System.thread_cases hs hj with ⟨r, -, -, rfl⟩ |
    ⟨r, log, l, next, eff, fail, -, hp, -, rfl⟩ | ⟨e, r, log, l, next, eff, fail, -, hp, rfl⟩ | hp
  · cases hx
  · rcases List.mem_cons.mp hx with rfl | hx
    · exact ⟨h.since.2, hnow⟩
    · exact old (List.mem_of_getElem? hp) hx
  · exact old (List.mem_of_getElem? hp) hx
  · exact old (List.mem_of_getElem? hp) hx

/-- A move that does not write. -/
theorem OneByOne.quiet (h : OneByOne id N D w P) (hs : (attempts id N D).step P m = some P')
    (hnow : P.state.now ≤ P'.state.now) (hu : P'.state.users = P.state.users)
    (hw : P'.threads.countP written = P.threads.countP written) : OneByOne id N D w P' := by
  obtain ⟨ts, hlen, ht, hrow⟩ := h.row
  refine ⟨⟨ts, hlen.trans hw.symm, fun t hm => ?_, by rw [hu, hrow]⟩, ?_, h.times_step hs hnow, ?_⟩
  · exact And.imp_right (Nat.le_trans · hnow) (ht t hm)
  · exact ⟨by rw [hu]; exact h.since.1, h.since.2.trans hnow⟩
  · exact h.obeys.step (fun _ => obeys_registerFailedLoginAttempt w.now)
      (fun i th _ hth => h.rowSince (List.mem_of_getElem? hth)) hs

theorem OneByOne.step (h : OneByOne id N D w P) (hm : Undisturbed id N P m)
    (hs : (attempts id N D).step P m = some P') : OneByOne id N D w P' := by
  rcases System.step_cases hs with ⟨r, -, rfl⟩ | ⟨i, r, log, l, next, eff, fail, rfl, hi, rfl⟩ |
    ⟨i, e, r, log, l, next, eff, fail, -, hi, rfl⟩ | ⟨d, -, rfl⟩
  · exact h.quiet hs (Nat.le_refl _) rfl (by simp [written])
  · have hth := List.mem_of_getElem? hi
    have hc := h.obeys.call (Nat.zero_le i) hi (h.rowSince hth)
    have hcount := written_set hi ⟨r, ⟨l, P.state, eff P.state⟩ :: log, next P.state⟩
    unfold AttemptCall at hc
    split at hc
    · rename_i hw
      obtain ⟨hlog, hnow, row, hread, t, ⟨y, hy, rfl⟩, hafter⟩ := hc
      dsimp only at hafter hw hnow
      obtain ⟨u, hu⟩ := Option.isSome_iff_exists.mp h.since.1
      have hsame : SameAttempt N row u :=
        hm _ hi (by simp [Thread.next, hw]) row hread u hu
      have hrow : (eff P.state).users.find? (·.id == id) = some (u.attempted N D y.before.now) :=
        hafter u hu hsame
      have hy : w.now ≤ y.before.now ∧ y.before.now ≤ P.state.now := by
        rcases List.mem_cons.mp hy with rfl | hy
        · exact ⟨h.since.2, Nat.le_refl _⟩
        · exact h.times _ hth y hy
      obtain ⟨ts, hlen, ht, hrow'⟩ := h.row
      have hsince : w.now ≤ (eff P.state).now := by rw [hnow]; exact h.since.2
      refine ⟨⟨ts ++ [y.before.now], ?_, fun t hm => ?_, ?_⟩, ⟨by simp [hrow], hsince⟩,
        h.times_step hs (Nat.le_of_eq hnow.symm), ?_⟩
      · have hnot : written ⟨r, log, .call l next eff fail⟩ = false := by
          simpa [written] using hlog
        rw [hnot] at hcount
        simp only [written, List.any_cons, hw, Bool.true_or, if_true] at hcount
        simp only [List.length_append, List.length_singleton, hlen]
        exact hcount.symm
      · rw [hnow]
        rcases List.mem_append.mp hm with hm | hm
        · exact ht t hm
        · exact List.mem_singleton.mp hm ▸ hy
      · rw [find?_oneByOne _ _ (hrow'.trans hu), hrow]
      · exact h.obeys.step (fun _ => obeys_registerFailedLoginAttempt w.now)
          (fun i th _ hth => h.rowSince (List.mem_of_getElem? hth)) hs
    · rename_i hw
      dsimp only at hc hw
      refine h.quiet hs (by rw [hc]) (by rw [hc]) ?_
      simp only [written, List.any_cons, hw, Bool.false_or] at hcount
      exact Nat.add_right_cancel hcount
  · exact h.quiet hs (Nat.le_refl _) rfl (Nat.add_right_cancel (written_set hi ⟨r, log, fail e⟩))
  · exact h.quiet hs (Nat.le_add_right _ _) rfl rfl

/-- As long as every write is what it would be from the present row, any
number of concurrent attempts leave the row as they would one after the other,
each at a time between their beginning and their end. -/
theorem failed_attempts_one_by_one {u : User} (hu : w.users.find? (·.id == id) = some u)
    (h : (attempts id N D).Run (Undisturbed id N) ⟨w, []⟩ P)
    (hd : ∀ th ∈ P.threads, ∃ a, th.outcome = some (.ok a)) :
    ∃ ts : List Time, ts.length = P.threads.length ∧ (∀ t ∈ ts, w.now ≤ t ∧ t ≤ P.state.now) ∧
      P.state.users.find? (·.id == id) =
        (oneByOne id N D ts w).users.find? (·.id == id) := by
  have hI : OneByOne id N D w P := h.invariant
    ⟨⟨[], rfl, by simp, rfl⟩, ⟨by simp [hu], Nat.le_refl _⟩, by simp, fun i th _ hth => by cases hth⟩
    fun hI hm hs => hI.step hm hs
  obtain ⟨ts, hlen, ht, hrow⟩ := hI.row
  refine ⟨ts, ?_, ht, hrow.symm⟩
  rw [hlen, List.countP_eq_length]
  intro th hth
  obtain ⟨i, hi⟩ := List.getElem?_of_mem hth
  obtain ⟨a, ha⟩ := hd th hth
  obtain ⟨x, hx, hw⟩ := hI.obeys.outcome (Nat.zero_le i) hi ha a rfl
  exact List.any_eq_true.mpr ⟨x, hx, hw⟩

instance (r u : User) : Decidable (SameAttempt N r u) := inferInstanceAs (Decidable (_ ∨ _))

instance : Decidable (Undisturbed id N P m) :=
  match m with
  | .call i => inferInstanceAs (Decidable (∀ th ∈ P.threads[i]?, th.next.any Writes = true →
      ∀ r ∈ rowRead id th.log, ∀ u ∈ P.state.users.find? (·.id == id), SameAttempt N r u))
  | .start _ | .fault _ _ | .env _ => inferInstanceAs (Decidable True)

/-- The two columns of the lockout of a user. -/
def lockoutOf (id : String) (w : World) : Option (Nat × Option Time) :=
  (w.users.find? (·.id == id)).map fun u => (u.failedLoginAttempts, u.lockedUntil)

/-- A registered user. -/
def newAccount : World := ((system .sample).after registered (AppPool.init 0)).state

/-- Two attempts, each of which locks the account, read before either writes. -/
def lockedTwice : AttemptPool :=
  (attempts (unary 1) 1 15).after
    [.start (), .start (), .call 0, .call 1, .env 7, .call 0, .call 1, .call 1, .call 0]
    ⟨newAccount, []⟩

theorem lockedTwice_row :
    lockoutOf (unary 1) lockedTwice.state = some (0, some 900007) ∧
    ∃ ts : List Time, ts.length = lockedTwice.threads.length ∧
      (∀ t ∈ ts, newAccount.now ≤ t ∧ t ≤ lockedTwice.state.now) ∧
      lockedTwice.state.users.find? (·.id == unary 1) =
        (oneByOne (unary 1) 1 15 ts newAccount).users.find? (·.id == unary 1) := by
  have hu : ∃ u ∈ newAccount.users.find? (·.id == unary 1), u.lockedUntil = none := by
    decide +kernel
  have hd : ∀ th ∈ lockedTwice.threads, th.outcome.any (·.isOk) = true := by decide +kernel
  obtain ⟨u, hu, -⟩ := hu
  refine ⟨by decide +kernel, failed_attempts_one_by_one hu (.after (by decide +kernel))
    fun th hth => ?_⟩
  obtain ⟨x, hx, hok⟩ := (Option.any_eq_true ..).mp (hd th hth)
  cases x with
  | ok a => exact ⟨a, hx⟩
  | error e => cases hok

/-- Of three attempts, two read the row; one of them writes, the third locks
the account. -/
def setLock : AttemptPool :=
  (attempts (unary 1) 2 15).after
    [.start (), .start (), .start (), .call 0, .call 1, .call 1, .call 2, .call 2, .call 2]
    ⟨newAccount, []⟩

/-- The first attempt writes what it has read. -/
def clearedLock : AttemptPool := (attempts (unary 1) 2 15).after [.call 0] setLock

/-- The lock is cleared; one after the other, at any times at which the end of
the lock is a date that Prisma accepts, the attempts leave the account locked. -/
theorem clearedLock_row :
    (attempts (unary 1) 2 15).Run (fun _ _ => True) ⟨newAccount, []⟩ setLock ∧
    (attempts (unary 1) 2 15).Run (fun _ _ => True) setLock clearedLock ∧
    clearedLock.threads.length = 3 ∧ (∀ th ∈ clearedLock.threads, th.outcome.any (·.isOk) = true) ∧
    lockoutOf (unary 1) setLock.state = some (0, some 900000) ∧
    lockoutOf (unary 1) clearedLock.state = some (1, none) ∧
    ∀ t₁ t₂ t₃, t₂ + 900000 ≤ Prisma.maxDateTime →
      lockoutOf (unary 1) (oneByOne (unary 1) 2 15 [t₁, t₂, t₃] newAccount) =
        some (1, some (t₂ + 900000)) := by
  refine ⟨.after (by decide +kernel), .after (by decide +kernel), by decide +kernel,
    by decide +kernel, by decide +kernel, by decide +kernel, fun t₁ t₂ t₃ ht => ?_⟩
  have hu : ∃ u ∈ newAccount.users.find? (·.id == unary 1), u.failedLoginAttempts = 0 := by
    decide +kernel
  obtain ⟨u, hu, hn⟩ := hu
  have h₁ := find?_oneByOne (N := 2) (D := 15) (w := newAccount) [] t₁ hu
  have h₃ := find?_oneByOne ([t₁] ++ [t₂]) t₃ (find?_oneByOne [t₁] t₂ h₁)
  rw [lockoutOf, show [t₁, t₂, t₃] = [t₁] ++ [t₂] ++ [t₃] from rfl, h₃]
  simp [User.attempted, User.LockDated, User.failed, hn, ht]

end AtlasAuth

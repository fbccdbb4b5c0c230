import AtlasAuth.Model.Guards
import AtlasAuth.Proof.Blacklist
import AtlasAuth.Proof.SingleUse
import AtlasAuth.Proof.Verify

/-!
# An address belongs to one account

A registration and a verified change of address each check that no account has
the address, and give it to one later; in between another request may take it.
The unique index then makes the write fail. So the addresses of users are
unique in every state of an interleaving, and a request that finds the address
taken, at its check or at its write, makes no further call: it ends with a
conflict, and has left accounts, sessions and links as they were
(`address_of_one_account`).
-/

namespace AtlasAuth

open Framework Framework.Table Prog

variable {env : Env} {L : Deed → Prop} {w w' : World} {P : AppPool} {r : Request} {a : String}
  {log log' : List (Entry World Call)}

/-! ## Requests that claim an address -/

/-- The request is to give the address to an account: to a new one, or to the
one with the identifier. -/
def Request.Claims (env : Env) (r : Request) (log : List (Entry World Call)) (a : String)
    (id : Option String) : Prop :=
  match r with
  | .register dto _ => a = env.toLowerCase dto.email ∧ id = none
  | .verifyEmail token _ => ∃ t, LookedUp (env.sha256 token) t log ∧ t.type = .EMAIL_CHANGE ∧
      t.newEmail = some a ∧ id = some t.userId
  | _ => False

/-- The check of an address, and the writes that give it to an account. -/
def ClaimCall (a : String) (l : Call) : Prop :=
  l = .usersFindByEmail a ∨ l = .usersCreate a ∨ ∃ id, l = .usersUpdateEmail id

/-- The request has met another account that has the address. -/
def FoundTaken (env : Env) (r : Request) (log : List (Entry World Call)) (a : String) : Prop :=
  ∃ id, r.Claims env log a id ∧
    ∃ x ∈ log, ClaimCall a x.label ∧ ∃ u ∈ x.before.users, u.email = a ∧ some u.id ≠ id

/-- The exceptions of a request that is refused. -/
def Exn.IsConflict (e : Exn) : Prop :=
  e = .conflict "An account with this email already exists" ∨ e = .prisma "P2002"

theorem Exn.IsConflict.statusCode {e : Exn} (h : e.IsConflict) (isProduction : Bool)
    (target : Option (List String)) :
    (GlobalExceptionFilter.resolve isProduction target e).statusCode = 409 := by
  rcases h with rfl | rfl <;> rfl

/-- No account, session, refresh token or email link is changed or created. -/
structure Spared (w w' : World) : Prop where
  users : w'.users = w.users
  sessions : w'.sessions = w.sessions
  refreshTokens : w'.refreshTokens = w.refreshTokens
  emailVerificationTokens : w'.emailVerificationTokens = w.emailVerificationTokens

theorem Spared.refl (w : World) : Spared w w := ⟨rfl, rfl, rfl, rfl⟩

/-- The calls that decide whether a request is refused. -/
def DecidesClaim : Call → Bool
  | .usersFindByEmail _ | .usersCreate _ | .usersUpdateEmail _ | .emailVerificationFindByHash _ => true
  | _ => false

/-- A request that goes on without deciding has not been refused since. -/
theorem FoundTaken.of_extends (he : Extends (¬DecidesClaim ·) log log') (h : FoundTaken env r log' a) :
    FoundTaken env r log a := by
  obtain ⟨id, hc, x, hx, hl, hu⟩ := h
  have hx : x ∈ log := he.mem hx fun hn => by
    rcases hl with h | h | ⟨i, h⟩ <;> rw [h] at hn <;> exact hn rfl
  refine ⟨id, ?_, x, hx, hl, hu⟩
  cases r with
  | register dto c => exact hc
  | verifyEmail token c =>
    obtain ⟨t, ⟨y, hy, hyl, ht⟩, hr⟩ := hc
    exact ⟨t, ⟨y, he.mem hy fun hn => by rw [hyl] at hn; exact hn rfl, hyl, ht⟩, hr⟩
  | _ => exact hc

/-! ## One request -/

/-- What a request that is refused has done, and how it ends. -/
def TakenEnds {α : Type} (env : Env) (r : Request) (log : List (Entry World Call))
    (x : Except Exn α) : Prop :=
  ∀ a, FoundTaken env r log a → (∃ e, x = .error e ∧ e.IsConflict) ∧ ∀ y ∈ log, Spared y.before y.after

/-- The state is indexed, and has only gone on since each of the calls. -/
def IndexedSince (env : Env) (log : List (Entry World Call)) (w : World) : Prop :=
  Indexed env w ∧ ∀ x ∈ log, Onward x.before x.after ∧ Onward x.after w

/-- A request makes no call once it is refused. -/
def Yielding {α : Type} (env : Env) (r : Request) (p : App α) (log : List (Entry World Call)) : Prop :=
  p.Obeys (IndexedSince env) (fun log' _ => ∀ a, ¬FoundTaken env r log' a) (TakenEnds env r) log

theorem TakenEnds.of_not {α : Type} {x : Except Exn α} (h : ∀ a, ¬FoundTaken env r log a) :
    TakenEnds env r log x := fun a ha => absurd ha (h a)

/-- The rest of a request that can no longer be refused. -/
theorem Yielding.rest {α : Type} {p : App α} (hp : p.Calls (¬DecidesClaim ·))
    (h : ∀ a, ¬FoundTaken env r log a) : Yielding env r p log :=
  hp.obeys (fun _ _ he _ a ha => h a (ha.of_extends he)) fun _ _ he =>
    .of_not fun a ha => h a (ha.of_extends he)

theorem not_foundTaken (h : ∀ x ∈ log, ¬∃ a, ClaimCall a x.label) (a : String) :
    ¬FoundTaken env r log a := by
  rintro ⟨id, -, x, hx, hl, -⟩
  exact h x hx ⟨a, hl⟩

/-- A call that is no claim. -/
theorem FoundTaken.of_cons {x : Entry World Call} (hx : ¬DecidesClaim x.label)
    (h : FoundTaken env r (x :: log) a) : FoundTaken env r log a :=
  h.of_extends (.cons hx)

theorem yielding_register (dto : RegisterDto) (c : RequestContext) :
    Yielding env (.register dto c) (AuthService.register env dto c) [] := by
  have h₀ (a : String) : ¬FoundTaken env (.register dto c) [] a := not_foundTaken (by simp) a
  refine .query_bind (fun _ => .of_not h₀) fun w hw => ⟨h₀, ?_⟩
  let x : Entry World Call := ⟨.usersFindByEmail (env.toLowerCase dto.email), w, w⟩
  split
  · exact fun a _ => ⟨⟨_, rfl, .inl rfl⟩, by simp [Spared.refl]⟩
  rename_i hnone
  have h₁ (a : String) : ¬FoundTaken env (.register dto c) [x] a := by
    rintro ⟨id, ⟨rfl, rfl⟩, y, hy, -, u, hu, he, -⟩
    obtain rfl := List.mem_singleton.mp hy
    exact hnone (by rw [← he, hw.1.find?_email hu]; rfl)
  refine obeys_bind.mpr (obeys_atomic.mpr ⟨fun w₁ _ => ⟨h₁, ?_⟩, fun _ => .of_not h₁⟩)
  let y : Entry World Call := ⟨.hash, w₁, { w₁ with drawn := w₁.drawn + 1 }⟩
  have h₂ (a : String) : ¬FoundTaken env (.register dto c) [y, x] a :=
    fun h => h₁ a (FoundTaken.of_cons (x := y) nofun h)
  refine obeys_bind.mpr (obeys_atomic.mpr ⟨fun w₂ _ => ⟨h₂, ?_⟩, fun _ => .of_not h₂⟩)
  by_cases hany : (w₂.users.any (·.email == env.toLowerCase dto.email)) = true
  · simp only [hany, if_true]
    refine fun a _ => ⟨⟨_, rfl, .inr rfl⟩, ?_⟩
    simp only [List.mem_cons, List.not_mem_nil, or_false, forall_eq_or_imp, forall_eq]
    exact ⟨.refl _, ⟨rfl, rfl, rfl, rfl⟩, .refl _⟩
  · simp only [hany, Bool.false_eq_true, if_false]
    refine Yielding.rest (.bind (calls_atomic.mpr nofun) fun _ =>
      .bind (calls_issueSession (by rintro (_ | _) ⟨⟩ <;> nofun) _ c) fun _ => trivial)
        fun a ha => ?_
    obtain ⟨id, ⟨rfl, rfl⟩, z, hz, hl, u, hu, he, hne⟩ := ha
    rcases List.mem_cons.mp hz with rfl | hz
    · exact hany (by simpa using ⟨u, hu, he⟩)
    · exact h₂ _ ⟨none, ⟨rfl, rfl⟩, z, hz, hl, u, hu, he, hne⟩

/-- What a verification knows when it applies its token: it has looked up this
token only and found its user, with reads alone. -/
structure Looked (env : Env) (token : String) (t : EmailVerificationToken) (u : User)
    (log : List (Entry World Call)) : Prop where
  only : ∀ t', LookedUp (env.sha256 token) t' log → t' = t
  userId : u.id = t.userId
  user : ∃ x ∈ log, u ∈ x.after.users
  reads : ∀ x ∈ log, (¬∃ a, ClaimCall a x.label) ∧ x.after = x.before

theorem Looked.spared {token : String} {t : EmailVerificationToken} {u : User}
    (h : Looked env token t u log) : ∀ x ∈ log, Spared x.before x.after := by
  intro x hx
  rw [(h.reads x hx).2]
  exact .refl _

/-- Whom a verification meets that is refused. -/
theorem Looked.foundTaken {token : String} {c : RequestContext} {t : EmailVerificationToken}
    {u : User} {e : String} (h : Looked env token t u log) (hn : t.newEmail = some e)
    (new : List (Entry World Call))
    (hnew : ∀ x ∈ new, x.label ≠ .emailVerificationFindByHash (env.sha256 token))
    (hf : FoundTaken env (.verifyEmail token c) (new ++ log) a) :
    ∃ x ∈ new, ∃ v ∈ x.before.users, v.email = e ∧ v.id ≠ u.id := by
  obtain ⟨id, ⟨t', ⟨z, hz, hzl, hfind⟩, -, hn', rfl⟩, x, hx, hl, v, hv, rfl, hne⟩ := hf
  have hz : z ∈ log := (List.mem_append.mp hz).resolve_left fun hz => hnew z hz hzl
  obtain rfl := h.only t' ⟨z, hz, hzl, hfind⟩
  have hx : x ∈ new := (List.mem_append.mp hx).resolve_right fun hx => (h.reads x hx).1 ⟨_, hl⟩
  exact ⟨x, hx, v, hv, Option.some.inj (hn'.symm.trans hn), fun e => hne (e.trans h.userId ▸ rfl)⟩

theorem yielding_applyToken {token : String} {c : RequestContext} {t : EmailVerificationToken}
    {u : User} (h : Looked env token t u log) {α : Type} {k : String → App α}
    (hk : ∀ b, (k b).Calls (¬DecidesClaim ·)) :
    Yielding env (.verifyEmail token c) (EmailVerificationService.applyToken t u >>= k) log := by
  have h₀ (a : String) : ¬FoundTaken env (.verifyEmail token c) log a :=
    not_foundTaken (fun x hx => (h.reads x hx).1) a
  unfold EmailVerificationService.applyToken
  cases t.type with
  | REGISTRATION =>
    exact Yielding.rest (.bind (.bind (calls_atomic.mpr nofun) fun _ => trivial) hk) h₀
  | EMAIL_CHANGE =>
    dsimp only
    cases hn : truthy t.newEmail with
    | none => exact .of_not h₀
    | some e =>
      have hn : t.newEmail = some e := (Option.filter_eq_some_iff.mp hn).1
      dsimp only
      rw [bind_bind]
      refine .query_bind (fun _ => .of_not h₀) fun w hw => ⟨h₀, ?_⟩
      let x : Entry World Call := ⟨.usersFindByEmail e, w, w⟩
      have hsp : ∀ y ∈ x :: log, Spared y.before y.after := by
        intro y hy
        rcases List.mem_cons.mp hy with rfl | hy
        · exact .refl _
        · exact h.spared y hy
      split
      · exact fun a _ => ⟨⟨_, rfl, .inl rfl⟩, hsp⟩
      rename_i hfree
      have hx : ¬∃ v ∈ w.users, v.email = e ∧ v.id ≠ u.id := by
        rintro ⟨v, hv, rfl, hne⟩
        exact hfree (by simp [hw.1.find?_email hv, hne])
      have h₁ (a : String) : ¬FoundTaken env (.verifyEmail token c) (x :: log) a := fun hf => by
        obtain ⟨y, hy, hv⟩ := h.foundTaken hn [x] (by simp [x]) hf
        obtain rfl := List.mem_singleton.mp hy
        exact hx hv
      rw [bind_bind]
      refine obeys_bind.mpr (obeys_atomic.mpr ⟨fun w₁ hw₁ => ⟨h₁, ?_⟩, fun _ => .of_not h₁⟩)
      -- The user that was found is still there.
      obtain ⟨z, hz, hu⟩ := h.user
      obtain ⟨u', hu', hkeep⟩ := (hw₁.2 z (List.mem_cons_of_mem _ hz)).2.users.mem hu
      obtain ⟨v, hv⟩ := Option.isSome_iff_exists.mp
        (List.find?_isSome (p := (·.id == u.id)) |>.mpr ⟨u', hu', by simp [hkeep.1.1]⟩)
      simp only [hv]
      by_cases hany : (w₁.users.any fun v => v.email == e && v.id != u.id) = true
      · simp only [hany, if_true]
        refine fun a _ => ⟨⟨_, rfl, .inr rfl⟩, fun y hy => ?_⟩
        rcases List.mem_cons.mp hy with rfl | hy
        · exact .refl _
        · exact hsp y hy
      · simp only [hany, Bool.false_eq_true, if_false]
        refine Yielding.rest (hk e) fun a hf => ?_
        obtain ⟨y, hy, v', hv', he, hne⟩ := h.foundTaken hn [_, x] (by simp [x]) hf
        rcases List.mem_cons.mp hy with rfl | hy
        · exact hany (by simpa using ⟨v', hv', he, hne⟩)
        · obtain rfl := List.mem_singleton.mp hy
          exact hx ⟨v', hv', he, hne⟩

theorem yielding_verify (token : String) (c : RequestContext) :
    Yielding env (.verifyEmail token c) (EmailVerificationService.verify env token c) [] := by
  have h₀ (a : String) : ¬FoundTaken env (.verifyEmail token c) [] a := not_foundTaken (by simp) a
  refine .query_bind (fun _ => .of_not h₀) fun w hw => ⟨h₀, ?_⟩
  let x : Entry World Call := ⟨.emailVerificationFindByHash (env.sha256 token), w, w⟩
  have h₁ (a : String) : ¬FoundTaken env (.verifyEmail token c) [x] a :=
    not_foundTaken (by simp [x, ClaimCall]) a
  cases ht : w.emailVerificationTokens.find? (·.tokenHash == env.sha256 token) with
  | none => exact .of_not h₁
  | some t =>
    refine .query_bind (fun _ => .of_not h₁) fun w₁ _ => ⟨h₁, ?_⟩
    let y : Entry World Call := ⟨.dateNow, w₁, w₁⟩
    have h₂ (a : String) : ¬FoundTaken env (.verifyEmail token c) [y, x] a :=
      not_foundTaken (by simp [x, y, ClaimCall]) a
    split
    · exact .of_not h₂
    refine .query_bind (fun _ => .of_not h₂) fun w₂ _ => ⟨h₂, ?_⟩
    let z : Entry World Call := ⟨.usersFindById t.userId, w₂, w₂⟩
    have h₃ (a : String) : ¬FoundTaken env (.verifyEmail token c) [z, y, x] a :=
      not_foundTaken (by simp [x, y, z, ClaimCall]) a
    cases hu : w₂.users.find? fun u => u.id == t.userId && u.deletedAt.isNone with
    | none => exact .of_not h₃
    | some u =>
      have hlooked : Looked env token t u [z, y, x] := by
        refine ⟨?_, ?_, ⟨z, List.mem_cons_self .., List.mem_of_find?_eq_some hu⟩,
          by simp [x, y, z, ClaimCall]⟩
        · rintro t' ⟨e, he, hl, hf⟩
          simp only [List.mem_cons, List.not_mem_nil, or_false] at he
          rcases he with rfl | rfl | rfl
          · cases hl
          · cases hl
          · exact Option.some.inj (hf.symm.trans ht)
        · have h := List.find?_some hu
          simp only [Bool.and_eq_true, beq_iff_eq] at h
          exact h.1
      exact yielding_applyToken hlooked fun b => .bind (calls_atomic.mpr nofun) fun _ =>
        calls_atomic.mpr nofun

/-- A request that finds an address taken makes no further call, and ends with
a conflict. -/
theorem obeys_program_conflict (r : Request) :
    (program env r).Obeys (IndexedSince env) (fun log _ => ∀ a, ¬FoundTaken env r log a)
      (TakenEnds env r) [] := by
  have wrap {β : Type} {p : App β} {f : β → Response} (hp : Yielding env r p []) :
      (p >>= fun b => .ret (f b)).Obeys (IndexedSince env) (fun log _ => ∀ a, ¬FoundTaken env r log a)
        (TakenEnds env r) [] := by
    refine obeys_bind.mpr (Obeys.mono hp (fun _ _ h => h) (fun _ _ h => h) fun log x h => ?_)
    cases x with
    | ok b =>
      intro a ha
      obtain ⟨⟨e, he, -⟩, -⟩ := h a ha
      cases he
    | error e =>
      intro a ha
      obtain ⟨⟨e', he, hc⟩, hs⟩ := h a ha
      exact ⟨⟨e', congrArg Except.error (Except.error.inj he), hc⟩, hs⟩
  have none (h : ∀ log a id, ¬r.Claims env log a id) :
      (program env r).Obeys (IndexedSince env) (fun log _ => ∀ a, ¬FoundTaken env r log a)
        (TakenEnds env r) [] := by
    have hn (log : List (Entry World Call)) (a : String) : ¬FoundTaken env r log a :=
      fun ⟨id, hc, _⟩ => h log a id hc
    exact .of_forall (fun log _ => hn log) fun log _ => .of_not (hn log)
  cases r with
  | register dto c => exact wrap (yielding_register dto c)
  | verifyEmail token c => exact wrap (yielding_verify token c)
  | _ => exact none fun _ _ _ h => h

/-! ## Interleavings -/

/-- The account has the address. -/
def Has (id a : String) (w : World) : Prop := ∃ u ∈ w.users, u.id = id ∧ u.email = a

/-- The call gives the address to the account. -/
def Obtains (id a : String) (x : Entry World Call) : Prop := ¬Has id a x.before ∧ Has id a x.after

/-- Some request has given the address to the account. -/
def AppPool.Obtained (id a : String) (P : AppPool) : Prop :=
  ∃ th ∈ P.threads, ∃ x ∈ th.log, Obtains id a x

/-- No account gives up the address. -/
def KeepsAddress (env : Env) (a : String) (P : AppPool) (m : Move Request Time Exn) : Prop :=
  ∀ P' ∈ (system env).step P m, ∀ u ∈ P.state.users, u.email = a → Has u.id a P'.state

theorem Obtained.has {t : Time} (h : (system env).Run (KeepsAddress env a) (AppPool.init t) P)
    {id : String} (ho : P.Obtained id a) : Has id a P.state := by
  refine h.invariant (I := fun P => AppPool.Obtained id a P → Has id a P.state) ?_ ?_ ho
  · rintro ⟨_, h, -⟩
    cases h
  · rintro P m P' hI hm hs ⟨th, hth, x, hx, hobt⟩
    obtain ⟨i, hi⟩ := List.getElem?_of_mem hth
    rcases System.entry_cases hs hi hx with ⟨th₀, hi₀, hx₀⟩ | ⟨-, -, he⟩
    · obtain ⟨u, hu, rfl, ha⟩ := hI ⟨th₀, List.mem_of_getElem? hi₀, x, hx₀, hobt⟩
      exact hm P' hs u hu ha
    · exact he ▸ hobt.2

theorem Does.email (h : Does env L w w') (ha : ∃ u ∈ w'.users, u.email = a) :
    (∃ u ∈ w.users, u.email = a) ∨ (∃ e, a = env.toLowerCase e) ∨ L .address := by
  obtain ⟨u, hu, he⟩ := ha
  rcases h.user hu with ⟨v, hv, e⟩ | ⟨-, e, h⟩ | hL
  · exact .inl ⟨v, hv, (User.account_eq.mp e).2.1.symm.trans he⟩
  · exact .inr (.inl ⟨e, he.symm.trans h⟩)
  · exact .inr (.inr hL)

theorem Applied.email {t : EmailVerificationToken} (h : Applied t w w')
    (ha : ∃ u ∈ w'.users, u.email = a) :
    (∃ u ∈ w.users, u.email = a) ∨ (t.type = .EMAIL_CHANGE ∧ t.newEmail = some a) := by
  obtain ⟨u, hu, he⟩ := ha
  cases h with
  | registration hty =>
    obtain ⟨v, hv, rfl⟩ := mem_updateWhere.mp hu
    refine .inl ⟨v, hv, ?_⟩
    split at he <;> exact he
  | emailChange hty hn hfree =>
    obtain ⟨v, hv, rfl⟩ := mem_updateWhere.mp hu
    split at he
    · exact .inr ⟨hty, hn.trans (congrArg some he)⟩
    · exact .inl ⟨v, hv, he⟩

/-- Every address came into the table in lower case. -/
theorem Interleaving.lower {t : Time} (h : Interleaving env (.init t) P) :
    ∀ u ∈ P.state.users, ∃ e, u.email = env.toLowerCase e := by
  intro u hu
  obtain ⟨Q, i, r, log, l, next, eff, fail, th, hQ, hi, hn, ha, -⟩ :=
    h.cause (B := fun w : World => ∃ v ∈ w.users, v.email = u.email) (fun _ _ h => h) nofun
      ⟨u, hu, rfl⟩
  rcases ((Interleaving.does hQ).call (Nat.zero_le i) hi trivial).email ha with h' | h' | hd
  · exact absurd h' hn
  · exact h'
  have hne : (eff Q.state).users ≠ Q.state.users := fun e => hn (e ▸ ha)
  obtain ⟨token, tok, -, -, -, happ, tok', htok', hk⟩ := Interleaving.applied hQ hi hd hne
  obtain ⟨hty, hnew⟩ := (happ.email ha).resolve_left hn
  obtain ⟨e, h'⟩ := (Interleaving.traced hQ).traced.newEmail tok' htok' (hk.2.2.2.1.trans hty)
  rw [hk.2.2.2.2.1, hnew, Option.some.injEq] at h'
  exact ⟨e, h'⟩

/-- A request that has found an address taken has ended with a conflict, and
left accounts, sessions and links as they were. -/
theorem Interleaving.foundTaken {t : Time} (h : Interleaving env (.init t) P) {th : AppThread}
    (hth : th ∈ P.threads) (hf : FoundTaken env th.req th.log a) :
    ∃ e : Exn, th.outcome = some (.error e) ∧ e.IsConflict ∧
      ∀ x ∈ th.log, Spared x.before x.after := by
  have hobeys : System.ObeyFrom (fun _ => IndexedSince env)
      (fun r log _ => ∀ a, ¬FoundTaken env r log a) (TakenEnds env) 0 P :=
    h.obeys (I := fun P => Interleaving env (.init t) P) obeys_program_conflict .refl
      (fun hI hm hs => .step hI hm hs) fun hI th hth =>
      ⟨Interleaving.indexed hI, ((Interleaving.traced hI).onward th hth).2⟩
  obtain ⟨i, hi⟩ := List.getElem?_of_mem hth
  have hA : IndexedSince env th.log P.state :=
    ⟨Interleaving.indexed h, ((Interleaving.traced h).onward th hth).2⟩
  cases hp : th.prog with
  | ret b =>
    have ho : th.outcome = some (.ok b) := by simp [Thread.outcome, hp]
    obtain ⟨⟨e, he, -⟩, -⟩ := hobeys.outcome (Nat.zero_le i) hi ho a hf
    cases he
  | throw e =>
    have ho : th.outcome = some (.error e) := by simp [Thread.outcome, hp]
    obtain ⟨⟨e', he, hc⟩, hs⟩ := hobeys.outcome (Nat.zero_le i) hi ho a hf
    cases he
    exact ⟨e, ho, hc, hs⟩
  | call l next eff fail =>
    have hi : P.threads[i]? = some ⟨th.req, th.log, .call l next eff fail⟩ := by rw [hi, ← hp]
    exact absurd hf (hobeys.call (Nat.zero_le i) hi hA a)

/-- Addresses are unique and in lower case. If nobody gives an address up, only
one account ever obtains it; and a request that finds it taken, by its check or
by its write, ends in a 409 and has changed nothing. -/
theorem address_of_one_account {t : Time} (h : Interleaving env (.init t) P) :
    Table.Unique User.email P.state.users ∧
    (∀ u ∈ P.state.users, ∃ e, u.email = env.toLowerCase e) ∧
    (∀ a, (system env).Run (KeepsAddress env a) (AppPool.init t) P →
      ∀ id id', P.Obtained id a → P.Obtained id' a → id = id') ∧
    ∀ th ∈ P.threads, ∀ a, FoundTaken env th.req th.log a →
      ∃ e, th.outcome = some (.error e) ∧
        (∀ isProduction target,
          (GlobalExceptionFilter.resolve isProduction target e).statusCode = 409) ∧
        ∀ x ∈ th.log, Spared x.before x.after := by
  refine ⟨(Interleaving.indexed h).email, Interleaving.lower h, fun a hk id id' ho ho' => ?_,
    fun th hth a hf => ?_⟩
  · obtain ⟨u, hu, rfl, ha⟩ := Obtained.has hk ho
    obtain ⟨v, hv, rfl, hb⟩ := Obtained.has hk ho'
    rw [(Interleaving.indexed h).email.eq hu hv (ha.trans hb.symm)]
  · obtain ⟨e, ho, hc, hs⟩ := Interleaving.foundTaken h hth hf
    exact ⟨e, ho, hc.statusCode, hs⟩

instance (id : String) (w : World) : Decidable (Has id a w) :=
  inferInstanceAs (Decidable (∃ u ∈ w.users, u.id = id ∧ u.email = a))

instance (m : Move Request Time Exn) : Decidable (KeepsAddress env a P m) :=
  inferInstanceAs (Decidable (∀ P' ∈ (system env).step P m, ∀ u ∈ P.state.users, u.email = a →
    Has u.id a P'.state))

/-- A change of address, whose link is `unary 8`: between its check and its
write, a registration takes the address. -/
def takenMeanwhile : AppPool :=
  (system .sample).after
    (registered ++
      .start (.requestEmailChange firstToken "C@d.eu" "Passw0rd!") :: List.replicate 11 (.call 1) ++
      .start (.verifyEmail (unary 8) ⟨none, none⟩) :: List.replicate 4 (.call 2) ++
      .start (.register ⟨"c@D.eu", "Passw0rd!", none, none⟩ ⟨none, none⟩) :: List.replicate 14 (.call 3) ++
      [.call 2])
    (AppPool.init 0)

theorem takenMeanwhile_conflict :
    (∃ th ∈ takenMeanwhile.threads, ∃ e, th.outcome = some (.error e) ∧
      (∀ isProduction target,
        (GlobalExceptionFilter.resolve isProduction target e).statusCode = 409) ∧
      ∀ x ∈ th.log, Spared x.before x.after) ∧
    (∃ id, takenMeanwhile.Obtained id "c@d.eu") ∧
    ∀ id id', takenMeanwhile.Obtained id "c@d.eu" → takenMeanwhile.Obtained id' "c@d.eu" → id = id' := by
  have hrun : (system .sample).Run (KeepsAddress .sample "c@d.eu") (AppPool.init 0) takenMeanwhile :=
    .after (by decide +kernel)
  obtain ⟨-, -, hone, htaken⟩ :=
    @address_of_one_account .sample takenMeanwhile 0 (hrun.mono fun _ _ _ => trivial)
  have hfound : ∃ th ∈ takenMeanwhile.threads, th.req = .verifyEmail (unary 8) ⟨none, none⟩ ∧
      ∃ y ∈ th.log, y.label = .emailVerificationFindByHash (unary 8) ∧
      ∃ t ∈ y.before.emailVerificationTokens.find? (·.tokenHash == unary 8),
      t.type = .EMAIL_CHANGE ∧ t.newEmail = some "c@d.eu" ∧
      ∃ x ∈ th.log, x.label = .usersUpdateEmail (unary 1) ∧
      ∃ u ∈ x.before.users, u.email = "c@d.eu" ∧ u.id ≠ t.userId := by
    decide +kernel
  have hgets : ∃ th ∈ takenMeanwhile.threads, ∃ x ∈ th.log, ¬Has (unary 11) "c@d.eu" x.before ∧
      Has (unary 11) "c@d.eu" x.after := by
    decide +kernel
  refine ⟨?_, ⟨_, hgets⟩, hone _ hrun⟩
  obtain ⟨th, hth, hreq, y, hy, hl, t, ht, hty, hn, x, hx, hxl, u, hu, he, hne⟩ := hfound
  refine ⟨th, hth, htaken th hth "c@d.eu" ⟨some t.userId, ?_, x, hx, .inr (.inr ⟨_, hxl⟩), u, hu, he,
    fun h => hne (Option.some.inj h)⟩⟩
  rw [hreq]
  exact ⟨t, ⟨y, hy, hl, ht⟩, hty, hn, rfl⟩

end AtlasAuth

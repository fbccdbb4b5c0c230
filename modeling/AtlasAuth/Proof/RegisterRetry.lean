import AtlasAuth.Proof.Interrupted

/-!
# Retrying a registration

A registration makes the row of the user before anything else of the session
it issues. When one of its calls fails before that, nothing is left and the
request can be repeated; when one fails afterwards, the row of the user stays,
and the request that is repeated is a conflict (`registration_interrupted`).
-/

namespace AtlasAuth

open Framework Framework.Table Prog

variable {env : Env} {w w' w'' : World} {n : Nat} {l : Call} {e : Exn}

/-- The calls of a registration up to that which makes the row of the user. -/
def Call.precedesUser (email : String) (l : Call) : Prop :=
  l = .usersFindByEmail email ∨ l = .hash ∨ l = .usersCreate email

/-- No user, device, session or refresh token has been made. -/
structure NothingMade (w w' : World) : Prop where
  drawn : w.drawn ≤ w'.drawn
  users : w'.users = w.users
  devices : w'.devices = w.devices
  sessions : w'.sessions = w.sessions
  refreshTokens : w'.refreshTokens = w.refreshTokens

/-- A user has this address. -/
def HasAddress (email : String) (w : World) : Prop :=
  ∃ u ∈ w.users, u.email = email ∧ u.deletedAt = none

/-- What a registration leaves that ends with an error while the call `l`
fails. -/
inductive RegisterInterrupted (l : Call) (email : String) (w w' : World) : Prop
  | undone (hl : l.precedesUser email) (h : NothingMade w w')
  | halfway (hl : ¬l.precedesUser email) (h : HasAddress email w')

/-! ## Registrations that succeed -/

/-- No user has the address, deleted users included. -/
theorem delivers_usersCreate {email : String} (h : ∀ u ∈ w.users, u.email ≠ email) (hash : String)
    (first last : Option String) :
    Delivers env n (UsersRepository.create env email hash first last) w fun u w' =>
      (u.email = email ∧ u.deletedAt = none) ∧ ∃ w₁, (system env).lapse w w₁ ∧
        w' = { w₁ with drawn := w₁.drawn + 1, users := w₁.users ++ [u] } := by
  refine ensures_atomic.mpr fun w₁ h₁ => ?_
  have hn : ¬w₁.users.any (·.email == email) = true := by
    rw [lapse_users h₁.1]
    simpa using h
  rw [if_neg hn]
  exact ⟨_, rfl, ⟨rfl, rfl⟩, w₁, h₁.1, rfl⟩

theorem findByEmail_eq_none {email : String} (h : ∀ u ∈ w.users, u.email ≠ email) :
    w.users.find? (fun u => u.email == email && u.deletedAt.isNone) = none := by
  refine List.find?_eq_none.mpr fun u hu hm => h u hu ?_
  simpa using (Bool.and_eq_true_iff.mp hm).1

theorem delivers_register (h : Issuable env n) (hw : HashMinted env w) {dto : RegisterDto}
    (hfree : ∀ u ∈ w.users, u.email ≠ env.toLowerCase dto.email) (c : RequestContext) :
    Delivers env n (AuthService.register env dto c) w fun _ _ => True := by
  refine .query_bind fun w₁ h₁ => ?_
  obtain ⟨⟨d₁, rfl⟩, -⟩ := h₁
  rw [show ((system env).env d₁ w).users = w.users from rfl, findByEmail_eq_none hfree]
  refine .atomic_bind fun w₂ h₂ => ?_
  obtain ⟨⟨d₂, rfl⟩, -⟩ := h₂
  refine .bind_of_ok (delivers_usersCreate (by exact hfree) _ _ _) ?_
  rintro u _ ⟨-, _, ⟨d₃, rfl⟩, rfl⟩
  refine .atomic_bind fun w₄ h₄ => ?_
  obtain ⟨⟨d₄, rfl⟩, -⟩ := h₄
  refine .bind_of_ok (delivers_issueSession h ?_ u c) fun _ _ _ => ensures_ret.mpr ⟨_, rfl, trivial⟩
  exact hw.mono ((Nat.le_succ _).trans (Nat.le_succ _))

theorem register_succeeds (hw : HashMinted env w) {dto : RegisterDto}
    (hfree : ∀ u ∈ w.users, u.email ≠ env.toLowerCase dto.email) {c : RequestContext}
    {x : Except Exn Response} (hx : Completes env (.register dto c) w x w')
    (h : Issuable env w'.now) : ∃ u tokens, x = .ok (.session u tokens) := by
  have hd : Delivers env w'.now (program env (.register dto c)) w fun a _ =>
      ∃ u tokens, a = .session u tokens :=
    .bind_of_ok (delivers_register h hw hfree c) fun b w₁ _ => ensures_ret.mpr ⟨_, rfl, _, _, rfl⟩
  obtain ⟨a, rfl, u, tokens, rfl⟩ := hd _ _ (completes_until hx (Nat.le_refl _))
  exact ⟨u, tokens, rfl⟩

/-! ## Registrations that fail -/

/-- The row of the user stays. -/
theorem hasAddress_issueSession {email : String} {R : World → World → Prop}
    (hR : ∀ w w', R w w' → (system env).lapse w w') (h : HasAddress email w) (u : User)
    (c : RequestContext) :
    ((AuthService.issueSession env u c).failing (· = l) e).Ensures R
      (fun _ w' => HasAddress email w') w := by
  let G (w w' : World) : Prop := HasAddress email w → HasAddress email w'
  have hG : IsPreorder World G :=
    { refl := fun _ h => h, trans := fun _ _ _ h h' => h' ∘ h }
  have hissue : (AuthService.issueSession env u c).Always (Does env (Eq Deed.sign)) :=
    does_of_made (made_issueSession (A := doesKinds (Eq Deed.sign)) trivial rfl u c)
  have hall : ((AuthService.issueSession env u c).failing (· = l) e).Always G := by
    refine (hissue.mono fun w₁ w₂ hd => ?_).failing
    rintro ⟨v, hv, hemail, hdel⟩
    have hev : Evolves (fun a b : User => b.email = a.email ∧ b.deletedAt = a.deletedAt)
        w₁.users w₂.users :=
      hd.evolves (fun a b hab => ⟨(User.account_eq.mp hab).2.1, (User.account_eq.mp hab).2.2.2⟩)
        fun hL => by cases hL
    obtain ⟨v', hv', he, hd'⟩ := hev.mem hv
    exact ⟨v', hv', he.trans hemail, hd'.trans hdel⟩
  refine fun r w' hx => Exec.always hx hall (fun w₁ w₂ h₁ => ?_) h
  obtain ⟨d, rfl⟩ := hR _ _ h₁
  exact fun h => h

theorem without_register {dto : RegisterDto}
    (hfree : ∀ u ∈ w.users, u.email ≠ env.toLowerCase dto.email) (c : RequestContext) :
    Without env n l e (AuthService.register env dto c) w fun r w' =>
      (∃ b, r = .ok b) ∨ RegisterInterrupted l (env.toLowerCase dto.email) w w' := by
  unfold AuthService.register
  refine .failing_query_bind ?_ fun h₁ w₁ hw₁ => ?_
  · rintro rfl
    exact .inr (.undone (.inl rfl) ⟨Nat.le_refl _, rfl, rfl, rfl, rfl⟩)
  obtain ⟨⟨d₁, rfl⟩, -⟩ := hw₁
  rw [show ((system env).env d₁ w).users = w.users from rfl, findByEmail_eq_none hfree]
  refine .failing_atomic_bind ?_ fun h₂ w₂ hw₂ => ?_
  · rintro rfl
    exact .inr (.undone (.inr (.inl rfl)) ⟨Nat.le_refl _, rfl, rfl, rfl, rfl⟩)
  obtain ⟨⟨d₂, rfl⟩, -⟩ := hw₂
  refine .failing_atomic_bind ?_ fun h₃ w₃ hw₃ => ?_
  · rintro rfl
    exact .inr (.undone (.inr (.inr rfl)) ⟨Nat.le_succ _, rfl, rfl, rfl, rfl⟩)
  obtain ⟨⟨d₃, rfl⟩, -⟩ := hw₃
  have hn : ¬w.users.any (·.email == env.toLowerCase dto.email) = true := by simpa using hfree
  rw [if_neg (by exact hn)]
  -- From here on the user is there.
  have hl : ¬l.precedesUser (env.toLowerCase dto.email) := by
    rintro (hl | hl | hl)
    · exact h₁ hl.symm
    · exact h₂ hl.symm
    · exact h₃ hl.symm
  refine .failing_atomic_bind ?_ fun _ w₄ hw₄ => ?_
  · rintro rfl
    exact .inr (.halfway hl ⟨_, List.mem_concat_self, rfl, rfl⟩)
  obtain ⟨⟨d₄, rfl⟩, -⟩ := hw₄
  refine .failing_bind (hasAddress_issueSession (fun _ _ h => h.1)
    ⟨_, List.mem_concat_self, rfl, rfl⟩ _ c) ?_ fun e w' h => .inr (.halfway hl h)
  exact fun _ _ _ => ensures_ret.mpr (.inl ⟨_, rfl⟩)

/-- Nothing is left of the registration, so that it succeeds when it is
repeated. -/
structure RegistrationUndone (env : Env) (dto : RegisterDto) (w w' : World) : Prop where
  nothing : NothingMade w w'
  repeated : ∀ {c : RequestContext} {y : Except Exn Response} {w'' : World},
    Completes env (.register dto c) w' y w'' → HashMinted env w → Issuable env w''.now →
      ∃ u tokens, y = .ok (.session u tokens)

theorem not_undone_of_hasAddress {email : String} (hfree : ∀ u ∈ w.users, u.email ≠ email)
    (h : HasAddress email w') : ¬NothingMade w w' := by
  intro hn
  obtain ⟨u, hu, hemail, -⟩ := h
  exact hfree u (hn.users ▸ hu) hemail

/-- A registration for a free address that ends with an error, because a call
failed, can be repeated if and only if that call is not made after the row of
the user. -/
theorem registration_interrupted {dto : RegisterDto} {c : RequestContext}
    (hfree : ∀ u ∈ w.users, u.email ≠ env.toLowerCase dto.email) {e' : Exn}
    (hfail : CompletesWithout env l e (.register dto c) w (.error e') w') :
    RegistrationUndone env dto w w' ↔ l.precedesUser (env.toLowerCase dto.email) := by
  have hd : Without env w'.now l e (program env (.register dto c)) w fun r w' =>
      (∃ b, r = .ok b) ∨ RegisterInterrupted l (env.toLowerCase dto.email) w w' := by
    refine .failing_bind (without_register hfree c) (fun _ _ _ => ensures_ret.mpr (.inl ⟨_, rfl⟩)) ?_
    rintro e' v (⟨b, hb⟩ | hv)
    · cases hb
    · exact .inr hv
  obtain ⟨b, hb⟩ | hi := hd _ _ (completesWithout_until hfail (Nat.le_refl _))
  · cases hb
  cases hi with
  | undone hl hn =>
    refine iff_of_true ⟨hn, fun hre hw hissue => ?_⟩ hl
    have hw' : HashMinted env w' := by
      rw [HashMinted, hn.refreshTokens]
      exact hw.mono hn.drawn
    exact register_succeeds hw' (hn.users ▸ hfree) hre hissue
  | halfway hl ha => exact iff_of_false (fun h => not_undone_of_hasAddress hfree ha h.nothing) hl

/-- The repeated registration that finds the row of the user. -/
theorem register_conflict {dto : RegisterDto} (h : HasAddress (env.toLowerCase dto.email) w)
    {c : RequestContext} {x : Except Exn Response} (hx : Completes env (.register dto c) w x w') :
    x = .error (.conflict "An account with this email already exists") := by
  have hl : (AuthService.register env dto c).Ensures (system env).lapse
      (fun r _ => r = .error (.conflict "An account with this email already exists")) w := by
    refine .query_bind fun w₁ h₁ => ?_
    obtain ⟨d, rfl⟩ := h₁
    obtain ⟨u, hu, hemail, hdel⟩ := h
    have hsome : ((w.users.find? fun u => u.email == env.toLowerCase dto.email &&
        u.deletedAt.isNone).isSome) = true :=
      List.find?_isSome.mpr ⟨u, hu, by simp [hemail, hdel]⟩
    rw [if_pos (by exact hsome)]
    exact ensures_throw.mpr rfl
  have hp : (program env (.register dto c)).Ensures (system env).lapse
      (fun r _ => r = .error (.conflict "An account with this email already exists")) w :=
    .bind hl (fun _ _ h => by cases h) fun _ _ h => by rw [Except.error.inj h]
  exact hp _ _ hx

/-- The first registration, while the call `l` fails. -/
def interruptedRegister (l : Call) : Except Exn Response × World :=
  ((program .sample (.register ⟨"a@b.co", "Passw0rd!", none, none⟩ ⟨none, none⟩)).failing (· = l)
    (.error "connection lost")).run { now := 0 }

theorem interruptedRegister_fails {l : Call}
    (h : (interruptedRegister l).1 = .error (.error "connection lost")) :
    CompletesWithout .sample l (.error "connection lost")
      (.register ⟨"a@b.co", "Passw0rd!", none, none⟩ ⟨none, none⟩) { now := 0 }
      (.error (.error "connection lost")) (interruptedRegister l).2 :=
  h ▸ completesWithout_run _ _ _ _

theorem interruptedRegister_undone :
    RegistrationUndone .sample ⟨"a@b.co", "Passw0rd!", none, none⟩ { now := 0 }
      (interruptedRegister (.usersCreate "a@b.co")).2 :=
  (registration_interrupted (by simp) (interruptedRegister_fails (by decide +kernel))).mpr
    (.inr (.inr (by decide +kernel)))

/-- The same registration once more. -/
def repeatedRegister (l : Call) : Except Exn Response × World :=
  (program .sample (.register ⟨"a@b.co", "Passw0rd!", none, none⟩ ⟨none, none⟩)).run
    (interruptedRegister l).2

/-- The device cannot be stored; the row of the user stays, and the client that
repeats the registration is told that the address is taken. -/
theorem repeatedRegister_conflict :
    (∃ u tokens, ((program .sample (.register ⟨"a@b.co", "Passw0rd!", none, none⟩ ⟨none, none⟩)).run
      { now := 0 }).1 = .ok (.session u tokens)) ∧
    CompletesWithout .sample (.upsertDevice (unary 1)) (.error "connection lost")
      (.register ⟨"a@b.co", "Passw0rd!", none, none⟩ ⟨none, none⟩) { now := 0 }
      (.error (.error "connection lost")) (interruptedRegister (.upsertDevice (unary 1))).2 ∧
    (interruptedRegister (.upsertDevice (unary 1))).2.users.map (·.email) = ["a@b.co"] ∧
    Completes .sample (.register ⟨"a@b.co", "Passw0rd!", none, none⟩ ⟨none, none⟩)
      (interruptedRegister (.upsertDevice (unary 1))).2
      (.error (.conflict "An account with this email already exists"))
      (repeatedRegister (.upsertDevice (unary 1))).2 :=
  ⟨exists_session (by decide +kernel), interruptedRegister_fails (by decide +kernel),
    by decide +kernel, completes_of_run (by decide +kernel)⟩

end AtlasAuth

import AtlasAuth.Proof.Deeds

/-!
# What tokens, events and mails say of a user

An access token, a registration event and a mail each carry an address, and
the token of a link the user it was issued for. They outlive the state that
they were made from, and later requests trust them: the address of an access
token that is out of date is mailed a new link.

The address of a user changes only together with its verification. So an
address that was true of a user when it was written down is still true of it
unless the user has been verified since (`Addressed`), and in every state of
an interleaving this holds of every token, event and mail (`Traced`).
-/

namespace AtlasAuth

open Framework Framework.Table Prog

variable {env : Env} {L : Deed → Prop} {w w' : World}

/-! ## How the state goes on -/

/-- The user is who it was, and if it is not verified then it has never been,
and has the address that it had. -/
def User.Holds (u u' : User) : Prop :=
  u.SameIdentity u' ∧
    (u'.isEmailVerified = false → u.isEmailVerified = false ∧ u'.email = u.email)

theorem User.Holds.refl (u : User) : u.Holds u := ⟨.refl u, fun h => ⟨h, rfl⟩⟩

theorem User.Holds.trans (a b c : User) (h : a.Holds b) (h' : b.Holds c) : a.Holds c := by
  refine ⟨.trans a b c h.1 h'.1, fun hc => ?_⟩
  obtain ⟨hb, e'⟩ := h'.2 hc
  obtain ⟨ha, e⟩ := h.2 hb
  exact ⟨ha, e'.trans e⟩

def EmailVerificationToken.Keeps (t t' : EmailVerificationToken) : Prop :=
  t'.id = t.id ∧ t'.userId = t.userId ∧ t'.tokenHash = t.tokenHash ∧ t'.type = t.type ∧
    t'.newEmail = t.newEmail ∧ t'.expiresAt = t.expiresAt ∧
    (t.consumedAt.isSome = true → t'.consumedAt.isSome = true)

theorem EmailVerificationToken.Keeps.refl (t : EmailVerificationToken) : t.Keeps t :=
  ⟨rfl, rfl, rfl, rfl, rfl, rfl, fun h => h⟩

theorem EmailVerificationToken.Keeps.trans (a b c : EmailVerificationToken) (h : a.Keeps b)
    (h' : b.Keeps c) : a.Keeps c := by
  obtain ⟨h₁, h₂, h₃, h₄, h₅, h₆, h₇⟩ := h
  obtain ⟨h₁', h₂', h₃', h₄', h₅', h₆', h₇'⟩ := h'
  exact ⟨h₁'.trans h₁, h₂'.trans h₂, h₃'.trans h₃, h₄'.trans h₄, h₅'.trans h₅, h₆'.trans h₆,
    h₇' ∘ h₇⟩

theorem EmailVerificationToken.Keeps.consume (t : EmailVerificationToken) (now : Time) :
    t.Keeps { t with consumedAt := some now } :=
  ⟨rfl, rfl, rfl, rfl, rfl, rfl, fun _ => rfl⟩

/-- What holds between the state at some time and the state at any later time. -/
structure Onward (w w' : World) : Prop where
  drawn : w.drawn ≤ w'.drawn
  users : Evolves User.Holds w.users w'.users
  resets : Evolves PasswordResetToken.Keeps w.passwordResetTokens w'.passwordResetTokens
  emails : Evolves EmailVerificationToken.Keeps w.emailVerificationTokens w'.emailVerificationTokens

theorem Onward.refl (w : World) : Onward w w :=
  ⟨Nat.le_refl _, .refl User.Holds.refl _, .refl PasswordResetToken.Keeps.refl _,
    .refl EmailVerificationToken.Keeps.refl _⟩

instance : IsPreorder World Onward where
  refl := Onward.refl
  trans _ _ _ h h' :=
    ⟨h.drawn.trans h'.drawn, h.users.trans User.Holds.trans h'.users,
      h.resets.trans PasswordResetToken.Keeps.trans h'.resets,
      h.emails.trans EmailVerificationToken.Keeps.trans h'.emails⟩

theorem Onward.advance (d : Time) (w : World) : Onward w (w.advance d) := { Onward.refl w with }

theorem Does.holds (h : Does env L w w') : Evolves User.Holds w.users w'.users := by
  refine h.evolves (fun u u' e => ?_) fun _ _ _ => ⟨⟨rfl, rfl⟩, fun h => by simp at h⟩
  obtain ⟨hid, he, hv, hd⟩ := User.account_eq.mp e
  exact ⟨⟨hid, hd⟩, fun h => ⟨hv ▸ h, he⟩⟩

theorem Does.emails (h : Does env L w w') :
    Evolves EmailVerificationToken.Keeps w.emailVerificationTokens w'.emailVerificationTokens := by
  cases h with
  | aside h => exact h.emailVerificationTokens ▸ .refl EmailVerificationToken.Keeps.refl _
  | createEmail => exact .append EmailVerificationToken.Keeps.refl _ _
  | consumeEmails =>
    exact .updateWhere EmailVerificationToken.Keeps.refl (EmailVerificationToken.Keeps.consume · _) _
  | _ => exact .refl EmailVerificationToken.Keeps.refl _

theorem Does.onward (h : Does env L w w') : Onward w w' := ⟨h.drawn, h.holds, h.resets, h.emails⟩

theorem onward_program (r : Request) : (program env r).Always Onward :=
  (does_program r).mono fun _ _ => Does.onward

/-! ## What is said of users -/

/-- There is a user with this identifier. -/
def Enrolled (id : String) (w : World) : Prop := ∃ u ∈ w.users, u.id = id ∧ u.deletedAt = none

/-- There is a user with this identifier, and with this address unless it has
been verified. -/
def Addressed (id email : String) (w : World) : Prop :=
  ∃ u ∈ w.users, u.id = id ∧ u.deletedAt = none ∧ (u.isEmailVerified = false → u.email = email)

theorem Addressed.enrolled {id email : String} (h : Addressed id email w) : Enrolled id w := by
  obtain ⟨u, hu, hid, hd, -⟩ := h
  exact ⟨u, hu, hid, hd⟩

/-- A user that was read. -/
theorem Addressed.of_mem {u : User} (hu : u ∈ w.users) (hd : u.deletedAt = none) :
    Addressed u.id u.email w :=
  ⟨u, hu, rfl, hd, fun _ => rfl⟩

theorem Addressed.of_find? {q : User → Bool} {u : User}
    (h : w.users.find? (fun u => q u && u.deletedAt.isNone) = some u) :
    Addressed u.id u.email w := by
  obtain ⟨-, hd⟩ : q u = true ∧ u.deletedAt = none := by simpa using List.find?_some h
  exact .of_mem (List.mem_of_find?_eq_some h) hd

theorem Enrolled.onward {id : String} (ho : Onward w w') (h : Enrolled id w) : Enrolled id w' := by
  obtain ⟨u, hu, rfl, hd⟩ := h
  obtain ⟨u', hu', hk⟩ := ho.users.mem hu
  exact ⟨u', hu', hk.1.1, hk.1.2.trans hd⟩

theorem Addressed.onward {id email : String} (ho : Onward w w') (h : Addressed id email w) :
    Addressed id email w' := by
  obtain ⟨u, hu, rfl, hd, he⟩ := h
  obtain ⟨u', hu', hk⟩ := ho.users.mem hu
  refine ⟨u', hu', hk.1.1, hk.1.2.trans hd, fun hv => ?_⟩
  obtain ⟨hv', e⟩ := hk.2 hv
  exact e.trans (he hv')

/-- The address that a link proves, once its token is presented: the one that
it changes to, or the one of the user. -/
def EmailVerificationToken.Proves (t : EmailVerificationToken) (email : String) (w : World) : Prop :=
  match t.type with
  | .EMAIL_CHANGE => t.newEmail = some email
  | .REGISTRATION => Addressed t.userId email w

/-- The link in the mail was issued, and proves the address that the mail went
to. -/
def Mail.IsProof (env : Env) (m : Mail) (w : World) : Prop :=
  ∃ t ∈ w.emailVerificationTokens, t.tokenHash = env.sha256 m.token ∧ t.Proves m.recipient w

theorem Mail.IsProof.onward {m : Mail} (ho : Onward w w') (h : m.IsProof env w) :
    m.IsProof env w' := by
  obtain ⟨t, ht, hh, hp⟩ := h
  obtain ⟨t', ht', -, hu, hh', hty, hn, -⟩ := ho.emails.mem ht
  refine ⟨t', ht', hh'.trans hh, ?_⟩
  unfold EmailVerificationToken.Proves at hp ⊢
  rw [hty, hu, hn]
  split at hp
  · exact hp
  · exact hp.onward ho

/-- Every token, event and mail is about a user, and says of its address what
was true of it. -/
structure Traced (env : Env) (w : World) : Prop where
  signed : ∀ p ∈ w.signed, Addressed p.sub p.email w
  registered : ∀ u e c, .userRegistered u e c ∈ w.events → Addressed u e w
  resets : ∀ t ∈ w.passwordResetTokens, Enrolled t.userId w
  resetHash : Minted PasswordResetToken.tokenHash (env.sha256 ∘ env.randomBytes) w.drawn
    w.passwordResetTokens
  emails : ∀ t ∈ w.emailVerificationTokens, Enrolled t.userId w
  emailHash : Minted EmailVerificationToken.tokenHash (env.sha256 ∘ env.randomBytes) w.drawn
    w.emailVerificationTokens
  newEmail : ∀ t ∈ w.emailVerificationTokens, t.type = .EMAIL_CHANGE →
    ∃ e, t.newEmail = some (env.toLowerCase e)
  mailed : ∀ m ∈ w.outbox, m.kind ≠ .passwordReset → m.IsProof env w

theorem Traced.init (t : Time) : Traced env { now := t } :=
  ⟨nofun, nofun, nofun, .nil, nofun, .nil, nofun, nofun⟩

/-- A change that adds no token, event or mail. -/
theorem Traced.onward (h : Traced env w) (ho : Onward w w') (hs : w'.signed = w.signed)
    (hr : ∀ u e c, .userRegistered u e c ∈ w'.events → .userRegistered u e c ∈ w.events)
    (hres : ∀ t' ∈ w'.passwordResetTokens, ∃ t ∈ w.passwordResetTokens, t.Keeps t')
    (hem : ∀ t' ∈ w'.emailVerificationTokens, ∃ t ∈ w.emailVerificationTokens, t.Keeps t')
    (hm : w'.outbox = w.outbox) : Traced env w' where
  signed p hp := (h.signed p (hs ▸ hp)).onward ho
  registered u e c hu := (h.registered u e c (hr u e c hu)).onward ho
  resets t' ht' := by
    obtain ⟨t, ht, -, hu, -⟩ := hres t' ht'
    exact hu ▸ (h.resets t ht).onward ho
  resetHash t' ht' := by
    obtain ⟨t, ht, -, -, hh, -⟩ := hres t' ht'
    exact hh ▸ h.resetHash.mono ho.drawn t ht
  emails t' ht' := by
    obtain ⟨t, ht, -, hu, -⟩ := hem t' ht'
    exact hu ▸ (h.emails t ht).onward ho
  emailHash t' ht' := by
    obtain ⟨t, ht, -, -, hh, -⟩ := hem t' ht'
    exact hh ▸ h.emailHash.mono ho.drawn t ht
  newEmail t' ht' hty := by
    obtain ⟨t, ht, -, -, -, hty', hn, -⟩ := hem t' ht'
    exact hn ▸ h.newEmail t ht (hty' ▸ hty)
  mailed m hmem hk := (h.mailed m (hm ▸ hmem) hk).onward ho

/-! ## Single calls -/

section

theorem EmailVerificationToken.Keeps.same {rows : List EmailVerificationToken} :
    ∀ t' ∈ rows, ∃ t ∈ rows, t.Keeps t' :=
  fun t ht => ⟨t, ht, .refl t⟩

theorem PasswordResetToken.Keeps.same {rows : List PasswordResetToken} :
    ∀ t' ∈ rows, ∃ t ∈ rows, t.Keeps t' :=
  fun t ht => ⟨t, ht, .refl t⟩

theorem Traced.users (h : Traced env w) {us : List User} (hu : Evolves User.Holds w.users us) {n : Nat}
    (hn : w.drawn ≤ n) : Traced env { w with drawn := n, users := us } :=
  h.onward { Onward.refl w with drawn := hn, users := hu } rfl (fun _ _ _ h => h)
    PasswordResetToken.Keeps.same EmailVerificationToken.Keeps.same rfl

theorem Traced.consumeResets (h : Traced env w) (p : PasswordResetToken → Bool) (now : Time) :
    Traced env { w with passwordResetTokens :=
                          updateWhere p (fun t => { t with consumedAt := some now })
                            w.passwordResetTokens } :=
  h.onward { Onward.refl w with resets := .updateWhere .refl (.consume · now) _ } rfl
    (fun _ _ _ h => h) (fun _ => of_mem_updateWhere .refl (.consume · now))
    EmailVerificationToken.Keeps.same rfl

theorem consumeEmails_keeps (p : EmailVerificationToken → Bool) (now : Time) :
    ∀ t' ∈ updateWhere p (fun t => { t with consumedAt := some now }) w.emailVerificationTokens,
      ∃ t ∈ w.emailVerificationTokens, t.Keeps t' :=
  fun _ => of_mem_updateWhere .refl (.consume · now)

theorem Traced.consumeEmails (h : Traced env w) (p : EmailVerificationToken → Bool) (now : Time) :
    Traced env { w with emailVerificationTokens :=
                          updateWhere p (fun t => { t with consumedAt := some now })
                            w.emailVerificationTokens } :=
  h.onward { Onward.refl w with emails := .updateWhere .refl (.consume · now) _ } rfl
    (fun _ _ _ h => h) PasswordResetToken.Keeps.same (consumeEmails_keeps p now) rfl

/-- A change that adds no token, registration event or mail, whatever else it
does to links and accounts. -/
structure AddsNone (env : Env) (w w' : World) : Prop where
  traced : Traced env w → Traced env w'
  outbox : w'.outbox = w.outbox
  emails : ∀ t' ∈ w'.emailVerificationTokens, ∃ t ∈ w.emailVerificationTokens, t.Keeps t'

instance : Std.Refl (AddsNone env) := ⟨fun _ => ⟨fun h => h, rfl, EmailVerificationToken.Keeps.same⟩⟩

/-- A call of a request that adds no token, registration event or mail. -/
theorem Does.addsNone (h : Does env (fun d => d = .grant ∨ d = .withdraw) w w') :
    AddsNone env w w' := by
  have hout : w'.outbox = w.outbox := h.unsent fun k => by cases k <;> simp [MailKind.deed]
  have hres : ∀ t' ∈ w'.passwordResetTokens, ∃ t ∈ w.passwordResetTokens, t.Keeps t' :=
    h.passwordResetTokens (by simp) ▸ PasswordResetToken.Keeps.same
  have hem : ∀ t' ∈ w'.emailVerificationTokens, ∃ t ∈ w.emailVerificationTokens, t.Keeps t' :=
    h.emailVerificationTokens (by simp) ▸ EmailVerificationToken.Keeps.same
  exact ⟨fun ht => ht.onward h.onward (h.signed (by simp))
    (fun _ _ _ => h.registered (by simp)) hres hem hout, hout, hem⟩

theorem Traced.sign (h : Traced env w) {p : JwtPayload} (hp : Addressed p.sub p.email w) :
    Traced env { w with signed := w.signed ++ [p] } :=
  { h with
    signed := fun q hq => by
      rcases List.mem_append.mp hq with hq | hq
      · exact h.signed q hq
      · exact List.mem_singleton.mp hq ▸ hp }

theorem Traced.register (h : Traced env w) {u e : String} {c : RequestContext}
    (hu : Addressed u e w) : Traced env { w with events := w.events ++ [.userRegistered u e c] } :=
  { h with
    registered := fun u' e' c' h' => by
      rcases List.mem_append.mp h' with h' | h'
      · exact h.registered u' e' c' h'
      · cases List.mem_singleton.mp h'
        exact hu }

theorem Traced.send (h : Traced env w) {m : Mail} (hm : m.kind ≠ .passwordReset → m.IsProof env w) :
    Traced env { w with outbox := w.outbox ++ [m] } :=
  { h with
    mailed := fun m' hm' hk => by
      rcases List.mem_append.mp hm' with hm' | hm'
      · exact h.mailed m' hm' hk
      · obtain rfl := List.mem_singleton.mp hm'
        exact hm hk }

theorem Traced.createReset (h : Traced env w) {t : PasswordResetToken} (hu : Enrolled t.userId w)
    (hh : ∃ n < w.drawn, t.tokenHash = env.sha256 (env.randomBytes n)) :
    Traced env { w with drawn := w.drawn + 1, passwordResetTokens := w.passwordResetTokens ++ [t] } :=
  have h : Traced env { w with drawn := w.drawn + 1 } :=
    h.users (.refl User.Holds.refl _) (Nat.le_succ _)
  { h with
    resets := fun t' ht' => by
      rcases List.mem_append.mp ht' with ht' | ht'
      · exact h.resets t' ht'
      · exact List.mem_singleton.mp ht' ▸ hu
    resetHash := by
      obtain ⟨n, hn, e⟩ := hh
      exact h.resetHash.concat (Nat.le_refl _) (Nat.lt_succ_of_lt hn) e }

theorem Traced.createEmail (h : Traced env w) {t : EmailVerificationToken}
    (hu : Enrolled t.userId w) (hh : ∃ n < w.drawn, t.tokenHash = env.sha256 (env.randomBytes n))
    (hn : t.type = .EMAIL_CHANGE → ∃ e, t.newEmail = some (env.toLowerCase e)) :
    Traced env
      { w with drawn := w.drawn + 1, emailVerificationTokens := w.emailVerificationTokens ++ [t] } :=
  have h : Traced env { w with drawn := w.drawn + 1 } :=
    h.users (.refl User.Holds.refl _) (Nat.le_succ _)
  have ho : Onward { w with drawn := w.drawn + 1 }
      { w with drawn := w.drawn + 1, emailVerificationTokens := w.emailVerificationTokens ++ [t] } :=
    { Onward.refl _ with emails := .append EmailVerificationToken.Keeps.refl _ _ }
  { h with
    emails := fun t' ht' => by
      rcases List.mem_append.mp ht' with ht' | ht'
      · exact h.emails t' ht'
      · exact List.mem_singleton.mp ht' ▸ hu
    emailHash := by
      obtain ⟨n, hn, e⟩ := hh
      exact h.emailHash.concat (Nat.le_refl _) (Nat.lt_succ_of_lt hn) e
    newEmail := fun t' ht' hty => by
      rcases List.mem_append.mp ht' with ht' | ht'
      · exact h.newEmail t' ht' hty
      · obtain rfl := List.mem_singleton.mp ht'
        exact hn hty
    mailed := fun m hm hk => (h.mailed m hm hk).onward ho }

end

/-! ## Requests -/

/-- The state is traced, and has only gone on since each of the calls. -/
def Followed (env : Env) (log : List (Entry World Call)) (w : World) : Prop :=
  Traced env w ∧ ∀ x ∈ log, Onward x.before x.after ∧ Onward x.after w

/-- It held after one of the calls. -/
def Seen (N : World → Prop) (log : List (Entry World Call)) : Prop := ∃ x ∈ log, N x.after

theorem Seen.suffix {N : World → Prop} {log log' : List (Entry World Call)} (h : Seen N log)
    (hl : log <:+ log') : Seen N log' := by
  obtain ⟨x, hx, hN⟩ := h
  exact ⟨x, hl.subset hx, hN⟩

theorem Seen.now {N : World → Prop} {log : List (Entry World Call)} (h : Seen N log)
    (hN : ∀ w w', Onward w w' → N w → N w') (hf : Followed env log w) : N w := by
  obtain ⟨x, hx, h⟩ := h
  exact hN _ _ (hf.2 x hx).2 h

/-- The request has drawn this random value. -/
def DrawnIn (env : Env) (token : String) (log : List (Entry World Call)) : Prop :=
  ∃ x ∈ log, x.before.drawn < x.after.drawn ∧ token = env.randomBytes x.before.drawn

theorem DrawnIn.suffix {token : String} {log log' : List (Entry World Call)}
    (h : DrawnIn env token log) (hl : log <:+ log') : DrawnIn env token log' := by
  obtain ⟨x, hx, h⟩ := h
  exact ⟨x, hl.subset hx, h⟩

theorem DrawnIn.now {token : String} {log : List (Entry World Call)} (h : DrawnIn env token log)
    (hf : Followed env log w) : ∃ n < w.drawn, token = env.randomBytes n := by
  obtain ⟨x, hx, hlt, e⟩ := h
  exact ⟨_, Nat.lt_of_lt_of_le hlt (hf.2 x hx).2.drawn, e⟩

/-- A link that the call adds to the mails or to the table is a random value
that the request has drawn. -/
structure Sourced (env : Env) (log : List (Entry World Call)) (w w' : World) : Prop where
  mail : ∀ m ∈ w'.outbox, m ∈ w.outbox ∨ DrawnIn env m.token log
  email : ∀ t ∈ w'.emailVerificationTokens,
    (∃ t' ∈ w.emailVerificationTokens, t'.tokenHash = t.tokenHash) ∨
      ∃ token, t.tokenHash = env.sha256 token ∧ DrawnIn env token log

theorem Sourced.none {log : List (Entry World Call)} (hm : w'.outbox = w.outbox)
    (he : ∀ t' ∈ w'.emailVerificationTokens, ∃ t ∈ w.emailVerificationTokens, t.Keeps t') :
    Sourced env log w w' where
  mail m h := .inl (hm ▸ h)
  email t' h := by
    obtain ⟨t, ht, hk⟩ := he t' h
    exact .inl ⟨t, ht, hk.2.2.1.symm⟩

theorem Sourced.same {log : List (Entry World Call)} (hm : w'.outbox = w.outbox)
    (he : w'.emailVerificationTokens = w.emailVerificationTokens) : Sourced env log w w' :=
  .none hm (he ▸ EmailVerificationToken.Keeps.same)

/-- Each call of a program leaves the state traced and adds only links that the
program has drawn, and what it returns satisfies `M`. -/
def Traces {α : Type} (env : Env) (M : List (Entry World Call) → α → Prop) (p : App α)
    (log : List (Entry World Call)) : Prop :=
  p.Obeys (Followed env) (fun log' x => Traced env x.after ∧ Sourced env log' x.before x.after)
    (fun log' r => ∀ a, r = .ok a → M log' a) log

section

variable {α β : Type} {log : List (Entry World Call)} {M : List (Entry World Call) → β → Prop}
  {N : List (Entry World Call) → α → Prop}

theorem Traces.throw (e : Exn) : Traces env M (.throw e : App β) log := nofun

theorem Traces.ret {b : β} (h : M log b) : Traces env M (.ret b : App β) log := by
  rintro _ ⟨⟩
  exact h

theorem Traces.bind {p : App α} {k : α → App β} (hp : Traces env N p log)
    (hk : ∀ a log', N log' a → Traces env M (k a) log') : Traces env M (p >>= k) log := by
  refine obeys_bind.mpr (Obeys.mono hp (fun _ _ h => h) (fun _ _ h => h) fun log' r h => ?_)
  cases r with
  | ok a => exact hk a log' (h a rfl)
  | error e => exact nofun

theorem Traces.query {l : Call} {f : World → α} {k : α → App β}
    (h : ∀ w, Traced env w → Traces env M (k (f w)) (⟨l, w, w⟩ :: log)) :
    Traces env M (Prog.query l f >>= k) log :=
  Obeys.query_bind (fun _ => nofun) fun w hw => ⟨⟨hw.1, .same rfl rfl⟩, h w hw.1⟩

theorem Traces.atomic {l : Call} {f : World → Except Exn α × World}
    (h : ∀ w, Followed env log w → (Traced env (f w).2 ∧ Sourced env log w (f w).2) ∧
      ∀ a, (f w).1 = .ok a → N (⟨l, w, (f w).2⟩ :: log) a) : Traces env N (.atomic l f) log :=
  obeys_atomic.mpr ⟨h, fun _ => nofun⟩

theorem Traces.ite {c : Prop} [Decidable c] {p q : App β} (hp : c → Traces env M p log)
    (hq : ¬c → Traces env M q log) : Traces env M (if c then p else q) log := by
  split
  · exact hp ‹_›
  · exact hq ‹_›

theorem Traces.mono {M' : List (Entry World Call) → β → Prop} {p : App β} (h : Traces env M p log)
    (hM : ∀ log' b, M log' b → M' log' b) : Traces env M' p log :=
  Obeys.mono h (fun _ _ h => h) (fun _ _ h => h) fun _ _ h b e => hM _ _ (h b e)

/-- A program of which no call adds a token, a registration event or a mail. -/
theorem Traces.plain {p : App β} (hp : p.Always (Does env fun d => d = .grant ∨ d = .withdraw)) :
    Traces env (fun log' _ => log <:+ log') p log :=
  hp.guarantee (fun _ _ _ _ ha h =>
    ⟨h.addsNone.traced ha.1, .none h.addsNone.outbox h.addsNone.emails⟩) fun _ _ hl _ _ => hl

theorem Traces.seq {p : App α} {k : α → App β}
    (hp : p.Always (Does env fun d => d = .grant ∨ d = .withdraw))
    (hk : ∀ a log', log <:+ log' → Traces env M (k a) log') : Traces env M (p >>= k) log :=
  (Traces.plain hp).bind hk

/-! ### Access tokens -/

theorem traces_signAccessTokenForUser {u : User} (hu : Seen (Addressed u.id u.email) log)
    (sid : String) :
    Traces env (fun _ _ => True) (AuthService.signAccessTokenForUser env u sid) log := by
  refine Traces.query fun w _ => .seq does_randomUUID fun jti log₁ h₁ =>
    .seq always_ofExcept fun ttl log₂ h₂ => ?_
  have hu₂ := (hu.suffix (List.suffix_cons ..)).suffix (h₁.trans h₂)
  refine Traces.bind (N := fun _ _ => True) (.atomic fun w hw => ⟨?_, fun _ _ => trivial⟩)
    fun _ _ _ => .seq always_query fun _ _ _ => .ret trivial
  have haddr := hu₂.now (fun _ _ => Addressed.onward) hw
  dsimp only
  split
  · exact ⟨hw.1, .same rfl rfl⟩
  · exact ⟨hw.1.sign haddr, .same rfl rfl⟩

theorem traces_issueSession {u : User} (hu : Seen (Addressed u.id u.email) log)
    (c : RequestContext) : Traces env (fun _ _ => True) (AuthService.issueSession env u c) log := by
  refine Traces.seq (does_upsertDevice ..) fun d log₁ h₁ => ?_
  refine Traces.seq (does_of_made made_generateRefreshToken) fun t log₂ h₂ => ?_
  refine Traces.seq (does_createSession ..) fun s log₃ h₃ => ?_
  have hu₃ := hu.suffix ((h₁.trans h₂).trans h₃)
  refine (traces_signAccessTokenForUser hu₃ s.id).bind fun a log₄ _ => ?_
  exact Traces.seq does_randomUUID fun _ _ _ =>
    .seq (does_createRefreshToken ..) fun _ _ _ => .ret trivial

theorem traces_usersCreate (email hash : String) (first last : Option String) :
    Traces env (fun log' u => Seen (Addressed u.id u.email) log')
      (UsersRepository.create env email hash first last) log := by
  refine .atomic fun w hw => ?_
  dsimp only
  split
  · exact ⟨⟨hw.1, .same rfl rfl⟩, nofun⟩
  · refine ⟨⟨hw.1.users (.append User.Holds.refl _ _) (Nat.le_succ _), .same rfl rfl⟩, ?_⟩
    rintro u ⟨⟩
    exact ⟨_, List.mem_cons_self .., .of_mem (by simp) rfl⟩

theorem traces_register (dto : RegisterDto) (c : RequestContext) :
    Traces env (fun _ _ => True) (AuthService.register env dto c) log := by
  refine Traces.query fun w _ => .ite (fun _ => .throw _) fun _ => ?_
  refine Traces.seq (does_hash _) fun hash _ _ => ?_
  refine (traces_usersCreate _ hash _ _).bind fun u log₁ hu => ?_
  refine Traces.bind (N := fun log' _ => Seen (Addressed u.id u.email) log')
    (.atomic fun w hw => ⟨⟨hw.1.register (hu.now (fun _ _ => Addressed.onward) hw), .same rfl rfl⟩,
      fun _ _ => hu.suffix (List.suffix_cons ..)⟩) fun _ log₂ hu₂ => ?_
  exact (traces_issueSession hu₂ c).bind fun _ _ _ => .ret trivial

/-- A user that was looked up. -/
theorem seen_find? (l : Call) (log : List (Prog.Entry World Call)) {q : User → Bool} {u : User}
    (h : w.users.find? (fun u => q u && u.deletedAt.isNone) = some u) :
    Seen (Addressed u.id u.email) (⟨l, w, w⟩ :: log) :=
  ⟨_, List.mem_cons_self .., .of_find? h⟩

theorem traces_login (dto : LoginDto) (c : RequestContext) :
    Traces env (fun _ _ => True) (AuthService.login env dto c) log := by
  refine Traces.query fun w _ => ?_
  cases hu : w.users.find? fun u => u.email == env.toLowerCase dto.email && u.deletedAt.isNone with
  | none => exact Traces.seq (does_emit nofun) fun _ _ _ => .throw _
  | some u =>
    have hseen := seen_find? (.usersFindByEmail (env.toLowerCase dto.email)) log hu
    refine Traces.seq always_query fun now log₁ h₁ => .ite (fun _ => ?_) fun _ => ?_
    · exact Traces.seq (does_emit nofun) fun _ _ _ => .throw _
    refine Traces.seq (does_verify ..) fun ok log₂ h₂ => .ite (fun _ => ?_) fun _ => ?_
    · exact Traces.seq (does_of_made (made_registerFailedLoginAttempt trivial ..)) fun _ _ _ =>
        .seq (does_emit nofun) fun _ _ _ => .throw _
    refine Traces.seq (does_recordSuccessfulLogin _) fun _ log₃ h₃ => ?_
    refine (traces_issueSession (hseen.suffix ((h₁.trans h₂).trans h₃)) c).bind fun _ _ _ => ?_
    exact Traces.seq (does_emit nofun) fun _ _ _ => .ret trivial

theorem traces_rotate {u : User} (hu : Seen (Addressed u.id u.email) log) (t : RefreshToken)
    (s : Session) (c : RequestContext) :
    Traces env (fun _ _ => True) (AuthService.rotate env t s u c) log := by
  refine Traces.seq (does_of_made made_generateRefreshToken) fun _ log₁ h₁ => ?_
  refine Traces.seq (does_createRefreshToken ..) fun _ log₂ h₂ => ?_
  refine Traces.seq (does_revokeRefreshToken ..) fun _ log₃ h₃ => ?_
  refine Traces.seq (does_touchSession ..) fun _ log₄ h₄ => ?_
  have hu₄ := hu.suffix (((h₁.trans h₂).trans h₃).trans h₄)
  exact (traces_signAccessTokenForUser hu₄ s.id).bind fun _ _ _ =>
    .seq (does_emit nofun) fun _ _ _ => .ret trivial

theorem traces_refresh (token : String) (c : RequestContext) :
    Traces env (fun _ _ => True) (AuthService.refresh env token c) log := by
  refine Traces.query fun w _ => ?_
  cases w.refreshTokens.find? (·.tokenHash == TokenService.hashRefreshToken env token) with
  | none => exact .throw _
  | some t =>
    refine .ite (fun _ => ?_) fun _ => ?_
    · exact Traces.seq (does_revokeRefreshTokenFamily _) fun _ _ _ =>
        .seq (does_revokeSession _) fun _ _ _ =>
        .seq (does_emit nofun) fun _ _ _ => .throw _
    refine Traces.seq always_query fun _ _ _ => .ite (fun _ => .throw _) fun _ =>
      .query fun w _ => ?_
    cases w.sessions.find? (·.id == t.sessionId) with
    | none => exact .throw _
    | some s =>
      refine .ite (fun _ => .throw _) fun _ => .query fun w _ => ?_
      cases hu : w.users.find? fun u => u.id == t.userId && u.deletedAt.isNone with
      | none => exact .throw _
      | some u => exact traces_rotate (seen_find? _ _ hu) t s c

/-! ### Links -/

theorem traces_canActivate (bearer : JwtPayload) :
    Traces env (fun log' p => log <:+ log' ∧ p = bearer ∧ Seen (Addressed p.sub p.email) log')
      (JwtAuthGuard.canActivate bearer) log := by
  refine Traces.bind
    (N := fun log' p => log <:+ log' ∧ p = bearer ∧ Seen (Addressed p.sub p.email) log')
    (.atomic fun w hw => ?_) fun p log₁ ⟨h₁, hp, hs⟩ => ?_
  · split
    · rename_i h
      refine ⟨⟨hw.1, .same rfl rfl⟩, fun p hp => ?_⟩
      obtain rfl := Except.ok.inj hp
      have hmem : bearer ∈ w.signed := by simpa using (Bool.and_eq_true_iff.mp h).1
      exact ⟨List.suffix_cons .., rfl, _, List.mem_cons_self .., hw.1.signed _ hmem⟩
    · exact ⟨⟨hw.1, .same rfl rfl⟩, nofun⟩
  · refine Traces.seq always_query fun _ log₂ h₂ =>
      .seq always_query fun _ log₃ h₃ => .ite (fun _ => .throw _) fun _ => .ret ?_
    exact ⟨(h₁.trans h₂).trans h₃, hp, hs.suffix (h₂.trans h₃)⟩

/-- The user a link is issued for, its type, and the address it changes to. -/
def LinkIssued (env : Env) (u : String) (type : EmailTokenType) (n : Option String)
    (token : String) (w : World) : Prop :=
  ∃ t ∈ w.emailVerificationTokens, t.tokenHash = env.sha256 token ∧ t.userId = u ∧
    t.type = type ∧ t.newEmail = n

theorem traces_randomBytes :
    Traces env (fun log' token => log <:+ log' ∧ DrawnIn env token log') (randomBytes env) log := by
  refine .atomic fun w hw =>
    ⟨⟨hw.1.users (.refl User.Holds.refl _) (Nat.le_succ _), .same rfl rfl⟩, ?_⟩
  rintro _ ⟨⟩
  exact ⟨List.suffix_cons .., _, List.mem_cons_self .., Nat.lt_succ_self _, rfl⟩

theorem traces_issueToken {u : String} (hu : Seen (Enrolled u) log) {type : EmailTokenType}
    {n : Option String} (hn : type = .EMAIL_CHANGE → ∃ e, n = some (env.toLowerCase e)) :
    Traces env (fun log' token => log <:+ log' ∧ Seen (LinkIssued env u type n token) log' ∧
        DrawnIn env token log')
      (EmailVerificationService.issueToken env u type n) log := by
  refine Traces.bind (N := fun log' _ => log <:+ log')
    (.atomic fun w hw => ⟨⟨hw.1.consumeEmails _ _, .none rfl (consumeEmails_keeps _ _)⟩,
      fun _ _ => List.suffix_cons ..⟩) fun _ log₁ h₁ => ?_
  refine traces_randomBytes.bind fun token log₂ ⟨h₂, hd⟩ => ?_
  refine Traces.seq always_query fun now log₃ h₃ => ?_
  have h₁₃ := (h₁.trans h₂).trans h₃
  refine Traces.bind (N := fun log' _ => log <:+ log' ∧ Seen (LinkIssued env u type n token) log' ∧
    DrawnIn env token log') (.atomic fun w hw => ?_) fun _ _ h => .ret h
  split
  · exact ⟨⟨hw.1, .same rfl rfl⟩, nofun⟩
  · split
    · exact ⟨⟨hw.1, .same rfl rfl⟩, nofun⟩
    · have hu' := (hu.suffix h₁₃).now (fun _ _ => Enrolled.onward) hw
      have hd₃ := hd.suffix h₃
      obtain ⟨k, hk, e⟩ := hd₃.now hw
      refine ⟨⟨hw.1.createEmail hu' ⟨k, hk, e ▸ rfl⟩ hn, fun m hm => .inl hm, fun t ht => ?_⟩,
        fun _ _ => ⟨h₁₃.trans (List.suffix_cons ..), ?_, hd₃.suffix (List.suffix_cons ..)⟩⟩
      · rcases List.mem_append.mp ht with ht | ht
        · exact .inl ⟨t, ht, rfl⟩
        · exact .inr ⟨token, List.mem_singleton.mp ht ▸ rfl, hd₃⟩
      · exact ⟨_, List.mem_cons_self .., _, List.mem_append_right _ (List.mem_singleton_self _), rfl,
          rfl, rfl, rfl⟩

theorem sourced_send {m : Mail} (hd : DrawnIn env m.token log) :
    Sourced env log w { w with outbox := w.outbox ++ [m] } where
  mail m' hm' := by
    rcases List.mem_append.mp hm' with hm' | hm'
    · exact .inl hm'
    · exact .inr (List.mem_singleton.mp hm' ▸ hd)
  email t ht := .inl ⟨t, ht, rfl⟩

/-- The mail with a link that was issued. -/
theorem traces_send {u : String} {type : EmailTokenType} {n : Option String} {token email : String}
    {kind : MailKind} (ht : Seen (LinkIssued env u type n token) log)
    (hc : type = .EMAIL_CHANGE → n = some email)
    (hr : type = .REGISTRATION → Seen (Addressed u email) log) (hd : DrawnIn env token log) :
    Traces env (fun _ _ => True) (MailService.send email kind token) log := by
  refine .atomic fun w hw => ⟨⟨hw.1.send fun _ => ?_, sourced_send hd⟩, fun _ _ => trivial⟩
  have issued : LinkIssued env u type n token w := ht.now (fun w w' ho ⟨t, ht, h₁, h₂, h₃, h₄⟩ => by
    obtain ⟨t', ht', -, hu, hh, hty, hn, -⟩ := ho.emails.mem ht
    exact ⟨t', ht', hh.trans h₁, hu.trans h₂, hty.trans h₃, hn.trans h₄⟩) hw
  obtain ⟨t, hmem, hh, rfl, rfl, rfl⟩ := issued
  refine ⟨t, hmem, hh, ?_⟩
  unfold EmailVerificationToken.Proves
  split
  · exact hc ‹_›
  · exact (hr ‹_›).now (fun _ _ => Addressed.onward) hw

theorem traces_sendRegistrationVerification {u e : String} (hu : Seen (Addressed u e) log) :
    Traces env (fun _ _ => True) (EmailVerificationService.sendRegistrationVerification env u e)
      log := by
  refine Traces.seq always_query fun _ log₁ h₁ => .ite (fun _ => .throw _) fun _ => ?_
  have hu₁ := hu.suffix h₁
  have hex : Seen (Enrolled u) log₁ := hu₁.imp fun _ ⟨hx, h⟩ => ⟨hx, h.enrolled⟩
  refine Traces.bind (traces_issueToken hex nofun) fun token log₂ ⟨h₂, ht, hd⟩ => ?_
  exact traces_send ht nofun (fun _ => hu₁.suffix h₂) hd

theorem traces_requestEmailChange {u : String} (hu : Seen (Enrolled u) log) (e : String) :
    Traces env (fun _ _ => True) (EmailVerificationService.requestEmailChange env u e) log := by
  refine Traces.seq always_query fun _ log₁ h₁ => .ite (fun _ => .throw _) fun _ => ?_
  refine (traces_issueToken (hu.suffix h₁) fun _ => ⟨e, rfl⟩).bind fun token log₂ ⟨h₂, ht, hd⟩ => ?_
  exact traces_send ht (fun _ => rfl) nofun hd

theorem traces_requestReset (e : String) :
    Traces env (fun _ _ => True) (PasswordService.requestReset env e) log := by
  refine Traces.query fun w _ => ?_
  cases hu : w.users.find? fun u => u.email == env.toLowerCase e && u.deletedAt.isNone with
  | none => exact .ret trivial
  | some u =>
    have hseen := seen_find? (.usersFindByEmail (env.toLowerCase e)) log hu
    refine Traces.bind (N := fun log' _ => _ <:+ log')
      (.atomic fun w hw => ⟨⟨hw.1.consumeResets _ _, .same rfl rfl⟩, fun _ _ => List.suffix_cons ..⟩)
      fun _ log₁ h₁ => ?_
    refine traces_randomBytes.bind fun token log₂ ⟨h₂, hd⟩ => .seq always_query fun now log₃ h₃ => ?_
    have hd₃ := hd.suffix h₃
    refine Traces.bind (N := fun log' _ => log₃ <:+ log') (.atomic fun w hw => ?_) fun _ log₄ h₄ =>
      .atomic fun w hw => ⟨⟨hw.1.send fun h => absurd rfl h, sourced_send (hd₃.suffix h₄)⟩,
        fun _ _ => trivial⟩
    split
    · exact ⟨⟨hw.1, .same rfl rfl⟩, nofun⟩
    · split
      · exact ⟨⟨hw.1, .same rfl rfl⟩, nofun⟩
      · have hu' := (hseen.suffix ((h₁.trans h₂).trans h₃)).now (fun _ _ => Addressed.onward) hw
        obtain ⟨k, hk, e⟩ := hd₃.now hw
        exact ⟨⟨hw.1.createReset hu'.enrolled ⟨k, hk, e ▸ rfl⟩, .same rfl rfl⟩,
          fun _ _ => List.suffix_cons ..⟩

end

theorem Traces.of_always {α : Type} {p : App α} {log : List (Entry World Call)}
    (hp : p.Always (AddsNone env)) : Traces env (fun _ _ => True) p log :=
  hp.guarantee (fun _ _ _ _ ha h => ⟨h.traced ha.1, .none h.outbox h.emails⟩)
    fun _ _ _ _ _ => trivial

theorem addsNone_plain {α : Type} {p : App α}
    (h : p.Always (Does env fun d => d = .grant ∨ d = .withdraw)) : p.Always (AddsNone env) :=
  h.mono fun _ _ => Does.addsNone

theorem AddsNone.users {us : List User} (h : Evolves User.Holds w.users us) :
    AddsNone env w { w with users := us } :=
  ⟨fun hw => hw.users h (Nat.le_refl _), rfl, EmailVerificationToken.Keeps.same⟩

theorem addsNone_markEmailVerified (id : String) :
    (UsersRepository.markEmailVerified id).Always (AddsNone env) :=
  always_usersUpdate fun _ =>
    .users (.updateWhere User.Holds.refl (by exact fun _ => ⟨⟨rfl, rfl⟩, nofun⟩) _)

theorem addsNone_updateEmail (id email : String) :
    (UsersRepository.updateEmail id email).Always (AddsNone env) := by
  refine always_atomic.mpr fun w => ?_
  split
  · exact refl w
  · split
    · exact refl w
    · exact .users (.updateWhere User.Holds.refl (by exact fun _ => ⟨⟨rfl, rfl⟩, nofun⟩) _)

theorem addsNone_emailVerificationMarkConsumed (id : String) :
    (EmailVerificationRepository.markConsumed id).Always (AddsNone env) := by
  refine always_atomic.mpr fun w => ?_
  split
  · exact refl w
  · exact ⟨fun hw => hw.consumeEmails _ _, rfl, consumeEmails_keeps _ _⟩

theorem addsNone_passwordResetMarkConsumed (id : String) :
    (PasswordResetRepository.markConsumed id).Always (AddsNone env) := by
  refine always_atomic.mpr fun w => ?_
  split
  · exact refl w
  · exact ⟨fun hw => hw.consumeResets _ _, rfl, EmailVerificationToken.Keeps.same⟩

theorem addsNone_verify (token : String) (c : RequestContext) :
    (EmailVerificationService.verify env token c).Always (AddsNone env) := by
  refine .bind always_query fun record => ?_
  cases record with
  | none => trivial
  | some record =>
    refine .bind always_query fun _ => .ite (fun _ => trivial) fun _ => .bind always_query fun user => ?_
    cases user with
    | none => trivial
    | some user =>
      refine .bind ?_ fun _ => .bind (addsNone_emailVerificationMarkConsumed _) fun _ =>
        addsNone_plain (does_emit nofun)
      unfold EmailVerificationService.applyToken
      split
      · split
        · exact .bind always_query fun _ => .ite (fun _ => trivial) fun _ =>
            .bind (addsNone_updateEmail ..) fun _ => trivial
        · trivial
      · exact .bind (addsNone_markEmailVerified _) fun _ => trivial

theorem addsNone_resetPassword (token new : String) (c : RequestContext) :
    (PasswordService.resetPassword env token new c).Always (AddsNone env) := by
  refine .bind always_query fun record => ?_
  cases record with
  | none => trivial
  | some record =>
    exact .bind always_query fun _ => .ite (fun _ => trivial) fun _ =>
      .bind (addsNone_plain (does_hash _)) fun _ =>
      .bind (addsNone_plain (does_updatePassword ..)) fun _ =>
      .bind (addsNone_passwordResetMarkConsumed _) fun _ =>
      .bind (addsNone_plain (does_of_made (made_revokeAll trivial trivial ..))) fun _ =>
      addsNone_plain (does_emit nofun)

theorem traces_program (r : Request) : Traces env (fun _ _ => True) (program env r) [] := by
  have plain (h : ∀ d ∈ r.deeds, d = .grant ∨ d = .withdraw) :
      Traces env (fun _ _ => True) (program env r) [] :=
    (Traces.plain ((does_program r).mono fun w w' hd => hd.imp h)).mono fun _ _ _ => trivial
  cases r with
  | register dto c => exact (traces_register dto c).bind fun _ _ _ => .ret trivial
  | login dto c => exact (traces_login dto c).bind fun _ _ _ => .ret trivial
  | refresh cookie c =>
    refine Traces.bind (N := fun _ _ => True) ?_ fun _ _ _ => .ret trivial
    unfold AuthController.refresh
    split
    · exact traces_refresh _ c
    · exact .throw _
  | verifyEmail token c => exact .of_always (.bind (addsNone_verify token c) fun _ => trivial)
  | resetPassword token new c =>
    exact .of_always (.bind (addsNone_resetPassword token new c) fun _ => trivial)
  | forgotPassword e => exact (traces_requestReset e).bind fun _ _ _ => .ret trivial
  | resendVerification bearer =>
    refine Traces.bind (N := fun _ _ => True) ?_ fun _ _ _ => .ret trivial
    exact (traces_canActivate bearer).bind fun p log ⟨_, _, hs⟩ => traces_sendRegistrationVerification hs
  | requestEmailChange bearer e password =>
    refine Traces.bind (N := fun _ _ => True) ?_ fun _ _ _ => .ret trivial
    refine (traces_canActivate bearer).bind fun p log ⟨_, _, hs⟩ => ?_
    refine Traces.seq (does_of_made (made_assertPasswordMatches ..)) fun _ log' hl =>
      traces_requestEmailChange ?_ e
    exact (hs.suffix hl).imp fun _ ⟨hx, h⟩ => ⟨hx, h.enrolled⟩
  | userRegistered u e c =>
    refine Traces.bind (N := fun _ _ => True) ?_ fun _ _ _ => .ret trivial
    refine Traces.query fun w hw => .ite (fun he => ?_) fun _ => .ret trivial
    have hs : Seen (Addressed u e) [⟨.deliver, w, w⟩] :=
      ⟨_, List.mem_cons_self .., hw.registered u e c (by simpa using he)⟩
    refine obeys_handle.mpr (Obeys.mono (traces_sendRegistrationVerification hs) (fun _ _ h => h)
      (fun _ _ h => h) fun log' r h => ?_)
    cases r with
    | ok a => exact fun _ _ => trivial
    | error err => exact fun _ _ => trivial
  | _ => exact plain (by simp [Request.deeds])

/-! ## Interleavings -/

variable {P : AppPool}

theorem obeys_program_traced (r : Request) :
    (program env r).Obeys (Followed env)
      (fun log x => Traced env x.after ∧ Sourced env log x.before x.after) (fun _ _ => True) [] :=
  Obeys.mono (traces_program r) (fun _ _ h => h) (fun _ _ h => h) fun _ _ _ => trivial

structure TracedPool (env : Env) (P : AppPool) : Prop where
  traced : Traced env P.state
  onward : System.AllAlways Onward P
  obeys : System.ObeyFrom (fun _ => Followed env)
    (fun _ log x => Traced env x.after ∧ Sourced env log x.before x.after) (fun _ _ _ => True) 0 P

theorem TracedPool.followed (h : TracedPool env P) {th : AppThread} (hth : th ∈ P.threads) :
    Followed env th.log P.state :=
  ⟨h.traced, (h.onward th hth).2⟩

/-- In every state of an interleaving, every token, event and mail says of a
user what was true of it. -/
theorem Interleaving.traced {t : Time} (h : Interleaving env (.init t) P) : TracedPool env P := by
  refine h.invariant (I := TracedPool env) ⟨.init t, fun _ h => absurd h List.not_mem_nil,
    fun _ _ _ h => by cases h⟩ fun {P m P'} hI _ hs => ?_
  have hobeys := hI.obeys.step obeys_program_traced
    (fun i th _ hth => hI.followed (List.mem_of_getElem? hth)) hs
  refine ⟨?_, (hI.onward.step onward_program .advance hs).2, hobeys⟩
  rcases System.step_cases hs with ⟨_, _, rfl⟩ | ⟨i, r, log, l, next, eff, fail, -, hi, rfl⟩ |
    ⟨_, _, _, _, _, _, _, _, _, _, rfl⟩ | ⟨d, _, rfl⟩
  · exact hI.traced
  · exact (hI.obeys.call (Nat.zero_le i) hi (hI.followed (List.mem_of_getElem? hi))).1
  · exact hI.traced
  · exact { hI.traced with }

end AtlasAuth

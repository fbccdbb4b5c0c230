import AtlasAuth.Proof.Blacklist
import AtlasAuth.Proof.Redeemable

/-!
# Which mailbox can reset a password

A reset link is mailed to the address that its user has when it is requested,
and to no other. A verified change of that address leaves the links that are
outstanding alone: they reset the password from the mailbox of the former
address until they expire (`formerMailbox_resets`). So the mailbox of a link
that is accepted is the present one unless the address has been changed since
the link was requested (`reset_mailbox`).
-/

namespace AtlasAuth

open Framework Framework.Table Prog

variable {env : Env} {t : Time} {w w' : World} {x : Except Exn Response} {r : Request}
  {tr : List (Done Request World Exn Response)} {d : Done Request World Exn Response}

theorem History.indexed (h : History env { now := t } tr w) : Indexed env w :=
  h.of_run fun _ hr => Interleaving.indexed hr

theorem History.traced (h : History env { now := t } tr w) : Traced env w :=
  h.of_run fun _ hr => (Interleaving.traced hr).traced

/-! ## Addresses and mails -/

/-- The user is who it was, at the address that it had. -/
def User.SameAddress (u u' : User) : Prop := u'.id = u.id ∧ u'.email = u.email

theorem User.SameAddress.refl (u : User) : u.SameAddress u := ⟨rfl, rfl⟩

theorem User.SameAddress.trans (a b c : User) (h : a.SameAddress b) (h' : b.SameAddress c) :
    a.SameAddress c :=
  ⟨h'.1.trans h.1, h'.2.trans h.2⟩

/-- Every user keeps its address. -/
def SameAddresses (w w' : World) : Prop := Evolves User.SameAddress w.users w'.users

instance : IsPreorder World SameAddresses where
  refl _ := .refl User.SameAddress.refl _
  trans _ _ _ h h' := Evolves.trans User.SameAddress.trans h h'

theorem Does.sameAddresses {L : Deed → Prop} (h : Does env L w w') (hL : ¬L .address) :
    SameAddresses w w' := by
  refine h.evolves (fun u u' e => ?_) fun h => absurd h hL
  obtain ⟨hid, he, -⟩ := User.account_eq.mp e
  exact ⟨hid, he⟩

/-- The mails with a reset link. -/
def World.resetMails (w : World) : List Mail := w.outbox.filter (·.kind == .passwordReset)

theorem resetMails_eq (w : World) : w.resetMails = resetLinks.mails w :=
  congrArg (w.outbox.filter ·) (funext fun m => by cases m.kind <;> rfl)

/-! ## One request -/

/-- The request has verified a change of this user's address. -/
def VerifiesChange (env : Env) (d : Done Request World Exn Response) (u : String) : Prop :=
  ∃ token a, d.req.verifies = some token ∧ d.outcome = .ok a ∧
    ∃ l ∈ d.before.emailVerificationTokens, l.tokenHash = env.sha256 token ∧
      l.type = .EMAIL_CHANGE ∧ l.userId = u

theorem readdresses (hi : Indexed env w) (ht : Traced env w) (he : Completes env r w x w')
    (hx : Answered x) {u : User} (hu : u ∈ w.users) :
    ∃ u' ∈ w'.users, u'.id = u.id ∧ (u'.email = u.email ∨ VerifiesChange env ⟨r, w, x, w'⟩ u.id) := by
  by_cases hd : .address ∈ r.deeds
  · cases r with
    | verifyEmail token c =>
      obtain ⟨y, hy, rfl⟩ := exec_map.mp he
      have h := leaves_verify_redeems hi ht c y w' hy
      cases h with
      | refused hw =>
        obtain ⟨d, rfl⟩ := hw
        exact ⟨u, hu, rfl, .inl rfl⟩
      | redeemed _ _ hl _ htoken _ _ heffect =>
        obtain ⟨u', hu', hid, h⟩ := heffect u hu
        refine ⟨u', hu', hid, h.imp id fun ⟨hk, _⟩ => ?_⟩
        have hk' := Prod.ext_iff.mp hk
        exact ⟨token, .done, rfl, rfl, _, hl, htoken, hk'.2, hk'.1⟩
      | failed m => exact absurd rfl (hx m)
    | _ => simp [Request.deeds] at hd
  · have h : SameAddresses w w' := by
      refine Exec.always he ((does_program r).mono fun _ _ h => h.sameAddresses hd) ?_
      rintro w _ ⟨m, rfl⟩
      exact .refl User.SameAddress.refl _
    obtain ⟨u', hu', hid, hemail⟩ := h.mem hu
    exact ⟨u', hu', hid, .inl hemail⟩

/-- What a request does to reset links and their mails: it adds none, or one
of each. -/
inductive ResetTraffic (env : Env) (r : Request) (w w' : World) : Prop
  | kept
      (hrows : ∀ l' ∈ w'.passwordResetTokens,
        ∃ l ∈ w.passwordResetTokens, l.userId = l'.userId ∧ l.tokenHash = l'.tokenHash)
      (hm : w'.resetMails = w.resetMails) : ResetTraffic env r w w'
  | sent {email : String} {u : User} {k : Nat} (hr : r = .forgotPassword email) (hu : u ∈ w.users)
      (hk : w.drawn ≤ k) (hk' : k < w'.drawn)
      (hrows : ∀ l' ∈ w'.passwordResetTokens,
        (∃ l ∈ w.passwordResetTokens, l.userId = l'.userId ∧ l.tokenHash = l'.tokenHash) ∨
        l'.userId = u.id ∧ l'.tokenHash = env.sha256 (env.randomBytes k))
      (hm : w'.resetMails = w.resetMails ++ [⟨u.email, .passwordReset, env.randomBytes k⟩]) :
      ResetTraffic env r w w'

/-- An update that keeps what the links are. -/
theorem keptLinks_of_updateWhere {p : PasswordResetToken → Bool}
    {f : PasswordResetToken → PasswordResetToken}
    (hf : ∀ l, resetLinks.link (f l) = resetLinks.link l ∧ resetLinks.live (f l) = false) :
    ∀ l' ∈ updateWhere p f w.passwordResetTokens,
      ∃ l ∈ w.passwordResetTokens, l.userId = l'.userId ∧ l.tokenHash = l'.tokenHash :=
  fun _ => of_mem_updateWhere (K := fun l l' => l.userId = l'.userId ∧ l.tokenHash = l'.tokenHash)
    (fun _ => ⟨rfl, rfl⟩) fun l =>
      ⟨congrArg Link.key (hf l).1.symm, congrArg Link.token (hf l).1.symm⟩

theorem ResetIssued.traffic {email : String} {y : Except Exn Unit}
    (h : ResetIssued env False email w y w') (hy : ∀ m, y ≠ .error (.error m)) :
    ResetTraffic env (.forgotPassword email) w w' := by
  cases h with
  | unknown hw =>
    obtain ⟨d, rfl⟩ := hw
    exact .kept (fun l hl => ⟨l, hl, rfl, rfl⟩) rfl
  | refused => exact absurd rfl (hy _)
  | @issued u l token _ _ hu hl hi hm =>
    have hm := hm.resolve_right fun h => h.1
    obtain ⟨p, f, hf, -, hrows⟩ := hi.rows
    have hrows : w'.passwordResetTokens = updateWhere p f w.passwordResetTokens ++ [l] := hrows
    obtain ⟨k, hk, hk', rfl⟩ := hi.drawn
    refine .sent rfl (List.mem_of_find?_eq_some hu) hk hk' (fun l' hl' => ?_) ?_
    · rcases List.mem_append.mp (hrows ▸ hl') with hl' | hl'
      · exact .inl (keptLinks_of_updateWhere hf l' hl')
      · obtain rfl := List.mem_singleton.mp hl'
        exact .inr ⟨hl, hi.hash⟩
    · simp [World.resetMails, hm]

theorem resetTraffic (hi : Indexed env w) (ht : Traced env w) (he : Completes env r w x w')
    (hx : Answered x) : ResetTraffic env r w w' := by
  by_cases hd : .resetLink ∈ r.deeds
  · cases r with
    | forgotPassword email =>
      obtain ⟨y, hy, rfl⟩ := exec_map.mp he
      have hy' := hy.failing (F := fun _ => False)
      refine (ensuresFailing_requestReset nofun ht.resetHash email y w' hy').traffic ?_
      rintro m rfl
      exact hx m rfl
    | resetPassword token new c =>
      obtain ⟨y, hy, rfl⟩ := exec_map.mp he
      have hout : w'.outbox = w.outbox := outbox_unchanged (addsNone_resetPassword token new c) hy
      have hm : w'.resetMails = w.resetMails := by rw [World.resetMails, hout, World.resetMails]
      have h := leaves_resetPassword_redeems hi ht new c y w' hy
      cases h with
      | refused hw =>
        obtain ⟨d, rfl⟩ := hw
        exact .kept (fun l hl => ⟨l, hl, rfl, rfl⟩) hm
      | redeemed _ _ _ _ _ _ _ _ hrows =>
        obtain ⟨p, f, hf, -, e⟩ := hrows
        have e : w'.passwordResetTokens = updateWhere p f w.passwordResetTokens := e
        exact .kept (fun l hl => keptLinks_of_updateWhere hf l (e ▸ hl)) hm
      | failed m => exact absurd rfl (hx m)
    | _ => simp [Request.deeds] at hd
  · have he' := Exec.failing (F := (· = .sendMail)) he
    have hrows : w'.passwordResetTokens = w.passwordResetTokens :=
      rows_unchanged World.passwordResetTokens .resetLink (fun h => h.passwordResetTokens)
        (fun _ _ => rfl) hd he'
    have hmails : resetLinks.mails w' = resetLinks.mails w :=
      rows_unchanged resetLinks.mails .resetLink (fun h => h.mails resetLinks) (fun _ _ => rfl) hd he'
    exact .kept (fun l hl => ⟨l, hrows ▸ hl, rfl, rfl⟩) (by rw [resetMails_eq, hmails, resetMails_eq])

/-! ## Histories -/

/-- A request for a reset has mailed this token to the address that the user
`u` had, and nobody has mailed it anywhere else. The user still has that
address unless a change of it has been verified since. -/
def MailedFrom (env : Env) (tr : List (Done Request World Exn Response)) (w : World)
    (u token : String) : Prop :=
  ∃ tr₁ d tr₂ email, ∃ v ∈ d.before.users, tr = tr₁ ++ d :: tr₂ ∧ d.req = .forgotPassword email ∧
    v.id = u ∧ ⟨v.email, .passwordReset, token⟩ ∈ d.after.resetMails ∧
    (∀ m ∈ w.resetMails, m.token = token → m.recipient = v.email) ∧
    ∀ v' ∈ w.users, v'.id = u → v'.email = v.email ∨ ∃ d' ∈ tr₂, VerifiesChange env d' u

/-- Every reset link was mailed, and every mail carries a token that was drawn. -/
structure Mailed (env : Env) (tr : List (Done Request World Exn Response)) (w : World) : Prop where
  drawn : ∀ m ∈ w.resetMails, ∃ k < w.drawn, m.token = env.randomBytes k
  links : ∀ l ∈ w.passwordResetTokens,
    ∃ k < w.drawn, l.tokenHash = env.sha256 (env.randomBytes k) ∧
      MailedFrom env tr w l.userId (env.randomBytes k)

/-- A link that was there before the request. -/
theorem MailedFrom.done {u : String} {k : Nat} (h : MailedFrom env tr w u (env.randomBytes k))
    (hk : k < w.drawn) (hu : Enrolled u w) (hi : Indexed env w) (hi' : Indexed env w')
    (ht : Traced env w) (he : Completes env r w x w') (hx : Answered x)
    (htraffic : ResetTraffic env r w w') :
    MailedFrom env (tr ++ [⟨r, w, x, w'⟩]) w' u (env.randomBytes k) := by
  obtain ⟨tr₁, d, tr₂, email, v, hv, rfl, hreq, hvu, hmail, honly, haddr⟩ := h
  refine ⟨tr₁, d, tr₂ ++ [⟨r, w, x, w'⟩], email, v, hv, by simp, hreq, hvu, hmail, ?_, ?_⟩
  · cases htraffic with
    | kept _ hm => exact hm ▸ honly
    | sent _ _ hj _ _ hm =>
      intro m hmem htoken
      rcases List.mem_append.mp (hm ▸ hmem) with hmem | hmem
      · exact honly m hmem htoken
      · obtain rfl := List.mem_singleton.mp hmem
        have := env.randomBytes_injective htoken
        omega
  · intro v' hv' hid
    obtain ⟨u₀, hu₀, hid₀, -⟩ := hu
    obtain ⟨u', hu', hid', h⟩ := readdresses hi ht he hx hu₀
    obtain rfl := hi'.userId.eq hv' hu' (by rw [hid, hid', hid₀])
    rcases h with h | h
    · refine (haddr u₀ hu₀ hid₀).imp (h.trans ·) ?_
      rintro ⟨d', hd', hc⟩
      exact ⟨d', List.mem_append_left _ hd', hc⟩
    · exact .inr ⟨_, List.mem_append_right _ (List.mem_singleton_self _), hid₀ ▸ h⟩

/-- The link that the request has issued. -/
theorem mailedFrom_sent {email : String} {u : User} {k : Nat}
    (hd : ∀ m ∈ w.resetMails, ∃ k < w.drawn, m.token = env.randomBytes k)
    (hu : u ∈ w.users) (hk : w.drawn ≤ k) (hi : Indexed env w) (hi' : Indexed env w')
    (ht : Traced env w) (he : Completes env (.forgotPassword email) w x w') (hx : Answered x)
    (hm : w'.resetMails = w.resetMails ++ [⟨u.email, .passwordReset, env.randomBytes k⟩]) :
    MailedFrom env (tr ++ [⟨.forgotPassword email, w, x, w'⟩]) w' u.id (env.randomBytes k) := by
  refine ⟨tr, _, [], email, u, hu, rfl, rfl, rfl, ?_, fun m hmem htoken => ?_, fun v' hv' hid => ?_⟩
  · exact hm ▸ List.mem_append_right _ (List.mem_singleton_self _)
  · rcases List.mem_append.mp (hm ▸ hmem) with hmem | hmem
    · obtain ⟨j, hj, e⟩ := hd m hmem
      have := env.randomBytes_injective (e.symm.trans htoken)
      omega
    · rw [List.mem_singleton.mp hmem]
  · obtain ⟨u', hu', hid', h⟩ := readdresses hi ht he hx hu
    obtain rfl := hi'.userId.eq hv' hu' (hid.trans hid'.symm)
    rcases h with h | ⟨token, a, hr, -⟩
    · exact .inl h
    · cases hr

theorem Mailed.done (h : Mailed env tr w) (hi : Indexed env w) (hi' : Indexed env w')
    (ht : Traced env w) (hdrawn : w.drawn ≤ w'.drawn)
    (he : Completes env r w x w') (hx : Answered x) : Mailed env (tr ++ [⟨r, w, x, w'⟩]) w' := by
  have htraffic := resetTraffic hi ht he hx
  have hold (l' : PasswordResetToken)
      (hl : ∃ l ∈ w.passwordResetTokens, l.userId = l'.userId ∧ l.tokenHash = l'.tokenHash) :
      ∃ k < w'.drawn, l'.tokenHash = env.sha256 (env.randomBytes k) ∧
        MailedFrom env (tr ++ [⟨r, w, x, w'⟩]) w' l'.userId (env.randomBytes k) := by
    obtain ⟨l, hl, hu, hh⟩ := hl
    obtain ⟨k, hk, e, hm⟩ := h.links l hl
    refine ⟨k, hk.trans_le hdrawn, hh ▸ e, ?_⟩
    exact hu ▸ hm.done hk (ht.resets l hl) hi hi' ht he hx htraffic
  have hdrawn' (m : Mail) (hm : m ∈ w.resetMails) : ∃ k < w'.drawn, m.token = env.randomBytes k := by
    obtain ⟨k, hk, e⟩ := h.drawn m hm
    exact ⟨k, hk.trans_le hdrawn, e⟩
  cases htraffic with
  | kept hrows hm => exact ⟨hm ▸ hdrawn', fun l hl => hold l (hrows l hl)⟩
  | @sent email u k hr hu hk hk' hrows hm =>
    subst hr
    refine ⟨fun m hmem => ?_, fun l hl => ?_⟩
    · rcases List.mem_append.mp (hm ▸ hmem) with hmem | hmem
      · exact hdrawn' m hmem
      · exact ⟨k, hk', List.mem_singleton.mp hmem ▸ rfl⟩
    · rcases hrows l hl with hl | ⟨hlu, hh⟩
      · exact hold l hl
      · exact ⟨k, hk', hh, hlu ▸ mailedFrom_sent h.drawn hu hk hi hi' ht he hx hm⟩

theorem History.mailed (h : History env { now := t } tr w) : Mailed env tr w := by
  induction h with
  | nil => exact ⟨nofun, nofun⟩
  | env m _ ih => exact ⟨ih.drawn, ih.links⟩
  | done h he hx ih =>
    have h' := System.Trace.done h he hx
    exact ih.done (History.indexed h) (History.indexed h') (History.traced h)
      (completes_grows he).1.drawn he hx

/-- The mailbox of a reset link that is accepted. -/
theorem reset_mailbox (h : History env { now := t } tr w) {token : String} {a : Response}
    (hr : r.resets = some token) (he : Completes env r w (.ok a) w') :
    ∃ l ∈ w.passwordResetTokens, l.tokenHash = env.sha256 token ∧
      ∃ u ∈ w.users, u.id = l.userId ∧ MailedFrom env tr w u.id token := by
  obtain ⟨-, hred, -⟩ := resetLinks_served.redeems h.traced h.indexed hr he.failing
  cases hred with
  | redeemed _ _ hl _ hh =>
    obtain ⟨k, -, e, hm⟩ := h.mailed.links _ hl
    obtain ⟨u, hu, hid, -⟩ := h.traced.resets _ hl
    obtain rfl := env.sha256_injective (hh.symm.trans e)
    exact ⟨_, hl, hh, u, hu, hid, hid ▸ hm⟩

/-- A registration, a request for a reset, and then a change of the address,
which is verified. -/
def formerMailbox : List (Done Request World Exn Response) × World :=
  (system .sample).serve
    [(0, .register ⟨"a@b.co", "Passw0rd!", none, none⟩ ⟨none, none⟩), (1000, .forgotPassword "a@b.co"),
     (1000, .requestEmailChange firstToken "n@b.co" "Passw0rd!"),
     (1000, .verifyEmail (unary 10) ⟨none, none⟩)]
    { now := 0 }

theorem formerMailbox_mailedFrom :
    ∃ l ∈ formerMailbox.2.passwordResetTokens, l.tokenHash = Env.sample.sha256 (unary 8) ∧
      ∃ u ∈ formerMailbox.2.users, u.id = l.userId ∧
        MailedFrom .sample formerMailbox.1 formerMailbox.2 u.id (unary 8) := by
  have h : History .sample { now := 0 } formerMailbox.1 formerMailbox.2 :=
    history_serve (by decide +kernel)
  have hreset : Completes .sample (.resetPassword (unary 8) "N3wPass!" ⟨none, none⟩) formerMailbox.2
      (.ok .done) _ := completes_of_run (by decide +kernel)
  exact reset_mailbox h rfl hreset

/-- Every reset token that is accepted was mailed to the present address of
its user. -/
def PresentMailboxOnly (env : Env) (w : World) : Prop :=
  ∀ r token a w', r.resets = some token → Completes env r w (.ok a) w' →
    ∀ l ∈ w.passwordResetTokens, l.tokenHash = env.sha256 token → ∀ u ∈ w.users, u.id = l.userId →
      ⟨u.email, .passwordReset, token⟩ ∈ w.resetMails

theorem formerMailbox_resets :
    History .sample { now := 0 } formerMailbox.1 formerMailbox.2 ∧
      ¬PresentMailboxOnly .sample formerMailbox.2 := by
  refine ⟨history_serve (by decide +kernel), fun h => ?_⟩
  have hreset : Completes .sample (.resetPassword (unary 8) "N3wPass!" ⟨none, none⟩) formerMailbox.2
      (.ok .done) _ := completes_of_run (by decide +kernel)
  have hrow : ∃ l ∈ formerMailbox.2.passwordResetTokens,
      l.tokenHash = Env.sample.sha256 (unary 8) ∧ ∃ u ∈ formerMailbox.2.users, u.id = l.userId ∧
        (⟨u.email, .passwordReset, unary 8⟩ : Mail) ∉ formerMailbox.2.resetMails := by
    decide +kernel
  obtain ⟨l, hl, hh, u, hu, hid, hn⟩ := hrow
  exact hn (h _ _ _ _ rfl hreset l hl hh u hu hid)

end AtlasAuth

import AtlasAuth.Framework.Faulty
import AtlasAuth.Framework.Links
import AtlasAuth.Proof.Accounts
import AtlasAuth.Proof.Dates
import AtlasAuth.Proof.ResetOnce
import AtlasAuth.Proof.Verify

/-!
# Links that are issued and redeemed

Password resets and e-mail verifications each have a table of links
(`LinkTable`). A request that mails a link spends the live links of its key
and appends the new one, with the hash of a token that it has drawn and that
the mail carries (`Issues`); whatever becomes of the mail, the link is there. A
request that presents a token either finds that it cannot be redeemed, and is
refused with nothing changed but the time, or spends it (`Redemption`).
-/

namespace AtlasAuth

open Framework Framework.Table Prog

/-- A table of links: what each row says of its link, and whether it is live. -/
structure LinkTable (ρ κ π : Type) where
  rows : World → List ρ
  link : ρ → Link κ String π
  live : ρ → Bool
  /-- The token that a request presents. -/
  presents : Request → Option String
  /-- Whether the link can have its effect. -/
  free : Link κ String π → World → Prop
  /-- What is promised of a link that is issued. -/
  proper : Link κ String π → Prop
  /-- What its redemption does to users. -/
  effect : Link κ String π → World → World → Prop
  /-- How long a link lives, in minutes. -/
  minutes : Env → Nat
  /-- The kind of change that its mails belong to. -/
  deed : Deed
  /-- The mail is one for the link. -/
  carries : Link κ String π → World → Mail → Prop

/-- The links of `PasswordService`, one for each user. -/
def resetLinks : LinkTable PasswordResetToken String Unit where
  rows := World.passwordResetTokens
  link t := ⟨t.userId, t.tokenHash, t.expiresAt, ()⟩
  live t := t.consumedAt.isNone
  presents := Request.resets
  free _ _ := True
  proper _ := True
  effect _ _ _ := True
  minutes env := env.passwordResetMinutes
  deed := .resetLink
  carries l w m := m.kind = .passwordReset ∧ ∃ u ∈ w.users, u.id = l.key ∧ u.email = m.recipient

/-- The links of `EmailVerificationService`, one for each user and type. The
payload is the new address. -/
def emailLinks : LinkTable EmailVerificationToken (String × EmailTokenType) (Option String) where
  rows := World.emailVerificationTokens
  link t := ⟨(t.userId, t.type), t.tokenHash, t.expiresAt, t.newEmail⟩
  live t := t.consumedAt.isNone
  presents := Request.verifies
  free l w := l.key.2 = .EMAIL_CHANGE → ∀ u ∈ w.users, l.payload = some u.email → u.id = l.key.1
  proper l := l.key.2 = .EMAIL_CHANGE → ∃ e, l.payload = some e ∧ e ≠ ""
  effect l w w' := ∀ u ∈ w.users, ∃ u' ∈ w'.users, u'.id = u.id ∧
    (u'.email = u.email ∨ l.key = (u.id, .EMAIL_CHANGE) ∧ l.payload = some u'.email)
  minutes env := env.emailVerificationMinutes
  deed := .emailLink
  carries l _ m := l.key.2 = .REGISTRATION ∧ m.kind = .verification ∨
    l.key.2 = .EMAIL_CHANGE ∧ m.kind = .emailChange ∧ l.payload = some m.recipient

variable {env : Env} {w w' w'' : World}

theorem lapse_trans (h : (system env).lapse w w') (h' : (system env).lapse w' w'') :
    (system env).lapse w w'' := by
  obtain ⟨d, rfl⟩ := h
  obtain ⟨d', rfl⟩ := h'
  exact ⟨d + d', by simp [system, World.advance, Nat.add_assoc]⟩

theorem lapse_now (h : (system env).lapse w w') : w.now ≤ w'.now := by
  obtain ⟨d, rfl⟩ := h
  exact Nat.le_add_right _ _

/-- A call that succeeds, whatever time has passed. -/
theorem leaves_atomic {α : Type} {call : Call} {f : World → Except Exn α × World}
    {M : α → World → Prop} (h : ∀ d, ∃ a w', f (w.advance d) = (.ok a, w') ∧ M a w') :
    Leaves env (.atomic call f) w fun r w' => ∃ a, r = .ok a ∧ M a w' := by
  refine ensures_atomic.mpr ?_
  rintro _ ⟨d, rfl⟩
  obtain ⟨a, w', e, hM⟩ := h d
  show ∃ a', (f (w.advance d)).1 = .ok a' ∧ M a' (f (w.advance d)).2
  rw [e]
  exact ⟨a, rfl, hM⟩

/-- What a request leaves when the calls in `F` may fail. -/
abbrev Posts {α : Type} (F : Call → Prop) (env : Env) (p : App α) (w : World)
    (Q : Except Exn α → World → Prop) : Prop :=
  p.EnsuresFailing F (system env).lapse Q w

namespace LinkTable

variable {ρ κ π : Type} (T : LinkTable ρ κ π)

/-- The mails that carry links of the table. -/
def mails (w : World) : List Mail := w.outbox.filter (·.kind.deed == T.deed)

/-- A link that is issued at this time expires on a date that Prisma accepts. -/
def Dated (env : Env) (now : Time) : Prop := (JsDate.after now (minutesToMs (T.minutes env))).Accepted

/-- The row `r` is a new link with the hash of a token that was drawn, and the
live ones of its key are spent. -/
structure Creates (env : Env) (w w' : World) (r : ρ) (token : String) : Prop where
  live : T.live r = true
  proper : T.proper (T.link r)
  hash : (T.link r).token = env.sha256 token
  drawn : Drawn env.randomBytes w w' token
  expiry : ∃ now, w.now ≤ now ∧ now ≤ w'.now ∧
    (T.link r).expiresAt = now + T.minutes env * 60 * 1000
  rows : ∃ p f, (∀ r', T.link (f r') = T.link r' ∧ T.live (f r') = false) ∧
    (∀ r', p r' = true ↔ (T.link r').key = (T.link r).key ∧ T.live r' = true) ∧
    T.rows w' = updateWhere p f (T.rows w) ++ [r]

/-- The live links of the key are spent, a token is drawn, and the time read. -/
structure Prepares (env : Env) (key : κ) (token : String) (now : Time) (w w' : World) : Prop where
  drawn : Drawn env.randomBytes w w' token
  now : w.now ≤ now ∧ now ≤ w'.now
  users : w'.users = w.users
  outbox : w'.outbox = w.outbox
  rows : ∃ p f, (∀ r', T.link (f r') = T.link r' ∧ T.live (f r') = false) ∧
    (∀ r', p r' = true ↔ (T.link r').key = key ∧ T.live r' = true) ∧
    T.rows w' = updateWhere p f (T.rows w)

/-- The link is new, and its token was mailed, unless the provider has failed. -/
structure Issues (env : Env) (mayFail : Prop) (w w' : World) (r : ρ) (token : String) : Prop
    extends T.Creates env w w' r token where
  mail : mayFail ∧ T.mails w' = T.mails w ∨
    ∃ m, T.mails w' = T.mails w ++ [m] ∧ m.token = token ∧ T.carries (T.link r) w' m

/-- A link is issued, or nothing happens to the table and its mails. -/
def Renews (env : Env) (mayFail : Prop) (w w' : World) : Prop :=
  T.rows w' = T.rows w ∧ T.mails w' = T.mails w ∨ ∃ r token, T.Issues env mayFail w w' r token

/-- What happens to the token `x` that a request presents. -/
inductive Redemption {α : Type} (env : Env) (x : String) (w : World) : Except Exn α → World → Prop
  | refused {e : Exn} {s : Time} {w' : World} (hw : (system env).lapse w w') (h₁ : w.now ≤ s)
      (h₂ : s ≤ w'.now)
      (h : ∀ r ∈ T.rows w, T.live r = true → (T.link r).token = env.sha256 x →
        s ≤ (T.link r).expiresAt → T.proper (T.link r) → ¬T.free (T.link r) w) :
      Redemption env x w (.error e) w'
  | redeemed {a : α} {r : ρ} {s : Time} {w' : World} (h₁ : w.now ≤ s) (h₂ : s ≤ w'.now)
      (hr : r ∈ T.rows w) (hlive : T.live r = true) (hx : (T.link r).token = env.sha256 x)
      (hs : s ≤ (T.link r).expiresAt) (hfree : T.free (T.link r) w)
      (heffect : T.effect (T.link r) w w')
      (hrows : ∃ p f, (∀ r', T.link (f r') = T.link r' ∧ T.live (f r') = false) ∧
        (∀ r' ∈ T.rows w, p r' = true ↔ r' = r) ∧ T.rows w' = updateWhere p f (T.rows w)) :
      Redemption env x w (.ok a) w'
  | failed (m : String) {w' : World} : Redemption env x w (.error (.error m)) w'

variable {T}

theorem Dated.mono {n m : Time} (h : T.Dated env n) (hm : m ≤ n) : T.Dated env m :=
  accepted_minutes_of_le hm h

/-- The new link is made. -/
theorem Prepares.creates {key : κ} {token : String} {now : Time} {r : ρ}
    (h : T.Prepares env key token now w w') (hkey : (T.link r).key = key)
    (hhash : (T.link r).token = env.sha256 token)
    (hexp : (T.link r).expiresAt = now + T.minutes env * 60 * 1000) (hlive : T.live r = true)
    (hproper : T.proper (T.link r)) (hrows : T.rows w'' = T.rows w' ++ [r])
    (hd : w'.drawn ≤ w''.drawn) (hn : w'.now ≤ w''.now) : T.Creates env w w'' r token where
  live := hlive
  proper := hproper
  hash := hhash
  drawn := h.drawn.mono (Nat.le_refl _) hd
  expiry := ⟨now, h.now.1, h.now.2.trans hn, hexp⟩
  rows := by
    obtain ⟨p, f, hf, hp, e⟩ := h.rows
    exact ⟨p, f, hf, hkey ▸ hp, by rw [hrows, e]⟩

theorem Creates.issues {mayFail : Prop} {r : ρ} {token : String} (h : T.Creates env w w' r token)
    (hr : T.rows w'' = T.rows w') (hd : w'.drawn ≤ w''.drawn) (hn : w'.now ≤ w''.now)
    (hm : mayFail ∧ T.mails w'' = T.mails w ∨
      ∃ m, T.mails w'' = T.mails w ++ [m] ∧ m.token = token ∧ T.carries (T.link r) w'' m) :
    T.Issues env mayFail w w'' r token :=
  { h with
    drawn := h.drawn.mono (Nat.le_refl _) hd
    expiry := h.expiry.imp fun _ ⟨h₁, h₂, e⟩ => ⟨h₁, h₂.trans hn, e⟩
    rows := hr ▸ h.rows
    mail := hm }

theorem Renews.imp {mayFail mayFail' : Prop} (h : T.Renews env mayFail w w') (hf : mayFail → mayFail') :
    T.Renews env mayFail' w w' := by
  rcases h with h | ⟨r, token, h⟩
  · exact .inl h
  · exact .inr ⟨r, token, { h with mail := h.mail.imp (fun h => ⟨hf h.1, h.2⟩) id }⟩

/-- A part of the program before the link is issued. -/
theorem Renews.before {mayFail : Prop} (h : T.Renews env mayFail w' w'') (hr : T.rows w' = T.rows w)
    (hm : T.mails w' = T.mails w) (hd : w.drawn ≤ w'.drawn) (hn : w.now ≤ w'.now) :
    T.Renews env mayFail w w'' := by
  rcases h with ⟨h, h'⟩ | ⟨r, token, h⟩
  · exact .inl ⟨h.trans hr, h'.trans hm⟩
  · refine .inr ⟨r, token, { h with
      drawn := h.drawn.mono hd (Nat.le_refl _)
      expiry := h.expiry.imp fun _ ⟨h₁, h₂, e⟩ => ⟨hn.trans h₁, h₂, e⟩
      rows := hr ▸ h.rows
      mail := hm ▸ h.mail }⟩

/-- The token is that of a row that is spent, or has expired. -/
theorem Redemption.dead {α : Type} {x : String} {r : ρ} {e : Exn} (hw : (system env).lapse w w')
    (hx : ∀ r' ∈ T.rows w, (T.link r').token = env.sha256 x → r' = r)
    (hdead : ¬(T.live r = true ∧ w'.now ≤ (T.link r).expiresAt)) :
    T.Redemption env x w (.error e : Except Exn α) w' := by
  refine .refused hw (lapse_now hw) (Nat.le_refl _) fun r' hr' hlive hx' hle _ => ?_
  obtain rfl := hx r' hr' hx'
  exact absurd ⟨hlive, hle⟩ hdead

theorem Redemption.map {α β : Type} {x : String} {r : Except Exn α} (h : T.Redemption env x w r w')
    (g : α → β) : T.Redemption env x w (r.map g) w' := by
  cases h with
  | refused hw h₁ h₂ h => exact .refused hw h₁ h₂ h
  | redeemed h₁ h₂ hr hlive hx hs hfree heffect hrows =>
    exact .redeemed h₁ h₂ hr hlive hx hs hfree heffect hrows
  | failed m => exact .failed m

end LinkTable

/-! ## Password resets -/

section

/-- What a request for a reset leaves: nothing, if nobody has the address, or
else a link, unless its date of expiry is refused, and a mail with it, unless
the provider fails. -/
inductive ResetIssued (env : Env) (mayFail : Prop) (email : String) (w : World) :
    Except Exn Unit → World → Prop
  | unknown {w' : World} (hw : (system env).lapse w w')
      (hu : w.users.find? (fun u => u.email == env.toLowerCase email && u.deletedAt.isNone) = none) :
      ResetIssued env mayFail email w (.ok ()) w'
  | refused {m : String} {w' : World} (hd : ¬resetLinks.Dated env w'.now) :
      ResetIssued env mayFail email w (.error (.error m)) w'
  | issued {u : User} {t : PasswordResetToken} {token : String} {r : Except Exn Unit} {w' : World}
      (hu : w.users.find? (fun u => u.email == env.toLowerCase email && u.deletedAt.isNone) = some u)
      (ht : t.userId = u.id) (hi : resetLinks.Issues env mayFail w w' t token)
      (hm : w'.outbox = w.outbox ++ [⟨u.email, .passwordReset, token⟩] ∨
        mayFail ∧ w'.outbox = w.outbox) :
      ResetIssued env mayFail email w r w'

theorem ResetIssued.renews {mayFail : Prop} {email : String} {r : Except Exn Unit}
    (h : ResetIssued env mayFail email w r w') (hd : resetLinks.Dated env w'.now) :
    resetLinks.Renews env mayFail w w' := by
  cases h with
  | unknown hw =>
    obtain ⟨d, rfl⟩ := hw
    exact .inl ⟨rfl, rfl⟩
  | refused hn => exact absurd hd hn
  | issued _ _ hi => exact .inr ⟨_, _, hi⟩

theorem leaves_passwordResetCreate {u hash : String} {date : JsDate} {expiresAt : Time}
    (hd : Prisma.dateTime date = .ok expiresAt) (h : ∀ t ∈ w.passwordResetTokens, t.tokenHash ≠ hash) :
    Leaves env (PasswordResetRepository.create env u hash date) w fun r w' =>
      ∃ t, r = .ok t ∧ ∃ w₁, (system env).lapse w w₁ ∧
        (t.userId = u ∧ t.tokenHash = hash ∧ t.expiresAt = expiresAt ∧ t.consumedAt = none) ∧
        w' = { w₁ with drawn := w₁.drawn + 1, passwordResetTokens := w.passwordResetTokens ++ [t] } := by
  refine leaves_atomic fun d => ?_
  have hn : ¬(w.advance d).passwordResetTokens.any (·.tokenHash == hash) = true := by
    simpa [World.advance] using h
  simp only [hd, hn]
  exact ⟨_, _, rfl, _, ⟨d, rfl⟩, ⟨rfl, rfl, rfl, rfl⟩, rfl⟩

theorem leaves_passwordResetCreate_refused {u hash : String} {date : JsDate} {e : Exn}
    (hd : Prisma.dateTime date = .error e) :
    Leaves env (PasswordResetRepository.create env u hash date) w fun r w' =>
      r = .error e ∧ (system env).lapse w w' := by
  refine ensures_atomic.mpr fun w₁ h₁ => ?_
  rw [hd]
  exact ⟨rfl, h₁⟩

/-- The link is made, and mailed. -/
theorem ensuresFailing_sendReset {F : Call → Prop} (hF : ∀ l, F l → l = .sendMail) {email token : String}
    {u : User} {now : Time} {v : World}
    (hu : w.users.find? (fun u => u.email == env.toLowerCase email && u.deletedAt.isNone) = some u)
    (hv : resetLinks.Prepares env u.id token now w v)
    (hn : ∀ t ∈ v.passwordResetTokens, t.tokenHash ≠ env.sha256 token) :
    Prog.EnsuresFailing F (system env).lapse (ResetIssued env (F .sendMail) email w) (do
      let _ ← PasswordResetRepository.create env u.id (env.sha256 token)
        (JsDate.after now (minutesToMs env.passwordResetMinutes))
      MailService.send u.email .passwordReset token) v := by
  have hne {l : Call} (hl : l ≠ .sendMail) : ¬F l := fun h => hl (hF l h)
  obtain ⟨hd, -⟩ | ⟨hlate, m, hd⟩ := dateTime_minutes_cases now env.passwordResetMinutes
  · refine .bind_of_ok ((leaves_passwordResetCreate hd hn).failing (calls_atomic.mpr (hne nofun))) ?_
    rintro t _ ⟨w₁, h₁, ⟨hu', ht, hexp, hc⟩, rfl⟩
    refine .atomic fun w₂ h₂ => ?_
    have hn₁ := lapse_now h₁
    have hn₂ := lapse_now h₂
    obtain ⟨d₁, rfl⟩ := h₁
    obtain ⟨d₂, rfl⟩ := h₂
    have hcreates : resetLinks.Creates env w ((system env).env d₂ { (system env).env d₁ v with
        drawn := v.drawn + 1, passwordResetTokens := v.passwordResetTokens ++ [t] }) t token :=
      hv.creates hu' ht hexp (by simp [resetLinks, hc]) trivial rfl (Nat.le_succ _) (hn₁.trans hn₂)
    have hmem : u ∈ v.users := hv.users ▸ List.mem_of_find?_eq_some hu
    refine ⟨.issued hu hu' (hcreates.issues rfl (Nat.le_refl _) (Nat.le_refl _) (.inr ?_)) (.inl ?_),
      fun hf _ => .issued hu hu' (hcreates.issues rfl (Nat.le_refl _) (Nat.le_refl _) (.inl ⟨hf, ?_⟩))
        (.inr ⟨hf, hv.outbox⟩)⟩
    · refine ⟨⟨u.email, .passwordReset, token⟩, ?_, rfl, rfl, u, hmem, hu'.symm, rfl⟩
      show (v.outbox ++ _).filter _ = _
      rw [hv.outbox, List.filter_append]
      rfl
    · exact congrArg (· ++ _) hv.outbox
    · exact congrArg (List.filter _) hv.outbox
  · refine .bind ((leaves_passwordResetCreate_refused hd).failing (calls_atomic.mpr (hne nofun)))
      (fun _ _ h => nomatch h.1) ?_
    rintro _ w' ⟨⟨⟩, h₁⟩
    refine .refused fun hdated => absurd (accepted_minutes.mp (hdated.mono ?_)) (Nat.not_le_of_lt hlate)
    exact hv.now.2.trans (lapse_now h₁)

theorem ensuresFailing_requestReset {F : Call → Prop} (hF : ∀ l, F l → l = .sendMail)
    (hh : Minted PasswordResetToken.tokenHash (env.sha256 ∘ env.randomBytes) w.drawn
      w.passwordResetTokens) (email : String) :
    (PasswordService.requestReset env email).EnsuresFailing F (system env).lapse
      (ResetIssued env (F .sendMail) email w) w := by
  have hne {l : Call} (hl : l ≠ .sendMail) : ¬F l := fun h => hl (hF l h)
  refine .query_bind (hne nofun) fun w₁ h₁ => ?_
  cases hu : w₁.users.find? fun u => u.email == env.toLowerCase email && u.deletedAt.isNone with
  | none =>
    have h₁' := h₁
    obtain ⟨d₁, rfl⟩ := h₁
    exact ensuresFailing_ret.mpr (.unknown h₁' hu)
  | some u =>
    refine .atomic_bind (hne nofun) fun w₂ h₂ => .atomic_bind (hne nofun) fun w₃ h₃ =>
      .query_bind (hne nofun) fun w₄ h₄ => ?_
    have hn₃ := lapse_now h₃
    have hn₄ := lapse_now h₄
    have hn : w.now ≤ w₄.now := (lapse_now h₁).trans ((lapse_now h₂).trans (hn₃.trans hn₄))
    obtain ⟨d₁, rfl⟩ := h₁
    obtain ⟨d₂, rfl⟩ := h₂
    obtain ⟨d₃, rfl⟩ := h₃
    obtain ⟨d₄, rfl⟩ := h₄
    refine ensuresFailing_sendReset hF hu ⟨?_, ⟨hn, Nat.le_refl _⟩, rfl, rfl, _, _, ?_, ?_, rfl⟩ ?_
    · exact ⟨_, Nat.le_refl _, Nat.lt_succ_self _, rfl⟩
    · exact fun _ => ⟨rfl, rfl⟩
    · exact fun _ => by simp [resetLinks]
    · refine forall_updateWhere (fun t ht => ?_) fun _ _ h => h
      exact hh.ne (env.sha256_injective.comp env.randomBytes_injective) ht (Nat.le_refl _)

end

/-! ## E-mail verifications -/

section

variable {u : String} {type : EmailTokenType} {n : Option String} {F : Call → Prop}

theorem leaves_emailVerificationCreate {hash : String} {date : JsDate} {expiresAt : Time}
    (hd : Prisma.dateTime date = .ok expiresAt)
    (h : ∀ t ∈ w.emailVerificationTokens, t.tokenHash ≠ hash) :
    Leaves env (EmailVerificationRepository.create env u hash type n date) w fun r w' =>
      ∃ t, r = .ok t ∧ ∃ w₁, (system env).lapse w w₁ ∧
        ((t.userId = u ∧ t.type = type ∧ t.newEmail = n) ∧ t.tokenHash = hash ∧
          t.expiresAt = expiresAt ∧ t.consumedAt = none) ∧
        w' = { w₁ with drawn := w₁.drawn + 1,
                       emailVerificationTokens := w.emailVerificationTokens ++ [t] } := by
  refine leaves_atomic fun d => ?_
  have hn : ¬(w.advance d).emailVerificationTokens.any (·.tokenHash == hash) = true := by
    simpa [World.advance] using h
  simp only [hd, hn]
  exact ⟨_, _, rfl, _, ⟨d, rfl⟩, ⟨⟨rfl, rfl, rfl⟩, rfl, rfl, rfl⟩, rfl⟩

theorem leaves_emailVerificationCreate_refused {hash : String} {date : JsDate} {e : Exn}
    (hd : Prisma.dateTime date = .error e) :
    Leaves env (EmailVerificationRepository.create env u hash type n date) w fun r w' =>
      r = .error e ∧ (system env).lapse w w' := by
  refine ensures_atomic.mpr fun w₁ h₁ => ?_
  rw [hd]
  exact ⟨rfl, h₁⟩

/-- The hashes of the tokens that were drawn. -/
def EmailHashes (env : Env) (w : World) : Prop :=
  Minted EmailVerificationToken.tokenHash (env.sha256 ∘ env.randomBytes) w.drawn
    w.emailVerificationTokens

/-- A token is made, with no mail yet, if its date of expiry is accepted. -/
theorem leaves_issueToken (hh : EmailHashes env w)
    (hn : type = .EMAIL_CHANGE → ∃ e, n = some e ∧ e ≠ "") :
    Leaves env (EmailVerificationService.issueToken env u type n) w fun r w' =>
      emailLinks.Dated env w'.now → ∃ token, r = .ok token ∧ w'.outbox = w.outbox ∧
        ∃ t, (t.type = type ∧ t.newEmail = n) ∧ emailLinks.Creates env w w' t token := by
  refine .atomic_bind fun w₁ h₁ => .atomic_bind fun w₂ h₂ => .query_bind fun w₃ h₃ => ?_
  have hn₂ := lapse_now h₂
  have hn₃ := lapse_now h₃
  have hnow : w.now ≤ w₃.now := (lapse_now h₁).trans (hn₂.trans hn₃)
  obtain ⟨hd, -⟩ | ⟨hlate, m, hd⟩ := dateTime_minutes_cases w₃.now env.emailVerificationMinutes
  · obtain ⟨d₁, rfl⟩ := h₁
    obtain ⟨d₂, rfl⟩ := h₂
    obtain ⟨d₃, rfl⟩ := h₃
    refine (leaves_emailVerificationCreate hd ?_).bind_of_ok ?_
    · refine forall_updateWhere (fun t ht => ?_) fun _ _ h => h
      exact hh.ne (env.sha256_injective.comp env.randomBytes_injective) ht (Nat.le_refl _)
    rintro t _ ⟨_, h₄, ⟨⟨hu, hty, hnew⟩, ht, hexp, hc⟩, rfl⟩
    have hn₄ := lapse_now h₄
    obtain ⟨d₄, rfl⟩ := h₄
    refine ensures_ret.mpr fun _ => ⟨_, rfl, rfl, t, ⟨hty, hnew⟩, ?_⟩
    have hkey : (emailLinks.link t).key = (u, type) := Prod.ext hu hty
    refine LinkTable.Prepares.creates (w := w) ⟨?_, ⟨hnow, Nat.le_refl _⟩, rfl, rfl, _, _, ?_, ?_, rfl⟩
      hkey ht hexp (by simp [emailLinks, hc]) ?_ rfl (Nat.le_succ _) hn₄
    · exact ⟨_, Nat.le_refl _, Nat.lt_succ_self _, rfl⟩
    · exact fun _ => ⟨rfl, rfl⟩
    · exact fun _ => by simp [emailLinks, and_assoc]
    · intro e
      obtain ⟨a, ha, hne⟩ := hn (hty.symm.trans e)
      exact ⟨a, hnew.trans ha, hne⟩
  · refine (leaves_emailVerificationCreate_refused hd).bind (fun _ _ h => nomatch h.1) ?_
    rintro _ w' ⟨⟨⟩, h₄⟩ hdated
    exact absurd (accepted_minutes.mp (hdated.mono (lapse_now h₄))) (Nat.not_le_of_lt hlate)

theorem calls_issueToken {L : Call → Prop} (h₁ : ∀ u, L (.emailVerificationInvalidateOutstanding u))
    (h₂ : L .randomBytes) (h₃ : L .dateNow) (h₄ : ∀ u, L (.emailVerificationCreate u)) :
    (EmailVerificationService.issueToken env u type n).Calls L :=
  .bind (calls_atomic.mpr (h₁ _)) fun _ => .bind (calls_atomic.mpr h₂) fun _ =>
    .bind (calls_query.mpr h₃) fun _ => .bind (calls_atomic.mpr (h₄ _)) fun _ => trivial

/-- What a request that issues an e-mail link leaves, if the date of expiry is
accepted. -/
abbrev PostsLink {α : Type} (F : Call → Prop) (env : Env) (p : App α) (w : World) : Prop :=
  Posts F env p w fun _ w' => emailLinks.Dated env w'.now → emailLinks.Renews env (F .sendMail) w w'

/-- A link, and a mail with it unless the provider fails. -/
theorem posts_issueAndSend (hF : ∀ l, F l → l = .sendMail) (hh : EmailHashes env w)
    {recipient : String} {kind : MailKind}
    (hn : type = .REGISTRATION ∧ kind = .verification ∨
      type = .EMAIL_CHANGE ∧ kind = .emailChange ∧ n = some recipient ∧ recipient ≠ "") :
    PostsLink F env (do
      let token ← EmailVerificationService.issueToken env u type n
      MailService.send recipient kind token) w := by
  have hnew : type = .EMAIL_CHANGE → ∃ e, n = some e ∧ e ≠ "" := by
    rintro rfl
    obtain ⟨h, -⟩ | ⟨-, -, h, he⟩ := hn
    · cases h
    · exact ⟨recipient, h, he⟩
  have hne {l : Call} (hl : l ≠ .sendMail) : ¬F l := fun h => hl (hF l h)
  have hcalls : (EmailVerificationService.issueToken env u type n).Calls fun l => ¬F l :=
    calls_issueToken (fun _ => hne nofun) (hne nofun) (hne nofun) fun _ => hne nofun
  refine .bind ((leaves_issueToken hh hnew).failing hcalls) ?_ ?_
  · intro token w₁ h
    refine .atomic fun w₂ h₂ => ?_
    have hn₂ := lapse_now h₂
    obtain ⟨d, rfl⟩ := h₂
    constructor
    · intro hdated
      obtain ⟨_, ⟨⟩, hout, t, ⟨hty, hnew⟩, hi⟩ := h (hdated.mono hn₂)
      refine .inr ⟨t, token, hi.issues rfl (Nat.le_refl _) hn₂
        (.inr ⟨⟨recipient, kind, token⟩, ?_, rfl, ?_⟩)⟩
      · have hkind : kind.deed = .emailLink := by
          obtain ⟨-, rfl⟩ | ⟨-, rfl, -⟩ := hn <;> rfl
        show (w₁.outbox ++ _).filter _ = w.outbox.filter _ ++ _
        simp [hout, emailLinks, hkind]
      · refine hn.imp (fun h => ⟨hty.trans h.1, h.2⟩) fun h => ?_
        exact ⟨hty.trans h.1, h.2.1, hnew.trans h.2.2.1⟩
    · intro hf e hdated
      obtain ⟨_, ⟨⟩, hout, t, -, hi⟩ := h (hdated.mono hn₂)
      exact .inr ⟨t, token,
        hi.issues rfl (Nat.le_refl _) hn₂ (.inl ⟨hf, congrArg (List.filter _) hout⟩)⟩
  · intro e w₁ h hdated
    obtain ⟨_, h, -⟩ := h hdated
    cases h

theorem posts_sendRegistrationVerification (hF : ∀ l, F l → l = .sendMail) (hh : EmailHashes env w)
    (u e : String) :
    PostsLink F env (EmailVerificationService.sendRegistrationVerification env u e) w := by
  refine .query_bind (fun h => nomatch hF _ h) fun w₁ h₁ => ?_
  have hn₁ := lapse_now h₁
  obtain ⟨d, rfl⟩ := h₁
  split
  · exact ensuresFailing_throw.mpr fun _ => .inl ⟨rfl, rfl⟩
  · exact (posts_issueAndSend hF (w := (system env).env d w) hh (.inl ⟨rfl, rfl⟩)).mono
      fun _ _ h hdated => (h hdated).before rfl rfl (Nat.le_refl _) hn₁

theorem posts_requestEmailChange (hF : ∀ l, F l → l = .sendMail) (hh : EmailHashes env w) (u : String)
    {e : String} (he : env.toLowerCase e ≠ "") :
    PostsLink F env (EmailVerificationService.requestEmailChange env u e) w := by
  refine .query_bind (fun h => nomatch hF _ h) fun w₁ h₁ => ?_
  have hn₁ := lapse_now h₁
  obtain ⟨d, rfl⟩ := h₁
  split
  · exact ensuresFailing_throw.mpr fun _ => .inl ⟨rfl, rfl⟩
  · exact (posts_issueAndSend hF (w := (system env).env d w) hh (.inr ⟨rfl, rfl, rfl, he⟩)).mono
      fun _ _ h hdated => (h hdated).before rfl rfl (Nat.le_refl _) hn₁

end

end AtlasAuth

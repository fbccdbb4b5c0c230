import AtlasAuth.Proof.Families
import AtlasAuth.Proof.Redemptions

/-!
# Exactly the outstanding links can be redeemed

A history of requests, during which the mail provider may fail, says which
links were issued and which tokens redeemed. A token that is presented is
accepted if and only if it is that of an outstanding link: one of the requests
has drawn it, stored its hash and mailed it (`LinkTable.IssuedBy`), as the last
one under its key, and it is not yet redeemed, not expired, and one whose effect
is possible. A token that is refused leaves everything as it was.
-/

namespace AtlasAuth

open Framework Framework.Table Prog

variable {env : Env} {t : Time} {w w' : World} {x : Except Exn Response} {r : Request}
  {tr : List (Done Request World Exn Response)}

/-! ## Histories -/

/-- What the validation of its body promises of a request: an address is not
empty. -/
def Request.Valid : Request → Prop
  | .requestEmailChange _ newEmail _ => newEmail ≠ ""
  | _ => True

/-- Whether a request sends a mail. -/
def Request.posts : Request → Bool
  | .forgotPassword _ | .resendVerification _ | .requestEmailChange .. | .userRegistered .. => true
  | _ => false

/-- Requests that complete one after the other, with no failure but of the
mail provider. -/
abbrev MailHistory (env : Env) (w : World) (tr : List (Done Request World Exn Response)) (w' : World) :
    Prop :=
  (system env).FailingTrace (· = .sendMail)
    (fun r x => r.Valid ∧ (r.posts = true ∨ Answered x)) w tr w'

theorem MailHistory.indexed (h : MailHistory env { now := t } tr w) : Indexed env w :=
  h.of_run fun _ hr => Interleaving.indexed hr

theorem MailHistory.traced (h : MailHistory env { now := t } tr w) : Traced env w :=
  h.of_run fun _ hr => (Interleaving.traced hr).traced

namespace LinkTable

variable {ρ κ π : Type} (T : LinkTable ρ κ π)

/-- The links that a request has issued, and the token that it has redeemed. -/
def events (env : Env) (d : Done Request World Exn Response) : List (LinkEvent κ String π) :=
  ((T.rows d.after).drop (T.rows d.before).length).map (fun r => .issued (T.link r)) ++
    match d.outcome with
    | .ok _ => (T.presents d.req).toList.map fun token => .redeemed (env.sha256 token)
    | .error _ => []

def history (env : Env) (tr : List (Done Request World Exn Response)) :
    List (LinkEvent κ String π) :=
  tr.flatMap (T.events env)

/-- The request has drawn the token, stored the link with its hash, and mailed
it. If it has not, then it has run into a failure, which was the mail
provider's. -/
def IssuedBy (env : Env) (d : Done Request World Exn Response) (l : Link κ String π)
    (token : String) : Prop :=
  ∃ r, T.link r = l ∧
    T.Issues env (¬Completes env d.req d.before d.outcome d.after) d.before d.after r token

/-- The token is that of an outstanding link, which has not expired and can
have its effect. -/
def Redeemable (env : Env) (tr : List (Done Request World Exn Response)) (w : World) (token : String)
    (now : Time) : Prop :=
  ∃ l, Outstanding (T.history env tr) l ∧ l.token = env.sha256 token ∧
    (∃ d ∈ tr, T.IssuedBy env d l token) ∧ now ≤ l.expiresAt ∧ T.free l w

/-- The mails with links of the table that a request has sent. -/
def sent (d : Done Request World Exn Response) : List Mail :=
  (T.mails d.after).drop (T.mails d.before).length

/-- What each request does to the table. -/
structure Served (env : Env) : Prop where
  init : ∀ t : Time, T.rows { now := t } = []
  lapse : ∀ m w, T.rows (w.advance m) = T.rows w
  minted : ∀ {w}, Traced env w →
    Minted (fun r => (T.link r).token) (env.sha256 ∘ env.randomBytes) w.drawn (T.rows w)
  renews : ∀ {F : Call → Prop} {r w x w'}, (∀ l, F l → l = .sendMail) → Traced env w → r.Valid →
    T.presents r = none → (program env r).ExecFailing F (system env).lapse w x w' →
    (r.posts = true → T.Dated env w'.now) → T.Renews env (F .sendMail) w w'
  redeems : ∀ {r w x w' token}, Traced env w → Indexed env w → T.presents r = some token →
    (program env r).ExecFailing (· = .sendMail) (system env).lapse w x w' →
    r.posts = false ∧ T.Redemption env token w x w' ∧ T.mails w' = T.mails w

/-- The table agrees with the history, its links are those that the requests
have issued, and so are the links in the mails. -/
structure Kept (env : Env) (tr : List (Done Request World Exn Response)) (w : World) : Prop where
  agrees : Agrees T.link T.live (T.rows w) (T.history env tr)
  proper : ∀ r ∈ T.rows w, T.proper (T.link r)
  issued : ∀ l, .issued l ∈ T.history env tr → ∃ d ∈ tr, ∃ token, T.IssuedBy env d l token
  sent : ∀ d ∈ tr, ∀ m ∈ T.sent d, ∃ l, T.IssuedBy env d l m.token ∧ T.carries l d.after m

variable {T}

/-- A link stays unmailed only if the mail provider has failed. -/
theorem Served.done (hT : T.Served env) (ht : Traced env w) (hv : r.Valid) (hr : T.presents r = none)
    (he : (program env r).ExecFailing (· = .sendMail) (system env).lapse w x w')
    (hd : r.posts = true → T.Dated env w'.now) : T.Renews env (¬Completes env r w x w') w w' := by
  by_cases hc : Completes env r w x w'
  · exact (hT.renews (F := fun _ => False) nofun ht hv hr hc.failing hd).imp nofun
  · exact (hT.renews (fun _ h => h) ht hv hr he hd).imp fun _ => hc

theorem Renews.step {mayFail : Prop} (hT : T.Served env) (ht : Traced env w)
    (h : T.Renews env mayFail w w') :
    LinkStep T.link T.live (T.rows w) (T.rows w')
      (((T.rows w').drop (T.rows w).length).map fun r => .issued (T.link r)) := by
  rcases h with ⟨h, -⟩ | ⟨r, token, hi⟩
  · rw [h, List.drop_length]
    exact .none
  · obtain ⟨p, f, hf, hp, e⟩ := hi.rows
    obtain ⟨k, hk, -, htoken⟩ := hi.drawn
    have hlen : (updateWhere p f (T.rows w)).length = (T.rows w).length := by simp [updateWhere]
    rw [e, ← hlen, List.drop_left]
    refine .issue hf hp hi.live fun r' hr' => ?_
    rw [hi.hash, htoken]
    exact (hT.minted ht).ne (env.sha256_injective.comp env.randomBytes_injective) hr' hk

/-- The links that a request has added are those that it has issued. -/
theorem Renews.issued {d : Done Request World Exn Response}
    (h : T.Renews env (¬Completes env d.req d.before d.outcome d.after) d.before d.after)
    {l : Link κ String π} (hl : .issued l ∈ T.events env d) : ∃ token, T.IssuedBy env d l token := by
  have hl : l ∈ ((T.rows d.after).drop (T.rows d.before).length).map T.link := by
    unfold events at hl
    rcases List.mem_append.mp hl with hl | hl
    · obtain ⟨r, hr, e⟩ := List.mem_map.mp hl
      exact List.mem_map.mpr ⟨r, hr, LinkEvent.issued.inj e⟩
    · split at hl
      · obtain ⟨_, -, e⟩ := List.mem_map.mp hl
        cases e
      · cases hl
  rcases h with ⟨h, -⟩ | ⟨r, token, hi⟩
  · rw [h, List.drop_length] at hl
    cases hl
  · obtain ⟨p, f, -, -, e⟩ := hi.rows
    have hlen : (updateWhere p f (T.rows d.before)).length = (T.rows d.before).length := by
      simp [updateWhere]
    rw [e, ← hlen, List.drop_left] at hl
    exact ⟨token, r, (List.mem_singleton.mp hl).symm, hi⟩

theorem Renews.sent {d : Done Request World Exn Response}
    (h : T.Renews env (¬Completes env d.req d.before d.outcome d.after) d.before d.after) {m : Mail}
    (hm : m ∈ T.sent d) : ∃ l, T.IssuedBy env d l m.token ∧ T.carries l d.after m := by
  have hnone (h : T.mails d.after = T.mails d.before) : m ∉ T.sent d := by
    rw [LinkTable.sent, h, List.drop_length]
    exact List.not_mem_nil
  rcases h with ⟨-, h⟩ | ⟨r, token, hi⟩
  · exact absurd hm (hnone h)
  · obtain ⟨-, h⟩ | ⟨m', h, rfl, hc⟩ := hi.mail
    · exact absurd hm (hnone h)
    · rw [LinkTable.sent, h, List.drop_left] at hm
      obtain rfl := List.mem_singleton.mp hm
      exact ⟨_, ⟨r, rfl, hi⟩, hc⟩

theorem Redemption.step {token : String} (h : T.Redemption env token w x w') (hx : Answered x)
    (hT : T.Served env) (hr : T.presents r = some token) :
    LinkStep T.link T.live (T.rows w) (T.rows w') (T.events env ⟨r, w, x, w'⟩) := by
  cases h with
  | refused hw =>
    obtain ⟨d, rfl⟩ := hw
    have hrows : T.rows ((system env).env d w) = T.rows w := hT.lapse d w
    simp only [events, hrows, List.drop_length]
    exact .none
  | redeemed _ _ hmem _ htoken _ _ _ hrows =>
    obtain ⟨p, f, hf, hp, e⟩ := hrows
    have hlen : (T.rows w').length = (T.rows w).length := by simp [e, updateWhere]
    simp only [events, ← hlen, List.drop_length, hr]
    show LinkStep _ _ _ _ [.redeemed (env.sha256 token)]
    rw [e, ← htoken]
    exact .redeem hf hmem hp
  | failed m => exact absurd rfl (hx m)

/-- A request that presents a token adds no links. -/
theorem Redemption.not_issued {token : String} (h : T.Redemption env token w x w') (hx : Answered x)
    (hT : T.Served env) (l : Link κ String π) : .issued l ∉ T.events env ⟨r, w, x, w'⟩ := by
  have hlen : (T.rows w').length = (T.rows w).length := by
    cases h with
    | refused hw =>
      obtain ⟨d, rfl⟩ := hw
      exact congrArg _ (hT.lapse d w)
    | redeemed _ _ _ _ _ _ _ _ hrows =>
      obtain ⟨p, f, -, -, e⟩ := hrows
      simp [e, updateWhere]
    | failed m => exact absurd rfl (hx m)
  unfold events
  simp only [← hlen, List.drop_length, List.map_nil, List.nil_append]
  intro hl
  split at hl
  · obtain ⟨_, -, e⟩ := List.mem_map.mp hl
    cases e
  · cases hl

theorem Kept.done (hk : T.Kept env tr w) (hT : T.Served env) (ht : Traced env w)
    (hi : Indexed env w) (hv : r.Valid ∧ (r.posts = true ∨ Answered x))
    (he : (program env r).ExecFailing (· = .sendMail) (system env).lapse w x w')
    (hd : r.posts = true → T.Dated env w'.now) : T.Kept env (tr ++ [⟨r, w, x, w'⟩]) w' := by
  have hproper (p : ρ → Bool) (f : ρ → ρ)
      (hf : ∀ r', T.link (f r') = T.link r' ∧ T.live (f r') = false) :
      ∀ r ∈ updateWhere p f (T.rows w), T.proper (T.link r) :=
    forall_updateWhere hk.proper fun r _ h => (hf r).1 ▸ h
  have hhist : T.history env (tr ++ [⟨r, w, x, w'⟩]) =
      T.history env tr ++ T.events env ⟨r, w, x, w'⟩ := by simp [history]
  have hissued (h : ∀ l, .issued l ∈ T.events env ⟨r, w, x, w'⟩ →
      ∃ token, T.IssuedBy env ⟨r, w, x, w'⟩ l token) (l : Link κ String π)
      (hl : .issued l ∈ T.history env (tr ++ [⟨r, w, x, w'⟩])) :
      ∃ d ∈ tr ++ [⟨r, w, x, w'⟩], ∃ token, T.IssuedBy env d l token := by
    rcases List.mem_append.mp (hhist ▸ hl) with hl | hl
    · exact (hk.issued l hl).imp fun _ h => ⟨List.mem_append_left _ h.1, h.2⟩
    · exact ⟨_, List.mem_append_right _ (List.mem_singleton_self _), h l hl⟩
  have hsent (h : ∀ m ∈ T.sent ⟨r, w, x, w'⟩, ∃ l, T.IssuedBy env ⟨r, w, x, w'⟩ l m.token ∧
      T.carries l w' m) : ∀ d ∈ tr ++ [⟨r, w, x, w'⟩], ∀ m ∈ T.sent d,
        ∃ l, T.IssuedBy env d l m.token ∧ T.carries l d.after m := by
    intro d hd
    rcases List.mem_append.mp hd with hd | hd
    · exact hk.sent d hd
    · exact List.mem_singleton.mp hd ▸ h
  cases hr : T.presents r with
  | none =>
    have h := hT.done ht hv.1 hr he hd
    have hevents : T.events env ⟨r, w, x, w'⟩ =
        ((T.rows w').drop (T.rows w).length).map fun r => .issued (T.link r) := by
      cases x <;> simp [events, hr]
    refine ⟨hhist ▸ hevents ▸ hk.agrees.step (h.step hT ht), ?_,
      hissued fun l hl => Renews.issued h hl, hsent fun m hm => Renews.sent h hm⟩
    rcases h with ⟨h, -⟩ | ⟨r₀, token, h⟩
    · exact h ▸ hk.proper
    · obtain ⟨p, f, hf, -, e⟩ := h.rows
      rw [e]
      intro r' hr'
      rcases List.mem_append.mp hr' with hr' | hr'
      · exact hproper p f hf r' hr'
      · exact List.mem_singleton.mp hr' ▸ h.proper
  | some token =>
    obtain ⟨hp, h, hm⟩ := hT.redeems ht hi hr he
    have hx : Answered x := hv.2.resolve_left (by simp [hp])
    refine ⟨hhist ▸ hk.agrees.step (h.step hx hT hr), ?_,
      hissued fun l hl => absurd hl (h.not_issued hx hT l), hsent fun m hsent => ?_⟩
    · cases h with
      | refused hw =>
        obtain ⟨d, rfl⟩ := hw
        exact hT.lapse d w ▸ hk.proper
      | redeemed _ _ _ _ _ _ _ _ hrows =>
        obtain ⟨p, f, hf, -, e⟩ := hrows
        exact e ▸ hproper p f hf
      | failed m => exact absurd rfl (hx m)
    · rw [LinkTable.sent, hm, List.drop_length] at hsent
      cases hsent

theorem Served.kept (hT : T.Served env) (h : MailHistory env { now := t } tr w)
    (hd : ∀ d ∈ tr, d.req.posts = true → T.Dated env d.after.now) : T.Kept env tr w := by
  induction h with
  | nil =>
    refine ⟨?_, ?_, fun _ hl => absurd hl List.not_mem_nil, fun _ hd => absurd hd List.not_mem_nil⟩
    · rw [hT.init t]
      exact Agrees.nil
    · rw [hT.init t]
      exact fun _ hr => absurd hr List.not_mem_nil
  | @env tr w m _ ih =>
    have ih := ih hd
    have hrows : T.rows ((system env).env m w) = T.rows w := hT.lapse m w
    refine ⟨?_, ?_, ih.issued, ih.sent⟩
    · rw [hrows]
      exact ih.agrees
    · rw [hrows]
      exact ih.proper
  | done h he hv ih =>
    refine (ih fun d hd' => hd d (List.mem_append_left _ hd')).done hT (MailHistory.traced h)
      (MailHistory.indexed h) hv he ?_
    exact hd _ (List.mem_append_right _ (List.mem_singleton_self _))

/-- A token is accepted if and only if it is redeemable, and one that is
refused has changed nothing but the time. -/
theorem Kept.redemption (hk : T.Kept env tr w) {token : String} (h : T.Redemption env token w x w')
    (hx : Answered x) :
    (∃ now, w.now ≤ now ∧ now ≤ w'.now ∧ ((∃ a, x = .ok a) ↔ T.Redeemable env tr w token now)) ∧
      ((∃ e, x = .error e) → (system env).lapse w w') := by
  cases h with
  | refused hw h₁ h₂ h =>
    refine ⟨⟨_, h₁, h₂, iff_of_false (by simp) ?_⟩, fun _ => hw⟩
    rintro ⟨l, ho, htoken, -, hs, hfree⟩
    obtain ⟨r, hr, hlive, rfl⟩ := hk.agrees.outstanding_iff.mp ho
    exact h r hr hlive htoken hs (hk.proper r hr) hfree
  | redeemed h₁ h₂ hr hlive htoken hs hfree _ _ =>
    refine ⟨⟨_, h₁, h₂, iff_of_true ⟨_, rfl⟩ ?_⟩, by simp⟩
    have ho := (hk.agrees.live _ hr).mp hlive
    obtain ⟨d, hd, token', r', hr', hi⟩ := hk.issued _ ho.mem
    obtain rfl : token' = token := env.sha256_injective (hi.hash.symm.trans (hr' ▸ htoken))
    exact ⟨_, ho, htoken, ⟨d, hd, r', hr', hi⟩, hs, hfree⟩
  | failed m => exact absurd rfl (hx m)

end LinkTable

/-! ## The two tables -/

section

variable {F : Call → Prop}

/-- The result of a request is that of its service. -/
theorem posts_map {α : Type} {p : App α} {a : α → Response} {Q : World → Prop}
    (h : Posts F env p w fun _ w' => Q w') :
    Posts F env (p >>= fun b => .ret (a b)) w fun _ w' => Q w' :=
  .bind h (fun _ _ hq => ensuresFailing_ret.mpr hq) fun _ _ hq => hq

/-- A request that neither issues nor redeems a link. -/
theorem rows_unchanged {γ : Type} (get : World → γ) (d : Deed)
    (hget : ∀ {L : Deed → Prop} {w w'}, Does env L w w' → ¬L d → get w' = get w)
    (hlapse : ∀ m w, get (w.advance m) = get w) (hd : d ∉ r.deeds)
    (he : (program env r).ExecFailing F (system env).lapse w x w') : get w' = get w := by
  refine he.keep get ((does_program r).mono fun _ _ h => hget h hd) ?_
  rintro w _ ⟨m, rfl⟩
  exact hlapse m w

/-- A call that sends no mail of the table. -/
theorem Does.mails {ρ κ π : Type} (T : LinkTable ρ κ π) {L : Deed → Prop} (h : Does env L w w')
    (hL : ¬L T.deed) : T.mails w' = T.mails w := by
  cases h with
  | aside h => rw [LinkTable.mails, h.outbox, LinkTable.mails]
  | send m hm =>
    have hk : m.kind.deed ≠ T.deed := fun e => hL (e ▸ hm)
    simp [LinkTable.mails, hk]
  | _ => rfl

/-- A request that sends no mail. -/
theorem outbox_unchanged {α : Type} {p : App α} {y : Except Exn α} (hp : p.Always (AddsNone env))
    (he : p.Exec (system env).lapse w y w') : w'.outbox = w.outbox :=
  leaves_keep World.outbox (hp.mono fun _ _ h => h.outbox) (fun _ _ => rfl) y w' he

theorem calls_resetPassword (token new : String) (c : RequestContext) :
    (PasswordService.resetPassword env token new c).Calls fun l => ¬l = .sendMail := by
  refine .bind (calls_query.mpr nofun) fun record => ?_
  cases record with
  | none => trivial
  | some record =>
    exact .bind (calls_query.mpr nofun) fun _ => .ite trivial
      (.bind (calls_atomic.mpr nofun) fun _ => .bind (calls_atomic.mpr nofun) fun _ =>
        .bind (calls_atomic.mpr nofun) fun _ => .bind (calls_revokeAll
          (fun _ => nofun) (fun _ => nofun) (fun _ => nofun) nofun ..) fun _ => calls_atomic.mpr nofun)

theorem resetLinks_served : resetLinks.Served env where
  init _ := rfl
  lapse _ _ := rfl
  minted h := h.resetHash
  renews {F r w x w'} hF ht _ hr he hdated := by
    by_cases hd : .resetLink ∈ r.deeds
    · cases r with
      | forgotPassword email =>
        exact posts_map ((ensuresFailing_requestReset hF ht.resetHash email).mono
          fun _ _ h => h.renews) _ _ he (hdated rfl)
      | resetPassword => cases hr
      | _ => simp [Request.deeds] at hd
    · exact .inl ⟨rows_unchanged World.passwordResetTokens .resetLink
        (fun h => h.passwordResetTokens) (fun _ _ => rfl) hd he,
        rows_unchanged resetLinks.mails .resetLink (fun h => h.mails resetLinks) (fun _ _ => rfl) hd he⟩
  redeems {r w x w' token} ht hi hr he := by
    cases r with
    | resetPassword token' new c =>
      obtain rfl : token' = token := Option.some.inj hr
      refine ⟨rfl, ?_⟩
      have hc : (program env (.resetPassword token' new c)).Calls fun l => ¬l = .sendMail :=
        .bind (calls_resetPassword ..) fun _ => trivial
      obtain ⟨y, hy, rfl⟩ := exec_map.mp (hc.execFailing.mp he)
      exact ⟨(leaves_resetPassword_redeems hi ht new c y w' hy).map _,
        congrArg (List.filter _) (outbox_unchanged (addsNone_resetPassword ..) hy)⟩
    | _ => cases hr

theorem calls_applyToken (t : EmailVerificationToken) (u : User) :
    (EmailVerificationService.applyToken t u).Calls fun l => ¬l = .sendMail := by
  unfold EmailVerificationService.applyToken
  split
  · split
    · exact .bind (calls_query.mpr nofun) fun _ => .ite trivial
        (.bind (calls_atomic.mpr nofun) fun _ => trivial)
    · trivial
  · exact .bind (calls_atomic.mpr nofun) fun _ => trivial

theorem calls_verifyEmail (token : String) (c : RequestContext) :
    (EmailVerificationService.verify env token c).Calls fun l => ¬l = .sendMail := by
  refine .bind (calls_query.mpr nofun) fun record => ?_
  cases record with
  | none => trivial
  | some record =>
    refine .bind (calls_query.mpr nofun) fun _ => .ite trivial
      (.bind (calls_query.mpr nofun) fun user => ?_)
    cases user with
    | none => trivial
    | some user =>
      exact .bind (calls_applyToken ..) fun _ => .bind (calls_atomic.mpr nofun) fun _ =>
        calls_atomic.mpr nofun

/-- A part before the link is issued. -/
theorem posts_before {α β : Type} {p : App β} {k : β → App α} (hF : ∀ l, F l → l = .sendMail)
    (hc : p.Calls fun l => ¬l = .sendMail) (hp : ∀ A, Made env A p) (hh : EmailHashes env w)
    (hk : ∀ b w', EmailHashes env w' → PostsLink F env (k b) w') : PostsLink F env (p >>= k) w := by
  have hdoes : p.Always (Does env fun _ => False) := does_of_made (hp _)
  have hgrows : p.Always (Effect env False False) := effect_of_made (hp _)
  have hframe : Leaves env p w fun _ w' => w'.emailVerificationTokens = w.emailVerificationTokens ∧
      emailLinks.mails w' = emailLinks.mails w ∧ Grows w w' := by
    intro r w' he
    refine ⟨?_, ?_, ?_⟩
    · exact leaves_keep World.emailVerificationTokens
        (hdoes.mono fun _ _ h => h.emailVerificationTokens id) (fun _ _ => rfl) r w' he
    · exact leaves_keep emailLinks.mails (hdoes.mono fun _ _ h => h.mails emailLinks id)
        (fun _ _ => rfl) r w' he
    · have hg : GrowsFresh env w w' := Exec.always he (hgrows.mono fun _ _ h => ⟨h.grows, h.fresh⟩)
        fun _ _ ⟨d, e⟩ => e ▸ GrowsFresh.advance d _
      exact hg.1
  refine .bind (hframe.failing (hc.mono fun l h hl => h (hF l hl))) ?_ ?_
  · rintro b w' ⟨hrows, hmails, hg⟩
    have hh' : EmailHashes env w' := by
      rw [EmailHashes, hrows]
      exact hh.mono hg.drawn
    exact (hk b w' hh').mono fun _ _ h hdated => (h hdated).before hrows hmails hg.drawn hg.now
  · rintro _ w' ⟨hrows, hmails, -⟩ _
    exact .inl ⟨hrows, hmails⟩

theorem calls_canActivate (bearer : JwtPayload) :
    (JwtAuthGuard.canActivate bearer).Calls fun l => ¬l = .sendMail :=
  .bind (calls_atomic.mpr nofun) fun _ => .bind (calls_query.mpr nofun) fun _ =>
    .bind (calls_query.mpr nofun) fun _ => .ite trivial trivial

theorem calls_getProfile (u : String) :
    (UsersService.getProfile u).Calls fun l => ¬l = .sendMail := by
  refine .bind (calls_query.mpr nofun) fun user => ?_
  cases user <;> trivial

theorem calls_assertPasswordMatches (u password : String) :
    (UsersService.assertPasswordMatches env u password).Calls fun l => ¬l = .sendMail :=
  .bind (calls_getProfile u) fun _ => .bind (calls_atomic.mpr nofun) fun _ => .ite trivial trivial

theorem posts_resendVerification (hF : ∀ l, F l → l = .sendMail) (hh : EmailHashes env w)
    (bearer : JwtPayload) :
    PostsLink F env (AuthController.resendVerification env bearer) w :=
  posts_before hF (calls_canActivate _) (fun _ => made_canActivate _) hh fun user _ hh₁ =>
    posts_sendRegistrationVerification hF hh₁ user.sub user.email

theorem posts_emailChangeRoute (hF : ∀ l, F l → l = .sendMail) (hh : EmailHashes env w)
    (bearer : JwtPayload) {newEmail : String} (he : env.toLowerCase newEmail ≠ "") (password : String) :
    PostsLink F env (UsersController.requestEmailChange env bearer newEmail password) w :=
  posts_before hF (calls_canActivate _) (fun _ => made_canActivate _) hh fun user _ hh₁ =>
    posts_before hF (calls_assertPasswordMatches ..) (fun _ => made_assertPasswordMatches ..) hh₁
      fun _ _ hh₂ => posts_requestEmailChange hF hh₂ user.sub he

theorem posts_userRegistered (hF : ∀ l, F l → l = .sendMail) (hh : EmailHashes env w)
    (u email : String) (c : RequestContext) :
    PostsLink F env (deliverUserRegistered env u email c) w := by
  refine posts_before hF (calls_query.mpr nofun) (fun _ => .query ..) hh fun emitted w₁ hh₁ => ?_
  split
  · exact .handle (posts_sendRegistrationVerification hF hh₁ u email) (fun _ _ h => h)
      fun _ _ h => ensuresFailing_ret.mpr h
  · exact ensuresFailing_ret.mpr fun _ => .inl ⟨rfl, rfl⟩

theorem emailLinks_served (hlower : ∀ e, env.toLowerCase e = "" → e = "") : emailLinks.Served env where
  init _ := rfl
  lapse _ _ := rfl
  minted h := h.emailHash
  renews {F r w x w'} hF ht hv hr he hdated := by
    have hh : EmailHashes env w := ht.emailHash
    by_cases hd : .emailLink ∈ r.deeds
    · cases r with
      | resendVerification bearer =>
        exact posts_map (posts_resendVerification hF hh bearer) _ _ he (hdated rfl)
      | requestEmailChange bearer newEmail password =>
        have hne : env.toLowerCase newEmail ≠ "" := fun e => hv (hlower _ e)
        exact posts_map (posts_emailChangeRoute hF hh bearer hne password) _ _ he (hdated rfl)
      | userRegistered u email c =>
        exact posts_map (posts_userRegistered hF hh u email c) _ _ he (hdated rfl)
      | verifyEmail => cases hr
      | _ => simp [Request.deeds] at hd
    · exact .inl ⟨rows_unchanged World.emailVerificationTokens .emailLink
        (fun h => h.emailVerificationTokens) (fun _ _ => rfl) hd he,
        rows_unchanged emailLinks.mails .emailLink (fun h => h.mails emailLinks) (fun _ _ => rfl) hd he⟩
  redeems {r w x w' token} ht hi hr he := by
    cases r with
    | verifyEmail token' c =>
      obtain rfl : token' = token := Option.some.inj hr
      refine ⟨rfl, ?_⟩
      have hc : (program env (.verifyEmail token' c)).Calls fun l => ¬l = .sendMail :=
        .bind (calls_verifyEmail ..) fun _ => trivial
      obtain ⟨y, hy, rfl⟩ := exec_map.mp (hc.execFailing.mp he)
      exact ⟨(leaves_verify_redeems hi ht c y w' hy).map _,
        congrArg (List.filter _) (outbox_unchanged (addsNone_verify ..) hy)⟩
    | _ => cases hr

end

/-! ## Redeemability -/

/-- A request that presents `token` is accepted if and only if the token is
redeemable at the time of the check, and one that is refused changes nothing
but the time. -/
def LinkTable.Decides {ρ κ π : Type} (T : LinkTable ρ κ π) (env : Env)
    (tr : List (Done Request World Exn Response)) (w : World) (token : String)
    (x : Except Exn Response) (w' : World) : Prop :=
  (∃ now, w.now ≤ now ∧ now ≤ w'.now ∧ ((∃ a, x = .ok a) ↔ T.Redeemable env tr w token now)) ∧
    ((∃ e, x = .error e) → ∃ d, w' = w.advance d)

/-- The links that are issued at this time expire on dates that Prisma accepts. -/
structure LinksDated (env : Env) (now : Time) : Prop where
  resets : resetLinks.Dated env now
  emails : emailLinks.Dated env now

theorem redeemed_iff_outstanding (hlower : ∀ e, env.toLowerCase e = "" → e = "")
    (h : MailHistory env { now := t } tr w)
    (hdated : ∀ d ∈ tr, d.req.posts = true → LinksDated env d.after.now) :
    (∀ r token x w', r.resets = some token → Completes env r w x w' → Answered x →
      resetLinks.Decides env tr w token x w') ∧
    (∀ r token x w', r.verifies = some token → Completes env r w x w' → Answered x →
      emailLinks.Decides env tr w token x w') ∧
    (∀ d ∈ tr, (∀ m ∈ resetLinks.sent d, ∃ l, resetLinks.IssuedBy env d l m.token ∧
        resetLinks.carries l d.after m) ∧
      ∀ m ∈ emailLinks.sent d, ∃ l, emailLinks.IssuedBy env d l m.token ∧
        emailLinks.carries l d.after m) ∧
    (∀ l ∈ w.emailVerificationTokens, l.type = .EMAIL_CHANGE → ∃ e, l.newEmail = some e ∧ e ≠ "") ∧
    (∀ l ∈ w.passwordResetTokens, ∀ l' ∈ w.passwordResetTokens, l.consumedAt = none →
      l'.consumedAt = none → l.userId = l'.userId → l = l') ∧
    (∀ l ∈ w.emailVerificationTokens, ∀ l' ∈ w.emailVerificationTokens, l.consumedAt = none →
      l'.consumedAt = none → l.userId = l'.userId → l.type = l'.type → l = l') := by
  have hresets := resetLinks_served.kept h fun d hd hp => (hdated d hd hp).resets
  have hemails := (emailLinks_served hlower).kept h fun d hd hp => (hdated d hd hp).emails
  refine ⟨fun r token x w' hr he hx => ?_, fun r token x w' hr he hx => ?_,
    fun d hd => ⟨hresets.sent d hd, hemails.sent d hd⟩, hemails.proper,
    fun l hl l' hl' hc hc' hu => ?_, fun l hl l' hl' hc hc' hu hty => ?_⟩
  · obtain ⟨-, hred, -⟩ := resetLinks_served.redeems h.traced h.indexed hr he.failing
    exact hresets.redemption hred hx
  · obtain ⟨-, hred, -⟩ := (emailLinks_served hlower).redeems h.traced h.indexed hr he.failing
    exact hemails.redemption hred hx
  · exact hresets.agrees.live_eq hl hl' (by simp [resetLinks, hc]) (by simp [resetLinks, hc']) hu
  · exact hemails.agrees.live_eq hl hl' (by simp [emailLinks, hc]) (by simp [emailLinks, hc'])
      (Prod.ext hu hty)

/-- A registration, after which its listener mails a verification. -/
def signedUp : List (Done Request World Exn Response) × World :=
  (system .sample).serve
    [(0, .register ⟨"a@b.co", "Passw0rd!", none, none⟩ ⟨none, none⟩),
     (0, .userRegistered (unary 1) "a@b.co" ⟨none, none⟩)] { now := 0 }

/-- A request for a reset that follows it, during which the mail provider
fails. -/
def unsentReset : Except Exn Response × World :=
  (program .sample (.forgotPassword "a@b.co")).runFailing (· = .sendMail) (.error "SMTP") signedUp.2

/-- The link in the mail, and the one that no mail carries. -/
theorem unsentReset_redeemed :
    ⟨"a@b.co", .verification, unary 8⟩ ∈ unsentReset.2.outbox ∧ ∃ tr w₁ w₂,
      MailHistory .sample { now := 0 } tr unsentReset.2 ∧
      Completes .sample (.resetPassword (unary 10) "N3wPass!" ⟨none, none⟩) unsentReset.2 (.ok .done) w₁ ∧
      resetLinks.Decides .sample tr unsentReset.2 (unary 10) (.ok .done) w₁ ∧
      Completes .sample (.verifyEmail (unary 8) ⟨none, none⟩) unsentReset.2 (.ok .done) w₂ ∧
      emailLinks.Decides .sample tr unsentReset.2 (unary 8) (.ok .done) w₂ := by
  have hlower : ∀ e, Env.sample.toLowerCase e = "" → e = "" := fun e he => by
    simpa [Env.sample] using he
  have h₀ : History .sample { now := 0 } signedUp.1 signedUp.2 := history_serve (by decide +kernel)
  have hreq : ∀ d ∈ signedUp.1, d.req = .register ⟨"a@b.co", "Passw0rd!", none, none⟩ ⟨none, none⟩ ∨
      d.req = .userRegistered (unary 1) "a@b.co" ⟨none, none⟩ := by
    decide +kernel
  have h₁ : MailHistory .sample { now := 0 } signedUp.1 signedUp.2 :=
    h₀.failing fun d hd hx => ⟨by rcases hreq d hd with e | e <;> exact e ▸ trivial, .inr hx⟩
  have h : MailHistory .sample { now := 0 }
      (signedUp.1 ++ [⟨.forgotPassword "a@b.co", signedUp.2, unsentReset.1, unsentReset.2⟩])
      unsentReset.2 :=
    .done h₁ (execFailing_run (fun _ => ⟨0, rfl⟩) _ _ _) ⟨trivial, .inl rfl⟩
  have hnow : ∀ d ∈ signedUp.1 ++
      [⟨.forgotPassword "a@b.co", signedUp.2, unsentReset.1, unsentReset.2⟩], d.after.now = 0 := by
    decide +kernel
  have hdated : LinksDated .sample 0 :=
    ⟨accepted_minutes.mpr (by decide +kernel), accepted_minutes.mpr (by decide +kernel)⟩
  have hreset : Completes .sample (.resetPassword (unary 10) "N3wPass!" ⟨none, none⟩) unsentReset.2
      (.ok .done) _ := completes_of_run (by decide +kernel)
  have hverify : Completes .sample (.verifyEmail (unary 8) ⟨none, none⟩) unsentReset.2
      (.ok .done) _ := completes_of_run (by decide +kernel)
  have hall := redeemed_iff_outstanding hlower h fun d hd _ => (hnow d hd).symm ▸ hdated
  exact ⟨by decide +kernel, _, _, _, h, hreset, hall.1 _ _ _ _ rfl hreset nofun, hverify,
    hall.2.1 _ _ _ _ rfl hverify nofun⟩

end AtlasAuth

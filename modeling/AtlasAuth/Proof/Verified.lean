import AtlasAuth.Proof.Blacklist
import AtlasAuth.Proof.SingleUse
import AtlasAuth.Proof.Verify

/-!
# Verified means proven

Random values cannot be guessed (`Unguessed`): a verification presents one
only after a mail with it was handed to the provider. Then every user that is
verified has proven its present address, in every state of an interleaving: a
verification has redeemed a token of the user after a mail with it went to
that address (`verified_is_proven`).

The link of a registration names no address. It proves the one of its user
because an address changes only together with its verification: what a stale
access token, an old event or an old link says of a user that is not verified
is still true (`Traced`).
-/

namespace AtlasAuth

open Framework Framework.Table Prog

variable {env : Env} {L : Deed → Prop} {w w' : World} {P : AppPool}

/-- A random value is presented to a verification only once a mail with it has
been sent. -/
def Known (env : Env) (token : String) (w : World) : Prop :=
  (∃ m ∈ w.outbox, m.token = token) ∨ ∀ n, token ≠ env.randomBytes n

def Unguessed (env : Env) (P : AppPool) : Move Request Time Exn → Prop
  | .start r => ∀ token ∈ r.verifies, Known env token P.state
  | _ => True

/-- The request has redeemed a token of the user, after a mail with it went to
the address. -/
def Redeemed (env : Env) (th : AppThread) (id email : String) : Prop :=
  ∃ token t log x m, th.req.verifies = some token ∧ x :: log <:+ th.log ∧
    LookedUp (env.sha256 token) t log ∧ t.userId = id ∧ Applied t x.before x.after ∧
    m ∈ x.before.outbox ∧ m.kind ≠ .passwordReset ∧ m.token = token ∧ m.recipient = email

/-! ## Links of different kinds -/

instance : IsPreorder World fun w w' => w.outbox ⊆ w'.outbox where
  refl _ := List.Subset.refl _
  trans _ _ _ := List.Subset.trans

/-- A random value is drawn once: no token of a password reset is that of an
email link. -/
theorem Interleaving.links_apart {t : Time} (h : Interleaving env (.init t) P) {m : Mail}
    (hm : m ∈ P.state.outbox) (hk : m.kind = .passwordReset) {e : EmailVerificationToken}
    (he : e ∈ P.state.emailVerificationTokens) : e.tokenHash ≠ env.sha256 m.token := by
  intro hh
  obtain ⟨Q, i, r, log, l, next, eff, fail, th, hQ, hi, hn, ⟨m', hm', hk', htok⟩, hth, rfl, hl⟩ :=
    h.cause (B := fun w : World => ∃ m' ∈ w.outbox, m'.kind = .passwordReset ∧ m'.token = m.token)
      (fun _ _ h => h) nofun ⟨m, hm, hk, rfl⟩
  obtain ⟨Q', j, r', log', l', next', eff', fail', th', hQ', hj, hn', ⟨e', he', hhash⟩, hth', rfl,
      hl'⟩ :=
    h.cause (B := fun w : World => ∃ e' ∈ w.emailVerificationTokens, e'.tokenHash = e.tokenHash)
      (fun _ _ h => h) nofun ⟨e, he, rfl⟩
  have hT := Interleaving.traced hQ
  have hT' := Interleaving.traced hQ'
  have hs := (hT.obeys.call (Nat.zero_le i) hi (hT.followed (List.mem_of_getElem? hi))).2
  have hs' := (hT'.obeys.call (Nat.zero_le j) hj (hT'.followed (List.mem_of_getElem? hj))).2
  have hd := (Interleaving.does hQ).call (Nat.zero_le i) hi trivial
  have hd' := (Interleaving.does hQ').call (Nat.zero_le j) hj trivial
  -- Each of the two requests has drawn the value.
  obtain ⟨x, hx, hlt, ex⟩ := (hs.mail m' hm').resolve_left fun h => hn ⟨m', h, hk', htok⟩
  obtain ⟨token, htoken, y, hy, hlt', ey⟩ :=
    (hs'.email e' he').resolve_left fun ⟨e₀, h, h'⟩ => hn' ⟨e₀, h, h'.trans hhash⟩
  have hdrawn : x.before.drawn = y.before.drawn := by
    refine env.randomBytes_injective (ex.symm.trans (htok.trans (Eq.trans ?_ ey)))
    exact env.sha256_injective (hh.symm.trans (hhash.symm.trans htoken))
  have hcounted : System.Counted World.drawn P :=
    h.counted rfl (fun r => (does_program r).mono fun _ _ => Does.drawn) fun _ _ => Nat.le_refl _
  obtain rfl := hcounted i j th th' x y hth hth' (hl.subset (List.mem_cons_of_mem _ hx))
    (hl'.subset (List.mem_cons_of_mem _ hy)) hlt hlt' hdrawn
  obtain rfl := Option.some.inj (hth.symm.trans hth')
  have hreset : Deed.resetLink ∈ th.req.deeds := by
    have := (hd.mail hm').resolve_left fun h => hn ⟨m', h, hk', htok⟩
    rwa [hk'] at this
  have hemail : Deed.emailLink ∈ th.req.deeds :=
    (hd'.emailLink he').resolve_left fun ⟨e₀, h, h'⟩ => hn' ⟨e₀, h, h'.trans hhash⟩
  cases hr : th.req <;> rw [hr] at hreset hemail <;> simp [Request.deeds] at hreset hemail

/-! ## One verification -/

/-- A user verified under this address. -/
def VerifiedAs (id email : String) (w : World) : Prop :=
  ∃ u ∈ w.users, u.id = id ∧ u.isEmailVerified = true ∧ u.email = email

theorem Does.verifiedAs (h : Does env L w w') {id email : String} (hv : VerifiedAs id email w') :
    VerifiedAs id email w ∨ L .address := by
  obtain ⟨u, hu, hid, hver, he⟩ := hv
  rcases h.user hu with ⟨v, hv, e⟩ | ⟨hn, -⟩ | hL
  · obtain ⟨hid', he', hver', -⟩ := User.account_eq.mp e
    exact .inl ⟨v, hv, hid'.symm.trans hid, hver'.symm.trans hver, he'.symm.trans he⟩
  · simp [hn] at hver
  · exact .inr hL

/-- The address that a mail with the token was sent to is the one that the
token gives its user, or verifies. -/
theorem Applied.proven (hw : Traced env w) (hi : Indexed env w) {token : String}
    {t : EmailVerificationToken} (ht : ∃ t' ∈ w.emailVerificationTokens, t.Keeps t')
    (hh : t.tokenHash = env.sha256 token) {m : Mail} (hm : m ∈ w.outbox)
    (hk : m.kind ≠ .passwordReset) (htok : m.token = token) {id email : String}
    (hn : ¬VerifiedAs id email w) (ha : Applied t w w') (hv : VerifiedAs id email w') :
    t.userId = id ∧ m.recipient = email := by
  obtain ⟨t', ht', -, hu', hh', hty', hn', -⟩ := ht
  -- The link in the mail is the one that was looked up.
  obtain ⟨t₁, ht₁, hh₁, hp⟩ := hw.mailed m hm hk
  obtain rfl : t₁ = t' := hi.emailHash.eq ht₁ ht' (by rw [hh₁, htok, hh', hh])
  unfold EmailVerificationToken.Proves at hp
  obtain ⟨v, hv, hid, hver, he⟩ := hv
  cases ha with
  | registration hty =>
    simp only [hty', hty] at hp
    obtain ⟨v₀, hv₀, rfl⟩ := mem_updateWhere.mp hv
    by_cases hc : v₀.id = t.userId
    · simp only [hc, beq_self_eq_true, if_true] at hid he
      obtain ⟨u₁, hu₁, hid₁, -, haddr⟩ := hp
      obtain rfl : u₁ = v₀ := hi.userId.eq hu₁ hv₀ (by rw [hid₁, hu', hc])
      have hunv : u₁.isEmailVerified = false :=
        Bool.eq_false_iff.mpr fun h => hn ⟨u₁, hv₀, hc.trans hid, h, he⟩
      exact ⟨hid, (haddr hunv).symm.trans he⟩
    · simp only [beq_iff_eq, hc, if_false] at hid hver he
      exact absurd ⟨v₀, hv₀, hid, hver, he⟩ hn
  | emailChange hty hn₁ hfree =>
    simp only [hty', hty, hn', hn₁, Option.some.injEq] at hp
    obtain ⟨v₀, hv₀, rfl⟩ := mem_updateWhere.mp hv
    by_cases hc : v₀.id = t.userId
    · simp only [hc, beq_self_eq_true, if_true] at hid he
      exact ⟨hid, hp.symm.trans he⟩
    · simp only [beq_iff_eq, hc, if_false] at hid hver he
      exact absurd ⟨v₀, hv₀, hid, hver, he⟩ hn

/-! ## Interleavings -/

/-- What a verification in flight presents is known. -/
theorem known_of_run {t : Time} (h : (system env).Run (Unguessed env) (AppPool.init t) P) :
    ∀ th ∈ P.threads, ∀ token, th.req.verifies = some token → Known env token P.state := by
  let G (w w' : World) : Prop := w.outbox ⊆ w'.outbox
  have hI : System.AllAlways G P ∧
      ∀ th ∈ P.threads, ∀ token, th.req.verifies = some token → Known env token P.state := by
    refine h.invariant (I := fun P => System.AllAlways G P ∧
      ∀ th ∈ P.threads, ∀ token, th.req.verifies = some token → Known env token P.state)
      ⟨fun _ h => absurd h List.not_mem_nil, fun _ h => absurd h List.not_mem_nil⟩ ?_
    rintro P m P' ⟨ha, hk⟩ hm hs
    obtain ⟨hG, ha'⟩ := ha.step (G := G) (fun r => (does_program r).mono fun _ _ => Does.outbox)
      (fun _ _ => List.Subset.refl _) hs
    have later {token : String} (h : Known env token P.state) : Known env token P'.state :=
      h.imp_left fun ⟨x, hx, e⟩ => ⟨x, hG hx, e⟩
    refine ⟨ha', fun th hth token hr => ?_⟩
    obtain ⟨j, hj⟩ := List.getElem?_of_mem hth
    rcases System.thread_cases hs hj with ⟨r, rfl, -, rfl⟩ |
      ⟨r, log, l, next, eff, fail, -, hp, -, rfl⟩ | ⟨e, r, log, l, next, eff, fail, -, hp, rfl⟩ | hp
    · exact later (hm token hr)
    · exact later (hk _ (List.mem_of_getElem? hp) token hr)
    · exact later (hk _ (List.mem_of_getElem? hp) token hr)
    · exact later (hk _ (List.mem_of_getElem? hp) token hr)
  exact hI.2

/-- In every state of an interleaving, a user that is verified has proven its
present address. -/
theorem verified_is_proven {t : Time}
    (h : (system env).Run (Unguessed env) (AppPool.init t) P) :
    ∀ u ∈ P.state.users, u.isEmailVerified = true →
      ∃ th ∈ P.threads, Redeemed env th u.id u.email := by
  intro u hu hv
  obtain ⟨Q, i, r, log, l, next, eff, fail, th, hQ, hi, hn, hv', hth, hreq, hl⟩ :=
    h.cause (B := VerifiedAs u.id u.email) (fun _ _ h => h) (fun ⟨_, h, _⟩ => nomatch h)
      ⟨u, hu, rfl, hv, rfl⟩
  have hQ' : Interleaving env (.init t) Q := hQ.mono fun _ _ _ => trivial
  have hT := Interleaving.traced hQ'
  have hI := Interleaving.indexed hQ'
  have hmem := List.mem_of_getElem? hi
  -- The call that verified the user is one of a verification.
  have hd : Deed.address ∈ r.deeds :=
    (((Interleaving.does hQ').call (Nat.zero_le i) hi trivial).verifiedAs hv').resolve_left hn
  have hne : (eff Q.state).users ≠ Q.state.users := fun e => by
    obtain ⟨v, hv, hp⟩ := hv'
    exact hn ⟨v, e ▸ hv, hp⟩
  obtain ⟨token, tok, hr, hlook, hhash, happ, t', ht', hk'⟩ := Interleaving.applied hQ' hi hd hne
  have hh' : t'.tokenHash = env.sha256 token := hk'.2.2.1.trans hhash
  -- The token is a random value, so a mail with it has been sent, and not for a reset.
  obtain ⟨m, hm, htok⟩ := (known_of_run hQ _ hmem token hr).resolve_right fun hne => by
    obtain ⟨n, -, e⟩ := hT.traced.emailHash t' ht'
    exact hne n (env.sha256_injective (hh'.symm.trans e))
  have hk : m.kind ≠ .passwordReset := fun hk =>
    Interleaving.links_apart hQ' hm hk ht' (htok ▸ hh')
  obtain ⟨hid, hrec⟩ := Applied.proven hT.traced hI ⟨t', ht', hk'⟩ hhash hm hk htok hn happ hv'
  exact ⟨th, List.mem_of_getElem? hth, token, tok, log, _, m, hreq ▸ hr, hl, hlook, hid, happ, hm, hk,
    htok, hrec⟩

/-- A verification presents what was mailed. -/
def PresentsMail (P : AppPool) : Move Request Time Exn → Prop
  | .start r => ∀ token ∈ r.verifies, ∃ m ∈ P.state.outbox, m.token = token
  | _ => True

theorem PresentsMail.unguessed {m : Move Request Time Exn} (h : PresentsMail P m) :
    Unguessed env P m := by
  cases m with
  | start r => exact fun token ht => .inl (h token ht)
  | _ => trivial

instance (m : Move Request Time Exn) : Decidable (PresentsMail P m) :=
  match m with
  | .start r =>
    inferInstanceAs (Decidable (∀ token ∈ r.verifies, ∃ m ∈ P.state.outbox, m.token = token))
  | .call _ | .fault _ _ | .env _ => inferInstanceAs (Decidable True)

/-- A registration, whose link is `unary 8`, and a change of the address, whose
link is `unary 10`; the change is verified first. -/
def changedThenVerified : AppPool :=
  (system .sample).after
    (registered ++
      .start (.userRegistered (unary 1) "a@b.co" ⟨none, none⟩) :: List.replicate 7 (.call 1) ++
      .start (.requestEmailChange firstToken "C@d.eu" "Passw0rd!") :: List.replicate 11 (.call 2) ++
      .start (.verifyEmail (unary 10) ⟨none, none⟩) :: List.replicate 7 (.call 3) ++
      .start (.verifyEmail (unary 8) ⟨none, none⟩) :: List.replicate 6 (.call 4))
    (AppPool.init 0)

theorem changedThenVerified_proven :
    ∃ u ∈ changedThenVerified.state.users, u.email = "c@d.eu" ∧ u.isEmailVerified = true ∧
      ∃ th ∈ changedThenVerified.threads, Redeemed .sample th u.id u.email := by
  have hu : ∃ u ∈ changedThenVerified.state.users, u.email = "c@d.eu" ∧ u.isEmailVerified = true := by
    decide +kernel
  have hrun : (system .sample).Run PresentsMail (AppPool.init 0) changedThenVerified :=
    .after (by decide +kernel)
  obtain ⟨u, hu, he, hv⟩ := hu
  exact ⟨u, hu, he, hv, @verified_is_proven .sample changedThenVerified 0
    (hrun.mono fun _ _ => PresentsMail.unguessed) u hu hv⟩

end AtlasAuth

import AtlasAuth.Proof.Indexes

/-!
# The calls of a verification

A verification looks its token up, and applies it to the user that the token
was issued for: it marks the user as verified, or gives it the address that
the token names, if no other account has it.
-/

namespace AtlasAuth

open Framework Framework.Table Prog

variable {env : Env} {w w' : World} {log log' : List (Entry World Call)}

/-- The token that a verification presents. -/
def Request.verifies : Request → Option String
  | .verifyEmail token _ => some token
  | _ => none

/-- The request has looked this token up. -/
def LookedUp (hash : String) (t : EmailVerificationToken) (log : List (Entry World Call)) : Prop :=
  ∃ x ∈ log, x.label = .emailVerificationFindByHash hash ∧
    x.before.emailVerificationTokens.find? (·.tokenHash == hash) = some t

theorem LookedUp.mono {hash : String} {t : EmailVerificationToken} (h : LookedUp hash t log)
    (hl : log ⊆ log') : LookedUp hash t log' := by
  obtain ⟨x, hx, h⟩ := h
  exact ⟨x, hl hx, h⟩

/-- What a token does to the user it was issued for. -/
inductive Applied (t : EmailVerificationToken) (w : World) : World → Prop
  | registration (hty : t.type = .REGISTRATION) :
      Applied t w
        { w with users := updateWhere (·.id == t.userId) (fun u => { u with isEmailVerified := true })
                   w.users }
  | emailChange {email : String} (hty : t.type = .EMAIL_CHANGE) (hn : t.newEmail = some email)
      (hfree : ∀ u ∈ w.users, u.email = email → u.id = t.userId) :
      Applied t w
        { w with users := updateWhere (·.id == t.userId)
                   (fun u => { u with email, isEmailVerified := true }) w.users }

/-- A call of a verification leaves users alone, or applies the token that was
looked up. -/
def VerifyCall (hash : String) (log : List (Entry World Call)) (x : Entry World Call) : Prop :=
  x.after.users = x.before.users ∨ ∃ t, LookedUp hash t log ∧ Applied t x.before x.after

/-- A part that leaves users alone. -/
theorem verifyCall_bind {α β : Type} {hash : String} {p : App β} {k : β → App α}
    (hp : p.Always fun w w' => w'.users = w.users)
    (hk : ∀ b log', log <:+ log' → (k b).Obeys (fun _ _ => True) (VerifyCall hash)
      (fun _ _ => True) log') :
    (p >>= k).Obeys (fun _ _ => True) (VerifyCall hash) (fun _ _ => True) log :=
  hp.guarantee_bind (fun _ _ _ _ _ h => .inl h) (fun _ _ _ => trivial) hk

theorem verifyCall_query {α β : Type} {hash : String} {l : Call} {f : World → β} {k : β → App α}
    (hk : ∀ w, (k (f w)).Obeys (fun _ _ => True) (VerifyCall hash) (fun _ _ => True)
      (⟨l, w, w⟩ :: log)) :
    (Prog.query l f >>= k).Obeys (fun _ _ => True) (VerifyCall hash) (fun _ _ => True) log :=
  .query_bind (fun _ => trivial) fun w _ => ⟨.inl rfl, hk w⟩

theorem obeys_applyToken {hash : String} {t : EmailVerificationToken} (ht : LookedUp hash t log)
    {u : User} (hu : u.id = t.userId) :
    (EmailVerificationService.applyToken t u).Obeys (fun _ _ => True) (VerifyCall hash)
      (fun _ _ => True) log := by
  unfold EmailVerificationService.applyToken
  split
  · rename_i hty
    split
    · rename_i email hn
      have hn : t.newEmail = some email := (Option.filter_eq_some_iff.mp hn).1
      refine verifyCall_query fun w => ?_
      split
      · trivial
      refine obeys_bind.mpr (obeys_atomic.mpr ⟨fun w _ => ?_, fun _ => trivial⟩)
      split
      · exact ⟨.inl rfl, trivial⟩
      · split
        · exact ⟨.inl rfl, trivial⟩
        · rename_i hfree
          refine ⟨.inr ⟨t, ht.mono (List.subset_cons_self _ _), ?_⟩, trivial⟩
          rw [hu]
          refine .emailChange hty hn fun v hv e => ?_
          by_contra hne
          exact hfree (by simpa using ⟨v, hv, e, hu ▸ hne⟩)
    · trivial
  · rename_i hty
    refine obeys_bind.mpr (obeys_atomic.mpr ⟨fun w _ => ?_, fun _ => trivial⟩)
    split
    · exact ⟨.inl rfl, trivial⟩
    · exact ⟨.inr ⟨t, ht, hu ▸ .registration hty⟩, trivial⟩

theorem obeys_verify (token : String) (c : RequestContext) :
    (EmailVerificationService.verify env token c).Obeys (fun _ _ => True)
      (VerifyCall (env.sha256 token)) (fun _ _ => True) [] := by
  refine verifyCall_query fun w => ?_
  cases ht : w.emailVerificationTokens.find? (·.tokenHash == env.sha256 token) with
  | none => trivial
  | some t =>
    have hl : LookedUp (env.sha256 token) t
        [⟨.emailVerificationFindByHash (env.sha256 token), w, w⟩] :=
      ⟨_, List.mem_cons_self .., rfl, ht⟩
    refine verifyCall_query fun w₁ => ?_
    split
    · trivial
    refine verifyCall_query fun w₂ => ?_
    cases hu : w₂.users.find? fun u => u.id == t.userId && u.deletedAt.isNone with
    | none => trivial
    | some u =>
      have hid : u.id = t.userId := by
        have h := List.find?_some hu
        simp only [Bool.and_eq_true, beq_iff_eq] at h
        exact h.1
      have hl := (hl.mono (List.subset_cons_self ⟨.dateNow, w₁, w₁⟩ _)).mono
        (List.subset_cons_self ⟨.usersFindById t.userId, w₂, w₂⟩ _)
      refine obeys_bind.mpr ((obeys_applyToken hl hid).mono (fun _ _ h => h) (fun _ _ h => h)
        fun log' r _ => ?_)
      cases r with
      | error e => trivial
      | ok email =>
        refine verifyCall_bind (always_atomic.mpr fun w => ?_) fun _ _ _ =>
          obeys_atomic.mpr ⟨fun w _ => ⟨.inl rfl, trivial⟩, fun _ => trivial⟩
        split <;> rfl

/-- The specification of a request: that of a verification, if it is one. -/
theorem obeys_program_verify (r : Request) :
    (program env r).Obeys (fun _ _ => True)
      (fun log x => ∀ token, r.verifies = some token → VerifyCall (env.sha256 token) log x)
      (fun _ _ => True) [] := by
  cases r with
  | verifyEmail token c =>
    refine obeys_bind.mpr ((obeys_verify token c).mono (fun _ _ h => h) (fun log x h => ?_)
      fun log r _ => by cases r <;> trivial)
    rintro _ ⟨⟩
    exact h
  | _ => exact .of_forall (fun _ _ _ h => nomatch h) fun _ _ => trivial

variable {P : AppPool}

/-- A call in an interleaving that changes an address, or verifies a user, is
one of a verification, which applies a token that is in the table. -/
theorem Interleaving.applied {t : Time} (h : Interleaving env (.init t) P) {i : Nat} {r : Request}
    {l : Call} {next : World → App Response} {eff : World → World} {fail : Exn → App Response}
    (hi : P.threads[i]? = some ⟨r, log, .call l next eff fail⟩) (hd : Deed.address ∈ r.deeds)
    (hne : (eff P.state).users ≠ P.state.users) :
    ∃ token tok, r.verifies = some token ∧ LookedUp (env.sha256 token) tok log ∧
      tok.tokenHash = env.sha256 token ∧ Applied tok P.state (eff P.state) ∧
      ∃ tok' ∈ P.state.emailVerificationTokens, tok.Keeps tok' := by
  obtain ⟨token, hr⟩ : ∃ token, r.verifies = some token := by
    cases r <;> simp [Request.deeds] at hd
    exact ⟨_, rfl⟩
  have hobeys : System.ObeyFrom (fun _ _ _ => True)
      (fun r log x => ∀ token, r.verifies = some token → VerifyCall (env.sha256 token) log x)
      (fun _ _ _ => True) 0 P :=
    h.obeys (I := fun _ => True) obeys_program_verify trivial (fun _ _ _ => trivial)
      fun _ _ _ => trivial
  obtain ⟨tok, hlook, happ⟩ :=
    (hobeys.call (Nat.zero_le i) hi trivial token hr).resolve_left fun e => hne e
  obtain ⟨x, hx, -, hfind⟩ := id hlook
  have hx' := ((Interleaving.traced h).followed (List.mem_of_getElem? hi)).2 x hx
  exact ⟨token, tok, hr, hlook, by simpa using List.find?_some hfind, happ,
    (IsTrans.trans _ _ _ hx'.1 hx'.2 : Onward x.before P.state).emails.mem
      (List.mem_of_find?_eq_some hfind)⟩

end AtlasAuth

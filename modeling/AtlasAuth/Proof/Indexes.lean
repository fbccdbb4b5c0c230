import AtlasAuth.Proof.Addresses

/-!
# What the unique indexes keep

In every state of an interleaving, identifiers, the addresses of users and the
hashes of link tokens are unique, and no user is deleted.
-/

namespace AtlasAuth

open Framework Framework.Table Prog

variable {env : Env} {L : Deed → Prop} {w w' : World} {P : AppPool}

structure Indexed (env : Env) (w : World) : Prop where
  userId : Table.Unique User.id w.users
  userMinted : Minted User.id env.randomUUID w.drawn w.users
  email : Table.Unique User.email w.users
  live : ∀ u ∈ w.users, u.deletedAt = none
  resetId : Table.Unique PasswordResetToken.id w.passwordResetTokens
  resetMinted : Minted PasswordResetToken.id env.randomUUID w.drawn w.passwordResetTokens
  resetHash : Table.Unique PasswordResetToken.tokenHash w.passwordResetTokens
  emailId : Table.Unique EmailVerificationToken.id w.emailVerificationTokens
  emailMinted : Minted EmailVerificationToken.id env.randomUUID w.drawn w.emailVerificationTokens
  emailHash : Table.Unique EmailVerificationToken.tokenHash w.emailVerificationTokens

theorem Indexed.init (t : Time) : Indexed env { now := t } :=
  ⟨.nil, .nil, .nil, nofun, .nil, .nil, .nil, .nil, .nil, .nil⟩

theorem Indexed.draw (h : Indexed env w) {n : Nat} (hn : w.drawn ≤ n) :
    Indexed env { w with drawn := n } :=
  { h with
    userMinted := h.userMinted.mono hn
    resetMinted := h.resetMinted.mono hn
    emailMinted := h.emailMinted.mono hn }

/-- A column of users that is part of the account. -/
theorem Aside.column {κ : Type} (h : Aside w w') (c : String × String × Bool × Option Time → κ) :
    w'.users.map (c ∘ User.account) = w.users.map (c ∘ User.account) := by
  simpa using congrArg (List.map c) h.accounts

theorem Aside.indexed (h : Aside w w') (hi : Indexed env w) : Indexed env w' where
  userId := by
    rw [Table.Unique, show User.id = (·.1) ∘ User.account from rfl, h.column]
    exact hi.userId
  userMinted u' hu' := by
    have hmem : u'.id ∈ w.users.map User.id :=
      h.column (·.1) ▸ List.mem_map_of_mem hu'
    obtain ⟨u, hu, e⟩ := List.mem_map.mp hmem
    exact e ▸ hi.userMinted.mono h.drawn u hu
  email := by
    rw [Table.Unique, show User.email = (·.2.1) ∘ User.account from rfl, h.column]
    exact hi.email
  live u' hu' := by
    have hmem : u'.deletedAt ∈ w.users.map User.deletedAt :=
      h.column (·.2.2.2) ▸ List.mem_map_of_mem hu'
    obtain ⟨u, hu, e⟩ := List.mem_map.mp hmem
    exact e ▸ hi.live u hu
  resetId := h.passwordResetTokens ▸ hi.resetId
  resetMinted := h.passwordResetTokens ▸ hi.resetMinted.mono h.drawn
  resetHash := h.passwordResetTokens ▸ hi.resetHash
  emailId := h.emailVerificationTokens ▸ hi.emailId
  emailMinted := h.emailVerificationTokens ▸ hi.emailMinted.mono h.drawn
  emailHash := h.emailVerificationTokens ▸ hi.emailHash

theorem Indexed.updateUser (h : Indexed env w) {id : String} {data : User → User}
    (hd : ∀ u : User, u.SameIdentity (data u))
    (he : Table.Unique User.email (updateWhere (·.id == id) data w.users)) :
    Indexed env { w with users := updateWhere (·.id == id) data w.users } :=
  { h with
    userId := h.userId.updateWhere fun u _ => (hd u).1
    userMinted := h.userMinted.updateWhere fun u _ => (hd u).1
    email := he
    live := forall_updateWhere h.live fun u _ hu => (hd u).2.trans hu }

theorem Does.indexed (h : Does env L w w') (hi : Indexed env w) : Indexed env w' := by
  have inj := env.randomUUID_injective
  cases h with
  | aside h => exact h.indexed hi
  | create hL hid hnew hlower hemail =>
    exact { hi.draw (Nat.le_succ _) with
      userId := hi.userId.append_minted hi.userMinted inj hid
      userMinted := hi.userMinted.append hid
      email := hi.email.append hemail
      live := fun u hu => by
        rcases List.mem_append.mp hu with hu | hu
        · exact hi.live u hu
        · exact List.mem_singleton.mp hu ▸ hnew.2 }
  | register | sign | send => exact { hi with }
  | markVerified hL id =>
    exact hi.updateUser (fun _ => ⟨rfl, rfl⟩) (hi.email.updateWhere fun _ _ => rfl)
  | @updateEmail hL id email hemail =>
    refine hi.updateUser (fun _ => ⟨rfl, rfl⟩) (hi.userId.rename hi.email (fun _ => rfl) ?_)
    exact fun u hu hne e => hne (hemail u hu e)
  | createReset hL hid hc hhash =>
    exact { hi.draw (Nat.le_succ _) with
      resetId := hi.resetId.append_minted hi.resetMinted inj hid
      resetMinted := hi.resetMinted.append hid
      resetHash := hi.resetHash.append hhash }
  | consumeResets =>
    exact { hi with
      resetId := hi.resetId.updateWhere fun _ _ => rfl
      resetMinted := hi.resetMinted.updateWhere fun _ _ => rfl
      resetHash := hi.resetHash.updateWhere fun _ _ => rfl }
  | createEmail hL hid hc hlower hhash =>
    exact { hi.draw (Nat.le_succ _) with
      emailId := hi.emailId.append_minted hi.emailMinted inj hid
      emailMinted := hi.emailMinted.append hid
      emailHash := hi.emailHash.append hhash }
  | consumeEmails =>
    exact { hi with
      emailId := hi.emailId.updateWhere fun _ _ => rfl
      emailMinted := hi.emailMinted.updateWhere fun _ _ => rfl
      emailHash := hi.emailHash.updateWhere fun _ _ => rfl }
  | grant | withdraw => exact { hi.draw (Nat.le_succ _) with }

/-- A lookup by a unique column finds whoever has the value. -/
theorem Indexed.find?_live (hi : Indexed env w) {c : User → String} (hc : Table.Unique c w.users)
    {u : User} (hu : u ∈ w.users) :
    w.users.find? (fun v => c v == c u && v.deletedAt.isNone) = some u :=
  hc.find?_and hu (by rw [hi.live u hu]; rfl)

theorem Indexed.find?_email (hi : Indexed env w) {u : User} (hu : u ∈ w.users) :
    w.users.find? (fun v => v.email == u.email && v.deletedAt.isNone) = some u :=
  hi.find?_live hi.email hu

theorem Indexed.find?_id (hi : Indexed env w) {u : User} (hu : u ∈ w.users) :
    w.users.find? (fun v => v.id == u.id && v.deletedAt.isNone) = some u :=
  hi.find?_live hi.userId hu

instance : IsPreorder World fun w w' => Indexed env w → Indexed env w' where
  refl _ h := h
  trans _ _ _ h h' := h' ∘ h

/-- In every state of an interleaving, what is indexed is unique. -/
theorem Interleaving.indexed {t : Time} (h : Interleaving env (.init t) P) : Indexed env P.state :=
  (h.always (fun r => (does_program r).mono fun _ _ => Does.indexed) (fun _ _ h => { h with })
    fun _ h => absurd h List.not_mem_nil).1 (.init t)

end AtlasAuth

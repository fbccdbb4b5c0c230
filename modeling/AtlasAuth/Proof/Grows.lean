import AtlasAuth.Proof.Effect

/-!
# What no call ever undoes

Rows are never removed, and keep the columns that identify them; a session or
a refresh token once revoked stays revoked; a signed access token stays
signed, and a verification made; the clock and the source of randomness only
go forward (`Grows`). The identifiers of rows are distinct random values that
have been drawn, and no two refresh tokens have the same hash (`Fresh`). Every
call of every request respects both (`grows_program`), whatever calls of other
requests come in between.
-/

namespace AtlasAuth

open Framework Framework.Table

def Session.Keeps (s s' : Session) : Prop :=
  s'.id = s.id ∧ s'.userId = s.userId ∧ (s.isRevoked = true → s'.isRevoked = true)

def RefreshToken.Keeps (t t' : RefreshToken) : Prop :=
  t'.id = t.id ∧ t'.userId = t.userId ∧ t'.sessionId = t.sessionId ∧ t'.familyId = t.familyId ∧
    t'.tokenHash = t.tokenHash ∧ t'.expiresAt = t.expiresAt ∧
    (t.revokedAt.isSome = true → t'.revokedAt.isSome = true)

theorem User.SameIdentity.refl (u : User) : u.SameIdentity u := ⟨rfl, rfl⟩

theorem User.SameIdentity.trans (a b c : User) (h : a.SameIdentity b) (h' : b.SameIdentity c) :
    a.SameIdentity c :=
  ⟨h'.1.trans h.1, h'.2.trans h.2⟩

theorem Session.Keeps.refl (s : Session) : s.Keeps s := ⟨rfl, rfl, fun h => h⟩

theorem Session.Keeps.trans (a b c : Session) (h : a.Keeps b) (h' : b.Keeps c) : a.Keeps c :=
  ⟨h'.1.trans h.1, h'.2.1.trans h.2.1, h'.2.2 ∘ h.2.2⟩

theorem Session.Keeps.revoke (now : Time) (s : Session) : s.Keeps (s.revoke now) :=
  ⟨rfl, rfl, fun _ => rfl⟩

theorem RefreshToken.Keeps.refl (t : RefreshToken) : t.Keeps t :=
  ⟨rfl, rfl, rfl, rfl, rfl, rfl, fun h => h⟩

theorem RefreshToken.Keeps.trans (a b c : RefreshToken) (h : a.Keeps b) (h' : b.Keeps c) :
    a.Keeps c := by
  obtain ⟨h₁, h₂, h₃, h₄, h₅, h₆, h₇⟩ := h
  obtain ⟨h₁', h₂', h₃', h₄', h₅', h₆', h₇'⟩ := h'
  exact ⟨h₁'.trans h₁, h₂'.trans h₂, h₃'.trans h₃, h₄'.trans h₄, h₅'.trans h₅, h₆'.trans h₆, h₇' ∘ h₇⟩

theorem RefreshToken.Keeps.revoke (now : Time) (t : RefreshToken) : t.Keeps (t.revoke now) :=
  ⟨rfl, rfl, rfl, rfl, rfl, rfl, fun _ => rfl⟩

/-- What holds between the state at some time and the state at any later time. -/
structure Grows (w w' : World) : Prop where
  now : w.now ≤ w'.now
  drawn : w.drawn ≤ w'.drawn
  users : Evolves User.SameIdentity w.users w'.users
  sessions : Evolves Session.Keeps w.sessions w'.sessions
  refreshTokens : Evolves RefreshToken.Keeps w.refreshTokens w'.refreshTokens
  signed : w.signed <+: w'.signed
  verified : w.verified <+: w'.verified

theorem Grows.refl (w : World) : Grows w w where
  now := Nat.le_refl _
  drawn := Nat.le_refl _
  users := .refl User.SameIdentity.refl _
  sessions := .refl Session.Keeps.refl _
  refreshTokens := .refl RefreshToken.Keeps.refl _
  signed := List.prefix_refl _
  verified := List.prefix_refl _

theorem Grows.trans {a b c : World} (h : Grows a b) (h' : Grows b c) : Grows a c where
  now := h.now.trans h'.now
  drawn := h.drawn.trans h'.drawn
  users := h.users.trans User.SameIdentity.trans h'.users
  sessions := h.sessions.trans Session.Keeps.trans h'.sessions
  refreshTokens := h.refreshTokens.trans RefreshToken.Keeps.trans h'.refreshTokens
  signed := h.signed.trans h'.signed
  verified := h.verified.trans h'.verified

instance : IsPreorder World Grows where
  refl := Grows.refl
  trans _ _ _ := Grows.trans

theorem Grows.advance (d : Time) (w : World) : Grows w (w.advance d) :=
  { Grows.refl w with now := Nat.le_add_right _ _ }

variable {env : Env} {lockout password : Prop} {w w' : World}

/-- A session that is found is found later. -/
theorem Grows.session (h : Grows w w') {id : String} {s : Session}
    (hs : w.sessions.find? (·.id == id) = some s) :
    ∃ s', w'.sessions.find? (·.id == id) = some s' ∧ s.Keeps s' :=
  h.sessions.find? (fun a b (hk : Session.Keeps a b) => by rw [hk.1]) hs

/-- A refresh token that is found by its hash is found later. -/
theorem Grows.refreshToken (h : Grows w w') {hash : String} {t : RefreshToken}
    (ht : w.refreshTokens.find? (·.tokenHash == hash) = some t) :
    ∃ t', w'.refreshTokens.find? (·.tokenHash == hash) = some t' ∧ t.Keeps t' :=
  h.refreshTokens.find? (fun a b (hk : RefreshToken.Keeps a b) => by rw [hk.2.2.2.2.1]) ht

theorem Minor.grows (h : Minor w w') : Grows w w' := by
  cases h with
  | none => exact .refl w
  | draw => exact { Grows.refl w with drawn := Nat.le_succ _ }
  | emit e => exact { Grows.refl w with }
  | verify h p => exact { Grows.refl w with verified := List.prefix_append _ _ }
  | send m => exact { Grows.refl w with }
  | updateUser h =>
    exact { Grows.refl w with
      users := .updateWhere User.SameIdentity.refl (fun u => ⟨(h u).1, (h u).2.1⟩) _ }
  | devices h => exact { Grows.refl w with drawn := h }
  | links h => exact { Grows.refl w with drawn := h }
  | rbac => exact { Grows.refl w with drawn := Nat.le_succ _ }

theorem Effect.grows (h : Effect env lockout password w w') : Grows w w' := by
  cases h with
  | minor h => exact h.grows
  | createUser =>
    exact { Grows.refl w with drawn := Nat.le_succ _, users := .append User.SameIdentity.refl _ _ }
  | updateLockout _ h =>
    exact { Grows.refl w with
      users := .updateWhere User.SameIdentity.refl (fun u => ⟨(h u).1, (h u).2.1⟩) _ }
  | updatePassword _ h =>
    exact { Grows.refl w with users := .updateWhere User.SameIdentity.refl h _ }
  | createSession =>
    exact { Grows.refl w with drawn := Nat.le_succ _, sessions := .append Session.Keeps.refl _ _ }
  | touchSession =>
    refine { Grows.refl w with sessions := .updateWhere Session.Keeps.refl ?_ _ }
    exact fun _ => ⟨rfl, rfl, fun h => h⟩
  | createRefreshToken =>
    exact { Grows.refl w with
      drawn := Nat.le_succ _, refreshTokens := .append RefreshToken.Keeps.refl _ _ }
  | replaceRefreshToken =>
    refine { Grows.refl w with refreshTokens := .updateWhere RefreshToken.Keeps.refl ?_ _ }
    exact fun _ => ⟨rfl, rfl, rfl, rfl, rfl, rfl, fun _ => rfl⟩
  | revokeSessions =>
    exact { Grows.refl w with
      sessions := .updateWhere Session.Keeps.refl (Session.Keeps.revoke _) _ }
  | revokeRefreshTokens =>
    exact { Grows.refl w with
      refreshTokens := .updateWhere RefreshToken.Keeps.refl (RefreshToken.Keeps.revoke _) _ }
  | revokeBoth =>
    exact { Grows.refl w with
      sessions := .updateWhere Session.Keeps.refl (Session.Keeps.revoke _) _
      refreshTokens := .updateWhere RefreshToken.Keeps.refl (RefreshToken.Keeps.revoke _) _ }
  | sign => exact { Grows.refl w with signed := List.prefix_append _ _ }
  | redisSet => exact { Grows.refl w with }

/-! ## Identifiers -/

/-- Identifiers are distinct, and random values drawn before. -/
structure Fresh (env : Env) (w : World) : Prop where
  userId : Unique User.id w.users
  userMinted : Minted User.id env.randomUUID w.drawn w.users
  sessionId : Unique Session.id w.sessions
  sessionMinted : Minted Session.id env.randomUUID w.drawn w.sessions
  tokenId : Unique RefreshToken.id w.refreshTokens
  tokenMinted : Minted RefreshToken.id env.randomUUID w.drawn w.refreshTokens
  tokenHash : Unique RefreshToken.tokenHash w.refreshTokens

theorem Fresh.init (t : Time) : Fresh env { now := t } :=
  ⟨.nil, .nil, .nil, .nil, .nil, .nil, .nil⟩

theorem Fresh.draw {n : Nat} (h : Fresh env w) (hn : w.drawn ≤ n) :
    Fresh env { w with drawn := n } :=
  { h with
    userMinted := h.userMinted.mono hn
    sessionMinted := h.sessionMinted.mono hn
    tokenMinted := h.tokenMinted.mono hn }

theorem Fresh.updateUser {id : String} {data : User → User} (h : Fresh env w)
    (hd : ∀ u, (data u).id = u.id) :
    Fresh env { w with users := updateWhere (·.id == id) data w.users } :=
  { h with
    userId := h.userId.updateWhere fun u _ => hd u
    userMinted := h.userMinted.updateWhere fun u _ => hd u }

theorem Minor.fresh (h : Minor w w') (hf : Fresh env w) : Fresh env w' := by
  cases h with
  | none => exact hf
  | draw => exact hf.draw (Nat.le_succ _)
  | emit e => exact { hf with }
  | verify h p => exact { hf with }
  | send m => exact { hf with }
  | updateUser h => exact hf.updateUser fun u => (h u).1
  | devices h => exact { hf.draw h with }
  | links h => exact { hf.draw h with }
  | rbac => exact { hf.draw (Nat.le_succ _) with }

theorem Effect.fresh (h : Effect env lockout password w w') (hf : Fresh env w) : Fresh env w' := by
  cases h with
  | minor h => exact h.fresh hf
  | createUser hid =>
    exact { hf.draw (Nat.le_succ _) with
      userId := hf.userId.append_minted hf.userMinted env.randomUUID_injective hid
      userMinted := hf.userMinted.append hid }
  | updateLockout _ h => exact hf.updateUser fun u => (h u).1
  | updatePassword _ h => exact hf.updateUser fun u => (h u).1
  | createSession hid =>
    exact { hf.draw (Nat.le_succ _) with
      sessionId := hf.sessionId.append_minted hf.sessionMinted env.randomUUID_injective hid
      sessionMinted := hf.sessionMinted.append hid }
  | touchSession =>
    exact { hf with
      sessionId := hf.sessionId.updateWhere fun _ _ => rfl
      sessionMinted := hf.sessionMinted.updateWhere fun _ _ => rfl }
  | createRefreshToken hid _ hhash =>
    exact { hf.draw (Nat.le_succ _) with
      tokenId := hf.tokenId.append_minted hf.tokenMinted env.randomUUID_injective hid
      tokenMinted := hf.tokenMinted.append hid
      tokenHash := hf.tokenHash.append hhash }
  | replaceRefreshToken =>
    exact { hf with
      tokenId := hf.tokenId.updateWhere fun _ _ => rfl
      tokenMinted := hf.tokenMinted.updateWhere fun _ _ => rfl
      tokenHash := hf.tokenHash.updateWhere fun _ _ => rfl }
  | revokeSessions =>
    exact { hf with
      sessionId := hf.sessionId.updateWhere fun _ _ => rfl
      sessionMinted := hf.sessionMinted.updateWhere fun _ _ => rfl }
  | revokeRefreshTokens =>
    exact { hf with
      tokenId := hf.tokenId.updateWhere fun _ _ => rfl
      tokenMinted := hf.tokenMinted.updateWhere fun _ _ => rfl
      tokenHash := hf.tokenHash.updateWhere fun _ _ => rfl }
  | revokeBoth =>
    exact { hf with
      sessionId := hf.sessionId.updateWhere fun _ _ => rfl
      sessionMinted := hf.sessionMinted.updateWhere fun _ _ => rfl
      tokenId := hf.tokenId.updateWhere fun _ _ => rfl
      tokenMinted := hf.tokenMinted.updateWhere fun _ _ => rfl
      tokenHash := hf.tokenHash.updateWhere fun _ _ => rfl }
  | sign => exact { hf with }
  | redisSet => exact { hf with }

/-! ## Runs -/

/-- The state only grows, and its identifiers stay fresh. -/
def GrowsFresh (env : Env) (w w' : World) : Prop := Grows w w' ∧ (Fresh env w → Fresh env w')

instance : IsPreorder World (GrowsFresh env) where
  refl w := ⟨.refl w, fun h => h⟩
  trans _ _ _ h h' := ⟨h.1.trans h'.1, h'.2 ∘ h.2⟩

theorem GrowsFresh.advance (d : Time) (w : World) : GrowsFresh env w (w.advance d) :=
  ⟨.advance d w, fun h => { h with }⟩

/-- Every call of every request only makes the state grow. -/
theorem grows_program (r : Request) : (program env r).Always (GrowsFresh env) := by
  have h : (program env r).Always (Effect env True True) :=
    effect_program (fun _ => trivial) fun _ => trivial
  exact h.mono fun _ _ h => ⟨h.grows, h.fresh⟩

variable {P P' : AppPool}

theorem AppPool.returned_eq_some {i : Nat} {u : User} {tokens : SessionTokens} :
    P.returned i = some (u, tokens) ↔
      ∃ th, P.threads[i]? = some th ∧ th.outcome = some (.ok (.session u tokens)) := by
  simp only [AppPool.returned, Option.bind_eq_some_iff]
  refine exists_congr fun th => and_congr_right fun _ => ?_
  split <;> simp_all

theorem Interleaving.after {ms : List (Move Request Time Exn)}
    (h : (system env).check (fun _ _ => True) ms P = true) :
    Interleaving env P ((system env).after ms P) :=
  System.Run.after h

/-- The state of an interleaving only grows, from the state after any call of
a request that is still in flight, too. -/
theorem Interleaving.grows (h : Interleaving env P P')
    (h₀ : System.AllAlways (GrowsFresh env) P) :
    GrowsFresh env P.state P'.state ∧ System.AllAlways (GrowsFresh env) P' :=
  h.always grows_program .advance h₀

/-- What a request in flight can rely on: identifiers are fresh, and the state
has only grown since its own calls. -/
def Since (env : Env) (log : List (Prog.Entry World Call)) (w : World) : Prop :=
  Fresh env w ∧ ∀ x ∈ log, GrowsFresh env x.before x.after ∧ GrowsFresh env x.after w

theorem since_of_mem (hf : Fresh env P.state) (ha : System.AllAlways (GrowsFresh env) P)
    {th : Thread Request World Call Exn Response} (h : th ∈ P.threads) :
    Since env th.log P.state :=
  ⟨hf, (ha th h).2⟩

theorem Interleaving.fresh {t : Time} (h : Interleaving env (.init t) P) :
    Fresh env P.state ∧ System.AllAlways (GrowsFresh env) P := by
  obtain ⟨hg, ha⟩ := h.grows fun _ h => absurd h List.not_mem_nil
  exact ⟨hg.2 (.init t), ha⟩

end AtlasAuth

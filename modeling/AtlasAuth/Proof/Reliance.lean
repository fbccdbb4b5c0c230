import AtlasAuth.Framework.Rely
import AtlasAuth.Proof.References

/-!
# What the calls of a request rely on

Rows that a request has seen stay, with their identifiers and their users
(`Later`), identifiers are distinct and the references between rows hold
(`Orderly`), and a random value that the request has drawn for a family, an
access token, a refresh token or a link is not in use (`Used`). Each call of each service, given this,
changes rows of one user only, and only those parts that the request may
(`Owned`); that keeps up what the other requests rely on (`Owned.keeps`).
-/

namespace AtlasAuth

open Framework Framework.Table Prog

variable {env : Env} {w w' : World} {u : String} {log : List (Entry World Call)}
  {L : Part → Prop}

/-! ## What stays -/

def Device.Keeps (d d' : Device) : Prop := d'.id = d.id ∧ d'.userId = d.userId

theorem Device.Keeps.refl (d : Device) : d.Keeps d := ⟨rfl, rfl⟩

theorem Device.Keeps.trans (a b c : Device) (h : a.Keeps b) (h' : b.Keeps c) : a.Keeps c :=
  ⟨h'.1.trans h.1, h'.2.trans h.2⟩

/-- What holds between the state at some time and the state at any later time. -/
structure Later (w w' : World) : Prop where
  grows : Grows w w'
  onward : Onward w w'
  devices : Evolves Device.Keeps w.devices w'.devices

theorem Later.refl (w : World) : Later w w := ⟨.refl w, .refl w, .refl Device.Keeps.refl _⟩

theorem Later.trans {a b c : World} (h : Later a b) (h' : Later b c) : Later a c where
  grows := h.grows.trans h'.grows
  onward := trans_of Onward h.onward h'.onward
  devices := h.devices.trans Device.Keeps.trans h'.devices

theorem Later.advance (d : Time) (w : World) : Later w (w.advance d) where
  grows := .advance d w
  onward := .advance d w
  devices := .refl Device.Keeps.refl _

/-- Access tokens last no longer than a token that is signed now. -/
def Lasts (env : Env) (w : World) : Prop :=
  ∀ p ∈ w.signed, ∀ ttl, parseDurationToMs env.accessExpiresIn = .ok ttl →
    p.deadline ≤ w.now + ttl.toNat

/-- Identifiers are distinct, and references hold. -/
structure Orderly (env : Env) (w : World) : Prop where
  fresh : Fresh env w
  indexed : Indexed env w
  joined : Joined env w
  lasts : Lasts env w

theorem Orderly.init (t : Time) : Orderly env { now := t } := ⟨.init t, .init t, .init t, nofun⟩

theorem Orderly.advance (h : Orderly env w) (d : Time) : Orderly env (w.advance d) where
  fresh := { h.fresh with }
  indexed := { h.indexed with }
  joined := { h.joined with }
  lasts p hp ttl httl := (h.lasts p hp ttl httl).trans (Nat.add_le_add_right (Nat.le_add_right ..) _)

/-- What is made of a random value: an identifier, or a token of which the hash
is stored. -/
inductive Name
  | uuid (n : Nat)
  | bytes (n : Nat)

def Name.number : Name → Nat
  | .uuid n | .bytes n => n

/-- The identifier is that of a family or an access token; the token is a
refresh token, or it is in a link. -/
def Used (env : Env) (w : World) : Name → Prop
  | .uuid n => (∃ t ∈ w.refreshTokens, t.familyId = env.randomUUID n) ∨
      ∃ p ∈ w.signed, p.jti = env.randomUUID n
  | .bytes n => (∃ t ∈ w.refreshTokens, t.tokenHash = env.sha256 (env.randomBytes n)) ∨
      (∃ t ∈ w.passwordResetTokens, t.tokenHash = env.sha256 (env.randomBytes n)) ∨
        ∃ t ∈ w.emailVerificationTokens, t.tokenHash = env.sha256 (env.randomBytes n)

theorem Orderly.used_lt (h : Orderly env w) {a : Name} (ha : Used env w a) : a.number < w.drawn := by
  have hash {n k : Nat} {s : String} (hk : k < w.drawn) (e : s = env.sha256 (env.randomBytes n))
      (e' : s = env.sha256 (env.randomBytes k)) : n < w.drawn :=
    env.randomBytes_injective (env.sha256_injective (e.symm.trans e')) ▸ hk
  cases a with
  | uuid n =>
    rcases ha with ⟨t, ht, e⟩ | ⟨p, hp, e⟩
    · obtain ⟨k, hk, e'⟩ := h.joined.familyMinted t ht
      exact env.randomUUID_injective (e.symm.trans e') ▸ hk
    · obtain ⟨k, hk, e'⟩ := h.joined.jtiMinted p hp
      exact env.randomUUID_injective (e.symm.trans e') ▸ hk
  | bytes n =>
    rcases ha with ⟨t, ht, e⟩ | ⟨t, ht, e⟩ | ⟨t, ht, e⟩
    · obtain ⟨k, hk, e'⟩ := h.joined.tokenHash t ht
      exact hash hk e e'
    · obtain ⟨k, hk, e'⟩ := h.joined.resetHash t ht
      exact hash hk e e'
    · obtain ⟨k, hk, e'⟩ := h.joined.linkHash t ht
      exact hash hk e e'

/-- What the requests rely on. -/
def reliance (env : Env) : Rely World Name where
  inv := Orderly env
  grow := Later
  counter := World.drawn
  number := Name.number
  used := Used env
  refl := Later.refl
  trans := Later.trans
  counter_le h := h.grows.drawn
  used_lt h ha := h.used_lt ha

theorem IsUser.later (h : Later w w') (hu : IsUser u w) : IsUser u w' := by
  obtain ⟨v, hv, rfl⟩ := hu
  obtain ⟨v', hv', hk⟩ := h.grows.users.mem hv
  exact ⟨v', hv', hk.1⟩

theorem HasSession.later {sid : String} (h : Later w w') (hs : HasSession u sid w) :
    HasSession u sid w' := by
  obtain ⟨s, hs, rfl, rfl⟩ := hs
  obtain ⟨s', hs', hk⟩ := h.grows.sessions.mem hs
  exact ⟨s', hs', hk.1, hk.2.1⟩

theorem HasDevice.later {id : String} (h : Later w w') (hd : HasDevice u id w) :
    HasDevice u id w' := by
  obtain ⟨d, hd, rfl, rfl⟩ := hd
  obtain ⟨d', hd', hk⟩ := h.devices.mem hd
  exact ⟨d', hd', hk.1, hk.2⟩

/-- The refresh token, as it may look by now. -/
def HasToken (t : RefreshToken) (w : World) : Prop := ∃ t' ∈ w.refreshTokens, t.Keeps t'

theorem HasToken.later {t : RefreshToken} (h : Later w w') (ht : HasToken t w) : HasToken t w' := by
  obtain ⟨t', ht', hk⟩ := ht
  obtain ⟨t'', ht'', hk'⟩ := h.grows.refreshTokens.mem ht'
  exact ⟨t'', ht'', hk.trans _ _ _ hk'⟩

/-- The link, as it may look by now. -/
def HasReset (t : PasswordResetToken) (w : World) : Prop := ∃ t' ∈ w.passwordResetTokens, t.Keeps t'

theorem HasReset.later {t : PasswordResetToken} (h : Later w w') (ht : HasReset t w) :
    HasReset t w' := by
  obtain ⟨t', ht', hk⟩ := ht
  obtain ⟨t'', ht'', hk'⟩ := h.onward.resets.mem ht'
  exact ⟨t'', ht'', hk.trans _ _ _ hk'⟩

def HasLink (t : EmailVerificationToken) (w : World) : Prop :=
  ∃ t' ∈ w.emailVerificationTokens, t.Keeps t'

theorem HasLink.later {t : EmailVerificationToken} (h : Later w w') (ht : HasLink t w) :
    HasLink t w' := by
  obtain ⟨t', ht', hk⟩ := ht
  obtain ⟨t'', ht'', hk'⟩ := h.onward.emails.mem ht'
  exact ⟨t'', ht'', hk.trans _ _ _ hk'⟩

theorem reliance_advance (d : Time) (w : World) :
    (reliance env).grow w (w.advance d) ∧
      ((reliance env).inv w → (reliance env).inv (w.advance d)) ∧
      ∀ a, (reliance env).used (w.advance d) a → (reliance env).used w a :=
  ⟨.advance d w, fun h => h.advance d, fun a h => by cases a <;> exact h⟩

/-! ## What a call does -/

/-- The call changes rows of one user only, as `E` allows. -/
def Owned (env : Env) (E : List (Entry World Call) → String → Part → Prop)
    (log : List (Entry World Call)) (x : Entry World Call) : Prop :=
  Idle x.before x.after ∨ ∃ u, Touches env log (E log u) u x.before x.after

variable {E : List (Entry World Call) → String → Part → Prop} {x : Entry World Call}

theorem Touches.devices (h : Touches env log L u w w') :
    Evolves Device.Keeps w.devices w'.devices := by
  cases h with
  | createDevice => exact .append Device.Keeps.refl _ _
  | updateDevice _ _ hdata =>
    exact .updateWhere Device.Keeps.refl (fun d => ⟨(hdata d).1, (hdata d).2.1⟩) _
  | _ => exact .refl Device.Keeps.refl _

theorem DrewName.uuid {n : Nat} (h : DrewName env.randomUUID log w (env.randomUUID n)) :
    ∃ y ∈ log, (reliance env).Drew (.uuid n) y := by
  obtain ⟨k, -, e, y, hy, hd⟩ := h
  obtain rfl := env.randomUUID_injective e
  exact ⟨y, hy, hd⟩

theorem DrewName.bytes {n : Nat}
    (h : DrewName (env.sha256 ∘ env.randomBytes) log w (env.sha256 (env.randomBytes n))) :
    ∃ y ∈ log, (reliance env).Drew (.bytes n) y := by
  obtain ⟨k, -, e, y, hy, hd⟩ := h
  obtain rfl := env.randomBytes_injective (env.sha256_injective e)
  exact ⟨y, hy, hd⟩

theorem Touches.usedUuid (h : Touches env log L u w w') {n : Nat} (hn : Used env w' (.uuid n)) :
    Used env w (.uuid n) ∨ ∃ y ∈ log, (reliance env).Drew (.uuid n) y := by
  cases h with
  | @createRefreshToken hL t hu hs hf =>
    rcases hn with ⟨t', ht', e⟩ | hn
    · rcases List.mem_append.mp ht' with ht' | ht'
      · exact .inl (.inl ⟨t', ht', e⟩)
      · obtain rfl := List.mem_singleton.mp ht'
        rcases hf with ⟨t₀, ht₀, e', -⟩ | ⟨-, hd⟩
        · exact .inl (.inl ⟨t₀, ht₀, e'.trans e⟩)
        · exact .inr (e ▸ hd).uuid
    · exact .inl (.inr hn)
  | updateSessions _ _ _ hdata' =>
    exact .inl (hn.imp_left (exists_of_updateWhere fun t => (hdata' t).2.2.1))
  | sign hL hu hs hjti hname =>
    refine hn.elim (fun hn => .inl (.inl hn)) ?_
    rintro ⟨p', hp', e⟩
    rcases List.mem_append.mp hp' with hp' | hp'
    · exact .inl (.inr ⟨p', hp', e⟩)
    · obtain rfl := List.mem_singleton.mp hp'
      exact .inr (e ▸ hname).uuid
  | _ => exact .inl hn

theorem Touches.usedBytes (h : Touches env log L u w w') {n : Nat} (hn : Used env w' (.bytes n)) :
    Used env w (.bytes n) ∨ ∃ y ∈ log, (reliance env).Drew (.bytes n) y := by
  -- A row that is added has a hash of the request's own.
  have added {ρ : Type} {rows : List ρ} {r₀ : ρ} {hash : ρ → String}
      (hhash : DrewName (env.sha256 ∘ env.randomBytes) log w (hash r₀))
      (h : ∃ r ∈ rows ++ [r₀], hash r = env.sha256 (env.randomBytes n)) :
      (∃ r ∈ rows, hash r = env.sha256 (env.randomBytes n)) ∨
        ∃ y ∈ log, (reliance env).Drew (.bytes n) y := by
    obtain ⟨r, hr, e⟩ := h
    rcases List.mem_append.mp hr with hr | hr
    · exact .inl ⟨r, hr, e⟩
    · obtain rfl := List.mem_singleton.mp hr
      exact .inr (e ▸ hhash).bytes
  cases h with
  | createRefreshToken hL hu hs hf hhash =>
    exact hn.elim (fun hn => (added hhash hn).imp_left .inl) fun hn => .inl (.inr hn)
  | updateSessions _ _ _ hdata' =>
    exact .inl (hn.imp_left (exists_of_updateWhere fun t => (hdata' t).2.2.2))
  | createReset hL hu huser hhash =>
    rcases hn with hn | hn | hn
    · exact .inl (.inl hn)
    · exact (added hhash hn).imp_left fun hn => .inr (.inl hn)
    · exact .inl (.inr (.inr hn))
  | consumeResets => exact .inl (hn.imp_right (.imp_left (exists_of_updateWhere (by exact fun _ => rfl))))
  | createLink hL hu huser hhash =>
    rcases hn with hn | hn | hn
    · exact .inl (.inl hn)
    · exact .inl (.inr (.inl hn))
    · exact (added hhash hn).imp_left fun hn => .inr (.inr hn)
  | consumeLinks => exact .inl (hn.imp_right (.imp_right (exists_of_updateWhere (by exact fun _ => rfl))))
  | _ => exact .inl hn

theorem Touches.used (h : Touches env log L u w w') {a : Name} (ha : Used env w' a) :
    Used env w a ∨ ∃ y ∈ log, (reliance env).Drew a y := by
  cases a with
  | uuid n => exact h.usedUuid ha
  | bytes n => exact h.usedBytes ha

theorem Idle.used (h : Idle w w') {a : Name} (ha : Used env w' a) : Used env w a := by
  cases a with
  | uuid n => rwa [Used, h.refreshTokens, h.signed] at ha
  | bytes n => rwa [Used, h.refreshTokens, h.passwordResetTokens, h.emailVerificationTokens] at ha

theorem Lasts.mono (h : Lasts env w) (hs : w'.signed = w.signed) (hn : w.now ≤ w'.now) :
    Lasts env w' :=
  fun p hp ttl httl => (h p (hs ▸ hp) ttl httl).trans (Nat.add_le_add_right hn _)

theorem Touches.lasts (h : Touches env log L u w w') (hl : Lasts env w) : Lasts env w' := by
  cases h with
  | sign hL hu hs hjti hname hexp =>
    intro p hp ttl httl
    rcases List.mem_append.mp hp with hp | hp
    · exact hl p hp ttl httl
    · obtain rfl := List.mem_singleton.mp hp
      obtain ⟨d, hd, hexp⟩ := hexp
      obtain rfl := Except.ok.inj (httl.symm.trans hd)
      exact deadline_le httl hexp
  | _ => exact hl

/-- Such a call keeps up what the other requests rely on. -/
theorem Owned.keeps (h : Owned env E log x) (hg : GrowsFresh env x.before x.after)
    (hd : Does env (fun _ => True) x.before x.after) : (reliance env).Keeps log x where
  inv hi := by
    obtain h | ⟨u, h⟩ := h
    · exact ⟨hg.2 hi.fresh, hd.indexed hi.indexed, h.joined hi.joined, hi.lasts.mono h.signed hg.1.now⟩
    · exact ⟨hg.2 hi.fresh, hd.indexed hi.indexed, h.joined hi.joined, h.lasts hi.lasts⟩
  grow := by
    refine ⟨hg.1, hd.onward, ?_⟩
    obtain h | ⟨u, h⟩ := h
    · exact h.devices ▸ .refl Device.Keeps.refl _
    · exact h.devices
  used n hn := by
    obtain h | ⟨u, h⟩ := h
    · exact .inl (h.used hn)
    · exact h.used hn

end AtlasAuth

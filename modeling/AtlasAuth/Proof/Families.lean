import AtlasAuth.Framework.Chain
import AtlasAuth.Proof.Changes

/-!
# Families of refresh tokens

A login or a registration begins a family of refresh tokens, of one session
and its user, and every refresh adds the successor of the token it revokes. In
every reachable state each session has one family, and the tokens of a family
form one chain of which at most the last is not revoked
(`families_linear`). The invariant (`Coherent`) is preserved by every `Change`.
-/

namespace AtlasAuth

open Framework Framework.Table Prog

variable {env : Env} {w w' : World}

/-! ## Sessions and families -/

/-- The refresh tokens of a family, in the order of their creation. -/
def World.family (w : World) (f : String) : List RefreshToken :=
  w.refreshTokens.filter (·.familyId == f)

def Session.owner (s : Session) : String × String := (s.id, s.userId)

/-- Where a refresh token belongs: its family, session and user. -/
def RefreshToken.place (t : RefreshToken) : String × String × String :=
  (t.familyId, t.sessionId, t.userId)

/-- Each session has one family, and each family one session. -/
structure OneFamilyEach (sessions : List (String × String))
    (places : List (String × String × String)) : Prop where
  session : ∀ x ∈ places, x.2 ∈ sessions
  family : ∀ s ∈ sessions, ∃ x ∈ places, x.2 = s
  iff : ∀ x ∈ places, ∀ y ∈ places, x.1 = y.1 ↔ x.2.1 = y.2.1

section

variable {sessions : List (String × String)} {places : List (String × String × String)}

theorem OneFamilyEach.nil : OneFamilyEach [] [] :=
  ⟨fun _ => nofun, fun _ => nofun, fun _ => nofun⟩

/-- One more token of a family. -/
theorem OneFamilyEach.again {x : String × String × String} (h : OneFamilyEach sessions places)
    (hx : x ∈ places) : OneFamilyEach sessions (places ++ [x]) := by
  have hmem : ∀ y, y ∈ places ++ [x] → y ∈ places := fun y hy => by
    rcases List.mem_append.mp hy with hy | hy
    · exact hy
    · exact List.mem_singleton.mp hy ▸ hx
  refine ⟨fun y hy => h.session y (hmem y hy), fun s hs => ?_,
    fun y hy z hz => h.iff y (hmem y hy) z (hmem z hz)⟩
  obtain ⟨y, hy, e⟩ := h.family s hs
  exact ⟨y, List.mem_append_left _ hy, e⟩

/-- One more session, with a family of its own. -/
theorem OneFamilyEach.new {f : String} {s : String × String} (h : OneFamilyEach sessions places)
    (hf : ∀ x ∈ places, x.1 ≠ f) (hs : ∀ s' ∈ sessions, s'.1 ≠ s.1) :
    OneFamilyEach (sessions ++ [s]) (places ++ [(f, s)]) := by
  refine ⟨fun x hx => ?_, fun s' hs' => ?_, fun x hx y hy => ?_⟩
  · rcases List.mem_append.mp hx with hx | hx
    · exact List.mem_append_left _ (h.session x hx)
    · obtain rfl := List.mem_singleton.mp hx
      exact List.mem_append_right _ (List.mem_singleton_self s)
  · rcases List.mem_append.mp hs' with hs' | hs'
    · obtain ⟨x, hx, e⟩ := h.family s' hs'
      exact ⟨x, List.mem_append_left _ hx, e⟩
    · obtain rfl := List.mem_singleton.mp hs'
      exact ⟨_, List.mem_append_right _ (List.mem_singleton_self _), rfl⟩
  · have apart : ∀ x ∈ places, (x.1 = f ↔ x.2.1 = s.1) := fun x hx =>
      iff_of_false (hf x hx) (hs x.2 (h.session x hx))
    rcases List.mem_append.mp hx with hx | hx <;> rcases List.mem_append.mp hy with hy | hy
    · exact h.iff x hx y hy
    · obtain rfl := List.mem_singleton.mp hy
      exact apart x hx
    · obtain rfl := List.mem_singleton.mp hx
      exact eq_comm.trans ((apart y hy).trans eq_comm)
    · obtain rfl := List.mem_singleton.mp hx
      obtain rfl := List.mem_singleton.mp hy
      exact iff_of_true rfl rfl

end

/-! ## The invariant -/

structure Coherent (env : Env) (w : World) : Prop where
  hashMinted : HashMinted env w
  familyMinted : Minted RefreshToken.familyId env.randomUUID w.drawn w.refreshTokens
  places : OneFamilyEach (w.sessions.map Session.owner) (w.refreshTokens.map RefreshToken.place)
  sessionUser : ∀ s ∈ w.sessions, ∃ u ∈ w.users, u.id = s.userId
  signedFor : ∀ p ∈ w.signed, (p.sessionId, p.sub) ∈ w.sessions.map Session.owner
  jti : Unique JwtPayload.jti w.signed
  jtiMinted : Minted JwtPayload.jti env.randomUUID w.drawn w.signed
  replaced : ∀ t ∈ w.refreshTokens, t.replacedByTokenHash.isSome = true → t.revokedAt.isSome = true
  linked : ∀ f, Linked RefreshToken.tokenHash RefreshToken.replacedByTokenHash (w.family f)

theorem Coherent.init (t : Time) : Coherent env { now := t } where
  hashMinted := .nil
  familyMinted := .nil
  places := .nil
  sessionUser := fun _ => nofun
  signedFor := fun _ => nofun
  jti := .nil
  jtiMinted := .nil
  replaced := fun _ => nofun
  linked := fun _ => trivial

theorem isSome_of_owner {id u : String} (h : (id, u) ∈ w.sessions.map Session.owner) :
    (w.sessions.find? (·.id == id)).isSome = true := by
  obtain ⟨s, hs, e⟩ := List.mem_map.mp h
  exact List.find?_isSome.mpr ⟨s, hs, by simp [(Prod.mk.inj e).1]⟩

theorem Coherent.ready (h : Coherent env w) (hf : Fresh env w) : Ready env w where
  fresh := hf
  hashMinted := h.hashMinted
  tokenSession := fun _ ht => isSome_of_owner (h.places.session _ (List.mem_map_of_mem ht))
  signedSession := fun p hp => isSome_of_owner (h.signedFor p hp)

theorem Coherent.calm (h : Coherent env w) (hc : Calm w w') : Coherent env w' where
  hashMinted := h.hashMinted.calm hc
  familyMinted := hc.refreshTokens ▸ h.familyMinted.mono hc.drawn
  places := by rw [hc.sessions, hc.refreshTokens]; exact h.places
  sessionUser := fun s hs => by
    obtain ⟨u, hu, e⟩ := h.sessionUser s (hc.sessions ▸ hs)
    obtain ⟨u', hu', hid, -⟩ := hc.users.mem hu
    exact ⟨u', hu', hid.trans e⟩
  signedFor := by rw [hc.signed, hc.sessions]; exact h.signedFor
  jti := hc.signed ▸ h.jti
  jtiMinted := hc.signed ▸ h.jtiMinted.mono hc.drawn
  replaced := hc.refreshTokens ▸ h.replaced
  linked := fun f => by rw [World.family, hc.refreshTokens]; exact h.linked f

theorem mem_users_of_credentials {us us' : List User} {u : User}
    (h : us'.map User.credentials = us.map User.credentials) (hu : u ∈ us) :
    ∃ u' ∈ us', u'.id = u.id := by
  obtain ⟨u', hu', hid, -⟩ := (evolves_of_credentials h).mem hu
  exact ⟨u', hu', hid⟩

theorem Coherent.issued {u : String} {s : Session} {t : RefreshToken} {p : JwtPayload}
    (h : Coherent env w) (hf' : Fresh env w') (hu : ∃ v ∈ w.users, v.id = u)
    (hi : Issued env u s t p w w') : Coherent env w' := by
  obtain ⟨k, hk, hk', hfam⟩ := hi.family
  obtain ⟨i, hi₁, hi₂, hhash⟩ := hi.hash
  obtain ⟨j, hj, hj', hjti⟩ := hi.access.jti
  obtain ⟨htu, hts, -, hrep⟩ := hi.token
  have hnew : ∀ t' ∈ w.refreshTokens, t'.familyId ≠ t.familyId := fun t' ht' =>
    hfam ▸ h.familyMinted.ne env.randomUUID_injective ht' hk
  have hsess := hi.sessions ▸ hf'.sessionId
  have hplace : t.place = (t.familyId, s.owner) := by
    simp only [RefreshToken.place, Session.owner, htu, hts, hi.session.1]
  exact {
    hashMinted := by
      rw [HashMinted, hi.refreshTokens]
      exact h.hashMinted.concat hi.drawn hi₂ hhash
    familyMinted := by
      rw [hi.refreshTokens]
      exact h.familyMinted.concat hi.drawn hk' hfam
    places := by
      rw [hi.sessions, hi.refreshTokens, List.map_append, List.map_append, List.map_singleton,
        List.map_singleton, hplace]
      refine h.places.new (fun x hx => ?_) fun x hx => ?_
      · obtain ⟨t', ht', rfl⟩ := List.mem_map.mp hx
        exact hnew t' ht'
      · obtain ⟨s', hs', rfl⟩ := List.mem_map.mp hx
        exact hsess.ne_of_append hs'
    sessionUser := fun s' hs' => by
      have hv : ∃ v ∈ w.users, v.id = s'.userId := by
        rw [hi.sessions] at hs'
        rcases List.mem_append.mp hs' with hs' | hs'
        · exact h.sessionUser s' hs'
        · exact List.mem_singleton.mp hs' ▸ hi.session.1 ▸ hu
      obtain ⟨v, hv, e⟩ := hv
      obtain ⟨v', hv', e'⟩ := mem_users_of_credentials hi.users hv
      exact ⟨v', hv', e'.trans e⟩
    signedFor := fun q hq => by
      rw [hi.sessions, List.map_append]
      rw [hi.signed] at hq
      rcases List.mem_append.mp hq with hq | hq
      · exact List.mem_append_left _ (h.signedFor q hq)
      · obtain rfl := List.mem_singleton.mp hq
        refine List.mem_append_right _ (List.mem_singleton.mpr ?_)
        exact Prod.ext hi.access.sessionId (hi.access.sub.trans hi.session.1.symm)
    jti := by
      rw [hi.signed]
      exact h.jti.append fun q hq => hjti ▸ h.jtiMinted.ne env.randomUUID_injective hq hj
    jtiMinted := by
      rw [hi.signed]
      exact h.jtiMinted.concat hi.drawn hj' hjti
    replaced := fun t' ht' => by
      rw [hi.refreshTokens] at ht'
      rcases List.mem_append.mp ht' with ht' | ht'
      · exact h.replaced t' ht'
      · obtain rfl := List.mem_singleton.mp ht'
        simp [hrep]
    linked := fun f => by
      rw [World.family, hi.refreshTokens, List.filter_append]
      by_cases hf : t.familyId = f
      · have hnone : w.refreshTokens.filter (·.familyId == f) = [] :=
          List.filter_eq_nil_iff.mpr fun t' ht' => by simpa using hf ▸ hnew t' ht'
        simpa [hnone, hf, Linked] using hrep
      · have hne : [t].filter (·.familyId == f) = [] := by simp [hf]
        rw [hne, List.append_nil]
        exact h.linked f }

/-- A token of a family that is not revoked has no successor. -/
theorem Coherent.replaced_eq_none (h : Coherent env w) {t : RefreshToken} {f : String}
    (ht : t ∈ w.family f) (hr : t.revokedAt = none) : t.replacedByTokenHash = none := by
  cases hn : t.replacedByTokenHash with
  | none => rfl
  | some n => simpa [hr] using h.replaced t (List.mem_of_mem_filter ht) (by simp [hn])

/-- The last token of a family is replaced by the new one. -/
theorem Rotated.family_self {t₀ t : RefreshToken} {p : JwtPayload} {init : List RefreshToken}
    (hi : Rotated env t₀ t p w w') (hids : Unique RefreshToken.id (w.refreshTokens ++ [t]))
    (hfam : w.family t₀.familyId = init ++ [t₀]) : ∃ now, w'.family t₀.familyId =
      init ++ [{ t₀ with revokedAt := some now, replacedByTokenHash := some t.tokenHash }, t] := by
  obtain ⟨now, htokens⟩ := hi.refreshTokens
  obtain ⟨-, -, htf, -⟩ := hi.token
  have hold : Unique RefreshToken.id (init ++ [t₀]) := by
    rw [← hfam]
    exact Unique.filter (hids.sublist ((List.sublist_append_left _ _).map _))
  have hinit : ∀ t' ∈ init, (t'.id == t₀.id) = false := fun t' ht' => by
    simpa using hold.ne_of_append ht'
  have ht₀ : t₀ ∈ w.refreshTokens :=
    List.mem_of_mem_filter (hfam ▸ List.mem_append_right _ (List.mem_singleton_self t₀) :
      t₀ ∈ w.family t₀.familyId)
  have hne : t.id ≠ t₀.id := (hids.ne_of_append ht₀).symm
  refine ⟨now, ?_⟩
  rw [World.family, htokens, filter_updateWhere (by exact fun _ _ => rfl), List.filter_append,
    show w.refreshTokens.filter (·.familyId == t₀.familyId) = init ++ [t₀] from hfam]
  simp [updateWhere_of_none hinit, htf, hne]

/-- The other families are left alone. -/
theorem Rotated.family_of_ne {t₀ t : RefreshToken} {p : JwtPayload} {f : String}
    (hi : Rotated env t₀ t p w w') (hf : Fresh env w) (ht₀ : t₀ ∈ w.refreshTokens)
    (hne : t₀.familyId ≠ f) : w'.family f = w.family f := by
  obtain ⟨now, htokens⟩ := hi.refreshTokens
  obtain ⟨-, -, htf, -⟩ := hi.token
  have ht : [t].filter (·.familyId == f) = [] := by simp [htf, hne]
  rw [World.family, htokens, filter_updateWhere (by exact fun _ _ => rfl), List.filter_append, ht,
    List.append_nil]
  refine updateWhere_of_none fun t' ht' => ?_
  obtain ⟨hm, hfam⟩ := List.mem_filter.mp ht'
  have hfam : t'.familyId = f := by simpa using hfam
  have hid : t'.id ≠ t₀.id := fun e => hne (hf.tokenId.eq hm ht₀ e ▸ hfam)
  simpa using hid

theorem Coherent.rotated {t₀ t : RefreshToken} {p : JwtPayload} (h : Coherent env w)
    (hf : Fresh env w) (hf' : Fresh env w') (ht₀ : t₀ ∈ w.refreshTokens) (hr : t₀.revokedAt = none)
    (hi : Rotated env t₀ t p w w') : Coherent env w' := by
  obtain ⟨i, hi₁, hi₂, hhash⟩ := hi.hash
  obtain ⟨j, hj, hj', hjti⟩ := hi.access.jti
  obtain ⟨now, hsess⟩ := hi.sessions
  obtain ⟨now', htokens⟩ := hi.refreshTokens
  obtain ⟨htu, hts, hfam, -, hrev, hrep⟩ := hi.token
  have howners : w'.sessions.map Session.owner = w.sessions.map Session.owner := by
    rw [hsess]
    exact map_updateWhere fun _ _ => rfl
  have hplace : t.place = t₀.place := by simp only [RefreshToken.place, htu, hts, hfam]
  have hmem := List.mem_map_of_mem (f := RefreshToken.place) ht₀
  have hids : Unique RefreshToken.id (w.refreshTokens ++ [t]) := by
    have := hf'.tokenId
    rwa [htokens, Table.Unique, map_updateWhere (by exact fun _ _ => rfl)] at this
  -- Up to now the token is the last of its family.
  have hlast : t₀.replacedByTokenHash = none := by
    exact h.replaced_eq_none (List.mem_filter.mpr ⟨ht₀, beq_self_eq_true _⟩) hr
  exact {
    hashMinted := by
      rw [HashMinted, htokens]
      exact (h.hashMinted.concat hi.drawn hi₂ hhash).updateWhere fun _ _ => rfl
    familyMinted := by
      rw [htokens]
      obtain ⟨k, hk, e⟩ := h.familyMinted t₀ ht₀
      refine (h.familyMinted.concat hi.drawn (Nat.lt_of_lt_of_le hk hi.drawn) ?_).updateWhere ?_
      · exact hfam.trans e
      · exact fun _ _ => rfl
    places := by
      rw [howners, htokens, map_updateWhere (by exact fun _ _ => rfl), List.map_append,
        List.map_singleton, hplace]
      exact h.places.again hmem
    sessionUser := by
      rw [hsess]
      refine forall_updateWhere (fun s hs => ?_) fun _ _ h => h
      obtain ⟨v, hv, e⟩ := h.sessionUser s hs
      obtain ⟨v', hv', e'⟩ := mem_users_of_credentials hi.users hv
      exact ⟨v', hv', e'.trans e⟩
    signedFor := fun q hq => by
      rw [howners]
      rw [hi.signed] at hq
      rcases List.mem_append.mp hq with hq | hq
      · exact h.signedFor q hq
      · obtain rfl := List.mem_singleton.mp hq
        rw [hi.access.sessionId, hi.access.sub]
        exact h.places.session _ hmem
    jti := by
      rw [hi.signed]
      exact h.jti.append fun q hq => hjti ▸ h.jtiMinted.ne env.randomUUID_injective hq hj
    jtiMinted := by
      rw [hi.signed]
      exact h.jtiMinted.concat hi.drawn hj' hjti
    replaced := by
      rw [htokens]
      refine forall_updateWhere (fun t' ht' => ?_) fun _ _ _ _ => rfl
      rcases List.mem_append.mp ht' with ht' | ht'
      · exact h.replaced t' ht'
      · obtain rfl := List.mem_singleton.mp ht'
        simp [hrep]
    linked := fun f => by
      by_cases hf₀ : t₀.familyId = f
      · subst hf₀
        have hm : t₀ ∈ w.family t₀.familyId := List.mem_filter.mpr ⟨ht₀, by simp⟩
        obtain ⟨init, hfam⟩ := (h.linked _).eq_concat hm hlast
        obtain ⟨now, hfam'⟩ := hi.family_self hids hfam
        have hl := h.linked t₀.familyId
        rw [hfam] at hl
        rw [hfam']
        exact hl.extend rfl rfl hrep
      · rw [hi.family_of_ne hf ht₀ hf₀]
        exact h.linked f }

theorem Coherent.revoked {p : Session → Bool} {q : RefreshToken → Bool} (h : Coherent env w)
    (hr : Revoked env p q w w') : Coherent env w' := by
  obtain ⟨now, hsess⟩ := hr.sessions
  obtain ⟨now', htokens⟩ := hr.refreshTokens
  have howners : w'.sessions.map Session.owner = w.sessions.map Session.owner := by
    rw [hsess]
    exact map_updateWhere fun _ _ => rfl
  exact {
    hashMinted := by
      rw [HashMinted, htokens]
      exact (h.hashMinted.mono hr.drawn).updateWhere fun _ _ => rfl
    familyMinted := by
      rw [htokens]
      exact (h.familyMinted.mono hr.drawn).updateWhere fun _ _ => rfl
    places := by
      rw [howners, htokens, map_updateWhere (by exact fun _ _ => rfl)]
      exact h.places
    sessionUser := by
      rw [hsess]
      refine forall_updateWhere (fun s hs => ?_) fun _ _ h => h
      obtain ⟨v, hv, e⟩ := h.sessionUser s hs
      obtain ⟨v', hv', e', -⟩ := hr.users.mem hv
      exact ⟨v', hv', e'.trans e⟩
    signedFor := by
      rw [howners, hr.signed]
      exact h.signedFor
    jti := hr.signed ▸ h.jti
    jtiMinted := hr.signed ▸ h.jtiMinted.mono hr.drawn
    replaced := by
      rw [htokens]
      exact forall_updateWhere h.replaced fun _ _ _ _ => rfl
    linked := fun f => by
      rw [World.family, htokens, filter_updateWhere (by exact fun _ _ => rfl)]
      exact (h.linked f).updateWhere (fun _ => rfl) fun _ => rfl }

/-! ## Histories -/

theorem Coherent.change (h : Coherent env w) (hf : Fresh env w) (hf' : Fresh env w')
    (hc : Change env w w') : Coherent env w' := by
  cases hc with
  | calm hc => exact h.calm hc
  | issued hc hu hi => exact (h.calm hc).issued hf' ⟨_, hu, rfl⟩ hi
  | rotated ht hr _ _ _ _ hi => exact h.rotated hf hf' ht hr hi
  | revoked hr => exact h.revoked hr

theorem completes_grows {r : Request} {x : Except Exn Response} (h : Completes env r w x w') :
    GrowsFresh env w w' :=
  h.always (grows_program r) fun _ _ ⟨d, e⟩ => e ▸ GrowsFresh.advance d _

theorem history_grows {tr : List (Done Request World Exn Response)} (h : History env w tr w') :
    GrowsFresh env w w' :=
  h.always grows_program .advance

/-- A state that completed requests lead to. -/
structure Sound (env : Env) (w : World) : Prop where
  fresh : Fresh env w
  coherent : Coherent env w

theorem Sound.ready (h : Sound env w) : Ready env w := h.coherent.ready h.fresh

theorem Sound.history {tr : List (Done Request World Exn Response)} (h₀ : Sound env w)
    (h : History env w tr w') : Sound env w' := by
  refine h.invariant (I := Sound env) h₀ (fun m w₁ hs => ?_) fun r w₁ x w₂ hs he hx => ?_
  · exact ⟨(GrowsFresh.advance m w₁).2 hs.fresh, hs.coherent.calm (Quiet.lapse ⟨m, rfl⟩).calm⟩
  · have hf := (completes_grows he).2 hs.fresh
    exact ⟨hf, hs.coherent.change hs.fresh hf (change_program hs.ready he hx)⟩

theorem Sound.init (t : Time) : Sound env { now := t } := ⟨.init t, .init t⟩

/-- The access token of a response has been signed. -/
theorem signed_of_returned (hr : Ready env w) {r : Request} {u : User} {tokens : SessionTokens}
    (h : Completes env r w (.ok (.session u tokens)) w') :
    tokens.accessToken.token ∈ w'.signed := by
  have hx : Answered (.ok (.session u tokens)) := fun _ => nofun
  cases r with
  | register dto c =>
    obtain ⟨b, e, w₁, s, t, -, -, -, hi⟩ | ⟨⟨e, he⟩, -⟩ := completes_register hr h hx
    · cases e
      exact hi.signed ▸ List.mem_append_right _ (List.mem_singleton_self _)
    · cases he
  | login dto c =>
    obtain ⟨r, hl, e⟩ := completes_login hr h
    cases hl with
    | right _ _ _ _ _ _ _ hi =>
      cases e
      exact hi.signed ▸ List.mem_append_right _ (List.mem_singleton_self _)
    | unknown | locked | wrong | broken => cases e
  | refresh cookie c =>
    obtain ⟨-, ⟨e, he⟩, -⟩ | ⟨token, -, r, hl, e⟩ := completes_refresh hr h
    · cases he
    · cases hl with
      | rotated _ _ _ _ _ _ _ hi =>
        cases e
        exact hi.signed ▸ List.mem_append_right _ (List.mem_singleton_self _)
      | refused | broken | reused => cases e
  | _ =>
    obtain ⟨_ | _, -, e⟩ := exec_map.mp h <;> cases e

theorem Sound.find?_owner (h : Sound env w) {id u : String}
    (ho : (id, u) ∈ w.sessions.map Session.owner) :
    ∃ s, w.sessions.find? (·.id == id) = some s ∧ s.userId = u := by
  obtain ⟨s, hs, e⟩ := List.mem_map.mp ho
  obtain ⟨rfl, rfl⟩ := Prod.mk.inj e
  exact ⟨s, h.fresh.sessionId.find?.mpr ⟨hs, rfl⟩, rfl⟩

theorem Sound.owner_unique (h : Sound env w) {id u u' : String}
    (ho : (id, u) ∈ w.sessions.map Session.owner) (ho' : (id, u') ∈ w.sessions.map Session.owner) :
    u = u' := by
  obtain ⟨s, hs, rfl⟩ := h.find?_owner ho
  obtain ⟨s', hs', rfl⟩ := h.find?_owner ho'
  rw [Option.some.inj (hs.symm.trans hs')]

/-- In every state that completed requests lead to, a family of refresh tokens
belongs to one session and its user, and each session has one family; the
tokens of a family form a chain, of which only the last may be not revoked;
and every access token that was returned is of the user of its session. -/
theorem families_linear {t : Time} {tr : List (Done Request World Exn Response)}
    (h : History env { now := t } tr w) :
    (∀ t₁ ∈ w.refreshTokens, ∀ t₂ ∈ w.refreshTokens, t₁.familyId = t₂.familyId →
      t₁.sessionId = t₂.sessionId ∧ t₁.userId = t₂.userId) ∧
    (∀ t₁ ∈ w.refreshTokens, ∃ s, w.sessions.find? (·.id == t₁.sessionId) = some s ∧
      s.userId = t₁.userId) ∧
    (∀ s ∈ w.sessions, ∃! f, ∃ t₁ ∈ w.refreshTokens, t₁.sessionId = s.id ∧ t₁.familyId = f) ∧
    (∀ f, Linked RefreshToken.tokenHash RefreshToken.replacedByTokenHash (w.family f)) ∧
    (∀ f, (∀ t₁ ∈ (w.family f).dropLast, t₁.revokedAt.isSome = true) ∧
      ∀ t₁ ∈ w.family f, ∀ t₂ ∈ w.family f, t₁.revokedAt = none → t₂.revokedAt = none → t₁ = t₂) ∧
    ∀ d ∈ tr, ∀ u tokens, d.outcome = .ok (.session u tokens) →
      ∃ s, w.sessions.find? (·.id == tokens.accessToken.token.sessionId) = some s ∧
        tokens.accessToken.token.sub = s.userId := by
  have hs := (Sound.init t).history h
  have hc := hs.coherent
  have owner {t₁ : RefreshToken} (h₁ : t₁ ∈ w.refreshTokens) :
      (t₁.sessionId, t₁.userId) ∈ w.sessions.map Session.owner :=
    hc.places.session _ (List.mem_map_of_mem (f := RefreshToken.place) h₁)
  have iff {t₁ t₂ : RefreshToken} (h₁ : t₁ ∈ w.refreshTokens) (h₂ : t₂ ∈ w.refreshTokens) :
      t₁.familyId = t₂.familyId ↔ t₁.sessionId = t₂.sessionId :=
    hc.places.iff _ (List.mem_map_of_mem (f := RefreshToken.place) h₁) _
      (List.mem_map_of_mem (f := RefreshToken.place) h₂)
  refine ⟨fun t₁ h₁ t₂ h₂ e => ?_, fun t₁ h₁ => hs.find?_owner (owner h₁), fun s hsm => ?_, hc.linked,
    fun f => ⟨fun t₁ h₁ => ?_, fun t₁ h₁ t₂ h₂ hr₁ hr₂ => ?_⟩, fun d hd u tokens ho => ?_⟩
  · have e' := (iff h₁ h₂).mp e
    exact ⟨e', hs.owner_unique (owner h₁) (e' ▸ owner h₂)⟩
  · obtain ⟨x, hx, e⟩ := hc.places.family _ (List.mem_map_of_mem (f := Session.owner) hsm)
    obtain ⟨t₁, h₁, rfl⟩ := List.mem_map.mp hx
    have e : t₁.sessionId = s.id := congrArg Prod.fst e
    refine ⟨t₁.familyId, ⟨t₁, h₁, e, rfl⟩, ?_⟩
    rintro _ ⟨t₂, h₂, e₂, rfl⟩
    exact (iff h₂ h₁).mpr (e₂.trans e.symm)
  · have hm := List.mem_of_mem_filter ((List.dropLast_sublist _).subset h₁)
    exact hc.replaced t₁ hm ((hc.linked f).isSome t₁ h₁)
  · exact (hc.linked f).eq_of_none h₁ h₂ (hc.replaced_eq_none h₁ hr₁) (hc.replaced_eq_none h₂ hr₂)
  · obtain ⟨tr₁, tr₂, h₁, he, -, h₂⟩ := System.Trace.mem h hd
    have hm := signed_of_returned ((Sound.init t).history h₁).ready (ho ▸ he)
    obtain ⟨s, hs, e⟩ := hs.find?_owner (hc.signedFor _ ((history_grows h₂).1.signed.subset hm))
    exact ⟨s, hs, e.symm⟩

instance (x : Except Exn Response) : Decidable (Answered x) :=
  match x with
  | .ok _ => .isTrue fun _ => nofun
  | .error (.error m) => .isFalse fun h => h m rfl
  | .error (.badRequest _) | .error (.unauthorized _) | .error (.forbidden _)
  | .error (.notFound _) | .error (.conflict _) | .error (.prisma _) => .isTrue fun _ => nofun

theorem history_serve {rs : List (Time × Request)}
    (h : ∀ d ∈ ((system env).serve rs w).1, Answered d.outcome) :
    History env w ((system env).serve rs w).1 ((system env).serve rs w).2 :=
  .serve (fun _ => ⟨0, rfl⟩) h

/-- A request that completes at once. -/
theorem completes_run (r : Request) (w : World) :
    Completes env r w ((program env r).run w).1 ((program env r).run w).2 :=
  exec_run (fun _ => ⟨0, rfl⟩) _ _

theorem completes_of_run {r : Request} {x : Except Exn Response}
    (h : ((program env r).run w).1 = x) : Completes env r w x ((program env r).run w).2 :=
  h ▸ completes_run r w

/-- The session that a request has returned. -/
def returnedSession : Except Exn Response → Option (User × SessionTokens)
  | .ok (.session u tokens) => some (u, tokens)
  | _ => none

theorem exists_session {x : Except Exn Response} (h : (returnedSession x).isSome = true) :
    ∃ u tokens, x = .ok (.session u tokens) := by
  unfold returnedSession at h
  split at h
  · exact ⟨_, _, rfl⟩
  · cases h

/-- A registration and two refreshes. -/
def rotatedTwice : List (Done Request World Exn Response) × World :=
  (system .sample).serve
    [(0, .register ⟨"a@b.co", "Passw0rd!", none, none⟩ ⟨none, none⟩),
     (1000, .refresh (some (unary 3)) ⟨none, none⟩),
     (1000, .refresh (some (unary 8)) ⟨none, none⟩)] { now := 0 }

theorem rotatedTwice_family :
    (rotatedTwice.2.family (unary 6)).map (·.revokedAt) = [some 1000, some 2000, none] ∧
    Linked RefreshToken.tokenHash RefreshToken.replacedByTokenHash
      (rotatedTwice.2.family (unary 6)) := by
  have h : History .sample { now := 0 } rotatedTwice.1 rotatedTwice.2 :=
    history_serve (by decide +kernel)
  exact ⟨by decide +kernel, (families_linear h).2.2.2.1 _⟩

end AtlasAuth

import AtlasAuth.Framework.Once
import AtlasAuth.Proof.Revocation

/-!
# How often a refresh token is used

A refresh looks the token up, and marks it as replaced several calls later,
whatever has happened to it in between: two refreshes that both look it up
before either has marked it both return new tokens (`refreshTwice`).

As long as no refresh looks the token up between another one's lookup and mark,
the token has at most one holder in every state of an interleaving, and only a
holder returns tokens (`refresh_at_most_once`).
-/

namespace AtlasAuth

open Framework Framework.Table Prog

variable {env : Env} {P P' : AppPool} {token : String}

/-- The refresh token that a refresh presents. -/
def Request.presents : Request → Option String
  | .refresh cookie _ => cookie
  | _ => none

abbrev IsRefresh (token : String) (r : Request) : Prop := r.presents = some token

/-- The token with this hash is in the table, and revoked. -/
def TokenRevoked (hash : String) (w : World) : Prop :=
  ∃ t, w.refreshTokens.find? (·.tokenHash == hash) = some t ∧ t.revokedAt.isSome = true

theorem TokenRevoked.grows {hash : String} {w w' : World} (h : TokenRevoked hash w)
    (hg : Grows w w') : TokenRevoked hash w' := by
  obtain ⟨t, ht, hr⟩ := h
  obtain ⟨t', ht', hk⟩ := hg.refreshToken ht
  exact ⟨t', ht', hk.2.2.2.2.2.2 hr⟩

/-- A lookup that found the token unrevoked. -/
def FoundLive (hash : String) (x : Entry World Call) : Prop :=
  x.label = .findRefreshTokenByHash hash ∧
    ∃ t ∈ x.before.refreshTokens.find? (·.tokenHash == hash), t.revokedAt = none

def Marks : Call → Bool
  | .revokeRefreshToken _ => true
  | _ => false

/-- The calls that decide who uses a token: lookups and marks. -/
def Decides : Call → Bool
  | .findRefreshTokenByHash _ => true
  | c => Marks c

/-- A refresh token is looked up, and marked as replaced. -/
def refreshOnce (env : Env) (token : String) : Once Request World Call where
  uses := IsRefresh token
  finds := FoundLive (env.sha256 token)
  acts _ := False
  marks l := Marks l = true
  spent := TokenRevoked (env.sha256 token)

theorem refreshOnce_ignores : (refreshOnce env token).Ignores fun l => ¬Decides l := by
  intro x hx
  refine ⟨fun hf => ?_, False.elim, fun hm => ?_⟩
  · rw [hf.1] at hx
    exact hx rfl
  · cases hl : x.label <;> rw [hl] at hx hm <;> first | exact hx rfl | cases hm

/-! ## One refresh -/

section

variable {log : List (Entry World Call)}

/-- A token that was looked up is later found by its identifier, too. -/
theorem find_later {hash : String} {w w' : World} {t : RefreshToken}
    (ht : w.refreshTokens.find? (·.tokenHash == hash) = some t) (hg : Grows w w')
    (hf : Fresh env w') :
    ∃ t', w'.refreshTokens.find? (·.tokenHash == hash) = some t' ∧
      w'.refreshTokens.find? (·.id == t.id) = some t' ∧ t.Keeps t' := by
  obtain ⟨t', ht', hk⟩ := hg.refreshToken ht
  obtain ⟨hm, -⟩ := hf.tokenHash.find?.mp ht'
  exact ⟨t', ht', hf.tokenId.find?.mpr ⟨hm, hk.1⟩, hk⟩

theorem tokenRevoked_mark {hash new : String} {w : World} {t : RefreshToken}
    (ht : w.refreshTokens.find? (·.tokenHash == hash) = some t) :
    TokenRevoked hash
      { w with refreshTokens := updateWhere (·.id == t.id)
                 (fun t => { t with revokedAt := some w.now, replacedByTokenHash := some new })
                 w.refreshTokens } := by
  simp only [TokenRevoked]
  rw [find?_updateWhere (by exact fun _ _ => rfl), ht]
  exact ⟨_, rfl, by simp⟩

theorem obeys_rotate_once {r : Request} {t : RefreshToken} {x : Entry World Call}
    (hx : x.label = .findRefreshTokenByHash (env.sha256 token))
    (ht : x.before.refreshTokens.find? (·.tokenHash == env.sha256 token) = some t)
    (hr : t.revokedAt = none) (s : Session) (u : User) (c : RequestContext) (hl : x ∈ log) :
    (AuthService.rotate env t s u c).Obeys (Since env) ((refreshOnce env token).Call r)
      ((refreshOnce env token).Done r) log := by
  have hig : (refreshOnce env token).Ignores fun l => ¬Decides l := refreshOnce_ignores
  refine hig.obeys_bind (calls_generateRefreshToken nofun nofun) fun new log₁ h₁ => ?_
  refine hig.obeys_bind (calls_atomic.mpr nofun) fun _ log₂ h₂ => ?_
  have hl₂ : x ∈ log₂ := (h₁.trans h₂).subset hl
  refine obeys_bind.mpr (obeys_atomic.mpr ⟨fun w ⟨hf, hs⟩ => ?_, fun _ _ _ => nofun⟩)
  -- The token that was looked up is still there, under its identifier.
  obtain ⟨hg, hg'⟩ := hs x hl₂
  obtain ⟨t', ht', hid, hk⟩ := find_later ht (hg.1.trans hg'.1) hf
  simp only [hid]
  refine ⟨fun _ => ⟨nofun, nofun, fun _ => ?_⟩, ?_⟩
  · rw [← hk.1]
    exact tokenRevoked_mark ht'
  refine hig.obeys_bind (calls_atomic.mpr nofun) fun _ log₄ h₄ => ?_
  refine hig.obeys_bind (calls_signAccessTokenForUser (fun _ => nofun) nofun nofun nofun u s.id)
    fun a log₅ h₅ => ?_
  refine hig.obeys_bind (calls_atomic.mpr nofun) fun _ log₆ h₆ => ?_
  have hsub := ((h₄.trans h₅).trans h₆).subset
  exact fun _ _ _ => ⟨⟨x, hsub (List.mem_cons_of_mem _ hl₂), hx, t, ht, hr⟩,
    _, hsub (List.mem_cons_self ..), rfl⟩

theorem obeys_refresh_once {r : Request} (token : String) (c : RequestContext) :
    (AuthService.refresh env token c).Obeys (Since env) ((refreshOnce env token).Call r)
      ((refreshOnce env token).Done r) [] := by
  have hig : (refreshOnce env token).Ignores fun l => ¬Decides l := refreshOnce_ignores
  refine .query_bind (fun _ _ _ => nofun) fun w _ => ⟨fun _ => ⟨fun hf => ⟨rfl, ?_⟩, nofun, nofun⟩, ?_⟩
  · obtain ⟨-, t, ht, hn⟩ := hf
    rintro ⟨t', ht', hr⟩
    obtain rfl := Option.some.inj (ht.symm.trans ht')
    simp [hn] at hr
  let x : Entry World Call := ⟨.findRefreshTokenByHash (env.sha256 token), w, w⟩
  cases ht : w.refreshTokens.find? (·.tokenHash == TokenService.hashRefreshToken env token) with
  | none => exact Once.obeys_throw _
  | some t =>
    dsimp only
    split
    · exact hig.obeys_bind (calls_atomic.mpr nofun) fun _ _ _ =>
        hig.obeys_bind (calls_atomic.mpr nofun) fun _ _ _ =>
          hig.obeys_bind (calls_atomic.mpr nofun) fun _ _ _ => Once.obeys_throw _
    rename_i hr
    refine hig.obeys_bind (calls_query.mpr nofun) fun now log₁ h₁ => ?_
    split
    · exact Once.obeys_throw _
    refine hig.obeys_bind (calls_query.mpr nofun) fun session log₂ h₂ => ?_
    cases session with
    | none => exact Once.obeys_throw _
    | some s =>
      dsimp only
      split
      · exact Once.obeys_throw _
      refine hig.obeys_bind (calls_query.mpr nofun) fun user log₃ h₃ => ?_
      cases user with
      | none => exact Once.obeys_throw _
      | some u =>
        exact obeys_rotate_once (x := x) rfl ht (by simpa using hr) s u c
          ((h₁.trans (h₂.trans h₃)).subset (List.mem_singleton_self x))

end

/-- The specification of a request: that of a refresh of the token, if it is
one. -/
theorem obeys_program_refreshOnce (token : String) (r : Request) :
    (program env r).Obeys (Since env) ((refreshOnce env token).Call r)
      ((refreshOnce env token).Done r) [] := by
  by_cases h : IsRefresh token r
  · cases r with
    | refresh cookie c =>
      obtain rfl : cookie = some token := h
      refine obeys_bind.mpr ?_
      unfold AuthController.refresh
      split
      · rename_i t ht
        obtain rfl : token = t := by simpa [truthy] using And.left (by simpa [truthy] using ht)
        refine (obeys_refresh_once token c).mono (fun _ _ h => h) (fun _ _ h => h) ?_
        rintro log (e | ⟨u, tokens⟩) h
        · exact fun _ _ => nofun
        · exact fun hu _ _ => h hu _ rfl
      · exact fun _ _ => nofun
    | _ => cases h
  · exact .of_forall (fun _ _ h' => absurd h' h) fun _ _ h' => absurd h' h

/-! ## Interleavings -/

/-- As long as no refresh looks the token up while another one that has found it
is pending, once a refresh of the token has returned tokens no other one does. -/
theorem refresh_at_most_once {t : Time}
    (h : (system env).Run (refreshOnce env token).Apart (AppPool.init t) P) {i j : Nat} (hij : i ≠ j)
    {c c' : RequestContext} (hi : P.request i = some (.refresh (some token) c))
    (hj : P.request j = some (.refresh (some token) c')) (hr : (P.returned i).isSome = true) :
    P.returned j = none := by
  let I (P : AppPool) : Prop := Fresh env P.state ∧ System.AllAlways (GrowsFresh env) P
  have hstep {P P' : AppPool} {m : Move Request Time Exn} (hI : I P)
      (hs : (system env).step P m = some P') : Grows P.state P'.state ∧ I P' := by
    obtain ⟨hg, ha⟩ := hI.2.step grows_program .advance hs
    exact ⟨hg.1, hg.2 hI.1, ha⟩
  have hone : (refreshOnce env token).OneHolder (fun _ => Since env) P :=
    Once.oneHolder (I := I) h rfl (obeys_program_refreshOnce token)
      ⟨.init t, fun _ h => absurd h List.not_mem_nil⟩
      (fun hI hs => ⟨(hstep hI hs).2, fun hr => TokenRevoked.grows hr (hstep hI hs).1⟩)
      fun hI _ => since_of_mem hI.1 hI.2
  have holder {i : Nat} {c : RequestContext} {r : User × SessionTokens}
      (hi : P.request i = some (.refresh (some token) c)) (hr : P.returned i = some r) :
      ∃ th, P.threads[i]? = some th ∧ (refreshOnce env token).Holder th := by
    obtain ⟨th, hth, ho⟩ := AppPool.returned_eq_some.mp hr
    have hreq : th.req = .refresh (some token) c := by simpa [AppPool.request, hth] using hi
    exact ⟨th, hth, hone.holder_of_ok hth (congrArg Request.presents hreq) ho⟩
  obtain ⟨r, hr⟩ := Option.isSome_iff_exists.mp hr
  obtain ⟨th, hth, hh⟩ := holder hi hr
  refine Option.eq_none_iff_forall_ne_some.mpr fun r' hr' => ?_
  obtain ⟨th', hth', hh'⟩ := holder hj hr'
  exact hij (hone.one hth hth' hh hh')

instance : DecidablePred (refreshOnce env token).uses :=
  fun r => inferInstanceAs (Decidable (r.presents = some token))

instance : DecidablePred (refreshOnce env token).finds :=
  fun x => inferInstanceAs (Decidable (x.label = .findRefreshTokenByHash (env.sha256 token) ∧
    ∃ t ∈ x.before.refreshTokens.find? (·.tokenHash == env.sha256 token), t.revokedAt = none))

instance : DecidablePred (refreshOnce env token).acts := fun _ => inferInstanceAs (Decidable False)

instance : DecidablePred (refreshOnce env token).marks :=
  fun l => inferInstanceAs (Decidable (Marks l = true))

/-- A registration, whose refresh token is `unary 3`. -/
def registered : List (Move Request Time Exn) :=
  .start (.register ⟨"a@b.co", "Passw0rd!", none, none⟩ ⟨none, none⟩) :: List.replicate 14 (.call 0)

/-- Two refreshes of one token, one after the other. -/
def refreshAgain : AppPool :=
  (system .sample).after
    (registered ++ .start (.refresh (some (unary 3)) ⟨none, none⟩) :: List.replicate 14 (.call 1) ++
      .start (.refresh (some (unary 3)) ⟨none, none⟩) :: List.replicate 4 (.call 2))
    (AppPool.init 0)

theorem refreshAgain_returned :
    (refreshAgain.returned 1).isSome = true ∧ refreshAgain.returned 2 = none :=
  ⟨by decide +kernel, @refresh_at_most_once .sample refreshAgain (unary 3) 0 (.after (by decide +kernel))
    1 2 (by decide) ⟨none, none⟩ ⟨none, none⟩ (by decide +kernel) (by decide +kernel)
    (by decide +kernel)⟩

/-- Two refreshes of one token, each of which looks it up before the other has
marked it. -/
def refreshTwice : AppPool :=
  (system .sample).after
    (registered ++ [.start (.refresh (some (unary 3)) ⟨none, none⟩), .call 1,
        .start (.refresh (some (unary 3)) ⟨none, none⟩), .call 2] ++
      List.replicate 13 (.call 1) ++ List.replicate 13 (.call 2))
    (AppPool.init 0)

/-- Both return tokens, and both new refresh tokens are live. -/
theorem refreshTwice_returned :
    Interleaving .sample (.init 0) refreshTwice ∧
    refreshTwice.request 1 = some (.refresh (some (unary 3)) ⟨none, none⟩) ∧
    refreshTwice.request 2 = some (.refresh (some (unary 3)) ⟨none, none⟩) ∧
    (refreshTwice.returned 1).map (·.2.refreshToken.tokenHash) = some (unary 8) ∧
    (refreshTwice.returned 2).map (·.2.refreshToken.tokenHash) = some (unary 11) ∧
    (refreshTwice.state.refreshTokens.filter (·.revokedAt.isNone)).map (·.tokenHash) =
      [unary 8, unary 11] :=
  ⟨.after (by decide +kernel), by decide +kernel, by decide +kernel, by decide +kernel,
    by decide +kernel, by decide +kernel⟩

end AtlasAuth

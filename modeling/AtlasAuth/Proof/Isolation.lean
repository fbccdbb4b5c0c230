import AtlasAuth.Proof.Entitlement

/-!
# No account is changed but by those who may

In every interleaving the references between rows hold (`references_hold`), and
every call changes rows of one user at most, and of those only the parts that
its request is entitled to (`owner_only`). So what belongs to a user stays as
it is as long as nobody uses a credential of that user (`account_isolation`).
-/

namespace AtlasAuth

open Framework Framework.Table Prog

variable {env : Env} {w w' w₀ : World} {u : String} {p : Part} {log : List (Entry World Call)}

/-! ## The tables of roles and permissions -/

theorem Grants.granted {r : Rbac} (h : Grants env w r) (hc : w.RbacConsistent env) :
    ∀ rp ∈ r.rolePermissions, (∃ role ∈ r.roles, role.id = rp.roleId) ∧
      ∃ p ∈ r.permissions, p.id = rp.permissionId := by
  intro rp hrp
  cases h with
  | createRole =>
    exact (hc.granted rp hrp).imp_left (.imp fun _ h => ⟨List.mem_append_left _ h.1, h.2⟩)
  | renameRole hid | describeRole hid => exact (hc.granted rp hrp).imp_left (exists_updateWhere hid)
  | assignPermission _ hr hp =>
    rcases List.mem_append.mp hrp with hrp | hrp
    · exact hc.granted rp hrp
    · obtain rfl := List.mem_singleton.mp hrp
      exact ⟨hr, hp⟩
  | assignToUser => exact hc.granted rp hrp
  | createPermission =>
    exact (hc.granted rp hrp).imp_right (.imp fun _ h => ⟨List.mem_append_left _ h.1, h.2⟩)

theorem Withdraws.granted {r : Rbac} (h : Withdraws w.rbac r) (hc : w.RbacConsistent env) :
    ∀ rp ∈ r.rolePermissions, (∃ role ∈ r.roles, role.id = rp.roleId) ∧
      ∃ p ∈ r.permissions, p.id = rp.permissionId := by
  intro rp hrp
  cases h with
  | deleteRole id =>
    obtain ⟨hrp, hne⟩ := List.mem_filter.mp hrp
    refine (hc.granted rp hrp).imp_left (.imp fun role h => ⟨List.mem_filter.mpr ⟨h.1, ?_⟩, h.2⟩)
    rwa [h.2]
  | deletePermission id =>
    obtain ⟨hrp, hne⟩ := List.mem_filter.mp hrp
    refine (hc.granted rp hrp).imp_right (.imp fun p h => ⟨List.mem_filter.mpr ⟨h.1, ?_⟩, h.2⟩)
    rwa [h.2]
  | revokePermission => exact hc.granted rp (List.mem_of_mem_filter hrp)
  | revokeFromUser => exact hc.granted rp hrp

/-- The references of these tables go on holding if the holders of roles are
users. -/
theorem Does.consistent {L : Deed → Prop} (h : Does env L w w') (hc : w.RbacConsistent env)
    (hu : ∀ ur ∈ w'.rbac.userRoles, ur ∈ w.rbac.userRoles ∨ IsUser ur.userId w) :
    w'.RbacConsistent env where
  valid := h.rbacValid hc.valid
  granted := by
    rcases h.rbac with e | ⟨-, -, hg⟩ | ⟨-, hw⟩
    · exact e ▸ hc.granted
    · exact hg.granted hc
    · exact hw.granted hc
  holders ur hur := by
    obtain ⟨v, hv, hid⟩ : IsUser ur.userId w := (hu ur hur).elim (hc.holders ur) id
    obtain ⟨v', hv', hk⟩ := h.users.mem hv
    exact ⟨v', hv', hk.1.trans hid⟩

theorem Within.holders {name : String} (h : Within env name w w') :
    ∀ ur ∈ w'.rbac.userRoles, ur ∈ w.rbac.userRoles ∨ IsUser ur.userId w := by
  intro ur hur
  obtain e | hm := h.manages
  · exact .inl (e ▸ hur)
  · generalize w'.rbac = r at hm hur
    cases hm with
    | roles _ hu => exact .inl (hu hur)
    | assign hm => exact hm ur hur
    | permissions _ hu => exact .inl (hu ▸ hur)

def KeepsRbacConsistent (env : Env) (w w' : World) : Prop :=
  w.RbacConsistent env → w'.RbacConsistent env

theorem keepsRbacConsistent_program (r : Request) :
    (program env r).Always (KeepsRbacConsistent env) := by
  by_cases hr : r.isAdministration
  · obtain ⟨name, hw⟩ : ∃ name, (program env r).Always (Within env name) := within_program r hr
    refine Obeys.always (Obeys.mono ((hw.obeys []).and ((does_program r).obeys []))
      (fun _ _ h => ⟨h, h⟩) (fun _ x h hc => ?_) fun _ _ h => h)
    exact h.2.consistent hc h.1.holders
  · refine (does_program r).mono fun w w' h hc => h.consistent hc fun ur hur => ?_
    rcases h.rbac with e | ⟨hd, -⟩ | ⟨hd, -⟩
    · exact .inl (e ▸ hur)
    all_goals cases r <;> first | exact absurd rfl hr | simp [Request.deeds] at hd

/-! ## Runs -/

/-- What the calls of a request are like. -/
structure Kept (env : Env) (r : Request) (log : List (Entry World Call)) (x : Entry World Call) :
    Prop where
  owned : Owned env (r.Entitled env) log x
  grows : GrowsFresh env x.before x.after
  does : Does env (· ∈ r.deeds) x.before x.after
  consistent : KeepsRbacConsistent env x.before x.after

theorem Kept.keeps {r : Request} {x : Entry World Call} (h : Kept env r log x) :
    (reliance env).Keeps log x :=
  h.owned.keeps h.grows (h.does.imp fun _ _ => trivial)

theorem kept_program (r : Request) (log : List (Entry World Call)) :
    (program env r).Obeys (reliance env).Known (Kept env r) (fun _ _ => True) log := by
  have hm : (program env r).Obeys _ _ _ log := minds_program r log
  have hg : (program env r).Obeys _ _ _ log := (grows_program r).obeys log
  have hd : (program env r).Obeys _ _ _ log := (does_program r).obeys log
  have hc : (program env r).Obeys _ _ _ log := (keepsRbacConsistent_program r).obeys log
  exact (((hm.and hg).and hd).and hc).mono (fun _ _ h => ⟨⟨⟨h, trivial⟩, trivial⟩, trivial⟩)
    (fun _ _ h => ⟨h.1.1.1, h.1.1.2, h.1.2, h.2⟩) fun _ _ _ => trivial

variable {P P' : ApiPool} {ok : ApiPool → Move Route Time Exn → Prop}

/-- The references between rows hold in every state of every interleaving, and
identifiers stay distinct. -/
theorem references_hold {Q : AppPool} {ok : AppPool → Move Request Time Exn → Prop}
    (ho : Orderly env w₀) (hc : w₀.RbacConsistent env) (h : (system env).Run ok ⟨w₀, []⟩ Q) :
    Orderly env Q.state ∧ Q.state.RbacConsistent env := by
  have hr : System.Relied (reliance env) (Kept env) (fun _ _ _ => True) Q := by
    exact h.rely rfl (fun r => (kept_program r []).mono (fun _ _ h => h)
      (fun _ _ h => ⟨h.keeps, h⟩) fun _ _ h => h) reliance_advance ho
  refine ⟨hr.inv, (h.maintains (J := fun _ _ x => KeepsRbacConsistent env x.before x.after) rfl
    (fun r => ((keepsRbacConsistent_program r).obeys []).mono (fun _ _ _ => trivial)
      (fun _ _ h => h) fun _ _ h => h) (fun _ _ _ h hN _ => h hN) (fun d w h => { h with }) hc).1⟩

theorem World.RbacConsistent.init (t : Time) : World.RbacConsistent env { now := t } :=
  ⟨⟨.nil, .nil, .nil, .nil, .nil, .nil, .nil, nofun⟩, nofun, nofun⟩

theorem refreshTwice_orderly :
    refreshTwice.state.refreshTokens.length = 3 ∧ Orderly .sample refreshTwice.state ∧
      refreshTwice.state.RbacConsistent .sample := by
  have h : Interleaving .sample (.init 0) refreshTwice := .after (by decide +kernel)
  exact ⟨by decide +kernel, references_hold (.init 0) (.init 0) h⟩

/-- The calls of a route are reads, and those of its request. -/
def RouteKept (env : Env) (route : Route) (log : List (Entry World Call)) (x : Entry World Call) :
    Prop :=
  x.after = x.before ∨ ∃ r, route.request = some r ∧ Kept env r log x

theorem RouteKept.keeps {route : Route} {x : Entry World Call} (h : RouteKept env route log x) :
    (reliance env).Keeps log x := by
  obtain e | ⟨r, -, h⟩ := h
  · exact ⟨fun h => e ▸ h, e ▸ (reliance env).refl _, fun n h => .inl (e ▸ h)⟩
  · exact h.keeps

theorem relied_api (ho : Orderly env w₀) (h : (api env).Run ok ⟨w₀, []⟩ P) :
    System.Relied (reliance env) (RouteKept env) (fun _ _ _ => True) P := by
  refine h.rely rfl (fun route => ?_) reliance_advance ho
  refine ((fronts_route route).obeys (fun _ _ _ => .inl rfl) (fun r _ hk log => ?_) []).mono
    (fun _ _ h => h) (fun _ _ h => ⟨RouteKept.keeps h, h⟩) fun _ _ h => h
  exact (kept_program r log).mono (fun _ _ h => h) (fun _ _ h => .inr ⟨r, hk.1, h⟩) fun _ _ h => h

/-- What a call of the route may change of the rows of `u`: a registration may
make the user, and every route what its request is entitled to. -/
def Route.May (env : Env) (route : Route) (log : List (Entry World Call)) (x : Entry World Call)
    (u : String) (p : Part) : Prop :=
  (∃ dto c, route = .register dto c ∧ ¬IsUser u x.before ∧ IsUser u x.after) ∨
    ∃ r, route.request = some r ∧ r.Entitled env log u p

theorem Does.created {L : Deed → Prop} (h : Does env L w w') (hw : ¬IsUser u w) (hw' : IsUser u w') :
    L .account := by
  obtain ⟨v, hv, rfl⟩ := hw'
  cases h with
  | aside h =>
    have hmem : v.account ∈ w.users.map User.account := h.accounts ▸ List.mem_map_of_mem hv
    obtain ⟨v', hv', e⟩ := List.mem_map.mp hmem
    exact absurd ⟨v', hv', (User.account_eq.mp e).1⟩ hw
  | create hL => exact hL
  | markVerified | updateEmail =>
    obtain ⟨v', hv', rfl⟩ := mem_updateWhere.mp hv
    refine absurd ⟨v', hv', ?_⟩ hw
    split <;> rfl
  | _ => exact absurd ⟨v, hv, rfl⟩ hw

theorem RouteKept.may {route : Route} {x : Entry World Call} (h : RouteKept env route log x)
    (ho : Orderly env x.before) :
    ∃ u, ∀ u' p, x.after.rows u' p = x.before.rows u' p ∨ u' = u ∧ route.May env log x u p := by
  obtain e | ⟨r, hreq, h⟩ := h
  · exact ⟨"", fun _ _ => .inl (by rw [e])⟩
  obtain hi | ⟨u, ht⟩ := h.owned
  · exact ⟨"", fun u' p => .inl (hi.rows u' p)⟩
  refine ⟨u, fun u' p => (ht.rows ho.fresh ho.joined u' p).imp_right fun ⟨e, hp⟩ => ⟨e, ?_⟩⟩
  refine hp.elim (fun hL => .inr ⟨r, hreq, hL⟩) fun hnew => .inl ?_
  -- Only a registration makes a user.
  have hd := h.does.created hnew.1 hnew.2
  cases r <;> simp [Request.deeds] at hd
  cases route <;> cases hreq
  exact ⟨_, _, rfl, hnew⟩

/-- Whatever requests run, in any order and with any failures: each call
changes rows of one user at most, and of those only what its route may, given
what the route has presented, and what its calls have found before. -/
theorem owner_only (ho : Orderly env w₀) (h : (api env).Run ok ⟨w₀, []⟩ P)
    {th : Thread Route World Call Exn Reply} (hth : th ∈ P.threads) {x : Entry World Call}
    (hx : x :: log <:+ th.log) :
    ∃ u, ∀ u' p, x.after.rows u' p = x.before.rows u' p ∨ u' = u ∧ th.req.May env log x u p := by
  obtain ⟨i, hi⟩ := List.getElem?_of_mem hth
  obtain ⟨Q, m, h₀, -, -, he⟩ := h.entry rfl hth (hx.subset (List.mem_cons_self ..))
  have hkept := (((relied_api ho h).obeys i th (Nat.zero_le i) hi).2.suffix hx).1.2
  exact hkept.may (he ▸ (relied_api ho h₀).inv)

/-- A registration, and the list of the sessions of the user who registered. -/
def registeredAndListed : ApiPool :=
  (api .sample).after
    (.start (.register ⟨"a@b.co", "Passw0rd!", none, none⟩ ⟨none, none⟩) :: List.replicate 14 (.call 0) ++
      .start (.listSessions ⟨unary 1, "a@b.co", [], [], unary 4, unary 5, 0, 900⟩) ::
        List.replicate 4 (.call 1)) (ApiPool.init 0)

/-- Somebody registers, and asks to revoke the session of another user. -/
def newcomer : Route := .register ⟨"d@e.fr", "Passw0rd!", none, none⟩ ⟨none, none⟩

def intrusion : Route :=
  .revokeSession ⟨unary 9, "d@e.fr", [], [], unary 12, unary 13, 0, 900⟩ (unary 4) ⟨none, none⟩

def neighbour : ApiPool :=
  (api .sample).after
    (.start newcomer :: List.replicate 14 (.call 0) ++ .start intrusion :: List.replicate 4 (.call 1))
    ⟨registeredAndListed.state, []⟩

theorem registeredAndListed_orderly : Orderly .sample registeredAndListed.state :=
  have h : ApiRun .sample (.init 0) registeredAndListed := .after (by decide)
  (relied_api (.init 0) h).inv

theorem neighbour_own :
    ∃ th ∈ neighbour.threads, ∃ x ∈ th.log, x.before.sessions ≠ x.after.sessions ∧
      ∃ u log, ∀ u' p, x.after.rows u' p = x.before.rows u' p ∨
        u' = u ∧ th.req.May .sample log x u p := by
  have h : ApiRun .sample ⟨registeredAndListed.state, []⟩ neighbour := .after (by decide)
  have hth : ∃ th ∈ neighbour.threads, ∃ x ∈ th.log, x.before.sessions ≠ x.after.sessions := by decide
  obtain ⟨th, hth, x, hx, hne⟩ := hth
  obtain ⟨log₂, log₁, e⟩ := List.append_of_mem hx
  have hx₁ : x :: log₁ <:+ th.log := ⟨log₂, e.symm⟩
  obtain ⟨u, hu⟩ := owner_only registeredAndListed_orderly h hth hx₁
  exact ⟨th, hth, x, hx, hne, u, log₁, hu⟩

theorem World.rows_advance (w : World) (d : Time) (u : String) (p : Part) :
    (w.advance d).rows u p = w.rows u p := by
  cases p <;> rfl

/-- Whatever others do, and however the calls of all are interleaved, a part of
the rows of `u` stays as it is as long as no request is entitled to it. -/
theorem account_isolation (ho : Orderly env w₀) (h : (api env).Run ok ⟨w₀, []⟩ P) (hu : IsUser u w₀)
    (hno : ∀ th ∈ P.threads, ∀ r, th.req.request = some r → ¬r.Entitled env th.log u p) :
    P.state.rows u p = w₀.rows u p := by
  suffices hI : IsUser u P.state ∧ P.state.rows u p = w₀.rows u p from hI.2
  induction h with
  | refl => exact ⟨hu, rfl⟩
  | @step P₁ P₂ m h₁ hok hs ih =>
    have hr := relied_api ho h₁
    -- What a request is entitled to now it is entitled to after more calls.
    obtain ⟨hu₁, hrows⟩ : IsUser u P₁.state ∧ P₁.state.rows u p = w₀.rows u p := by
      refine ih fun th hth r hreq hE => ?_
      obtain ⟨i, hi⟩ := List.getElem?_of_mem hth
      obtain ⟨th', hi', e, hl⟩ := System.step_thread hs hi
      exact hno th' (List.mem_of_getElem? hi') r (e ▸ hreq) (hE.suffix hl)
    rcases System.step_cases hs with ⟨_, -, rfl⟩ | ⟨i, route, log, l, next, eff, fail, -, hi, rfl⟩ |
      ⟨_, _, _, _, _, _, _, _, -, -, rfl⟩ | ⟨d, -, rfl⟩
    · exact ⟨hu₁, hrows⟩
    · have hthread (t : Thread Route World Call Exn Reply) : (P₁.threads.set i t)[i]? = some t :=
        List.getElem?_set_self (List.getElem?_eq_some_iff.mp hi).1
      obtain ⟨hkeeps, hk⟩ := hr.obeys.call (Nat.zero_le i) hi (hr.known _ (List.mem_of_getElem? hi))
      obtain ⟨u', hmay⟩ := hk.may hr.inv
      refine ⟨hu₁.later hkeeps.grow, (hmay u p).elim (·.trans hrows) ?_⟩
      rintro ⟨rfl, ⟨-, -, -, hnew, -⟩ | ⟨r, hreq, hE⟩⟩
      · exact absurd hu₁ hnew
      · exact absurd (hE.suffix (List.suffix_cons ..)) (hno _ (List.mem_of_getElem? (hthread _)) r hreq)
    · exact ⟨hu₁, hrows⟩
    · exact ⟨hu₁.later (.advance d _), (World.rows_advance _ d u p).trans hrows⟩

/-- The session of the other user stays. -/
theorem neighbour_isolated :
    (neighbour.threads.map (·.outcome.map (·.isOk))) = [some true, some false] ∧
      neighbour.state.rows (unary 1) .session = registeredAndListed.state.rows (unary 1) .session := by
  have h : ApiRun .sample ⟨registeredAndListed.state, []⟩ neighbour := .after (by decide)
  refine ⟨by decide, account_isolation registeredAndListed_orderly h (by unfold IsUser; decide)
    fun th hth r hreq hE => ?_⟩
  have hreqs : ∀ th ∈ neighbour.threads, th.req = newcomer ∨ th.req = intrusion := by decide
  obtain e | e := hreqs th hth <;> rw [e] at hreq <;> cases hreq
  · obtain ⟨x, hx, hnew, -⟩ := hE
    have hold : ∀ th ∈ neighbour.threads, ∀ x ∈ th.log, IsUser (unary 1) x.before := by
      unfold IsUser
      decide
    exact hnew (hold th hth x hx)
  · exact absurd hE.2.1 (by decide)

end AtlasAuth

import AtlasAuth.Proof.AllOrNothing
import AtlasAuth.Proof.Clearance

/-!
# Who can change roles and permissions

The tables of roles and permissions only change by a route that has found the
access token of its caller in force and to claim the permission that the route
requires; the route then makes only the changes that this permission is
for (`Manages`). What a token claims was granted to its user when it was minted
(`Backed`). So a change can be traced back to a grant (`api_mediated`).

Whatever nobody can bring about with the permissions that are granted at first
stays as it is, if no such change adds a permission to them (`confined`). Where
nobody may manage roles and permissions, nobody ever will
(`no_administrator_arises`); who may only assign roles cannot change what the
roles are good for (`assigning_alone`); and who may only create and delete
permissions cannot give anybody any (`permissions_alone`).
-/

namespace AtlasAuth

open Framework Framework.Table Prog

variable {env : Env} {w w' : World} {α β : Type} {log : List (Entry World Call)}

/-! ## What a permission is for -/

/-- The changes of the tables that the holder of a permission can make. -/
inductive Manages (env : Env) (w : World) : String → Rbac → Prop
  | roles {r : Rbac} (hp : r.permissions = w.rbac.permissions)
      (hu : r.userRoles ⊆ w.rbac.userRoles) : Manages env w "roles:write" r
  | assign {userRoles : List UserRole}
      (h : ∀ ur ∈ userRoles, ur ∈ w.rbac.userRoles ∨ ∃ u ∈ w.users, u.id = ur.userId) :
      Manages env w "roles:assign" { w.rbac with userRoles }
  | permissions {r : Rbac} (hr : r.roles = w.rbac.roles) (hu : r.userRoles = w.rbac.userRoles)
      (hg : r.rolePermissions ⊆ w.rbac.rolePermissions)
      (hp : ∀ p ∈ r.permissions, p ∈ w.rbac.permissions ∨ p.id = env.randomUUID w.drawn)
      (hl : ∀ rp ∈ r.rolePermissions, ∀ p ∈ w.rbac.permissions, p.id = rp.permissionId →
        p ∈ r.permissions) : Manages env w "permissions:write" r

/-- A call of an operation that the permission `name` is for. -/
structure Within (env : Env) (name : String) (w w' : World) : Prop where
  tables : w' = { w with drawn := w'.drawn, rbac := w'.rbac }
  drawn : w.drawn ≤ w'.drawn
  manages : w'.rbac = w.rbac ∨ Manages env w name w'.rbac

instance (name : String) : Std.Refl (Within env name) := ⟨fun _ => ⟨rfl, Nat.le_refl _, .inl rfl⟩⟩

theorem within_rbacCall {name : String} {call : Call} {f : World → Except Exn (α × Rbac)}
    (h : ∀ w a r, f w = .ok (a, r) → r = w.rbac ∨ Manages env w name r) :
    (rbacCall call f).Always (Within env name) := by
  refine always_atomic.mpr fun w => ?_
  split
  · exact ⟨rfl, Nat.le_succ _, h w _ _ ‹_›⟩
  · exact refl w

theorem within_findByIdOrThrow {name : String} (id : String) :
    (RolesService.findByIdOrThrow id).Always (Within env name) :=
  (reads_findByIdOrThrow id).mono fun _ _ h => h ▸ refl _

theorem within_createRole (name : String) (d : Option String) :
    (RolesService.create env name d).Always (Within env "roles:write") := by
  refine .bind always_query fun existing => .ite (fun _ => always_throw) fun _ => ?_
  refine .bind (within_rbacCall fun w a r h => ?_) fun _ => within_findByIdOrThrow _
  dsimp only at h
  split at h
  · cases h
  · cases h
    exact .inr (.roles rfl (List.Subset.refl _))

theorem within_updateRole (id : String) (name d : Option String) :
    (RolesService.update id name d).Always (Within env "roles:write") := by
  refine .bind (within_findByIdOrThrow id) fun _ =>
    .bind (within_rbacCall fun w a r h => ?_) fun _ => within_findByIdOrThrow id
  dsimp only at h
  split at h
  · cases h
  · split at h
    · cases h
    · cases h
      exact .inr (.roles rfl (List.Subset.refl _))

theorem within_removeRole (id : String) :
    (RolesService.remove id).Always (Within env "roles:write") := by
  refine .bind (within_findByIdOrThrow id) fun _ =>
    .bind (within_rbacCall fun w a r h => ?_) fun _ => always_ret
  dsimp only at h
  split at h
  · cases h
  · cases h
    exact .inr (.roles rfl (List.filter_subset_self _))

theorem within_assignPermission (id permissionId : String) :
    (RolesService.assignPermission id permissionId).Always (Within env "roles:write") := by
  refine .bind (within_findByIdOrThrow id) fun _ => .bind always_query fun permission => ?_
  cases permission with
  | none => exact always_throw
  | some permission =>
    refine .bind (within_rbacCall fun w a r h => ?_) fun _ => within_findByIdOrThrow id
    split at h
    · cases h
      exact .inl rfl
    · split at h
      · cases h
        exact .inr (.roles rfl (List.Subset.refl _))
      · cases h

theorem within_revokePermission (id permissionId : String) :
    (RolesService.revokePermission id permissionId).Always (Within env "roles:write") := by
  refine .bind (within_findByIdOrThrow id) fun _ =>
    .bind (within_rbacCall fun w a r h => ?_) fun _ => within_findByIdOrThrow id
  split at h
  · cases h
    exact .inr (.roles rfl (List.Subset.refl _))
  · cases h

theorem within_assignToUser (userId id : String) :
    (RolesService.assignToUser userId id).Always (Within env "roles:assign") := by
  refine .bind always_query fun user => ?_
  cases user with
  | none => exact always_throw
  | some user =>
    refine .bind (within_findByIdOrThrow id) fun _ => within_rbacCall fun w a r h => ?_
    split at h
    · cases h
      exact .inl rfl
    · split at h
      · rename_i hc
        cases h
        refine .inr (.assign fun ur hur => (List.mem_append.mp hur).imp_right fun hur => ?_)
        rw [List.mem_singleton.mp hur]
        simpa using (Bool.and_eq_true_iff.mp hc).1
      · cases h

theorem within_revokeFromUser (userId id : String) :
    (RolesService.revokeFromUser userId id).Always (Within env "roles:assign") := by
  refine within_rbacCall fun w a r h => ?_
  split at h
  · cases h
    exact .inr (.assign fun ur hur => .inl (List.mem_of_mem_filter hur))
  · cases h

theorem within_createPermission (name : String) (d : Option String) :
    (PermissionsService.create env name d).Always (Within env "permissions:write") := by
  refine .bind always_query fun existing => .ite (fun _ => always_throw) fun _ =>
    within_rbacCall fun w a r h => ?_
  dsimp only at h
  split at h
  · cases h
  · cases h
    refine .inr (.permissions rfl rfl (List.Subset.refl _) (fun p hp => ?_)
      fun _ _ p hp _ => List.mem_append_left _ hp)
    exact (List.mem_append.mp hp).imp_right fun hp => congrArg Permission.id (List.mem_singleton.mp hp)

theorem within_removePermission (id : String) :
    (PermissionsService.remove id).Always (Within env "permissions:write") := by
  refine .bind always_query fun permission => ?_
  cases permission with
  | none => exact always_throw
  | some permission =>
    refine .bind (within_rbacCall fun w a r h => ?_) fun _ => always_ret
    dsimp only at h
    split at h
    · cases h
    · cases h
      refine .inr (.permissions rfl rfl (List.filter_subset_self _)
        (fun p hp => .inl (List.mem_of_mem_filter hp)) fun rp hrp p hp e => ?_)
      exact List.mem_filter.mpr ⟨hp, by rw [e]; exact (List.mem_filter.mp hrp).2⟩

/-- A route that changes the tables makes only the changes that the permission
it requires is for. -/
def Route.Manages (env : Env) (route : Route) (w w' : World) : Prop :=
  w'.rbac = w.rbac ∨
    ∃ name, route.requiredPermissions = some [name] ∧ AtlasAuth.Manages env w name w'.rbac

instance (route : Route) : Std.Refl (route.Manages env) := ⟨fun _ => .inl rfl⟩

theorem manages_guarded {route : Route} {bearer : JwtPayload} {name : String}
    (hn : route.requiredPermissions = some [name]) {p : App α} (hp : p.Always (Within env name))
    (f : α → Reply) :
    (route.guards bearer >>= fun _ => p >>= fun a => return f a).Always (route.Manages env) :=
  .bind ((reads_guards route bearer).mono fun _ _ h => .inl (congrArg World.rbac h)) fun _ =>
    .bind (hp.mono fun _ _ h => h.manages.imp_right fun h => ⟨name, hn, h⟩) fun _ => always_ret

theorem manages_route (route : Route) : (route.program env).Always (route.Manages env) := by
  have unguarded (h : ∀ r, route.request = some r → .grant ∉ r.deeds ∧ .withdraw ∉ r.deeds) :
      (route.program env).Always (route.Manages env) := by
    refine (fronts_route route).always fun r _ hr => (does_program r).mono fun w w' hd => .inl ?_
    rcases hd.rbac with e | ⟨hL, -⟩ | ⟨hL, -⟩
    · exact e
    · exact absurd hL (h r hr.1).1
    · exact absurd hL (h r hr.1).2
  cases route with
  | createRole bearer name d => exact manages_guarded rfl (within_createRole name d) _
  | updateRole bearer id name d => exact manages_guarded rfl (within_updateRole id name d) _
  | removeRole bearer id => exact manages_guarded rfl (within_removeRole id) _
  | assignPermission bearer id p => exact manages_guarded rfl (within_assignPermission id p) _
  | revokePermission bearer id p => exact manages_guarded rfl (within_revokePermission id p) _
  | assignToUser bearer id u => exact manages_guarded rfl (within_assignToUser u id) _
  | revokeFromUser bearer id u => exact manages_guarded rfl (within_revokeFromUser u id) _
  | createPermission bearer name d => exact manages_guarded rfl (within_createPermission name d) _
  | removePermission bearer id => exact manages_guarded rfl (within_removePermission id) _
  | _ =>
    refine unguarded fun r hr => ?_
    cases hr <;> simp [Request.deeds]

/-! ## What a token claims -/

/-- What a new token claims was granted to its user when the request read the
tables. -/
def Backed (log : List (Entry World Call)) (x : Entry World Call) : Prop :=
  ∀ p ∈ x.after.signed, p ∈ x.before.signed ∨
    ∃ y ∈ log, ∀ name ∈ p.permissions, y.before.rbac.Granted p.sub name

/-- Every token that the program signs is backed. -/
def Backs (env : Env) (p : App α) : Prop :=
  ∀ log, p.Obeys (fun _ w => w.RbacValid env) Backed (fun _ _ => True) log

section

theorem Backed.read {l : Call} {w : World} : Backed log ⟨l, w, w⟩ := fun _ hp => .inl hp

theorem Backs.throw (e : Exn) : Backs env (.throw e : App α) := fun _ => trivial

theorem Backs.ret (a : α) : Backs env (.ret a : App α) := fun _ => trivial

theorem Backs.bind {p : App β} {k : β → App α} (hp : Backs env p) (hk : ∀ b, Backs env (k b)) :
    Backs env (p >>= k) := fun log => by
  refine obeys_bind.mpr ((hp log).mono (fun _ _ h => h) (fun _ _ h => h) fun log' r _ => ?_)
  cases r with
  | ok b => exact hk b log'
  | error e => trivial

theorem Backs.query {l : Call} {f : World → β} {k : β → App α} (hk : ∀ b, Backs env (k b)) :
    Backs env (.query l f >>= k) := fun _ =>
  .query_bind (fun _ => trivial) fun _ _ => ⟨.read, hk _ _⟩

theorem Backs.ite {c : Prop} [Decidable c] {p q : App α} (hp : Backs env p) (hq : Backs env q) :
    Backs env (if c then p else q) := by
  split
  · exact hp
  · exact hq

/-- A part that signs nothing. -/
theorem Backs.plain {p : App α} (hp : p.Always (Does env (· ≠ .sign))) : Backs env p := fun _ =>
  hp.guarantee (fun _ _ _ _ _ h _ hp => .inl (h.signed (fun h => h rfl) ▸ hp)) fun _ _ _ => trivial

theorem Backs.seq {p : App β} {k : β → App α} (hp : p.Always (Does env (· ≠ .sign)))
    (hk : ∀ b, Backs env (k b)) : Backs env (p >>= k) :=
  (Backs.plain hp).bind hk

theorem backs_signAccessToken {sub : String} {permissions : List String} {y : Entry World Call}
    (hy : y ∈ log) (hg : ∀ name ∈ permissions, y.before.rbac.Granted sub name) (email : String)
    (roles : List String) (sid : String) :
    (TokenService.signAccessToken env sub email roles permissions sid).Obeys
      (fun _ w => w.RbacValid env) Backed (fun _ _ => True) log := by
  have plain {γ δ : Type} {p : App γ} (hp : p.Always (Does env (· ≠ .sign))) {k : γ → App δ}
      {log : List (Entry World Call)}
      (hk : ∀ b log', log <:+ log' → (k b).Obeys (fun _ w => w.RbacValid env) Backed (fun _ _ => True)
        log') : (p >>= k).Obeys (fun _ w => w.RbacValid env) Backed (fun _ _ => True) log :=
    hp.guarantee_bind (fun _ _ _ _ _ h _ hp => .inl (h.signed (fun h => h rfl) ▸ hp))
      (fun _ _ _ => trivial) hk
  refine plain does_randomUUID fun jti log₁ h₁ => plain always_ofExcept fun ttl log₂ h₂ => ?_
  refine obeys_bind.mpr (obeys_atomic.mpr ⟨fun w _ => ?_, fun _ => trivial⟩)
  dsimp only
  split
  · exact ⟨.read, trivial⟩
  · refine ⟨fun p hp => (List.mem_append.mp hp).imp_right fun hp => ?_, ?_⟩
    · obtain rfl := List.mem_singleton.mp hp
      exact ⟨y, (h₁.trans h₂).subset hy, hg⟩
    · exact plain always_query fun _ _ _ => trivial

theorem backs_signAccessTokenForUser (u : User) (sid : String) :
    Backs env (AuthService.signAccessTokenForUser env u sid) := fun log => by
  refine .query_bind (fun _ => trivial) fun w hw => ⟨.read, ?_⟩
  refine backs_signAccessToken (.head _) (fun name hn => ?_) ..
  cases hf : w.users.find? fun v => v.id == u.id && v.deletedAt.isNone with
  | none =>
    rw [hf] at hn
    exact absurd hn List.not_mem_nil
  | some v =>
    have hv : v.id = u.id := by
      have := List.find?_some hf
      simp only [Bool.and_eq_true, beq_iff_eq] at this
      exact this.1
    rw [hf] at hn
    rw [← hv]
    exact (mem_permissionNames hw).mp (mem_setOf.mp hn)

theorem backs_issueSession (u : User) (c : RequestContext) :
    Backs env (AuthService.issueSession env u c) :=
  .seq (does_upsertDevice ..) fun _ => .seq (does_of_made made_generateRefreshToken) fun _ =>
    .seq (does_createSession ..) fun _ => .bind (backs_signAccessTokenForUser _ _) fun _ =>
    .seq does_randomUUID fun _ => .seq (does_createRefreshToken ..) fun _ => .ret _

theorem backs_register (dto : RegisterDto) (c : RequestContext) :
    Backs env (AuthService.register env dto c) :=
  .query fun _ => .ite (.throw _) (.seq (does_hash _) fun _ =>
    .seq (does_usersCreate nofun ..) fun _ => .seq (does_emitRegistered nofun ..) fun _ =>
    .bind (backs_issueSession _ _) fun _ => .ret _)

theorem backs_login (dto : LoginDto) (c : RequestContext) :
    Backs env (AuthService.login env dto c) := by
  refine .query fun user => ?_
  cases user with
  | none => exact .seq (does_emit nofun) fun _ => .throw _
  | some user =>
    refine .query fun now => .ite (.seq (does_emit nofun) fun _ => .throw _) ?_
    refine .seq (does_verify ..) fun ok => .ite ?_ ?_
    · exact .seq (does_of_made (made_registerFailedLoginAttempt trivial ..)) fun _ =>
        .seq (does_emit nofun) fun _ => .throw _
    · exact .seq (does_recordSuccessfulLogin _) fun _ => .bind (backs_issueSession _ _) fun _ =>
        .seq (does_emit nofun) fun _ => .ret _

theorem backs_rotate (t : RefreshToken) (s : Session) (u : User) (c : RequestContext) :
    Backs env (AuthService.rotate env t s u c) :=
  .seq (does_of_made made_generateRefreshToken) fun _ => .seq (does_createRefreshToken ..) fun _ =>
    .seq (does_revokeRefreshToken ..) fun _ => .seq (does_touchSession ..) fun _ =>
    .bind (backs_signAccessTokenForUser _ _) fun _ => .seq (does_emit nofun) fun _ => .ret _

theorem backs_refresh (token : String) (c : RequestContext) :
    Backs env (AuthService.refresh env token c) := by
  refine .query fun existing => ?_
  cases existing with
  | none => exact .throw _
  | some existing =>
    refine .ite (.plain (does_of_made (made_reuseDetected trivial trivial ..))) ?_
    refine .query fun now => .ite (.throw _) (.query fun session => ?_)
    cases session with
    | none => exact .throw _
    | some session =>
      refine .ite (.throw _) (.query fun user => ?_)
      cases user with
      | none => exact .throw _
      | some user => exact backs_rotate _ _ _ _

theorem backs_program (r : Request) : Backs env (program env r) := by
  cases r with
  | register dto c => exact (backs_register dto c).bind fun _ => .ret _
  | login dto c => exact (backs_login dto c).bind fun _ => .ret _
  | refresh cookie c =>
    refine .bind ?_ fun _ => .ret _
    unfold AuthController.refresh
    split
    · exact backs_refresh _ _
    · exact .throw _
  | _ =>
    refine .plain ((does_program _).mono fun _ _ h => h.imp fun d hd => ?_)
    rintro rfl
    simp [Request.deeds] at hd

end

/-! ## Runs -/

/-- What the calls of a route are like: the tokens they sign are backed, they
change something only for a caller who has been cleared, and the tables only as
the route may. -/
structure Mediated (env : Env) (route : Route) (log : List (Entry World Call))
    (x : Entry World Call) : Prop where
  backed : Backed log x
  cleared : x.after = x.before ∨ Cleared route log
  manages : route.Manages env x.before x.after
  valid : x.before.RbacValid env → x.after.RbacValid env

theorem obeys_route (route : Route) :
    (route.program env).Obeys (fun _ w => w.RbacValid env) (Mediated env route)
      (fun log r => ∀ reply, r = .ok reply → Cleared route log) [] := by
  have hb := (fronts_route route).obeys (A := fun _ w => w.RbacValid env) (J := Backed)
    (fun _ _ _ => .read) (fun r _ _ => by exact backs_program r) []
  have hv : (route.program env).Always (KeepsRbacValid env) :=
    (fronts_route route).always fun r _ _ => keepsRbacValid_program r
  have h := ((hb.and (cleared_route (A := fun _ _ => True) route)).and
    ((manages_route route).obeys [])).and (hv.obeys [])
  exact h.mono (fun _ _ h => ⟨⟨⟨h, trivial⟩, trivial⟩, trivial⟩)
    (fun _ _ h => ⟨h.1.1.1, h.1.1.2, h.1.2, h.2⟩) fun _ _ h => h.1.1.2

variable {w₀ : World} {P P' : ApiPool} {ok : ApiPool → Move Route Time Exn → Prop}

/-- The requests of a run, with the calls they have made. -/
structure MediatedRun (env : Env) (P : ApiPool) : Prop where
  valid : P.state.RbacValid env
  obeys : System.ObeyFrom (fun _ _ w => w.RbacValid env) (Mediated env)
    (fun route log r => ∀ reply, r = .ok reply → Cleared route log) 0 P

theorem mediated_run (hv : w₀.RbacValid env) (h : (api env).Run ok ⟨w₀, []⟩ P) :
    MediatedRun env P := by
  refine h.invariant (I := MediatedRun env) ⟨hv, fun i _ _ hi => by cases hi⟩ ?_
  rintro P m P' ⟨hv, hobeys⟩ - hs
  refine ⟨?_, hobeys.step obeys_route (fun _ _ _ _ => hv) hs⟩
  rcases System.step_cases hs with ⟨_, _, rfl⟩ | ⟨i, r, log, l, next, eff, fail, -, hi, rfl⟩ |
    ⟨_, _, _, _, _, _, _, _, _, _, rfl⟩ | ⟨d, _, rfl⟩
  · exact hv
  · exact (hobeys.call (Nat.zero_le i) hi hv).valid hv
  · exact hv
  · exact hv

/-- What is in a log was made as the route makes it, given the calls before. -/
theorem MediatedRun.entry (h : MediatedRun env P) {th : Thread Route World Call Exn Reply}
    (hth : th ∈ P.threads) {x : Entry World Call} (hx : x ∈ th.log) :
    ∃ log, x :: log <:+ th.log ∧ Mediated env th.req log x := by
  obtain ⟨i, hi⟩ := List.getElem?_of_mem hth
  exact (h.obeys i th (Nat.zero_le i) hi).2.mem hx

/-- A state that the run from `w₀` to `P` has gone through, and gone on from by
a move that satisfies `ok`. -/
def Earlier (env : Env) (ok : ApiPool → Move Route Time Exn → Prop) (w₀ : World) (P : ApiPool)
    (N : World → Prop) : Prop :=
  ∃ Q m, (api env).Run ok ⟨w₀, []⟩ Q ∧ ok Q m ∧ (api env).Run ok Q P ∧ N Q.state

theorem Earlier.later {N : World → Prop} (h : Earlier env ok w₀ P N) (hr : (api env).Run ok P P') :
    Earlier env ok w₀ P' N := by
  obtain ⟨Q, m, h₀, hm, h₁, hN⟩ := h
  exact ⟨Q, m, h₀, hm, h₁.trans hr, hN⟩

theorem Earlier.of_entry (h : (api env).Run ok ⟨w₀, []⟩ P)
    {th : Thread Route World Call Exn Reply} (hth : th ∈ P.threads) {N : World → Prop}
    {x : Entry World Call} (hx : x ∈ th.log) (hN : N x.before) : Earlier env ok w₀ P N := by
  obtain ⟨Q, m, h₀, hm, h₁, he⟩ := h.entry rfl hth hx
  exact ⟨Q, m, h₀, hm, h₁, he ▸ hN⟩

/-- What a token claims was granted to its user at some time before, unless
the token was signed before the run. -/
theorem claims_were_granted (hv : w₀.RbacValid env) (h : (api env).Run ok ⟨w₀, []⟩ P) :
    ∀ p ∈ P.state.signed, p ∈ w₀.signed ∨
      Earlier env ok w₀ P fun w => ∀ name ∈ p.permissions, w.rbac.Granted p.sub name := by
  induction h with
  | refl => exact fun p hp => .inl hp
  | @step P P' m h hok hs ih =>
    intro p hp
    have later : p ∈ P.state.signed → p ∈ w₀.signed ∨
        Earlier env ok w₀ P' fun w => ∀ name ∈ p.permissions, w.rbac.Granted p.sub name := fun hp =>
      (ih p hp).imp_right fun h => h.later (.step .refl hok hs)
    rcases System.step_cases hs with ⟨_, _, rfl⟩ | ⟨i, r, log, l, next, eff, fail, -, hi, rfl⟩ |
      ⟨_, _, _, _, _, _, _, _, _, _, rfl⟩ | ⟨d, _, rfl⟩
    · exact later hp
    · have hm := mediated_run hv h
      rcases (hm.obeys.call (Nat.zero_le i) hi hm.valid).backed p hp with hp | ⟨y, hy, hg⟩
      · exact later hp
      · exact .inr ((Earlier.of_entry h (List.mem_of_getElem? hi) hy hg).later (.step .refl hok hs))
    · exact later hp
    · exact later hp

/-- The permissions that a token claims which a route has found in force were
granted to its user at some time, unless it is from before the run. -/
theorem Checked.granted (hv : w₀.RbacValid env) (h : (api env).Run ok ⟨w₀, []⟩ P)
    {th : Thread Route World Call Exn Reply} (hth : th ∈ P.threads) {bearer : JwtPayload}
    (hc : Checked bearer th.log) : bearer ∈ w₀.signed ∨
      Earlier env ok w₀ P fun w => ∀ name ∈ bearer.permissions, w.rbac.Granted bearer.sub name := by
  obtain ⟨x, hx, hb, -⟩ := hc.signed
  obtain ⟨Q, m, h₀, -, h₁, he⟩ := h.entry rfl hth hx
  exact (claims_were_granted hv h₀ bearer (he ▸ hb)).imp_right fun h => h.later h₁

/-- The request has returned a reply, or has changed something. -/
def Acted (th : Thread Route World Call Exn Reply) : Prop :=
  (∃ reply, th.outcome = some (.ok reply)) ∨ ∃ x ∈ th.log, x.after ≠ x.before

theorem MediatedRun.cleared (h : MediatedRun env P) {th : Thread Route World Call Exn Reply}
    (hth : th ∈ P.threads) (ha : Acted th) : Cleared th.req th.log := by
  obtain ⟨i, hi⟩ := List.getElem?_of_mem hth
  rcases ha with ⟨reply, hr⟩ | ⟨x, hx, hne⟩
  · exact h.obeys.outcome (Nat.zero_le i) hi hr reply rfl
  · obtain ⟨log, hl, hm⟩ := h.entry hth hx
    exact (hm.cleared.resolve_left hne).suffix ((List.suffix_cons ..).trans hl)

/-- A user whose one role grants one permission. -/
def staffed (name : String) : World where
  now := 0
  drawn := 4
  users := [{ id := unary 1, email := "a@b.co", passwordHash := Env.sample.argon2Hash 0 "Passw0rd!" }]
  rbac := {
    roles := [⟨unary 2, "staff", none⟩]
    permissions := [⟨unary 3, name, none⟩]
    rolePermissions := [⟨unary 2, unary 3⟩]
    userRoles := [⟨unary 1, unary 2⟩] }

theorem staffed_consistent (name : String) : (staffed name).RbacConsistent .sample where
  valid :=
    { roleId := List.nodup_singleton _
      roleMinted := by
        intro role hr
        exact ⟨2, Nat.lt_succ_of_lt (Nat.lt_succ_self 2), by rw [List.mem_singleton.mp hr]; rfl⟩
      roleName := List.nodup_singleton _
      permissionId := List.nodup_singleton _
      permissionMinted := by
        intro p hp
        exact ⟨3, Nat.lt_succ_self 3, by rw [List.mem_singleton.mp hp]; rfl⟩
      permissionName := List.nodup_singleton _
      userRoles := List.nodup_singleton _
      held := by
        intro ur hur
        exact ⟨_, List.mem_singleton_self _, by rw [List.mem_singleton.mp hur]⟩ }
  granted := by
    intro rp hrp
    rw [List.mem_singleton.mp hrp]
    exact ⟨⟨_, List.mem_singleton_self _, rfl⟩, _, List.mem_singleton_self _, rfl⟩
  holders := by
    intro ur hur
    exact ⟨_, List.mem_singleton_self _, by rw [List.mem_singleton.mp hur]⟩

theorem staffed_granted {name name' u : String} (h : (staffed name).rbac.Granted u name') :
    name' = name := by
  obtain ⟨-, -, p, hp, rfl, -⟩ := h
  rw [List.mem_singleton.mp hp]

/-- What the user presents after a login. -/
def staffToken (name : String) : JwtPayload where
  sub := unary 1
  email := "a@b.co"
  roles := ["staff"]
  permissions := [name]
  sessionId := unary 6
  jti := unary 7
  iat := 0
  exp := 900

/-- The login of the user, and a request with the token. -/
def staffAtWork (name : String) (route : Route) (calls : Nat) : ApiPool :=
  (api .sample).after
    (.start (.login ⟨"a@b.co", "Passw0rd!"⟩ ⟨none, none⟩) :: List.replicate 15 (.call 0) ++
      .start route :: List.replicate calls (.call 1)) ⟨staffed name, []⟩

/-- A role that the user has made. -/
def newRole : Route := .createRole (staffToken "roles:write") "editor" none

/-- From the moment on that a user is no longer granted a permission, the
routes that require it act for the user only on a token that was signed before,
and that had not expired when the route looked. -/
theorem withdrawal_takes_effect {u name : String} (hv : w₀.RbacValid env)
    (h : (api env).Run (fun Q _ => ¬Q.state.rbac.Granted u name) ⟨w₀, []⟩ P)
    {th : Thread Route World Call Exn Reply} (hth : th ∈ P.threads) {bearer : JwtPayload}
    (hb : th.req.bearer = some bearer) (hu : bearer.sub = u)
    (hn : name ∈ th.req.requiredPermissions.getD []) (ha : Acted th) :
    bearer ∈ w₀.signed ∧ ∃ x ∈ th.log, bearer.expired x.before.now = false := by
  have hc := (mediated_run hv h).cleared hth ha
  obtain ⟨names, hnames⟩ : ∃ names, th.req.requiredPermissions = some names := by
    cases hr : th.req.requiredPermissions with
    | none => simp [hr] at hn
    | some names => exact ⟨names, rfl⟩
  rw [hnames] at hn
  obtain ⟨x, hx, -, he⟩ := (hc.checked bearer hb).signed
  refine ⟨((hc.checked bearer hb).granted hv h hth).resolve_right ?_, x, hx, he⟩
  rintro ⟨Q, m, -, hok, -, hg⟩
  exact hok (hu ▸ hg name (hc.claims bearer names hb hnames name hn))

/-- The user no longer has the permission, but still has a token. -/
def formerStaff : World := { staffed "roles:read" with signed := [staffToken "roles:write"] }

/-- The user makes a role with this token. -/
def formerStaffAtWork : ApiPool :=
  (api .sample).after (.start newRole :: List.replicate 6 (.call 0)) ⟨formerStaff, []⟩

theorem formerStaff_acts :
    ∃ th ∈ formerStaffAtWork.threads, Acted th ∧ staffToken "roles:write" ∈ formerStaff.signed ∧
      ∃ x ∈ th.log, (staffToken "roles:write").expired x.before.now = false := by
  have h : (api .sample).Run (fun Q _ => ∀ p ∈ Q.state.rbac.permissions, p.name ≠ "roles:write")
      ⟨formerStaff, []⟩ formerStaffAtWork := .after (by decide)
  have hth : ∃ th ∈ formerStaffAtWork.threads, th.req = newRole ∧ th.outcome.any (·.isOk) = true := by
    decide
  obtain ⟨th, hth, hreq, hok⟩ := hth
  have ha : Acted th := .inl (Thread.succeeded_eq_true.mp hok)
  have hv : formerStaff.RbacValid .sample := (staffed_consistent "roles:read").valid
  have h : (api .sample).Run (fun Q _ => ¬Q.state.rbac.Granted (unary 1) "roles:write")
      ⟨formerStaff, []⟩ formerStaffAtWork :=
    h.mono fun Q _ hn ⟨_, _, p, hp, he, _⟩ => hn p hp he
  exact ⟨th, hth, ha, withdrawal_takes_effect hv h hth (by rw [hreq]; rfl) rfl
    (by rw [hreq]; exact List.mem_singleton_self _) ha⟩

/-! ## Confinement -/

/-- What is kept: `K` holds of the tables, and no token claims a permission
in `S`. -/
structure Confines (env : Env) (K : Rbac → Prop) (S : String → Prop) (w : World) : Prop where
  valid : w.RbacValid env
  kept : K w.rbac
  claims : ∀ p ∈ w.signed, ∀ name ∈ p.permissions, ¬S name

/-- A route that requires a permission requires it of the bearer of a token. -/
theorem Route.exists_bearer {route : Route} (h : route.requiredPermissions ≠ none) :
    ∃ bearer, route.bearer = some bearer := by
  cases route <;> first | exact ⟨_, rfl⟩ | exact absurd rfl h

/-- If no user is granted a permission in `S` as long as `K` holds of the tables,
and the changes that other permissions are for keep it, then it is kept. -/
theorem confined {K : Rbac → Prop} {S : String → Prop}
    (hgrants : ∀ w : World, w.RbacValid env → K w.rbac → ∀ u name, w.rbac.Granted u name → ¬S name)
    (hkeep : ∀ (w : World) (name : String) (r : Rbac), w.RbacValid env → K w.rbac → ¬S name →
      Manages env w name r → K r)
    (h₀ : Confines env K S w₀) (h : ApiRun env ⟨w₀, []⟩ P) : Confines env K S P.state := by
  refine (h.maintains (J := Mediated env) rfl (fun route => (obeys_route route).mono
    (fun _ _ h => h.1.valid) (fun _ _ h => h) fun _ _ h => h) ?_ (fun d w h => { h with }) h₀).1
  intro route log x hm hx hlog
  refine ⟨hm.valid hx.valid, ?_, fun p hp name hn => ?_⟩
  · rcases hm.manages with e | ⟨name, hn, hmn⟩
    · rw [e]
      exact hx.kept
    · rcases hm.cleared with e | hc
      · rw [e]
        exact hx.kept
      -- The token that the caller has presented does not claim a permission in `S`.
      obtain ⟨bearer, hb⟩ := Route.exists_bearer (by rw [hn]; exact nofun)
      obtain ⟨y, hy, hs, -⟩ := (hc.checked bearer hb).signed
      have hclaim := hc.claims bearer _ hb hn name (List.mem_singleton_self _)
      exact hkeep _ name _ hx.valid hx.kept ((hlog y hy).claims bearer hs name hclaim) hmn
  · rcases hm.backed p hp with hp | ⟨y, hy, hg⟩
    · exact hx.claims p hp name hn
    · exact hgrants y.before (hlog y hy).valid (hlog y hy).kept _ name (hg name hn)

/-- The permissions with which the tables can be changed. -/
def administrative : List String := ["roles:write", "roles:assign", "permissions:write"]

theorem Manages.administrative {name : String} {r : Rbac} (h : Manages env w name r) :
    name ∈ administrative := by
  cases h <;> simp [AtlasAuth.administrative]

/-- Where no user is granted a permission that lets one change the tables, and
no token claims one, no sequence of requests changes the tables, and no token
will ever claim such a permission. -/
theorem no_administrator_arises (hv : w₀.RbacValid env)
    (hnone : ∀ u, ∀ name ∈ administrative, ¬w₀.rbac.Granted u name)
    (hsigned : ∀ p ∈ w₀.signed, ∀ name ∈ administrative, name ∉ p.permissions)
    (h : ApiRun env ⟨w₀, []⟩ P) :
    P.state.rbac = w₀.rbac ∧ ∀ p ∈ P.state.signed, ∀ name ∈ administrative, name ∉ p.permissions := by
  have hc : Confines env (· = w₀.rbac) (· ∈ administrative) P.state :=
    confined (fun w _ hr u name hg hn => hnone u name hn (hr ▸ hg))
      (fun w name r _ _ hn hm => absurd hm.administrative hn)
      ⟨hv, rfl, fun p hp name hn ha => hsigned p hp name ha hn⟩ h
  exact ⟨hc.kept, fun p hp name ha hn => hc.claims p hp name hn ha⟩

theorem staffAtWork_forbidden :
    let P := staffAtWork "roles:read" (.createRole (staffToken "roles:read") "editor" none) 3
    P.state.rbac = (staffed "roles:read").rbac ∧
      ∀ p ∈ P.state.signed, ∀ name ∈ administrative, name ∉ p.permissions := by
  refine no_administrator_arises (staffed_consistent _).valid (fun u name hn hg => ?_)
    (fun _ hp => absurd hp List.not_mem_nil) (.after (by decide))
  rw [staffed_granted hg] at hn
  exact absurd hn (by decide)

/-- Some role grants the permission of this name. -/
def Rbac.Offers (r : Rbac) (name : String) : Prop :=
  ∃ rp ∈ r.rolePermissions, ∃ p ∈ r.permissions, p.id = rp.permissionId ∧ p.name = name

theorem Rbac.Granted.offers {r : Rbac} {u name : String} (h : r.Granted u name) : r.Offers name := by
  obtain ⟨roleId, -, p, hp, hn, hrp⟩ := h
  exact ⟨_, hrp, p, hp, rfl, hn⟩

/-- Where no role grants `roles:write` or `permissions:write`, the holders of
`roles:assign` change who has which role, and nothing else: neither the roles
and permissions nor what a role grants. -/
theorem assigning_alone (hv : w₀.RbacValid env)
    (hnone : ∀ name ∈ ["roles:write", "permissions:write"], ¬w₀.rbac.Offers name)
    (hsigned : ∀ p ∈ w₀.signed, ∀ name ∈ ["roles:write", "permissions:write"], name ∉ p.permissions)
    (h : ApiRun env ⟨w₀, []⟩ P) :
    P.state.rbac = { w₀.rbac with userRoles := P.state.rbac.userRoles } := by
  refine (confined (K := fun r => r = { w₀.rbac with userRoles := r.userRoles })
    (S := (· ∈ ["roles:write", "permissions:write"])) (fun w _ hr u name hg hn => ?_)
    (fun w name r _ hr hn hm => ?_) ⟨hv, rfl, fun p hp name hn ha => hsigned p hp name ha hn⟩ h).kept
  · have ho := hg.offers
    rw [hr] at ho
    exact hnone name hn ho
  · cases hm with
    | roles | permissions => simp at hn
    | assign => rw [hr]

theorem staffAtWork_revokes :
    let P := staffAtWork "roles:assign"
      (.revokeFromUser (staffToken "roles:assign") (unary 2) (unary 1)) 4
    P.state.rbac.userRoles = [] ∧
      P.state.rbac = { (staffed "roles:assign").rbac with userRoles := P.state.rbac.userRoles } := by
  refine ⟨by decide, assigning_alone (staffed_consistent _).valid (fun name hn ho => ?_)
    (fun _ hp => absurd hp List.not_mem_nil) (.after (by decide))⟩
  obtain ⟨-, -, p, hp, -, rfl⟩ := ho
  rw [List.mem_singleton.mp hp] at hn
  exact absurd hn (by decide)

/-- Where nobody is granted `roles:write` or `roles:assign`, the holders of
`permissions:write` give nobody a permission: every permission that is granted
at some time was granted at first, and nobody's roles change. -/
theorem permissions_alone (hv : w₀.RbacConsistent env)
    (hnone : ∀ u, ∀ name ∈ ["roles:write", "roles:assign"], ¬w₀.rbac.Granted u name)
    (hsigned : ∀ p ∈ w₀.signed, ∀ name ∈ ["roles:write", "roles:assign"], name ∉ p.permissions)
    (h : ApiRun env ⟨w₀, []⟩ P) :
    (P.state.rbac.roles = w₀.rbac.roles ∧ P.state.rbac.userRoles = w₀.rbac.userRoles) ∧
      ∀ u name, P.state.rbac.Granted u name → w₀.rbac.Granted u name := by
  let K (r : Rbac) : Prop := (r.roles = w₀.rbac.roles ∧ r.userRoles = w₀.rbac.userRoles) ∧
    (∀ u name, r.Granted u name → w₀.rbac.Granted u name) ∧
    ∀ rp ∈ r.rolePermissions, ∃ p ∈ r.permissions, p.id = rp.permissionId
  have hk : K P.state.rbac := by
    refine (confined (K := K) (S := (· ∈ ["roles:write", "roles:assign"]))
      (fun w _ hr u name hg hn => hnone u name hn (hr.2.1 u name hg)) (fun w name r hw hr hn hm => ?_)
      ⟨hv.valid, ⟨⟨rfl, rfl⟩, fun _ _ h => h, fun rp hrp => (hv.granted rp hrp).2⟩,
        fun p hp name hn ha => hsigned p hp name ha hn⟩ h).kept
    cases hm with
    | roles | assign => simp at hn
    | permissions hroles hu hg hp hl =>
      -- A new permission has an id that no row refers to.
      have mem {p : Permission} {rp : RolePermission} (hpr : p ∈ r.permissions)
          (hrp : rp ∈ r.rolePermissions) (e : p.id = rp.permissionId) : p ∈ w.rbac.permissions := by
        refine (hp p hpr).resolve_right fun hnew => ?_
        obtain ⟨q, hq, hid⟩ := hr.2.2 rp (hg hrp)
        obtain ⟨n, hlt, hn⟩ := hw.permissionMinted q hq
        have := env.randomUUID_injective (hn.symm.trans (hid.trans (e.symm.trans hnew)))
        omega
      refine ⟨⟨hroles.trans hr.1.1, hu.trans hr.1.2⟩, fun u name hgr => ?_, fun rp hrp => ?_⟩
      · obtain ⟨roleId, hur, p, hpr, hname, hrp⟩ := hgr
        exact hr.2.1 u name ⟨roleId, hu ▸ hur, p, mem hpr hrp rfl, hname, hg hrp⟩
      · obtain ⟨p, hp, e⟩ := hr.2.2 rp (hg hrp)
        exact ⟨p, hl rp hrp p hp e, e⟩
  exact ⟨hk.1, hk.2.1⟩

theorem staffAtWork_createsPermission :
    let P := staffAtWork "permissions:write"
      (.createPermission (staffToken "permissions:write") "roles:write" none) 5
    (∃ p ∈ P.state.rbac.permissions, p.name = "roles:write") ∧
      (P.state.rbac.roles = (staffed "permissions:write").rbac.roles ∧
        P.state.rbac.userRoles = (staffed "permissions:write").rbac.userRoles) ∧
      ∀ u name, P.state.rbac.Granted u name → (staffed "permissions:write").rbac.Granted u name := by
  refine ⟨by decide, permissions_alone (staffed_consistent _) (fun u name hn hg => ?_)
    (fun _ hp => absurd hp List.not_mem_nil) (.after (by decide))⟩
  rw [staffed_granted hg] at hn
  exact absurd hn (by decide)

end AtlasAuth

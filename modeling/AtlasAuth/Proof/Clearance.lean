import AtlasAuth.Proof.Api
import AtlasAuth.Proof.Rbac

/-!
# Whom the routes serve

A route that takes a token from its caller changes the state, or returns a
reply, only after `JwtAuthGuard` has found that token in force, and after
`PermissionsGuard` has found in it every permission that the route requires.
-/

namespace AtlasAuth

open Framework Prog

variable {α : Type} {env : Env} {log : List (Entry World Call)}

/-- The token that a route takes from the `Authorization` header. -/
def Route.bearer : Route → Option JwtPayload
  | .resendVerification bearer | .changePassword bearer .. | .logout bearer .. | .getMe bearer
  | .updateMe bearer .. | .requestEmailChange bearer .. | .listSessions bearer
  | .revokeSession bearer .. | .revokeAllOtherSessions bearer _ | .findOne bearer _
  | .createRole bearer .. | .updateRole bearer .. | .removeRole bearer _
  | .assignPermission bearer .. | .revokePermission bearer .. | .assignToUser bearer ..
  | .revokeFromUser bearer .. | .createPermission bearer .. | .removePermission bearer _ =>
    some bearer
  | _ => none

/-- The token was in force when the request looked: it was signed, had not
expired, and neither it nor its session was blacklisted. -/
structure Checked (bearer : JwtPayload) (log : List (Entry World Call)) : Prop where
  signed : ∃ x ∈ log, bearer ∈ x.before.signed ∧ bearer.expired x.before.now = false
  token : ∃ x ∈ log, x.before.redis.has (JTI_PREFIX ++ bearer.jti) x.before.now = false
  session : ∃ x ∈ log, x.before.redis.has (SESSION_PREFIX ++ bearer.sessionId) x.before.now = false

theorem Checked.suffix {bearer : JwtPayload} {log' : List (Entry World Call)}
    (h : Checked bearer log) (hl : log <:+ log') : Checked bearer log' where
  signed := h.signed.imp fun _ h => ⟨hl.subset h.1, h.2⟩
  token := h.token.imp fun _ h => ⟨hl.subset h.1, h.2⟩
  session := h.session.imp fun _ h => ⟨hl.subset h.1, h.2⟩

section

variable {A : List (Entry World Call) → World → Prop}
  {J : List (Entry World Call) → Entry World Call → Prop}
  {Q : List (Entry World Call) → Except Exn α → Prop} {route : Route} {bearer : JwtPayload}

/-- What comes after `JwtAuthGuard`. -/
theorem obeys_canActivate {k : JwtPayload → App α} (hJ : ∀ log l w, J log ⟨l, w, w⟩)
    (hQ : ∀ log e, Q log (.error e))
    (hk : ∀ log', Checked bearer log' → (k bearer).Obeys A J Q log') :
    (JwtAuthGuard.canActivate bearer >>= k).Obeys A J Q log := by
  rw [JwtAuthGuard.canActivate, bind_bind, obeys_bind]
  refine obeys_atomic.mpr ⟨fun w hw => ?_, fun _ => hQ ..⟩
  split
  · rename_i h
    obtain ⟨hs, he⟩ := Bool.and_eq_true_iff.mp h
    refine ⟨hJ .., ?_⟩
    dsimp only
    rw [JwtStrategy.validate, bind_bind]
    refine Obeys.query_bind (fun _ => hQ ..) fun w₁ _ => ⟨hJ .., ?_⟩
    rw [bind_bind]
    refine Obeys.query_bind (fun _ => hQ ..) fun w₂ _ => ⟨hJ .., ?_⟩
    split
    · exact hQ ..
    · rename_i hb
      obtain ⟨hb₁, hb₂⟩ := Bool.or_eq_false_iff.mp (Bool.eq_false_iff.mpr hb)
      refine hk _ ⟨⟨_, .tail _ (.tail _ (.head _)), by simpa using hs, by simpa using he⟩,
        ⟨_, .tail _ (.head _), hb₁⟩, ⟨_, .head _, hb₂⟩⟩
  · exact ⟨hJ .., hQ ..⟩

/-- The caller of the route has presented a token that was in force, and that
claims every permission that the route requires. -/
structure Cleared (route : Route) (log : List (Entry World Call)) : Prop where
  checked : ∀ bearer, route.bearer = some bearer → Checked bearer log
  claims : ∀ bearer names, route.bearer = some bearer → route.requiredPermissions = some names →
    ∀ name ∈ names, name ∈ bearer.permissions

theorem Cleared.suffix {log' : List (Entry World Call)} (h : Cleared route log)
    (hl : log <:+ log') : Cleared route log' :=
  ⟨fun bearer hb => (h.checked bearer hb).suffix hl, h.claims⟩

theorem mem_of_permissionsGuard {required : List String} {user : JwtPayload} {b : Bool}
    (h : PermissionsGuard.canActivate (some required) (some user) = .ok b) :
    ∀ name ∈ required, name ∈ user.permissions := by
  cases required with
  | nil => exact fun _ h => absurd h List.not_mem_nil
  | cons x xs =>
    have hok : PermissionsGuard.canActivate (some (x :: xs)) (some user) = .ok true := by
      unfold PermissionsGuard.canActivate claimsGuard at h ⊢
      dsimp only at h ⊢
      split at h
      · exact if_pos ‹_›
      · cases h
    rw [PermissionsGuard.canActivate, claimsGuard_ok (by simp)] at hok
    simpa only [List.all_eq_true, List.contains_iff_mem, mem_setOf] using hok

/-- What comes after the guards of a route. -/
theorem obeys_guards {k : JwtPayload → App α} (hb : route.bearer = some bearer)
    (hJ : ∀ log l w, J log ⟨l, w, w⟩) (hQ : ∀ log e, Q log (.error e))
    (hk : ∀ log', Cleared route log' → (k bearer).Obeys A J Q log') :
    (route.guards bearer >>= k).Obeys A J Q log := by
  rw [Route.guards, bind_bind]
  refine obeys_canActivate hJ hQ fun log' hc => ?_
  rw [bind_bind, obeys_bind, obeys_ofExcept]
  split
  · rename_i b he
    refine hk log' ⟨fun p hp => ?_, fun p names hp hn name hname => ?_⟩
    · exact Option.some.inj (hb.symm.trans hp) ▸ hc
    · rw [hn] at he
      exact Option.some.inj (hb.symm.trans hp) ▸ mem_of_permissionsGuard he name hname
  · exact hQ ..

end

/-- A route changes the state, or returns a reply, only for a caller who has
been cleared. -/
theorem cleared_route {A : List (Entry World Call) → World → Prop} (route : Route) :
    (route.program env).Obeys A (fun log x => x.after = x.before ∨ Cleared route log)
      (fun log r => ∀ reply, r = .ok reply → Cleared route log) [] := by
  have after {p : App Reply} {log : List (Entry World Call)} (hc : Cleared route log) :
      p.Obeys A (fun log x => x.after = x.before ∨ Cleared route log)
        (fun log r => ∀ reply, r = .ok reply → Cleared route log) log :=
    .of_suffix (fun _ _ hl => .inr (hc.suffix hl)) fun _ _ hl _ _ => hc.suffix hl
  have guarded {bearer : JwtPayload} {k : JwtPayload → App Reply}
      (hb : route.bearer = some bearer) : (route.guards bearer >>= k).Obeys A
        (fun log x => x.after = x.before ∨ Cleared route log)
        (fun log r => ∀ reply, r = .ok reply → Cleared route log) [] :=
    obeys_guards hb (fun _ _ _ => .inl rfl) (fun _ _ => nofun) fun _ hc => after hc
  have checked {bearer : JwtPayload} {k : JwtPayload → App Reply} {p : App Reply}
      (hb : route.bearer = some bearer) (hn : route.requiredPermissions = none)
      (hp : p = JwtAuthGuard.canActivate bearer >>= k) : p.Obeys A
        (fun log x => x.after = x.before ∨ Cleared route log)
        (fun log r => ∀ reply, r = .ok reply → Cleared route log) [] := by
    rw [hp]
    refine obeys_canActivate (fun _ _ _ => .inl rfl) (fun _ _ => nofun) fun _ hc => after ⟨?_, ?_⟩
    · exact fun p hp => Option.some.inj (hb.symm.trans hp) ▸ hc
    · intro p names _ h
      rw [hn] at h
      cases h
  cases route with
  | register | login | refresh | verifyEmail | forgotPassword | resetPassword | userRegistered =>
    exact after ⟨nofun, nofun⟩
  | findOne | createRole | updateRole | removeRole | assignPermission | revokePermission
  | assignToUser | revokeFromUser | createPermission | removePermission => exact guarded rfl
  | resendVerification bearer => exact checked rfl rfl (bind_bind ..)
  | changePassword bearer current new c => exact checked rfl rfl (bind_bind ..)
  | logout bearer cookie c => exact checked rfl rfl (bind_bind ..)
  | getMe bearer => exact checked rfl rfl (bind_bind ..)
  | updateMe bearer first last avatar => exact checked rfl rfl (bind_bind ..)
  | requestEmailChange bearer e p => exact checked rfl rfl (bind_bind ..)
  | listSessions bearer => exact checked rfl rfl (bind_bind ..)
  | revokeSession bearer id c => exact checked rfl rfl (bind_bind ..)
  | revokeAllOtherSessions bearer c => exact checked rfl rfl (bind_bind ..)

end AtlasAuth

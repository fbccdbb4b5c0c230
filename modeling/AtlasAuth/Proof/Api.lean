import AtlasAuth.Framework.FrontEnd
import AtlasAuth.Model.Api
import AtlasAuth.Proof.Grows

/-!
# The HTTP interface in front of the service

A route checks the token of its caller, which only reads, and then makes one
request of the service (`Route.request`) or, where it only shows something,
none. So what can happen to the state through the interface can happen in an
interleaving of requests of the service, and a reply is computed from what such
a request returned (`api_refines`).
-/

namespace AtlasAuth

open Framework Prog

variable {env : Env}

/-- The request of the service that a route makes. -/
def Route.request : Route → Option Request
  | .register dto context => some (.register dto context)
  | .login dto context => some (.login dto context)
  | .refresh cookie context => some (.refresh cookie context)
  | .verifyEmail token context => some (.verifyEmail token context)
  | .resendVerification bearer => some (.resendVerification bearer)
  | .forgotPassword email => some (.forgotPassword email)
  | .resetPassword token newPassword context => some (.resetPassword token newPassword context)
  | .changePassword bearer currentPassword newPassword context =>
    some (.changePassword bearer currentPassword newPassword context)
  | .logout bearer cookie context => some (.logout bearer cookie context)
  | .getMe bearer => some (.getMe bearer)
  | .updateMe bearer firstName lastName avatarUrl =>
    some (.updateMe bearer firstName lastName avatarUrl)
  | .requestEmailChange bearer newEmail password =>
    some (.requestEmailChange bearer newEmail password)
  | .revokeSession bearer id context => some (.deleteSession bearer id context)
  | .revokeAllOtherSessions bearer context => some (.deleteOtherSessions bearer context)
  | .createRole _ name description => some (.createRole name description)
  | .updateRole _ id name description => some (.updateRole id name description)
  | .removeRole _ id => some (.removeRole id)
  | .assignPermission _ id permissionId => some (.assignPermission id permissionId)
  | .revokePermission _ id permissionId => some (.revokePermission id permissionId)
  | .assignToUser _ id userId => some (.assignToUser userId id)
  | .revokeFromUser _ id userId => some (.revokeFromUser userId id)
  | .createPermission _ name description => some (.createPermission name description)
  | .removePermission _ id => some (.removePermission id)
  | .userRegistered userId email context => some (.userRegistered userId email context)
  | .listSessions _ | .findOne .. => none

/-- The status and the text of a route that answers with a text, or with
nothing. -/
def Route.plain : Route → Reply
  | .verifyEmail .. => { status := 200, body := .message "Email verified successfully" }
  | .resendVerification _ => { status := 202, body := .message "Verification email sent" }
  | .forgotPassword _ =>
    { status := 202
      body := .message "If an account with that email exists, a reset link has been sent" }
  | .resetPassword .. =>
    { status := 200, body := .message "Password reset successfully. Please log in again." }
  | .changePassword .. => { status := 200, body := .message "Password changed successfully" }
  | .logout .. => { status := 204, body := .empty, cookie := some .clear }
  | .requestEmailChange .. =>
    { status := 202, body := .message "Confirmation email sent to the new address" }
  | .userRegistered .. => { status := 200, body := .empty }
  | _ => { status := 204, body := .empty }

/-- The reply that a route makes of what its request returns. -/
def Route.reply (route : Route) : Response → Reply
  | .session user tokens =>
    .auth (match route with | .register .. => 201 | _ => 200) user tokens
  | .user user => { status := 200, body := .user (.ofUser user) }
  | .revokedCount n => { status := 200, body := .revokedCount n }
  | .role role =>
    { status := match route with | .createRole .. | .assignPermission .. => 201 | _ => 200
      body := .role (.ofRole role) }
  | .permission permission => { status := 201, body := .permission (.ofPermission permission) }
  | .done => route.plain

theorem reads_canActivate (bearer : JwtPayload) :
    (JwtAuthGuard.canActivate bearer).Always fun w w' => w' = w := by
  have : Std.Refl fun w w' : World => w' = w := ⟨fun _ => rfl⟩
  refine .bind (always_atomic.mpr fun w => by split <;> rfl) fun _ => ?_
  exact .bind always_query fun _ => .bind always_query fun _ =>
    .ite (fun _ => always_throw) fun _ => always_ret

theorem reads_guards (route : Route) (bearer : JwtPayload) :
    (route.guards bearer).Always fun w w' => w' = w :=
  .bind (reads_canActivate bearer) fun _ => .bind always_ofExcept fun _ => always_ret

theorem reads_findByIdOrThrow (id : String) :
    (RolesService.findByIdOrThrow id).Always fun w w' => w' = w := by
  have : Std.Refl fun w w' : World => w' = w := ⟨fun _ => rfl⟩
  refine .bind always_query fun role => ?_
  cases role with
  | none => exact always_throw
  | some role => exact always_ret

theorem reads_listSessions (bearer : JwtPayload) :
    (SessionsController.listSessions bearer).Always fun w w' => w' = w := by
  have : Std.Refl fun w w' : World => w' = w := ⟨fun _ => rfl⟩
  exact .bind (reads_canActivate bearer) fun _ => .bind always_query fun _ => always_ret

/-- The requests that a route passes on, with what it makes of the result. -/
def Route.Passes (route : Route) (r : Request) (f : Response → Reply) : Prop :=
  route.request = some r ∧ f = route.reply

theorem program_ne_ret (r : Request) (x : Response) : program env r ≠ .ret x := by
  cases r with
  | refresh cookie c =>
    intro h
    simp only [program, AuthController.refresh] at h
    cases hc : truthy cookie <;> rw [hc] at h <;> cases h
  | _ => exact fun h => by cases h

theorem fronts_route (route : Route) :
    System.Fronts (system env) route.Passes (route.program env) := by
  have pass {r : Request} (h : route.request = some r) {p : App Reply}
      (hp : p = (program env r).map route.reply) : System.Fronts (system env) route.Passes p := by
    rw [hp]
    exact .pass ⟨h, rfl⟩ (program_ne_ret r)
  have guard {bearer : JwtPayload} {r : Request} (h : route.request = some r) {p : App Reply}
      (hp : p = (program env r).map route.reply) :
      System.Fronts (system env) route.Passes (route.guards bearer >>= fun _ => p) :=
    .bind (reads_guards route bearer) fun _ => pass h hp
  cases route with
  | listSessions bearer =>
    exact .bind (reads_listSessions bearer) fun _ => .ret (fun _ _ h => nomatch h.1) _
  | findOne bearer id =>
    exact .bind (reads_guards _ bearer) fun _ => .bind (reads_findByIdOrThrow id) fun _ =>
      .ret (fun _ _ h => nomatch h.1) _
  | createRole | updateRole | removeRole | assignPermission | revokePermission | assignToUser
  | revokeFromUser | createPermission | removePermission =>
    exact guard rfl (by rw [program, map_bind]; rfl)
  | _ => exact pass rfl (by rw [program, map_bind]; rfl)

/-- What happens through the interface happens in an interleaving of requests of
the service: of the request of every route that has been answered, of no
request twice, and of no other. The answer is computed from what that request
returned. -/
theorem api_refines {w₀ : World} {P : ApiPool} (h : ApiRun env ⟨w₀, []⟩ P) :
    ∃ (Q : AppPool) (partner : Nat → Option Nat), Interleaving env ⟨w₀, []⟩ Q ∧
      Q.state = P.state ∧ (∀ i i' j, partner i = some j → partner i' = some j → i = i') ∧
      (∀ j < Q.threads.length, ∃ i < P.threads.length, partner i = some j) ∧
      ∀ i th, P.threads[i]? = some th →
        (∀ r reply, th.req.request = some r → th.outcome = some (.ok reply) → ∃ j, partner i = some j) ∧
        ∀ j, partner i = some j → ∃ th₀, Q.threads[j]? = some th₀ ∧
          th.req.request = some th₀.req ∧ th.outcome = th₀.outcome.map (Except.map th.req.reply) := by
  obtain ⟨partner, Q, hr, hb⟩ := System.Run.behind (S := system env) (K := Route.Passes) h fronts_route
    rfl rfl
  refine ⟨Q, partner, hr, hb.state, hb.ne, fun j hj => ?_,
    fun i th hi => ⟨fun r reply hreq hret => ?_, fun j hj => ?_⟩⟩
  · obtain ⟨i, hi⟩ := hb.onto j hj
    exact ⟨i, (hb.lt i j hi).1, hi⟩
  · exact (hb.stands i th hi).returned hret ⟨hreq, rfl⟩
  · have hs := hb.stands i th hi
    rw [hj] at hs
    obtain ⟨th₀, _, hj, ⟨hreq, rfl⟩, ho⟩ := hs.outcome
    exact ⟨th₀, hj, hreq, ho⟩

theorem ApiRun.after {ms : List (Move Route Time Exn)} {P : ApiPool}
    (h : (api env).check (fun _ _ => True) ms P = true) : ApiRun env P ((api env).after ms P) :=
  System.Run.after h

/-- The token of an administrator. -/
def adminToken : JwtPayload where
  sub := "root"
  email := "root@atlas.dev"
  roles := ["admin"]
  permissions := ["roles:read", "roles:write"]
  sessionId := "s"
  jti := "j"
  iat := 0
  exp := 900

/-- The administrator makes a role, looks at it, and asks for one that is not
there. -/
def roleMade : ApiPool :=
  (api .sample).after
    (.start (.createRole adminToken "editor" none) :: List.replicate 6 (.call 0) ++
      .start (.findOne adminToken (unary 0)) :: .start (.removeRole adminToken "none") ::
        List.replicate 4 (.call 1) ++ List.replicate 4 (.call 2))
    ⟨{ now := 0, signed := [adminToken] }, []⟩

theorem roleMade_behind :
    (roleMade.threads.map (·.outcome.map fun r => r.toOption.map (·.status))) =
        [some (some 201), some (some 200), some none] ∧
      ∃ (Q : AppPool) (partner : Nat → Option Nat),
        Interleaving .sample ⟨{ now := 0, signed := [adminToken] }, []⟩ Q ∧ Q.state = roleMade.state ∧
        (∀ i i' j, partner i = some j → partner i' = some j → i = i') ∧
        (∀ j < Q.threads.length, ∃ i < roleMade.threads.length, partner i = some j) ∧
        ∀ i th, roleMade.threads[i]? = some th →
          (∀ r reply, th.req.request = some r → th.outcome = some (.ok reply) →
            ∃ j, partner i = some j) ∧
          ∀ j, partner i = some j → ∃ th₀, Q.threads[j]? = some th₀ ∧
            th.req.request = some th₀.req ∧
            th.outcome = th₀.outcome.map (Except.map th.req.reply) :=
  ⟨by decide, api_refines (.after (by decide))⟩

end AtlasAuth

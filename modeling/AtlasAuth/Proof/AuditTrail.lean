import AtlasAuth.Framework.Journal
import AtlasAuth.Proof.Administration
import AtlasAuth.Proof.Blacklist
import AtlasAuth.Proof.Events
import AtlasAuth.Proof.Families
import AtlasAuth.Proof.Redeemable

/-!
# What the audit trail says of a run

The listener writes a row for every security-relevant operation of
`AuthService`, `SessionsService`, `PasswordService` and
`EmailVerificationService` that succeeds, and one for every attempt to log in;
the users of the rows are there, as their foreign keys demand. `RolesService`
and `PermissionsService` emit nothing, so that the trail of a run is complete
if and only if none of their operations succeeds, and no sessions of nobody are
revoked (`auditTrail_complete_iff`).
-/

namespace AtlasAuth

open Framework Framework.Table Prog

variable {env : Env} {w w' : World} {x : Except Exn Response} {r : Request}

/-! ## Operations and rows -/

/-- A security-relevant operation, with who acts and what is affected. -/
inductive Operation
  | registration (userId : String)
  | login (userId sessionId : String)
  | logout (userId sessionId : String)
  | reuseDetection (userId familyId : String)
  | passwordChange (userId : String) (method : PasswordChangeMethod)
  | sessionRevocation (userId sessionId : String)
  | bulkRevocation (userId : String) (sessionIds : List String) (keptSessionId : Option String)
  | emailVerification (userId email : String)
  | administration (request : Request)

/-- The operations of a request that succeeds. -/
def Request.performs (env : Env) (w : World) : Request → Response → List Operation
  | .register .., .session u _ => [.registration u.id]
  | .login .., .session u tokens => [.login u.id tokens.sessionId]
  | .logout bearer .., _ => [.logout bearer.sub bearer.sessionId]
  | .verifyEmail token _, _ =>
    (emailRow env w token).toList.map fun (l, u) => .emailVerification u.id (verifiedAddress l u)
  | .resetPassword token .., _ =>
    (resetRow env w token).toList.flatMap fun l =>
      [.bulkRevocation l.userId (liveSessionsOf w l.userId none) none, .passwordChange l.userId .reset]
  | .changePassword bearer .., _ =>
    [.bulkRevocation bearer.sub (liveSessionsOf w bearer.sub (some bearer.sessionId))
        (some bearer.sessionId),
     .passwordChange bearer.sub .change]
  | .deleteSession bearer id _, _ => [.sessionRevocation bearer.sub id]
  | .revokeSession u id _, _ => [.sessionRevocation u id]
  | .deleteOtherSessions bearer _, _ =>
    [.bulkRevocation bearer.sub (liveSessionsOf w bearer.sub (some bearer.sessionId))
      (some bearer.sessionId)]
  | .revokeAllOtherSessions u id _, _ => [.bulkRevocation u (liveSessionsOf w u (some id)) (some id)]
  | .revokeAllSessions u _, _ => [.bulkRevocation u (liveSessionsOf w u none) none]
  | r, _ => if r.isAdministration then [.administration r] else []

/-- A refresh that presents a revoked token is refused, and reuse is detected. -/
def Request.detects (env : Env) (w : World) : Request → List Operation
  | .refresh cookie _ =>
    ((cookieRow env w cookie).filter (·.revokedAt.isSome)).toList.map fun t =>
      .reuseDetection t.userId t.familyId
  | _ => []

/-- The operations of a completed request. -/
def operations (env : Env) (d : Done Request World Exn Response) : List Operation :=
  match d.outcome with
  | .ok a => d.req.performs env d.before a
  | .error _ => d.req.detects env d.before

/-- The row names the action, who acted and what was affected. -/
structure AuditLog.Names (row : AuditLog) (action userId entityType : String)
    (entityId : Option String) : Prop where
  action : row.action = action
  userId : row.userId = some userId
  entityType : row.entityType = some entityType
  entityId : row.entityId = entityId

open AuthEventName in
/-- The row records the operation. Of an operation on roles and permissions no
more is asked than that somebody and something be named. -/
def AuditLog.Records (row : AuditLog) : Operation → Prop
  | .registration u => row.Names USER_REGISTERED u "User" (some u)
  | .login u s => row.Names USER_LOGGED_IN u "Session" (some s)
  | .logout u s => row.Names USER_LOGGED_OUT u "Session" (some s)
  | .reuseDetection u f => row.Names TOKEN_REUSE_DETECTED u "RefreshTokenFamily" (some f)
  | .passwordChange u method =>
    row.Names PASSWORD_CHANGED u "User" (some u) ∧ row.metadata = some (.passwordChanged method)
  | .sessionRevocation u s => row.Names SESSION_REVOKED u "Session" (some s)
  | .bulkRevocation u ids kept =>
    row.Names ALL_SESSIONS_REVOKED u "Session" none ∧
      row.metadata = some (.allSessionsRevoked ids.length kept)
  | .emailVerification u email =>
    row.Names EMAIL_VERIFIED u "User" (some u) ∧
      ∃ type, row.metadata = some (.emailVerified email type)
  | .administration _ => row.userId.isSome = true ∧ row.entityId.isSome = true

/-- Why a login is refused. -/
def RefusedFor (env : Env) (dto : LoginDto) (d : Done Request World Exn Response) :
    LoginStatus → Prop
  | .FAILED_NOT_FOUND => loginRow env d.before dto = none
  | .FAILED_LOCKED => ∃ u now, loginRow env d.before dto = some u ∧ d.before.now ≤ now ∧
      now ≤ d.after.now ∧ u.lockedUntil.any (now < ·) = true
  | .FAILED_PASSWORD => ∃ u, loginRow env d.before dto = some u ∧
      env.argon2Verify u.passwordHash dto.password = false
  | _ => False

/-- The row reports the attempt to log in: its status is `SUCCESS` if tokens
were returned, and otherwise the reason why they were not. -/
def LoginHistory.Reports (env : Env) (row : LoginHistory) (d : Done Request World Exn Response) :
    Prop :=
  ∃ dto c, d.req = .login dto c ∧ row.email = env.toLowerCase dto.email ∧
    row.userId = (loginRow env d.before dto).map (·.id) ∧ row.ipAddress = c.ipAddress ∧
    row.userAgent = c.userAgent ∧
    ((row.status = .SUCCESS ∧ ∃ u tokens, d.outcome = .ok (.session u tokens)) ∨
      (row.status ≠ .SUCCESS ∧ (∃ e, d.outcome = .error e) ∧ RefusedFor env dto d row.status))

/-- The requests that succeed without a trace: an operation on roles and
permissions that the tables admit, and a revocation of the sessions of nobody,
whose row has no user to refer to. -/
def Request.unaudited (w : World) : Request → Bool
  | .revokeAllOtherSessions u _ _ | .revokeAllSessions u _ => !references w.users (some u)
  | r => r.admitted w

/-! ## The tables of a run -/

/-- What a step of a run writes. -/
def audit (d : Done Request World Exn Response) : AuditTables :=
  deliver d.after.users (d.after.emittedSince d.before) {}

/-- The rows of both. -/
def AuditTables.add (T S : AuditTables) : AuditTables :=
  ⟨T.auditLogs ++ S.auditLogs, T.loginHistory ++ S.loginHistory⟩

theorem AuditTables.add_assoc (T S R : AuditTables) : (T.add S).add R = T.add (S.add R) := by
  simp [add]

theorem record_add (users : List User) (entry : AuditLog) (T S : AuditTables) :
    AuditLogRepository.record users entry (T.add S) =
      T.add (AuditLogRepository.record users entry S) := by
  unfold AuditLogRepository.record
  split
  · simp [AuditTables.add]
  · rfl

theorem recordLogin_add (users : List User) (entry : LoginHistory) (T S : AuditTables) :
    LoginHistoryRepository.record users entry (T.add S) =
      T.add (LoginHistoryRepository.record users entry S) := by
  unfold LoginHistoryRepository.record
  split
  · simp [AuditTables.add]
  · rfl

/-- The listener only adds rows. -/
theorem handle_add (users : List User) (e : Event) (T S : AuditTables) :
    AuditListener.handle users e (T.add S) = T.add (AuditListener.handle users e S) := by
  cases e with
  | userLoggedIn => exact (congrArg _ (recordLogin_add ..)).trans (record_add ..)
  | loginFailed => exact recordLogin_add ..
  | tokenRefreshed => rfl
  | _ => exact record_add ..

theorem deliver_add (users : List User) (es : List Event) (T S : AuditTables) :
    deliver users es (T.add S) = T.add (deliver users es S) := by
  induction es generalizing S with
  | nil => rfl
  | cons e es ih => exact (congrArg (deliver users es) (handle_add users e T S)).trans (ih _)

theorem foldl_audit (tr : List (Done Request World Exn Response)) (T : AuditTables) :
    tr.foldl (fun T d => deliver d.after.users (d.after.emittedSince d.before) T) T =
      T.add ⟨tr.flatMap fun d => (audit d).auditLogs, tr.flatMap fun d => (audit d).loginHistory⟩ := by
  induction tr generalizing T with
  | nil => simp [AuditTables.add]
  | cons d tr ih =>
    have hd : deliver d.after.users (d.after.emittedSince d.before) T = T.add (audit d) := by
      rw [audit, ← deliver_add]
      simp [AuditTables.add]
    rw [List.foldl_cons, hd, ih, AuditTables.add_assoc]
    rfl

theorem auditTrail_tables (tr : List (Done Request World Exn Response)) :
    (auditTrail tr).auditLogs = tr.flatMap (fun d => (audit d).auditLogs) ∧
      (auditTrail tr).loginHistory = tr.flatMap fun d => (audit d).loginHistory := by
  rw [auditTrail, foldl_audit]
  exact ⟨rfl, rfl⟩

/-! ## The users of the rows -/

/-- The user that the rows of an event refer to. -/
def Event.rowUser : Event → Option String
  | .userRegistered u .. | .userLoggedIn u .. | .userLoggedOut u .. | .tokenReuseDetected u ..
  | .emailVerified u .. | .passwordChanged u .. | .sessionRevoked u .. | .allSessionsRevoked u .. => some u
  | .loginFailed _ _ _ u => u
  | .tokenRefreshed .. => none

theorem references_some {us : List User} {u : String} :
    references us (some u) = true ↔ ∃ v ∈ us, v.id = u := by
  simp [references]

theorem references_of_evolves {us us' : List User} {u : String}
    (h : Evolves User.SameIdentity us us') (hu : ∃ v ∈ us, v.id = u) :
    references us' (some u) = true := by
  obtain ⟨v, hv, rfl⟩ := hu
  obtain ⟨v', hv', hid, -⟩ := h.mem hv
  exact references_some.mpr ⟨v', hv', hid⟩

/-- The user of a session is there. -/
theorem Coherent.owner (h : Coherent env w) {id u : String}
    (ho : (id, u) ∈ w.sessions.map Session.owner) : ∃ v ∈ w.users, v.id = u := by
  obtain ⟨s, hs, e⟩ := List.mem_map.mp ho
  obtain ⟨v, hv, hid⟩ := h.sessionUser s hs
  exact ⟨v, hv, hid.trans (Prod.mk.inj e).2⟩

/-- A request with an access token that succeeds is of a user that is there. -/
theorem bearer_user {β : Type} {p : JwtPayload → App β} {g : β → Response} {bearer : JwtPayload}
    (hc : Coherent env w)
    (h : ((JwtAuthGuard.canActivate bearer >>= p) >>= fun b => .ret (g b)).Exec (system env).lapse w x w')
    (hx : ∃ a, x = .ok a) : ∃ v ∈ w.users, v.id = bearer.sub := by
  obtain ⟨y, hy, rfl⟩ := exec_map.mp h
  have hm : Leaves env (JwtAuthGuard.canActivate bearer >>= p) w fun y _ =>
      (∃ b, y = .ok b) → bearer ∈ w.signed :=
    (leaves_canActivate bearer).bind (fun b w₁ ⟨_, h⟩ y w' _ _ => (h b rfl).2)
      fun e _ _ ⟨b, hb⟩ => by cases hb
  obtain ⟨a, ha⟩ := hx
  refine hc.owner (hc.signedFor bearer (hm y w' hy ?_))
  cases y with
  | ok b => exact ⟨b, rfl⟩
  | error e => cases ha

theorem exists_id_of_find? {us : List User} {p : User → Bool} {u : User} (h : us.find? p = some u) :
    ∃ v ∈ us, v.id = u.id :=
  ⟨u, List.mem_of_find?_eq_some h, rfl⟩

/-- The rows of a step refer to users that are there. -/
theorem rowUsers_referenced (hs : Sound env w) (h : Completes env r w x w') (hx : Answered x)
    (hr : r.unaudited w = false) : ∀ e ∈ r.events env w x, references w'.users e.rowUser = true := by
  have hg := (completes_grows h).1.users
  have later {u : String} (hu : ∃ v ∈ w.users, v.id = u) : references w'.users (some u) = true :=
    references_of_evolves hg hu
  intro e he
  cases x with
  | error err =>
    cases r with
    | login dto c =>
      obtain rfl := List.mem_singleton.mp he
      show references w'.users ((loginRow env w dto).map (·.id)) = true
      cases hu : loginRow env w dto with
      | none => rfl
      | some u => exact later (exists_id_of_find? hu)
    | refresh cookie c =>
      obtain ⟨t, ht, rfl⟩ := List.mem_map.mp he
      obtain ⟨token, -, ht⟩ := Option.bind_eq_some_iff.mp
        (Option.eq_some_of_filter_eq_some (Option.mem_toList.mp ht))
      exact later (hs.coherent.owner
        (hs.coherent.places.session _ (List.mem_map_of_mem (List.mem_of_find?_eq_some ht))))
    | _ => exact absurd he List.not_mem_nil
  | ok a =>
    cases r with
    | register dto c =>
      obtain ⟨b, ha, w₁, s, t, -, hu, -, hi⟩ | ⟨⟨e, he⟩, -⟩ := completes_register hs.ready h hx
      · cases ha
        obtain rfl := List.mem_singleton.mp he
        exact references_of_evolves (evolves_of_credentials hi.users) ⟨b.1, hu, rfl⟩
      · cases he
    | login dto c =>
      obtain ⟨y, hl, ha⟩ := completes_login hs.ready h
      cases hl with
      | right hu =>
        cases ha
        obtain rfl := List.mem_singleton.mp he
        exact later (exists_id_of_find? hu)
      | unknown | locked | wrong | broken => cases ha
    | refresh cookie c =>
      obtain ⟨-, ⟨e, he⟩, -⟩ | ⟨token, -, y, hl, ha⟩ := completes_refresh hs.ready h
      · cases he
      · cases hl with
        | rotated =>
          cases ha
          obtain rfl := List.mem_singleton.mp he
          rfl
        | refused | broken | reused => cases ha
    | logout bearer cookie c =>
      obtain rfl := List.mem_singleton.mp he
      exact later (bearer_user hs.coherent h ⟨a, rfl⟩)
    | verifyEmail token c =>
      obtain ⟨⟨l, u⟩, hlu, rfl⟩ := List.mem_map.mp he
      obtain ⟨l', -, hu⟩ := Option.bind_eq_some_iff.mp (Option.mem_toList.mp hlu)
      obtain ⟨u', hu, e⟩ := Option.map_eq_some_iff.mp hu
      cases e
      exact later (exists_id_of_find? hu)
    | resetPassword token new c =>
      obtain ⟨l, hl, he⟩ := List.mem_flatMap.mp he
      obtain ⟨-, l', hl', w₁, hw₁, -⟩ | ⟨⟨e, he⟩, -⟩ := completes_resetPassword h hx
      · obtain rfl : l' = l := Option.some.inj (hl'.symm.trans (Option.mem_toList.mp hl))
        obtain ⟨u, hu⟩ := Option.isSome_iff_exists.mp hw₁.found
        have hu : ∃ v ∈ w.users, v.id = l'.userId :=
          ⟨u, List.mem_of_find?_eq_some hu, by simpa using List.find?_some hu⟩
        rcases List.mem_pair.mp he with rfl | rfl <;> exact later hu
      · cases he
    | changePassword bearer current new c =>
      have hu := bearer_user hs.coherent h ⟨a, rfl⟩
      rcases List.mem_pair.mp he with rfl | rfl <;> exact later hu
    | deleteSession bearer id c =>
      obtain rfl := List.mem_singleton.mp he
      exact later (bearer_user hs.coherent h ⟨a, rfl⟩)
    | deleteOtherSessions bearer c =>
      obtain rfl := List.mem_singleton.mp he
      exact later (bearer_user hs.coherent h ⟨a, rfl⟩)
    | revokeSession u id c =>
      obtain rfl := List.mem_singleton.mp he
      obtain ⟨b, -, ⟨s, hsess, hu, -⟩, -⟩ | ⟨⟨e, he⟩, -⟩ :=
        completes_ends (leaves_sessionsRevokeSession u id c) h hx
      · obtain ⟨v, hv, e⟩ := hs.coherent.sessionUser s (List.mem_of_find?_eq_some hsess)
        exact later ⟨v, hv, e.trans hu⟩
      · cases he
    | revokeAllOtherSessions u id c =>
      obtain rfl := List.mem_singleton.mp he
      exact later (references_some.mp (by simpa [Request.unaudited] using hr))
    | revokeAllSessions u c =>
      obtain rfl := List.mem_singleton.mp he
      exact later (references_some.mp (by simpa [Request.unaudited] using hr))
    | _ => exact absurd he List.not_mem_nil

/-! ## The rows of a step -/

/-- The rows of `audit_logs`, and the operations that they should record. -/
def auditJournal (env : Env) : Journal (Done Request World Exn Response) AuditLog Operation :=
  ⟨fun d => (audit d).auditLogs, operations env, AuditLog.Records⟩

/-- The rows of `login_history`, and the attempts that they should report. -/
def loginJournal (env : Env) :
    Journal (Done Request World Exn Response) LoginHistory (Done Request World Exn Response) :=
  ⟨fun d => (audit d).loginHistory, fun d => if d.req.isLogin then [d] else [], LoginHistory.Reports env⟩

theorem audit_completes (hs : Sound env w) (h : Completes env r w x w') (hx : Answered x) :
    audit ⟨r, w, x, w'⟩ = deliver w'.users (r.events env w x) {} :=
  congrArg (deliver w'.users · {}) (emittedSince_completes hs.ready h hx)

section

variable {users : List User} {e : Event} {es : List Event} {ops : List Operation}

theorem auditLogs_record {row : AuditLog} {T : AuditTables}
    (hu : references users row.userId = true) :
    (AuditLogRepository.record users row T).auditLogs = T.auditLogs ++ [row] := by
  rw [AuditLogRepository.record, if_pos hu]

theorem auditLogs_recordLogin {row : LoginHistory} {T : AuditTables} :
    (LoginHistoryRepository.record users row T).auditLogs = T.auditLogs := by
  unfold LoginHistoryRepository.record
  split <;> rfl

theorem auditLogs_record_login {row : AuditLog} {entry : LoginHistory}
    (hu : references users row.userId = true) :
    (AuditLogRepository.record users row (LoginHistoryRepository.record users entry {})).auditLogs =
      [row] := by
  rw [auditLogs_record hu, auditLogs_recordLogin]
  rfl

theorem loginHistory_recordLogin {row : LoginHistory} {T : AuditTables}
    (hu : references users row.userId = true) :
    (LoginHistoryRepository.record users row T).loginHistory = T.loginHistory ++ [row] := by
  rw [LoginHistoryRepository.record, if_pos hu]

theorem loginHistory_record {row : AuditLog} {T : AuditTables} :
    (AuditLogRepository.record users row T).loginHistory = T.loginHistory := by
  unfold AuditLogRepository.record
  split <;> rfl

theorem deliver_cons : deliver users (e :: es) {} =
    (AuditListener.handle users e {}).add (deliver users es {}) := by
  rw [← deliver_add]
  simp [deliver, AuditTables.add]

/-- An event whose row records an operation. -/
theorem records_cons {row : AuditLog} {op : Operation}
    (he : (AuditListener.handle users e {}).auditLogs = [row]) (hrow : row.Records op)
    (h : List.Forall₂ AuditLog.Records (deliver users es {}).auditLogs ops) :
    List.Forall₂ AuditLog.Records (deliver users (e :: es) {}).auditLogs (op :: ops) := by
  rw [deliver_cons, AuditTables.add, he]
  exact .cons hrow h

/-- If their users are there, the rows of a request record its operations. -/
theorem records_events (href : ∀ e ∈ r.events env w x, references users e.rowUser = true)
    (hr : r.isAdministration = false) :
    List.Forall₂ AuditLog.Records (deliver users (r.events env w x) {}).auditLogs
      (operations env ⟨r, w, x, w'⟩) := by
  cases x with
  | error err =>
    cases r with
    | login dto c =>
      show List.Forall₂ _ (LoginHistoryRepository.record users _ {}).auditLogs []
      rw [auditLogs_recordLogin]
      exact .nil
    | refresh cookie c =>
      simp only [Request.events, Request.alarms, operations, Request.detects] at href ⊢
      cases ht : (cookieRow env w cookie).filter (·.revokedAt.isSome) with
      | none => exact .nil
      | some t =>
        rw [ht] at href
        exact records_cons (auditLogs_record (href _ (.head _))) ⟨rfl, rfl, rfl, rfl⟩ .nil
    | _ => exact .nil
  | ok a =>
    cases r with
    | register dto c =>
      cases a with
      | session u tokens => exact records_cons (auditLogs_record (href _ (.head _))) ⟨rfl, rfl, rfl, rfl⟩ .nil
      | _ => exact .nil
    | login dto c =>
      cases a with
      | session u tokens =>
        have hu := href _ (.head _)
        exact records_cons (auditLogs_record_login (by exact hu)) ⟨rfl, rfl, rfl, rfl⟩ .nil
      | _ => exact .nil
    | refresh cookie c =>
      cases a with
      | session u tokens => exact .nil
      | _ => exact .nil
    | verifyEmail token c =>
      simp only [Request.events, Request.announces, operations, Request.performs] at href ⊢
      cases hl : emailRow env w token with
      | none => exact .nil
      | some l =>
        rw [hl] at href
        exact records_cons (auditLogs_record (href _ (.head _))) ⟨⟨rfl, rfl, rfl, rfl⟩, l.1.type, rfl⟩ .nil
    | resetPassword token new c =>
      simp only [Request.events, Request.announces, operations, Request.performs] at href ⊢
      cases hl : resetRow env w token with
      | none => exact .nil
      | some l =>
        rw [hl] at href
        exact records_cons (auditLogs_record (href _ (.head _))) ⟨⟨rfl, rfl, rfl, rfl⟩, rfl⟩
          (records_cons (auditLogs_record (href _ (.tail _ (.head _)))) ⟨⟨rfl, rfl, rfl, rfl⟩, rfl⟩ .nil)
    | changePassword bearer current new c =>
      exact records_cons (auditLogs_record (href _ (.head _))) ⟨⟨rfl, rfl, rfl, rfl⟩, rfl⟩
        (records_cons (auditLogs_record (href _ (.tail _ (.head _)))) ⟨⟨rfl, rfl, rfl, rfl⟩, rfl⟩ .nil)
    | logout | deleteSession | revokeSession =>
      exact records_cons (auditLogs_record (href _ (.head _))) ⟨rfl, rfl, rfl, rfl⟩ .nil
    | deleteOtherSessions | revokeAllOtherSessions | revokeAllSessions =>
      exact records_cons (auditLogs_record (href _ (.head _))) ⟨⟨rfl, rfl, rfl, rfl⟩, rfl⟩ .nil
    | createRole | updateRole | removeRole | assignPermission | revokePermission | assignToUser
    | revokeFromUser | createPermission | removePermission => cases hr
    | _ => exact .nil

/-- The events of an attempt to log in. -/
def Event.isAttempt : Event → Bool
  | .userLoggedIn .. | .loginFailed .. => true
  | _ => false

theorem loginHistory_handle (he : e.isAttempt = false) (T : AuditTables) :
    (AuditListener.handle users e T).loginHistory = T.loginHistory := by
  cases e with
  | userLoggedIn | loginFailed => cases he
  | tokenRefreshed => rfl
  | _ => exact loginHistory_record

theorem loginHistory_deliver (hes : ∀ e ∈ es, e.isAttempt = false) (T : AuditTables) :
    (deliver users es T).loginHistory = T.loginHistory := by
  induction es generalizing T with
  | nil => rfl
  | cons e es ih =>
    exact (ih (fun e' he' => hes e' (.tail _ he')) _).trans (loginHistory_handle (hes e (.head _)) T)

theorem isAttempt_events (hl : r.isLogin = false) : ∀ e ∈ r.events env w x, e.isAttempt = false := by
  intro e he
  cases x with
  | error err =>
    cases r with
    | login => cases hl
    | refresh cookie c =>
      obtain ⟨t, -, rfl⟩ := List.mem_map.mp he
      rfl
    | _ => exact absurd he List.not_mem_nil
  | ok a =>
    cases r with
    | login => cases hl
    | register | refresh =>
      cases a with
      | session u tokens =>
        obtain rfl := List.mem_singleton.mp he
        rfl
      | _ => exact absurd he List.not_mem_nil
    | verifyEmail token c =>
      obtain ⟨l, -, rfl⟩ := List.mem_map.mp he
      rfl
    | resetPassword token new c =>
      obtain ⟨l, -, he⟩ := List.mem_flatMap.mp he
      rcases List.mem_pair.mp he with rfl | rfl <;> rfl
    | changePassword => rcases List.mem_pair.mp he with rfl | rfl <;> rfl
    | logout | deleteSession | revokeSession | deleteOtherSessions | revokeAllOtherSessions
    | revokeAllSessions =>
      obtain rfl := List.mem_singleton.mp he
      rfl
    | _ => exact absurd he List.not_mem_nil

end

/-! ## What a step leaves -/

/-- A refused login is reported with its reason. -/
theorem reports_refused {dto : LoginDto} {c : RequestContext} {e : Exn}
    (status : LoginStatus) (href : references w'.users ((loginRow env w dto).map (·.id)) = true)
    (hstatus : refusalStatus (loginRow env w dto) e = status) (hne : status ≠ .SUCCESS)
    (hfor : RefusedFor env dto ⟨.login dto c, w, .error e, w'⟩ status) :
    List.Forall₂ (LoginHistory.Reports env)
      (deliver w'.users (Request.events env w (.login dto c) (.error e)) {}).loginHistory
      [⟨.login dto c, w, .error e, w'⟩] := by
  subst hstatus
  show List.Forall₂ _ (LoginHistoryRepository.record w'.users _ {}).loginHistory _
  rw [loginHistory_recordLogin href]
  exact .cons ⟨dto, c, rfl, rfl, rfl, rfl, rfl, .inr ⟨hne, ⟨e, rfl⟩, hfor⟩⟩ .nil

theorem reports_login (hs : Sound env w) {dto : LoginDto} {c : RequestContext}
    (h : Completes env (.login dto c) w x w') (hx : Answered x) :
    (loginJournal env).Faithful ⟨.login dto c, w, x, w'⟩ := by
  have href := rowUsers_referenced hs h hx rfl
  show List.Forall₂ (LoginHistory.Reports env) (audit ⟨.login dto c, w, x, w'⟩).loginHistory
    [⟨.login dto c, w, x, w'⟩]
  rw [audit_completes hs h hx]
  obtain ⟨y, hl, rfl⟩ := completes_login hs.ready h
  cases hl with
  | @right u _ tokens _ _ _ hu =>
    have hfound := List.find?_some hu
    have hemail : u.email = env.toLowerCase dto.email := by simp_all
    have hu' : references w'.users (some u.id) = true := href _ (.head _)
    show List.Forall₂ _ (AuditLogRepository.record w'.users _
      (LoginHistoryRepository.record w'.users _ {})).loginHistory _
    rw [loginHistory_record, loginHistory_recordLogin hu']
    exact .cons ⟨dto, c, rfl, hemail, by rw [hu]; rfl, rfl, rfl, .inl ⟨rfl, u, tokens, rfl⟩⟩ .nil
  | unknown hu =>
    exact reports_refused .FAILED_NOT_FOUND (href _ (.head _)) (by simp [refusalStatus, hu]) (by decide) hu
  | @locked u now hu hnow hlock =>
    refine reports_refused .FAILED_LOCKED (href _ (.head _)) (by simp [refusalStatus, hu]) (by decide) ?_
    exact ⟨u, now, hu, hnow.1, hnow.2, hlock⟩
  | @wrong u _ _ hu _ _ hp =>
    refine reports_refused .FAILED_PASSWORD (href _ (.head _)) ?_ (by decide) ⟨u, hu, hp⟩
    simp [refusalStatus, hu, AuthService.accountLocked]
  | broken => exact absurd rfl (hx _)

theorem login_step (hs : Sound env w) (h : Completes env r w x w') (hx : Answered x) :
    (loginJournal env).Faithful ⟨r, w, x, w'⟩ := by
  by_cases hl : r.isLogin = true
  · cases r with
    | login dto c => exact reports_login hs h hx
    | _ => cases hl
  · have hl := Bool.eq_false_iff.mpr hl
    show List.Forall₂ _ (audit ⟨r, w, x, w'⟩).loginHistory (if r.isLogin then _ else [])
    rw [audit_completes hs h hx, loginHistory_deliver (isAttempt_events hl), hl]
    exact .nil

theorem events_administration (hr : r.isAdministration = true) (env : Env) (w : World)
    (x : Except Exn Response) : r.events env w x = [] := by
  cases r with
  | createRole | updateRole | removeRole | assignPermission | revokePermission | assignToUser
  | revokeFromUser | createPermission | removePermission => cases x <;> rfl
  | _ => cases hr

theorem operations_administration (hr : r.isAdministration = true) (env : Env) (w w' : World)
    (x : Except Exn Response) :
    operations env ⟨r, w, x, w'⟩ = match x with | .ok _ => [.administration r] | .error _ => [] := by
  cases r with
  | createRole | updateRole | removeRole | assignPermission | revokePermission | assignToUser
  | revokeFromUser | createPermission | removePermission => cases x <;> rfl
  | _ => cases hr

theorem unaudited_administration (hr : r.isAdministration = true) (w : World) :
    r.unaudited w = r.admitted w := by
  cases r with
  | createRole | updateRole | removeRole | assignPermission | revokePermission | assignToUser
  | revokeFromUser | createPermission | removePermission => rfl
  | _ => cases hr

theorem Does.userIds {L : Deed → Prop} (h : Does env L w w') (hL : ¬L .account) :
    w'.users.map User.id = w.users.map User.id := by
  cases h with
  | aside h => exact h.column (·.1)
  | create h | register h => exact absurd h hL
  | markVerified | updateEmail => exact map_updateWhere fun _ _ => rfl
  | _ => rfl

theorem references_userIds {us us' : List User} (h : us'.map User.id = us.map User.id)
    (u : String) : references us' (some u) = references us (some u) := by
  have hany (us : List User) : references us (some u) = (us.map User.id).any (· == u) := by
    simp [references, List.any_map, Function.comp_def]
  rw [hany, hany, h]

theorem revokeAll_succeeds {u : String} {c : RequestContext} {k : Option String}
    (h : (SessionsService.revokeAll env u c k >>= fun n => .ret (.revokedCount n)).Exec
      (system env).lapse w x w') (hx : Answered x) : ∃ n, x = .ok (.revokedCount n) := by
  obtain ⟨y, hy, rfl⟩ := exec_map.mp h
  have hy := leaves_revokeAll u c k y w' hy
  cases y with
  | ok n => exact ⟨n, rfl⟩
  | error e =>
    obtain ⟨m, rfl⟩ := hy
    exact absurd rfl (hx m)

/-- The row of a revocation of the sessions of nobody is refused. -/
theorem omits_nobody (hs : Sound env w) {u : String} {k : Option String} {c : RequestContext} {n : Nat}
    {op : Operation} (h : Completes env r w x w') (hx : Answered x)
    (hnone : references w.users (some u) = false) (hacc : .account ∉ r.deeds)
    (hevents : r.events env w x = [.allSessionsRevoked u n k c])
    (hops : operations env ⟨r, w, x, w'⟩ = [op]) : (auditJournal env).Omits ⟨r, w, x, w'⟩ := by
  have hids : w'.users.map User.id = w.users.map User.id :=
    rows_unchanged (fun w => w.users.map User.id) .account (fun h => h.userIds) (fun _ _ => rfl) hacc
      (Exec.failing (F := fun _ => False) h)
  have hnone : references w'.users (some u) = false := (references_userIds hids u).trans hnone
  show (audit ⟨r, w, x, w'⟩).auditLogs.length < (operations env ⟨r, w, x, w'⟩).length
  rw [audit_completes hs h hx, hevents, hops]
  show (AuditLogRepository.record w'.users _ {}).auditLogs.length < 1
  rw [AuditLogRepository.record, if_neg (by simp [hnone])]
  exact Nat.one_pos

/-- A step that is audited records its operations, and one that is not leaves
one out. -/
theorem audit_step (hs : Sound env w) (h : Completes env r w x w') (hx : Answered x) :
    (r.unaudited w = false → (auditJournal env).Faithful ⟨r, w, x, w'⟩) ∧
      (r.unaudited w = true → (auditJournal env).Omits ⟨r, w, x, w'⟩) := by
  by_cases hr : r.isAdministration = true
  · have hrows : (audit ⟨r, w, x, w'⟩).auditLogs = [] := by
      rw [audit_completes hs h hx, events_administration hr]
      rfl
    have hadm := administration_admitted hr h
    rw [unaudited_administration hr]
    refine ⟨fun hu => ?_, fun hu => ?_⟩
    · show List.Forall₂ _ (audit _).auditLogs (operations env _)
      rw [hrows, operations_administration hr]
      cases x with
      | error e => exact .nil
      | ok a => simp [hadm.mp ⟨a, rfl⟩] at hu
    · show (audit _).auditLogs.length < (operations env _).length
      obtain ⟨a, rfl⟩ := hadm.mpr hu
      rw [hrows, operations_administration hr]
      exact Nat.one_pos
  · have hr := Bool.eq_false_iff.mpr hr
    refine ⟨fun hu => ?_, fun hu => ?_⟩
    · show List.Forall₂ _ (audit _).auditLogs (operations env _)
      rw [audit_completes hs h hx]
      exact records_events (rowUsers_referenced hs h hx hu) hr
    · cases r with
      | revokeAllOtherSessions u id c =>
        obtain ⟨n, rfl⟩ := revokeAll_succeeds h hx
        exact omits_nobody hs h hx (by simpa [Request.unaudited] using hu) (by simp [Request.deeds]) rfl rfl
      | revokeAllSessions u c =>
        obtain ⟨n, rfl⟩ := revokeAll_succeeds h hx
        exact omits_nobody hs h hx (by simpa [Request.unaudited] using hu) (by simp [Request.deeds]) rfl rfl
      | createRole | updateRole | removeRole | assignPermission | revokePermission | assignToUser
      | revokeFromUser | createPermission | removePermission => cases hr
      | _ => cases hu

/-! ## The trail of a run -/

/-- The rows of `audit_logs` record the operations of the run, and those of
`login_history` report its attempts to log in, one by one and in their order. -/
def AuditComplete (env : Env) (tr : List (Done Request World Exn Response)) : Prop :=
  List.Forall₂ AuditLog.Records (auditTrail tr).auditLogs (tr.flatMap (operations env)) ∧
    List.Forall₂ (LoginHistory.Reports env) (auditTrail tr).loginHistory (tr.filter (·.req.isLogin))

theorem flatMap_isLogin (tr : List (Done Request World Exn Response)) :
    tr.flatMap (fun d => if d.req.isLogin then [d] else []) = tr.filter (·.req.isLogin) := by
  induction tr with
  | nil => rfl
  | cons d tr ih =>
    rw [List.flatMap_cons, List.filter_cons, ih]
    split <;> rfl

theorem auditComplete_iff {tr : List (Done Request World Exn Response)} :
    AuditComplete env tr ↔ (auditJournal env).Complete tr ∧ (loginJournal env).Complete tr := by
  rw [AuditComplete, (auditTrail_tables tr).1, (auditTrail_tables tr).2, ← flatMap_isLogin]
  rfl

/-- The audit trail of a run of completed requests is complete if and only if
no step of it is an operation on roles and permissions that succeeds, or a
revocation of the sessions of nobody. -/
theorem auditTrail_complete_iff {t : Time} {tr : List (Done Request World Exn Response)}
    (h : History env { now := t } tr w) :
    AuditComplete env tr ↔ ∀ d ∈ tr, d.req.unaudited d.before = false := by
  have step (d : Done Request World Exn Response) (hd : d ∈ tr) :
      (d.req.unaudited d.before = false → (auditJournal env).Faithful d) ∧
        (d.req.unaudited d.before = true → (auditJournal env).Omits d) ∧
        (loginJournal env).Faithful d := by
    obtain ⟨tr₁, tr₂, h₁, he, hx, -⟩ := System.Trace.mem h hd
    have hs := (Sound.init t).history h₁
    have ha := audit_step hs he hx
    exact ⟨ha.1, ha.2, login_step hs he hx⟩
  have hlogin : (loginJournal env).Complete tr :=
    Journal.complete_of_faithful fun d hd => (step d hd).2.2
  have haudit : (auditJournal env).Complete tr ↔ ∀ d ∈ tr, ¬(auditJournal env).Omits d := by
    refine Journal.complete_iff fun d hd => ?_
    cases hu : d.req.unaudited d.before with
    | false => exact .inl ((step d hd).1 hu)
    | true => exact .inr ((step d hd).2.1 hu)
  rw [auditComplete_iff, and_iff_left hlogin, haudit]
  refine forall₂_congr fun d hd => ⟨fun ho => ?_, fun hu ho => ho.not_faithful ((step d hd).1 hu)⟩
  exact Bool.eq_false_iff.mpr fun hu => ho ((step d hd).2.1 hu)

/-- A registration, a login with a wrong password and one with the right one,
and a revocation of the other sessions. -/
def audited : List (Done Request World Exn Response) × World :=
  (system .sample).serve
    [(0, .register ⟨"a@b.co", "Passw0rd!", none, none⟩ ⟨none, none⟩),
     (0, .login ⟨"a@b.co", "wrong"⟩ ⟨none, none⟩), (0, .login ⟨"a@b.co", "Passw0rd!"⟩ ⟨none, none⟩),
     (0, .deleteOtherSessions firstToken ⟨none, none⟩)] { now := 0 }

theorem audited_complete :
    AuditComplete .sample audited.1 ∧
      (auditTrail audited.1).auditLogs.map (·.action) =
        ["auth.user.registered", "auth.user.logged_in", "sessions.all.revoked"] ∧
      (auditTrail audited.1).loginHistory.map (·.status) = [.FAILED_PASSWORD, .SUCCESS] := by
  have h : History .sample { now := 0 } audited.1 audited.2 := history_serve (by decide +kernel)
  exact ⟨(auditTrail_complete_iff h).mpr (by decide +kernel), by decide +kernel, by decide +kernel⟩

/-- A registration, and a new role. -/
def roleCreated : List (Done Request World Exn Response) × World :=
  (system .sample).serve
    [(0, .register ⟨"a@b.co", "Passw0rd!", none, none⟩ ⟨none, none⟩), (0, .createRole "auditor" none)]
    { now := 0 }

theorem roleCreated_unaudited :
    History .sample { now := 0 } roleCreated.1 roleCreated.2 ∧
      (auditTrail roleCreated.1).auditLogs.length = 1 ∧
      (roleCreated.1.flatMap (operations .sample)).length = 2 ∧ ¬AuditComplete .sample roleCreated.1 := by
  have hrows : (auditTrail roleCreated.1).auditLogs.length = 1 := by decide +kernel
  have hops : (roleCreated.1.flatMap (operations .sample)).length = 2 := by decide +kernel
  refine ⟨history_serve (by decide +kernel), hrows, hops, fun h => ?_⟩
  have hlen := h.1.length_eq
  rw [hrows, hops] at hlen
  cases hlen

end AtlasAuth

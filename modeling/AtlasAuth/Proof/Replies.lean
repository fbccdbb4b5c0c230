import AtlasAuth.Proof.Isolation

/-!
# Who is told what

A reply hands out the tokens of a user only to a route that has registered the
user, has presented the address and the password, or has presented a refresh
token that was live (`Authenticated`). It shows the profile or the sessions of a
user only to the bearer of an access token of that user that was in force
(`replies_own`).
-/

namespace AtlasAuth

open Framework Framework.Table Prog

variable {env : Env} {w₀ : World} {log : List (Entry World Call)} {P : ApiPool}
  {ok : ApiPool → Move Route Time Exn → Prop}

/-- How a route has come to tokens of the user `u`: it has made the user, or has
presented the address and the password, or a refresh token that was live. -/
inductive Authenticated (env : Env) (log : List (Entry World Call)) (u : String) : Route → Prop
  | registered {dto : RegisterDto} {context : RequestContext}
      (h : ∃ x ∈ log, ¬IsUser u x.before ∧ IsUser u x.after) :
      Authenticated env log u (.register dto context)
  | loggedIn {dto : LoginDto} {context : RequestContext}
      (h : Knows (CredentialsOf env (env.toLowerCase dto.email) dto.password u) log) :
      Authenticated env log u (.login dto context)
  | refreshed {cookie : String} {context : RequestContext} (h : Knows (LiveCookieOf env cookie u) log) :
      Authenticated env log u (.refresh (some cookie) context)

/-- A session of the user that can still be used. -/
def IsActive (u id : String) (w : World) : Prop :=
  ∃ s ∈ w.sessions, s.id = id ∧ s.userId = u ∧ s.isRevoked = false ∧ w.now < s.expiresAt

/-- What the reply tells of a user, it tells to that user. -/
def Reply.Own (env : Env) (route : Route) (log : List (Entry World Call)) (reply : Reply) : Prop :=
  match reply.body with
  | .auth .. => ∃ user tokens, Authenticated env log user.id route ∧
      Knows (fun w => user ∈ w.users) log ∧ TokensOf env user.id tokens log ∧
      reply = .auth reply.status user tokens
  | .user dto => ∃ bearer user, route.bearer = some bearer ∧ Checked bearer log ∧
      Returned bearer.sub log user ∧ dto = .ofUser user
  | .sessions dtos => ∃ bearer, route.bearer = some bearer ∧ Checked bearer log ∧
      Knows (fun w => ∀ dto ∈ dtos, IsActive bearer.sub dto.id w) log
  | .revokedCount _ | .role _ | .permission _ | .message _ | .empty => True

theorem upheld_listSessions {E : List (Entry World Call) → String → Part → Prop} (bearer : JwtPayload) :
    Upheld env E (fun log' dtos => Checked bearer log' ∧
        Knows (fun w => ∀ dto ∈ dtos, IsActive bearer.sub dto.id w) log')
      (SessionsController.listSessions bearer) log := by
  refine upheld_canActivate fun log₁ h₁ hb => upheld_query fun w log₂ h₂ hw _ => .ret ?_
  refine ⟨hb.checked.suffix h₂, _, hw, fun dto hdto => ?_⟩
  obtain ⟨s, hs, rfl⟩ := List.mem_map.mp hdto
  obtain ⟨x, hx, rfl⟩ := List.mem_map.mp hs
  obtain ⟨hx, hactive⟩ := List.mem_filter.mp (List.mem_mergeSort.mp hx)
  simp only [Bool.and_eq_true, beq_iff_eq, Bool.not_eq_true', decide_eq_true_eq] at hactive
  exact ⟨x, hx, rfl, hactive.1.1, hactive.1.2, hactive.2⟩

/-- What a route answers once its own calls are made. -/
theorem replies_route (route : Route) :
    (route.program env).Obeys (reliance env).Known (fun _ _ => True)
      (fun log r => ∀ reply, r = .ok reply → reply.Own env route log) [] := by
  have told {β : Type} {E : List (Entry World Call) → String → Part → Prop}
      {M : List (Entry World Call) → β → Prop} {p : App β} {f : β → Reply}
      (h : Upheld env E M p []) (hM : ∀ log b, M log b → (f b).Own env route log) :
      (p >>= fun b => return f b).Obeys (reliance env).Known (fun _ _ => True)
        (fun log r => ∀ reply, r = .ok reply → reply.Own env route log) [] :=
    Prog.Obeys.mono (Upholds.bind h fun b log' _ hb => .ret (hM log' b hb)) (fun _ _ h => h)
      (fun _ _ _ => trivial) fun _ _ h => h
  have untold {p : App Reply} (h : p.Returns fun reply => ∀ log, reply.Own env route log) :
      p.Obeys (reliance env).Known (fun _ _ => True)
        (fun log r => ∀ reply, r = .ok reply → reply.Own env route log) [] :=
    (h.obeys []).mono (fun _ _ h => h) (fun _ _ h => h) fun log r h reply e => h reply e log
  cases route with
  | register dto c =>
    exact told (upheld_register dto c) fun log x h =>
      ⟨_, _, .registered h.entitled, h.user, h.tokens, rfl⟩
  | login dto c =>
    refine told (upheld_login dto c) fun log x h => ⟨_, _, .loggedIn ?_, h.user, h.tokens, rfl⟩
    -- Only who knows the password may sign an access token.
    obtain ⟨hp, -⟩ | ⟨-, hc⟩ := h.entitled
    · cases hp
    · exact hc
  | refresh cookie c =>
    refine told (upheld_controllerRefresh cookie c) fun log x h => ?_
    obtain ⟨token, rfl, ⟨hp, -⟩ | ⟨-, hc⟩⟩ := h.entitled
    · simp at hp
    · exact ⟨_, _, .refreshed hc, h.user, h.tokens, rfl⟩
  | getMe bearer =>
    exact told (E := fun _ _ _ => True) (upheld_getMe bearer) fun log v h => ⟨_, v, rfl, h.1, h.2, rfl⟩
  | updateMe bearer first last avatar =>
    exact told (E := fun _ _ _ => True) (upheld_updateMe (fun _ _ => trivial) first last avatar)
      fun log v h => ⟨_, v, rfl, h.1, h.2, rfl⟩
  | listSessions bearer =>
    exact told (E := fun _ _ _ => True) (upheld_listSessions bearer) fun log dtos h => ⟨_, rfl, h⟩
  | findOne | createRole | updateRole | removeRole | assignPermission | revokePermission
  | assignToUser | revokeFromUser | createPermission | removePermission =>
    exact untold (.seq fun _ => .seq fun _ _ => trivial)
  | _ => exact untold (.seq fun _ _ => trivial)

/-- Whatever runs, in any order of the calls and with any failures: a reply
tells what belongs to a user only to that user. -/
theorem replies_own (ho : Orderly env w₀) (h : (api env).Run ok ⟨w₀, []⟩ P)
    {th : Thread Route World Call Exn Reply} (hth : th ∈ P.threads) {reply : Reply}
    (hr : th.outcome = some (.ok reply)) : reply.Own env th.req th.log := by
  obtain ⟨i, hi⟩ := List.getElem?_of_mem hth
  refine (h.obeys (I := fun P => (api env).Run ok ⟨w₀, []⟩ P) replies_route .refl (.step · · ·)
    fun h' t ht => (relied_api ho h').known t ht).outcome (Nat.zero_le i) hi hr reply rfl

theorem registeredAndListed_told :
    ∃ th ∈ registeredAndListed.threads, ∃ reply, th.outcome = some (.ok reply) ∧ reply.status = 201 ∧
      reply.Own .sample th.req th.log := by
  have h : ApiRun .sample (.init 0) registeredAndListed := .after (by decide)
  have hth : ∃ th ∈ registeredAndListed.threads,
      th.outcome.any fun r => r.toOption.any (·.status == 201) := by decide
  obtain ⟨th, hth, ho⟩ := hth
  obtain ⟨r, hr, ho⟩ := (Option.any_eq_true ..).mp ho
  obtain ⟨reply, hreply, hs⟩ := (Option.any_eq_true ..).mp ho
  cases r with
  | error e => cases hreply
  | ok reply' =>
    cases hreply
    exact ⟨th, hth, reply, hr, beq_iff_eq.mp hs, replies_own (.init 0) h hth hr⟩

end AtlasAuth

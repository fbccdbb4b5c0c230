import AtlasAuth.Framework.Pool

/-!
# The writes of a run

A store that changes by recorded writes only is the replay of these writes.
`System.ledger` is the record of a run: what each of its calls has written, in
the order of the calls and with the numbers of the threads that made them.

A thread has left no trace if the replay of the others' writes gives the same
store (`without`). It has left none if it has written nothing, and also if the
one thing it has written was wiped out by a later write of another thread
(`replay_without_of_wiped`). Which of these holds of a thread that has ended is
read off the calls it has made: `Placed` finds each of them in the ledger.

`Prog.Heeds` says of a program what `Prog.Obeys` says, for runs in which a
call fails with certain exceptions only.
-/

namespace Framework

open Prog (Entry)

variable {ι μ σ Λ ε α β τ ω : Type}

/-! ## Replay -/

/-- The store after the writes, oldest first. -/
def replay (write : ω → τ → τ) (ws : List (Nat × ω)) (s : τ) : τ :=
  ws.foldl (fun s w => write w.2 s) s

/-- The writes of the other threads. -/
def without (i : Nat) (ws : List (Nat × ω)) : List (Nat × ω) := ws.filter (·.1 != i)

section replay

variable {write : ω → τ → τ} {ws ws' : List (Nat × ω)} {s s' : τ} {i : Nat}

@[simp] theorem replay_nil : replay write [] s = s := rfl

@[simp] theorem replay_cons {w : Nat × ω} :
    replay write (w :: ws) s = replay write ws (write w.2 s) := rfl

@[simp] theorem replay_append : replay write (ws ++ ws') s = replay write ws' (replay write ws s) :=
  List.foldl_append

theorem without_of_none (h : ∀ w ∈ ws, w.1 ≠ i) : without i ws = ws :=
  List.filter_eq_self.mpr fun w hw => by simpa using h w hw

/-- Stores that a relation holds together stay together. -/
theorem replay_congr {E : τ → τ → Prop} (hE : ∀ w s s', E s s' → E (write w s) (write w s'))
    (h : E s s') : E (replay write ws s) (replay write ws s') := by
  induction ws generalizing s s' with
  | nil => exact h
  | cons w ws ih => exact ih (hE w.2 s s' h)

/-- What holds after the writes and not before was brought about by one of
them. -/
theorem replay_cause {B : τ → Prop} (h0 : ¬B s) (h1 : B (replay write ws s)) :
    ∃ ws₁ w ws₂, ws = ws₁ ++ w :: ws₂ ∧ ¬B (replay write ws₁ s) ∧
      B (write w.2 (replay write ws₁ s)) := by
  induction ws generalizing s with
  | nil => exact absurd h1 h0
  | cons w ws ih =>
    by_cases hB : B (write w.2 s)
    · exact ⟨[], w, ws, rfl, h0, hB⟩
    · obtain ⟨ws₁, w', ws₂, rfl, h, h'⟩ := ih hB h1
      exact ⟨w :: ws₁, w', ws₂, rfl, h, h'⟩

/-- A write that a later one wipes out, together with whatever has followed
from it, might as well not have been made. -/
theorem replay_without_of_wiped {E : τ → τ → Prop} {x : ω} {w : Nat × ω} {mid post : List (Nat × ω)}
    (hE : ∀ w s s', E s s' → E (write w s) (write w s')) (hx : ∀ s, E (write x s) s)
    (hw : ∀ s s', E s s' → write w.2 s = write w.2 s')
    (hpre : ∀ w ∈ ws, w.1 ≠ i) (hpost : ∀ w' ∈ mid ++ w :: post, w'.1 ≠ i) :
    replay write (without i (ws ++ (i, x) :: (mid ++ w :: post))) s =
      replay write (ws ++ (i, x) :: (mid ++ w :: post)) s := by
  have hout : without i (ws ++ (i, x) :: (mid ++ w :: post)) = ws ++ (mid ++ w :: post) := by
    rw [without, List.filter_append, List.filter_cons_of_neg (by simp)]
    exact congrArg₂ _ (without_of_none hpre) (without_of_none hpost)
  have hwiped : write w.2 (replay write mid (write x (replay write ws s))) =
      write w.2 (replay write mid (replay write ws s)) :=
    hw _ _ (replay_congr hE (hx _))
  simp only [hout, replay_append, replay_cons, hwiped]

end replay

/-! ## The ledger of a run -/

/-- What a call of thread `i` adds to the ledger. -/
def entered (written : Entry σ Λ → Option ω) (i : Nat) (x : Entry σ Λ) : List (Nat × ω) :=
  ((written x).map (i, ·)).toList

theorem fst_of_mem_entered {written : Entry σ Λ → Option ω} {i : Nat} {x : Entry σ Λ} {w : Nat × ω}
    (h : w ∈ entered written i x) : w.1 = i := by
  unfold entered at h
  cases hx : written x with
  | none => simp [hx] at h
  | some y =>
    rw [hx] at h
    obtain rfl : w = (i, y) := by simpa using h
    rfl

namespace System

variable (S : System ι μ σ Λ ε α) (written : Entry σ Λ → Option ω)

/-- What a move writes; a move that is no call writes nothing. -/
def writes (P : Pool ι σ Λ ε α) : Move ι μ ε → List (Nat × ω)
  | .call i =>
    match P.threads[i]? with
    | some ⟨_, _, .call l _ eff _⟩ => entered written i ⟨l, P.state, eff P.state⟩
    | _ => []
  | _ => []

/-- What the moves write, one after the other. -/
def ledger : List (Move ι μ ε) → Pool ι σ Λ ε α → List (Nat × ω)
  | [], _ => []
  | m :: ms, P => writes written P m ++ ledger ms ((S.step P m).getD P)

end System

/-! ## Programs -/

namespace Prog

/-- From the calls `log` made so far (newest first), in states that satisfy
`I`, and with failures that are in `E`: each call satisfies `J`, and the
outcome `Q`. -/
def Heeds (E : ε → Prop) (I : σ → Prop) (J : Entry σ Λ → Prop)
    (Q : List (Entry σ Λ) → Except ε α → Prop) : Prog σ Λ ε α → List (Entry σ Λ) → Prop
  | .ret a, log => Q log (.ok a)
  | .throw e, log => Q log (.error e)
  | .call l next eff fail, log =>
      (∀ s, I s → J ⟨l, s, eff s⟩ ∧ (next s).Heeds E I J Q (⟨l, s, eff s⟩ :: log)) ∧
        ∀ e, E e → (fail e).Heeds E I J Q log

variable {E : ε → Prop} {I : σ → Prop} {J : Entry σ Λ → Prop}
  {Q : List (Entry σ Λ) → Except ε α → Prop} {log : List (Entry σ Λ)}

@[simp] theorem heeds_ret {a : α} : (Prog.ret a).Heeds E I J Q log ↔ Q log (.ok a) := Iff.rfl
@[simp] theorem heeds_throw {e : ε} : (Prog.throw e).Heeds E I J Q log ↔ Q log (.error e) := Iff.rfl

theorem heeds_ofExcept {r : Except ε α} :
    (ofExcept r : Prog σ Λ ε α).Heeds E I J Q log ↔ Q log r := by
  cases r <;> rfl

theorem heeds_atomic {l : Λ} {f : σ → Except ε α × σ} :
    (atomic l f).Heeds E I J Q log ↔
      (∀ s, I s → J ⟨l, s, (f s).2⟩ ∧ Q (⟨l, s, (f s).2⟩ :: log) (f s).1) ∧
        ∀ e, E e → Q log (.error e) := by
  simp only [atomic, Heeds, heeds_ofExcept]

theorem heeds_bind {p : Prog σ Λ ε β} {k : β → Prog σ Λ ε α} :
    (p >>= k).Heeds E I J Q log ↔
      p.Heeds E I J (fun log r => match r with
        | .ok b => (k b).Heeds E I J Q log
        | .error e => Q log (.error e)) log := by
  show (p.bind k).Heeds E I J Q log ↔ _
  induction p generalizing log with
  | ret b => rfl
  | throw e => rfl
  | call l next eff fail ihn ihf =>
    simp only [bind, Heeds]
    simp only [ihn, ihf]

theorem Heeds.mono {I' : σ → Prop} {Q' : List (Entry σ Λ) → Except ε α → Prop}
    {p : Prog σ Λ ε α} (h : p.Heeds E I J Q log) (hI : ∀ s, I' s → I s)
    (hQ : ∀ log r, Q log r → Q' log r) : p.Heeds E I' J Q' log := by
  induction p generalizing log with
  | ret a => exact hQ _ _ h
  | throw e => exact hQ _ _ h
  | call l next eff fail ihn ihf =>
    refine ⟨fun s hs => ?_, fun e he => ihf e (h.2 e he)⟩
    obtain ⟨hj, hn⟩ := h.1 s (hI s hs)
    exact ⟨hj, ihn s hn⟩

/-- A part, and what follows it. -/
theorem Heeds.bind {M : List (Entry σ Λ) → Except ε β → Prop} {p : Prog σ Λ ε β}
    {k : β → Prog σ Λ ε α} (hp : p.Heeds E I J M log)
    (hk : ∀ b log, M log (.ok b) → (k b).Heeds E I J Q log)
    (he : ∀ e log, M log (.error e) → Q log (.error e)) : (p >>= k).Heeds E I J Q log := by
  refine heeds_bind.mpr (hp.mono (fun _ h => h) fun log r h => ?_)
  cases r with
  | ok b => exact hk b log h
  | error e => exact he e log h

/-- A read, and what follows it. -/
theorem Heeds.query_bind {l : Λ} {f : σ → β} {k : β → Prog σ Λ ε α}
    (he : ∀ e, E e → Q log (.error e))
    (h : ∀ s, I s → J ⟨l, s, s⟩ ∧ (k (f s)).Heeds E I J Q (⟨l, s, s⟩ :: log)) :
    (query l f >>= k).Heeds E I J Q log :=
  heeds_bind.mpr (heeds_atomic.mpr ⟨h, he⟩)

end Prog

/-! ## Threads and the ledger -/

/-- The calls that thread `i` has made (newest first) in the ledger `ws` of a
run that began with the store `s`: each was made on the store that the ledger
gave by then. -/
def Placed (written : Entry σ Λ → Option ω) (write : ω → τ → τ) (get : σ → τ) (s : τ) (i : Nat) :
    List (Entry σ Λ) → List (Nat × ω) → Prop
  | [], ws => ∀ w ∈ ws, w.1 ≠ i
  | x :: log, ws => ∃ ws₁ ws₂, ws = ws₁ ++ (entered written i x ++ ws₂) ∧
      (∀ w ∈ ws₂, w.1 ≠ i) ∧ get x.before = replay write ws₁ s ∧
      Placed written write get s i log ws₁

section Placed

variable {written : Entry σ Λ → Option ω} {write : ω → τ → τ} {get : σ → τ} {s : τ} {i : Nat}
  {log : List (Entry σ Λ)} {ws ws' : List (Nat × ω)}

/-- Others write on. -/
theorem Placed.append (h : Placed written write get s i log ws) (h' : ∀ w ∈ ws', w.1 ≠ i) :
    Placed written write get s i log (ws ++ ws') := by
  cases log with
  | nil =>
    intro w hw
    rcases List.mem_append.mp hw with hw | hw
    · exact h w hw
    · exact h' w hw
  | cons x log =>
    obtain ⟨ws₁, ws₂, rfl, hn, hb, hp⟩ := h
    refine ⟨ws₁, ws₂ ++ ws', by simp only [List.append_assoc], fun w hw => ?_, hb, hp⟩
    rcases List.mem_append.mp hw with hw | hw
    · exact hn w hw
    · exact h' w hw

/-- A thread whose calls have written nothing. -/
theorem Placed.none (h : Placed written write get s i log ws) (hlog : ∀ x ∈ log, written x = none) :
    ∀ w ∈ ws, w.1 ≠ i := by
  induction log generalizing ws with
  | nil => exact h
  | cons x log ih =>
    obtain ⟨ws₁, ws₂, rfl, hn, -, hp⟩ := h
    obtain ⟨hx, hlog⟩ := List.forall_mem_cons.mp hlog
    intro w hw
    simp only [entered, hx, Option.map_none, Option.toList_none, List.nil_append] at hw
    rcases List.mem_append.mp hw with hw | hw
    · exact ih hp hlog w hw
    · exact hn w hw

end Placed

/-- The state of a run, after the writes `ws` on the store `s`: the store is
their replay, and every thread keeps its specification and has its calls in
the ledger. -/
structure Ledgered (E : ε → Prop) (I : σ → Prop) (J : Entry σ Λ → Prop)
    (Q : ι → List (Entry σ Λ) → Except ε α → Prop) (written : Entry σ Λ → Option ω)
    (write : ω → τ → τ) (get : σ → τ) (s : τ) (ws : List (Nat × ω)) (P : Pool ι σ Λ ε α) : Prop where
  inv : I P.state
  store : get P.state = replay write ws s
  writers : ∀ w ∈ ws, w.1 < P.threads.length
  heeds : ∀ t ∈ P.threads, t.prog.Heeds E I J (Q t.req) t.log
  placed : ∀ i t, P.threads[i]? = some t → Placed written write get s i t.log ws

section Ledgered

variable {S : System ι μ σ Λ ε α} {E : ε → Prop} {I : σ → Prop} {J : Entry σ Λ → Prop}
  {Q : ι → List (Entry σ Λ) → Except ε α → Prop} {written : Entry σ Λ → Option ω}
  {write : ω → τ → τ} {get : σ → τ} {s : τ} {ws : List (Nat × ω)} {P P' : Pool ι σ Λ ε α}
  {m : Move ι μ ε} {ok : Pool ι σ Λ ε α → Move ι μ ε → Prop}

/-- A call that changes the store by what it has written. -/
def Recorded (written : Entry σ Λ → Option ω) (write : ω → τ → τ) (get : σ → τ)
    (x : Entry σ Λ) : Prop :=
  ∀ i, get x.after = replay write (entered written i x) (get x.before)

theorem Ledgered.step (hprog : ∀ r, (S.program r).Heeds E I J (Q r) [])
    (hJ : ∀ x : Entry σ Λ, I x.before → J x → I x.after ∧ Recorded written write get x)
    (henv : ∀ m s, I s → I (S.env m s) ∧ get (S.env m s) = get s)
    (h : Ledgered E I J Q written write get s ws P) (hE : ∀ i e, m = .fault i e → E e)
    (hs : S.step P m = some P') :
    Ledgered E I J Q written write get s (ws ++ System.writes written P m) P' := by
  rcases System.step_cases hs with ⟨r, rfl, rfl⟩ | ⟨i, r, log, l, next, eff, fail, rfl, hi, rfl⟩ |
    ⟨i, e, r, log, l, next, eff, fail, rfl, hi, rfl⟩ | ⟨x, rfl, rfl⟩
  · refine { h with store := ?_, writers := ?_, heeds := ?_, placed := ?_ } <;>
      simp only [System.writes, List.append_nil]
    · exact h.store
    · exact fun w hw => Nat.lt_of_lt_of_le (h.writers w hw) (by simp)
    · intro t ht
      rcases List.mem_append.mp ht with ht | ht
      · exact h.heeds t ht
      · obtain rfl := List.mem_singleton.mp ht
        exact hprog r
    · intro j t ht
      rcases System.thread_cases hs ht with ⟨r', -, rfl, rfl⟩ | ⟨_, _, _, _, _, _, hm, -⟩ |
        ⟨_, _, _, _, _, _, _, hm, -⟩ | ht
      · exact fun w hw => Nat.ne_of_lt (h.writers w hw)
      · cases hm
      · cases hm
      · exact h.placed j t ht
  · have hlt := (List.getElem?_eq_some_iff.mp hi).1
    obtain ⟨hj, hn⟩ := (h.heeds _ (List.mem_of_getElem? hi)).1 _ h.inv
    obtain ⟨hI, hrec⟩ := hJ _ h.inv hj
    simp only [System.writes, hi]
    refine ⟨hI, ?_, fun w hw => ?_, fun t ht => ?_, fun j t ht => ?_⟩
    · rw [replay_append, ← h.store]
      exact hrec i
    · rw [List.length_set]
      rcases List.mem_append.mp hw with hw | hw
      · exact h.writers w hw
      · exact fst_of_mem_entered hw ▸ hlt
    · rcases List.mem_or_eq_of_mem_set ht with ht | rfl
      · exact h.heeds t ht
      · exact hn
    · by_cases e : i = j
      · subst e
        rw [List.getElem?_set_self hlt] at ht
        obtain rfl := Option.some.inj ht
        refine ⟨ws, [], by rw [List.append_nil], fun _ h => absurd h List.not_mem_nil, h.store, ?_⟩
        exact h.placed i _ hi
      · rw [List.getElem?_set_ne e] at ht
        exact (h.placed j t ht).append fun w hw => by rw [fst_of_mem_entered hw]; exact e
  · have hlt := (List.getElem?_eq_some_iff.mp hi).1
    refine { h with store := ?_, writers := ?_, heeds := ?_, placed := ?_ } <;>
      simp only [System.writes, List.append_nil, List.length_set]
    · exact h.store
    · exact h.writers
    · intro t ht
      rcases List.mem_or_eq_of_mem_set ht with ht | rfl
      · exact h.heeds t ht
      · exact (h.heeds _ (List.mem_of_getElem? hi)).2 e (hE i e rfl)
    · intro j t ht
      by_cases e' : i = j
      · subst e'
        rw [List.getElem?_set_self hlt] at ht
        obtain rfl := Option.some.inj ht
        exact h.placed i ⟨r, log, .call l next eff fail⟩ hi
      · rw [List.getElem?_set_ne e'] at ht
        exact h.placed j t ht
  · obtain ⟨hI, hget⟩ := henv x _ h.inv
    refine { h with inv := hI, store := ?_, writers := ?_, placed := ?_ } <;>
      simp only [System.writes, List.append_nil]
    · rw [hget, h.store]
    · exact h.writers
    · exact h.placed

/-- What the moves of a run leave, with the ledger that they have added. -/
theorem Ledgered.run [∀ P m, Decidable (ok P m)] {ms : List (Move ι μ ε)}
    (hprog : ∀ r, (S.program r).Heeds E I J (Q r) [])
    (hJ : ∀ x : Entry σ Λ, I x.before → J x → I x.after ∧ Recorded written write get x)
    (henv : ∀ m s, I s → I (S.env m s) ∧ get (S.env m s) = get s)
    (hE : ∀ P i e, ok P (.fault i e) → E e) (h : Ledgered E I J Q written write get s ws P)
    (hms : S.check ok ms P = true) :
    Ledgered E I J Q written write get s (ws ++ S.ledger written ms P) (S.after ms P) := by
  induction ms generalizing ws P with
  | nil => simpa [System.ledger, System.after] using h
  | cons m ms ih =>
    simp only [System.check, Bool.and_eq_true, decide_eq_true_eq, Option.any_eq_true] at hms
    obtain ⟨hm, P', hs, hms⟩ := hms
    have h' := h.step hprog hJ henv (fun i e he => hE P i e (he ▸ hm)) hs
    simpa only [System.ledger, System.after, hs, Option.getD_some, List.append_assoc] using ih h' hms

/-- What a thread that has ended promised of its outcome. -/
theorem Ledgered.outcome (h : Ledgered E I J Q written write get s ws P) {i : Nat}
    {t : Thread ι σ Λ ε α} (ht : P.threads[i]? = some t) {r : Except ε α}
    (hr : t.outcome = some r) : Q t.req t.log r := by
  have hp := h.heeds t (List.mem_of_getElem? ht)
  unfold Thread.outcome at hr
  split at hr
  · rename_i a he; rw [he] at hp; cases hr; exact hp
  · rename_i e he; rw [he] at hp; cases hr; exact hp
  · cases hr

end Ledgered

end Framework

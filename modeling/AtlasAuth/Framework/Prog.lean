import Mathlib.Data.List.Basic
import Mathlib.Order.Defs.Unbundled

/-!
# Programs that make atomic calls on a shared state

A program (`Prog`) returns a value, throws, or makes a call: one atomic step
on the shared state, named by a label, after which it goes on as the state it
read says. A call may also fail without an effect; then the program goes on
as `fail` says, which for a single call (`atomic`) is to throw.

`run` executes a program alone, from its first call to its last. What a
program may do between the steps of other programs is said by `Obeys`: under
an assumption on every state it meets, each of its calls satisfies a
guarantee and its outcome a postcondition, both of which may refer to the
calls made so far (`Entry`). The rules of `Obeys` follow the constructors and
`bind`, so that a program's proof follows its text. `Always` is the case of a
guarantee that needs no assumption, `Returns` that of a postcondition of the
value alone, and `Calls` that of a guarantee of the labels alone. `MadeOf` says
which parts a program is put together from, so that what holds of the calls of
every part need not be traced through the program again.
-/

namespace Framework

/-- A program over the state `σ` whose calls are labelled by `Λ`: it returns,
throws, or makes a call. -/
inductive Prog (σ Λ ε α : Type) : Type
  | ret (a : α)
  | throw (e : ε)
  | call (label : Λ) (next : σ → Prog σ Λ ε α) (eff : σ → σ) (fail : ε → Prog σ Λ ε α)

variable {σ Λ ε α β : Type}

namespace Prog

def bind : Prog σ Λ ε α → (α → Prog σ Λ ε β) → Prog σ Λ ε β
  | .ret a, k => k a
  | .throw e, _ => .throw e
  | .call l next eff fail, k => .call l (fun s => (next s).bind k) eff fun e => (fail e).bind k

def handle : Prog σ Λ ε α → (ε → Prog σ Λ ε α) → Prog σ Λ ε α
  | .ret a, _ => .ret a
  | .throw e, h => h e
  | .call l next eff fail, h => .call l (fun s => (next s).handle h) eff fun e => (fail e).handle h

instance : Monad (Prog σ Λ ε) where
  pure := .ret
  bind := bind

instance : MonadExcept ε (Prog σ Λ ε) where
  throw := .throw
  tryCatch := handle

@[simp] theorem pure_def (a : α) : (pure a : Prog σ Λ ε α) = .ret a := rfl
@[simp] theorem throw_def (e : ε) : (MonadExcept.throw e : Prog σ Λ ε α) = .throw e := rfl
@[simp] theorem tryCatch_def (p : Prog σ Λ ε α) (h : ε → Prog σ Λ ε α) :
    tryCatch p h = p.handle h := rfl
@[simp] theorem ret_bind (a : α) (k : α → Prog σ Λ ε β) : (Prog.ret a >>= k) = k a := rfl
@[simp] theorem throw_bind (e : ε) (k : α → Prog σ Λ ε β) : (Prog.throw e >>= k) = .throw e := rfl

theorem bind_bind {γ : Type} (p : Prog σ Λ ε α) (k : α → Prog σ Λ ε β) (g : β → Prog σ Λ ε γ) :
    (p >>= k) >>= g = p >>= fun a => k a >>= g := by
  show (p.bind k).bind g = p.bind fun a => (k a).bind g
  induction p with
  | ret a => rfl
  | throw e => rfl
  | call l next eff fail ihn ihf => simp only [bind, ihn, ihf]

/-- The program that has already come to an outcome. -/
def ofExcept : Except ε α → Prog σ Λ ε α
  | .ok a => .ret a
  | .error e => .throw e

/-- One call: the state decides its outcome and its effect. -/
def atomic (l : Λ) (f : σ → Except ε α × σ) : Prog σ Λ ε α :=
  .call l (fun s => ofExcept (f s).1) (fun s => (f s).2) .throw

/-- A call that only reads. -/
def query (l : Λ) (f : σ → α) : Prog σ Λ ε α := atomic l fun s => (.ok (f s), s)

/-- Running a program alone, without failures. -/
def run : Prog σ Λ ε α → σ → Except ε α × σ
  | .ret a, s => (.ok a, s)
  | .throw e, s => (.error e, s)
  | .call _ next eff _, s => (next s).run (eff s)

@[simp] theorem run_ret (a : α) (s : σ) : (Prog.ret a : Prog σ Λ ε α).run s = (.ok a, s) := rfl
@[simp] theorem run_throw (e : ε) (s : σ) : (Prog.throw e : Prog σ Λ ε α).run s = (.error e, s) := rfl

@[simp] theorem run_ofExcept (r : Except ε α) (s : σ) : (ofExcept r : Prog σ Λ ε α).run s = (r, s) := by
  cases r <;> rfl

@[simp] theorem run_atomic (l : Λ) (f : σ → Except ε α × σ) (s : σ) : (atomic l f).run s = f s := by
  simp [atomic, run]

@[simp] theorem run_query (l : Λ) (f : σ → α) (s : σ) :
    (query l f : Prog σ Λ ε α).run s = (.ok (f s), s) := by
  simp [query]

@[simp] theorem run_bind (p : Prog σ Λ ε α) (k : α → Prog σ Λ ε β) (s : σ) :
    (p >>= k).run s =
      match p.run s with
      | (.ok a, s') => (k a).run s'
      | (.error e, s') => (.error e, s') := by
  show (p.bind k).run s = _
  induction p generalizing s with
  | ret a => rfl
  | throw e => rfl
  | call l next eff fail ih _ => exact ih s (eff s)

theorem run_bind_of_ok {p : Prog σ Λ ε α} {k : α → Prog σ Λ ε β} {s s' : σ} {a : α}
    (h : p.run s = (.ok a, s')) : (p >>= k).run s = (k a).run s' := by
  rw [run_bind, h]

theorem run_bind_of_error {p : Prog σ Λ ε α} {k : α → Prog σ Λ ε β} {s s' : σ} {e : ε}
    (h : p.run s = (.error e, s')) : (p >>= k).run s = (.error e, s') := by
  rw [run_bind, h]

/-- A call that took effect: its label, and the state before and after it. -/
structure Entry (σ Λ : Type) where
  label : Λ
  before : σ
  after : σ

/-- Each call of the log was made as `J` says, given the calls before it. -/
def Logged (J : List (Entry σ Λ) → Entry σ Λ → Prop) : List (Entry σ Λ) → Prop
  | [] => True
  | x :: log => J log x ∧ Logged J log

theorem Logged.suffix {J : List (Entry σ Λ) → Entry σ Λ → Prop} {log log' : List (Entry σ Λ)}
    (h : Logged J log) (hl : log' <:+ log) : Logged J log' := by
  obtain ⟨new, rfl⟩ := hl
  induction new with
  | nil => exact h
  | cons x new ih => exact ih h.2

theorem Logged.mem {J : List (Entry σ Λ) → Entry σ Λ → Prop} {log : List (Entry σ Λ)}
    (h : Logged J log) {x : Entry σ Λ} (hx : x ∈ log) : ∃ log', x :: log' <:+ log ∧ J log' x := by
  induction log with
  | nil => cases hx
  | cons y log ih =>
    rcases List.mem_cons.mp hx with rfl | hx
    · exact ⟨log, List.suffix_refl _, h.1⟩
    · obtain ⟨log', hs, hJ⟩ := ih h.2 hx
      exact ⟨log', hs.trans (List.suffix_cons ..), hJ⟩

/-- From the calls `log` made so far (newest first), in states that satisfy
the assumption `A`: each call satisfies `J`, and the outcome `Q`. -/
def Obeys (A : List (Entry σ Λ) → σ → Prop) (J : List (Entry σ Λ) → Entry σ Λ → Prop)
    (Q : List (Entry σ Λ) → Except ε α → Prop) : Prog σ Λ ε α → List (Entry σ Λ) → Prop
  | .ret a, log => Q log (.ok a)
  | .throw e, log => Q log (.error e)
  | .call l next eff fail, log =>
      (∀ s, A log s → J log ⟨l, s, eff s⟩ ∧ (next s).Obeys A J Q (⟨l, s, eff s⟩ :: log)) ∧
        ∀ e, (fail e).Obeys A J Q log

section Obeys

variable {A : List (Entry σ Λ) → σ → Prop} {J : List (Entry σ Λ) → Entry σ Λ → Prop}
  {Q : List (Entry σ Λ) → Except ε α → Prop} {log : List (Entry σ Λ)}

@[simp] theorem obeys_ret {a : α} : (Prog.ret a).Obeys A J Q log ↔ Q log (.ok a) := Iff.rfl
@[simp] theorem obeys_throw {e : ε} : (Prog.throw e).Obeys A J Q log ↔ Q log (.error e) := Iff.rfl

@[simp] theorem obeys_ofExcept {r : Except ε α} :
    (ofExcept r : Prog σ Λ ε α).Obeys A J Q log ↔ Q log r := by
  cases r <;> rfl

@[simp] theorem obeys_atomic {l : Λ} {f : σ → Except ε α × σ} :
    (atomic l f).Obeys A J Q log ↔
      (∀ s, A log s → J log ⟨l, s, (f s).2⟩ ∧ Q (⟨l, s, (f s).2⟩ :: log) (f s).1) ∧
        ∀ e, Q log (.error e) := by
  simp [atomic, Obeys]

@[simp] theorem obeys_query {l : Λ} {f : σ → α} :
    (query l f).Obeys A J Q log ↔
      (∀ s, A log s → J log ⟨l, s, s⟩ ∧ Q (⟨l, s, s⟩ :: log) (.ok (f s))) ∧
        ∀ e, Q log (.error e) := by
  simp [query]

/-- Sequencing: the first program's postcondition is what the second needs. -/
theorem obeys_bind {p : Prog σ Λ ε β} {k : β → Prog σ Λ ε α} :
    (p >>= k).Obeys A J Q log ↔
      p.Obeys A J (fun log r => match r with
        | .ok b => (k b).Obeys A J Q log
        | .error e => Q log (.error e)) log := by
  show (p.bind k).Obeys A J Q log ↔ _
  induction p generalizing log with
  | ret b => rfl
  | throw e => rfl
  | call l next eff fail ihn ihf =>
    simp only [bind, Obeys]
    simp only [ihn, ihf]

/-- A read, and what follows it. -/
theorem Obeys.query_bind {l : Λ} {f : σ → β} {k : β → Prog σ Λ ε α} (he : ∀ e, Q log (.error e))
    (h : ∀ s, A log s → J log ⟨l, s, s⟩ ∧ (k (f s)).Obeys A J Q (⟨l, s, s⟩ :: log)) :
    (query l f >>= k).Obeys A J Q log :=
  obeys_bind.mpr (obeys_query.mpr ⟨h, he⟩)

/-- A handler takes the place of the error it handles. -/
theorem obeys_handle {p : Prog σ Λ ε α} {h : ε → Prog σ Λ ε α} :
    (p.handle h).Obeys A J Q log ↔
      p.Obeys A J (fun log r => match r with
        | .ok a => Q log (.ok a)
        | .error e => (h e).Obeys A J Q log) log := by
  induction p generalizing log with
  | ret a => rfl
  | throw e => rfl
  | call l next eff fail ihn ihf =>
    simp only [handle, Obeys]
    simp only [ihn, ihf]

/-- Weakening: a stronger assumption, a weaker guarantee, a weaker
postcondition. -/
theorem Obeys.mono {A' : List (Entry σ Λ) → σ → Prop} {J' : List (Entry σ Λ) → Entry σ Λ → Prop}
    {Q' : List (Entry σ Λ) → Except ε α → Prop} {p : Prog σ Λ ε α} (h : p.Obeys A J Q log)
    (hA : ∀ log s, A' log s → A log s) (hJ : ∀ log x, J log x → J' log x)
    (hQ : ∀ log r, Q log r → Q' log r) : p.Obeys A' J' Q' log := by
  induction p generalizing log with
  | ret a => exact hQ _ _ h
  | throw e => exact hQ _ _ h
  | call l next eff fail ihn ihf =>
    refine ⟨fun s hs => ?_, fun e => ihf e (h.2 e)⟩
    obtain ⟨hj, hn⟩ := h.1 s (hA _ _ hs)
    exact ⟨hJ _ _ hj, ihn s hn⟩

/-- A specification that holds of everything. -/
theorem Obeys.of_forall {p : Prog σ Λ ε α} (hJ : ∀ log x, J log x) (hQ : ∀ log r, Q log r) :
    p.Obeys A J Q log := by
  induction p generalizing log with
  | ret a => exact hQ _ _
  | throw e => exact hQ _ _
  | call l next eff fail ihn ihf => exact ⟨fun s _ => ⟨hJ _ _, ihn s⟩, fun e => ihf e⟩

/-- Two specifications of one program hold together. -/
theorem Obeys.and {A' : List (Entry σ Λ) → σ → Prop} {J' : List (Entry σ Λ) → Entry σ Λ → Prop}
    {Q' : List (Entry σ Λ) → Except ε α → Prop} {p : Prog σ Λ ε α} (h : p.Obeys A J Q log)
    (h' : p.Obeys A' J' Q' log) :
    p.Obeys (fun log s => A log s ∧ A' log s) (fun log x => J log x ∧ J' log x)
      (fun log r => Q log r ∧ Q' log r) log := by
  induction p generalizing log with
  | ret a => exact ⟨h, h'⟩
  | throw e => exact ⟨h, h'⟩
  | call l next eff fail ihn ihf =>
    refine ⟨fun s hs => ?_, fun e => ihf e (h.2 e) (h'.2 e)⟩
    obtain ⟨hj, hn⟩ := h.1 s hs.1
    obtain ⟨hj', hn'⟩ := h'.1 s hs.2
    exact ⟨⟨hj, hj'⟩, ihn s hn hn'⟩

end Obeys

/-- Every call of the program relates the states before and after it by `G`,
whatever the state. -/
def Always (G : σ → σ → Prop) : Prog σ Λ ε α → Prop
  | .ret _ => True
  | .throw _ => True
  | .call _ next eff fail => (∀ s, G s (eff s) ∧ (next s).Always G) ∧ ∀ e, (fail e).Always G

section Always

variable {G : σ → σ → Prop}

@[simp] theorem always_ret {a : α} : (Prog.ret a : Prog σ Λ ε α).Always G := trivial
@[simp] theorem always_throw {e : ε} : (Prog.throw e : Prog σ Λ ε α).Always G := trivial

@[simp] theorem always_ofExcept {r : Except ε α} : (ofExcept r : Prog σ Λ ε α).Always G := by
  cases r <;> trivial

@[simp] theorem always_atomic {l : Λ} {f : σ → Except ε α × σ} :
    (atomic l f).Always G ↔ ∀ s, G s (f s).2 := by
  simp [atomic, Always]

@[simp] theorem always_query [Std.Refl G] {l : Λ} {f : σ → α} :
    (query l f : Prog σ Λ ε α).Always G := by
  simp [query, refl]

theorem Always.bind {p : Prog σ Λ ε β} {k : β → Prog σ Λ ε α} (hp : p.Always G)
    (hk : ∀ b, (k b).Always G) : (p >>= k).Always G := by
  show (p.bind k).Always G
  induction p with
  | ret b => exact hk b
  | throw e => trivial
  | call l next eff fail ihn ihf =>
    exact ⟨fun s => ⟨(hp.1 s).1, ihn s (hp.1 s).2⟩, fun e => ihf e (hp.2 e)⟩

theorem Always.handle {p : Prog σ Λ ε α} {h : ε → Prog σ Λ ε α} (hp : p.Always G)
    (hh : ∀ e, (h e).Always G) : (p.handle h).Always G := by
  induction p with
  | ret b => trivial
  | throw e => exact hh e
  | call l next eff fail ihn ihf =>
    exact ⟨fun s => ⟨(hp.1 s).1, ihn s (hp.1 s).2⟩, fun e => ihf e (hp.2 e)⟩

theorem Always.ite {c : Prop} [Decidable c] {p q : Prog σ Λ ε α} (hp : c → p.Always G)
    (hq : ¬c → q.Always G) : (if c then p else q).Always G := by
  split
  · exact hp ‹_›
  · exact hq ‹_›

theorem Always.mono {G' : σ → σ → Prop} {p : Prog σ Λ ε α} (h : p.Always G)
    (hG : ∀ s s', G s s' → G' s s') : p.Always G' := by
  induction p with
  | ret a => trivial
  | throw e => trivial
  | call l next eff fail ihn ihf =>
    exact ⟨fun s => ⟨hG _ _ (h.1 s).1, ihn s (h.1 s).2⟩, fun e => ihf e (h.2 e)⟩

/-- A guarantee of every call, as a specification without an assumption. -/
theorem Always.obeys {p : Prog σ Λ ε α} (h : p.Always G) (log : List (Entry σ Λ)) :
    p.Obeys (fun _ _ => True) (fun _ x => G x.before x.after) (fun _ _ => True) log := by
  induction p generalizing log with
  | ret a => trivial
  | throw e => trivial
  | call l next eff fail ihn ihf =>
    exact ⟨fun s _ => ⟨(h.1 s).1, ihn s (h.1 s).2 _⟩, fun e => ihf e (h.2 e) _⟩

/-- A specification without an assumption is a guarantee of every call. -/
theorem Obeys.always {Q : List (Entry σ Λ) → Except ε α → Prop} {p : Prog σ Λ ε α}
    {log : List (Entry σ Λ)} (h : p.Obeys (fun _ _ => True) (fun _ x => G x.before x.after) Q log) :
    p.Always G := by
  induction p generalizing log with
  | ret a => trivial
  | throw e => trivial
  | call l next eff fail ihn ihf =>
    exact ⟨fun s => ⟨(h.1 s trivial).1, ihn s (h.1 s trivial).2⟩, fun e => ihf e (h.2 e)⟩

/-- What holds after the calls made so far, whatever the program does. -/
theorem Obeys.of_suffix {A : List (Entry σ Λ) → σ → Prop} {J : List (Entry σ Λ) → Entry σ Λ → Prop}
    {Q : List (Entry σ Λ) → Except ε α → Prop} {p : Prog σ Λ ε α} {log : List (Entry σ Λ)}
    (hJ : ∀ log' x, log <:+ log' → J log' x) (hQ : ∀ log' r, log <:+ log' → Q log' r) :
    p.Obeys A J Q log := by
  induction p generalizing log with
  | ret a => exact hQ log _ (List.suffix_refl _)
  | throw e => exact hQ log _ (List.suffix_refl _)
  | call l next eff fail ihn ihf =>
    refine ⟨fun s _ => ⟨hJ _ _ (List.suffix_refl _), ihn s (fun log' x hl => ?_) fun log' r hl => ?_⟩,
      fun e => ihf e hJ hQ⟩
    · exact hJ log' x ((List.suffix_cons ..).trans hl)
    · exact hQ log' r ((List.suffix_cons ..).trans hl)

/-- A program each of whose calls gives the guarantee where the assumption
holds. -/
theorem Always.guarantee {A : List (Entry σ Λ) → σ → Prop} {J : List (Entry σ Λ) → Entry σ Λ → Prop}
    {Q : List (Entry σ Λ) → Except ε α → Prop} {p : Prog σ Λ ε α} {log : List (Entry σ Λ)}
    (h : p.Always G) (hJ : ∀ log' l s s', A log' s → G s s' → J log' ⟨l, s, s'⟩)
    (hQ : ∀ log' r, log <:+ log' → Q log' r) : p.Obeys A J Q log := by
  induction p generalizing log with
  | ret a => exact hQ log _ (List.suffix_refl _)
  | throw e => exact hQ log _ (List.suffix_refl _)
  | call l next eff fail ihn ihf =>
    refine ⟨fun s hs => ⟨hJ _ _ _ _ hs (h.1 s).1, ?_⟩, fun e => ihf e (h.2 e) hQ⟩
    exact ihn s (h.1 s).2 fun log' r hl => hQ log' r ((List.suffix_cons ..).trans hl)

/-- Such a part at the beginning of a program. -/
theorem Always.guarantee_bind {A : List (Entry σ Λ) → σ → Prop}
    {J : List (Entry σ Λ) → Entry σ Λ → Prop} {Q : List (Entry σ Λ) → Except ε α → Prop}
    {p : Prog σ Λ ε β} {k : β → Prog σ Λ ε α} {log : List (Entry σ Λ)} (h : p.Always G)
    (hJ : ∀ log' l s s', A log' s → G s s' → J log' ⟨l, s, s'⟩)
    (hQ : ∀ log' e, log <:+ log' → Q log' (.error e))
    (hk : ∀ b log', log <:+ log' → (k b).Obeys A J Q log') : (p >>= k).Obeys A J Q log := by
  refine Prog.obeys_bind.mpr (h.guarantee hJ fun log' r hl => ?_)
  cases r with
  | ok b => exact hk b log' hl
  | error e => exact hQ log' e hl

end Always

/-- Whatever the states it meets, a value that the program returns satisfies
`Q`. -/
def Returns (Q : α → Prop) : Prog σ Λ ε α → Prop
  | .ret a => Q a
  | .throw _ => True
  | .call _ next _ fail => (∀ s, (next s).Returns Q) ∧ ∀ e, (fail e).Returns Q

section Returns

variable {Q : α → Prop}

@[simp] theorem returns_ret {a : α} : (Prog.ret a : Prog σ Λ ε α).Returns Q ↔ Q a := Iff.rfl
@[simp] theorem returns_throw {e : ε} : (Prog.throw e : Prog σ Λ ε α).Returns Q := trivial

@[simp] theorem returns_ofExcept {r : Except ε α} :
    (ofExcept r : Prog σ Λ ε α).Returns Q ↔ ∀ a, r = .ok a → Q a := by
  cases r <;> simp [ofExcept]

@[simp] theorem returns_atomic {l : Λ} {f : σ → Except ε α × σ} :
    (atomic l f).Returns Q ↔ ∀ s a, (f s).1 = .ok a → Q a := by
  simp [atomic, Returns]

theorem returns_true (p : Prog σ Λ ε α) : p.Returns fun _ => True := by
  induction p with
  | ret a => trivial
  | throw e => trivial
  | call l next eff fail ihn ihf => exact ⟨ihn, ihf⟩

theorem Returns.bind {M : β → Prop} {p : Prog σ Λ ε β} {k : β → Prog σ Λ ε α} (hp : p.Returns M)
    (hk : ∀ b, M b → (k b).Returns Q) : (p >>= k).Returns Q := by
  show (p.bind k).Returns Q
  induction p with
  | ret b => exact hk b hp
  | throw e => trivial
  | call l next eff fail ihn ihf => exact ⟨fun s => ihn s (hp.1 s), fun e => ihf e (hp.2 e)⟩

/-- A part whose value does not matter. -/
theorem Returns.seq {p : Prog σ Λ ε β} {k : β → Prog σ Λ ε α} (hk : ∀ b, (k b).Returns Q) :
    (p >>= k).Returns Q :=
  (returns_true p).bind fun b _ => hk b

theorem Returns.mono {Q' : α → Prop} {p : Prog σ Λ ε α} (h : p.Returns Q) (hQ : ∀ a, Q a → Q' a) :
    p.Returns Q' := by
  induction p with
  | ret a => exact hQ a h
  | throw e => trivial
  | call l next eff fail ihn ihf => exact ⟨fun s => ihn s (h.1 s), fun e => ihf e (h.2 e)⟩

theorem Returns.ite {c : Prop} [Decidable c] {p q : Prog σ Λ ε α} (hp : c → p.Returns Q)
    (hq : ¬c → q.Returns Q) : (if c then p else q).Returns Q := by
  split
  · exact hp ‹_›
  · exact hq ‹_›

theorem Returns.obeys {p : Prog σ Λ ε α} (h : p.Returns Q) {A : List (Entry σ Λ) → σ → Prop}
    (log : List (Entry σ Λ)) :
    p.Obeys A (fun _ _ => True) (fun _ r => ∀ a, r = .ok a → Q a) log := by
  induction p generalizing log with
  | ret a => rintro _ ⟨⟩; exact h
  | throw e => rintro _ ⟨⟩
  | call l next eff fail ihn ihf =>
    exact ⟨fun s _ => ⟨trivial, ihn s (h.1 s) _⟩, fun e => ihf e (h.2 e) _⟩

end Returns

/-- Every call of the program has a label that satisfies `L`. -/
def Calls (L : Λ → Prop) : Prog σ Λ ε α → Prop
  | .ret _ => True
  | .throw _ => True
  | .call l next _ fail => L l ∧ (∀ s, (next s).Calls L) ∧ ∀ e, (fail e).Calls L

section Calls

variable {L : Λ → Prop}

@[simp] theorem calls_ret {a : α} : (Prog.ret a : Prog σ Λ ε α).Calls L := trivial
@[simp] theorem calls_throw {e : ε} : (Prog.throw e : Prog σ Λ ε α).Calls L := trivial

@[simp] theorem calls_ofExcept {r : Except ε α} : (ofExcept r : Prog σ Λ ε α).Calls L := by
  cases r <;> trivial

@[simp] theorem calls_atomic {l : Λ} {f : σ → Except ε α × σ} : (atomic l f).Calls L ↔ L l := by
  simp [atomic, Calls]

@[simp] theorem calls_query {l : Λ} {f : σ → α} :
    (query l f : Prog σ Λ ε α).Calls L ↔ L l := by
  simp [query]

theorem Calls.mono {L' : Λ → Prop} {p : Prog σ Λ ε α} (h : p.Calls L) (hL : ∀ l, L l → L' l) :
    p.Calls L' := by
  induction p with
  | ret a => trivial
  | throw e => trivial
  | call l next eff fail ihn ihf =>
    exact ⟨hL l h.1, fun s => ihn s (h.2.1 s), fun e => ihf e (h.2.2 e)⟩

theorem Calls.bind {p : Prog σ Λ ε β} {k : β → Prog σ Λ ε α} (hp : p.Calls L)
    (hk : ∀ b, (k b).Calls L) : (p >>= k).Calls L := by
  show (p.bind k).Calls L
  induction p with
  | ret b => exact hk b
  | throw e => trivial
  | call l next eff fail ihn ihf =>
    exact ⟨hp.1, fun s => ihn s (hp.2.1 s), fun e => ihf e (hp.2.2 e)⟩

theorem Calls.handle {p : Prog σ Λ ε α} {h : ε → Prog σ Λ ε α} (hp : p.Calls L)
    (hh : ∀ e, (h e).Calls L) : (p.handle h).Calls L := by
  induction p with
  | ret b => trivial
  | throw e => exact hh e
  | call l next eff fail ihn ihf =>
    exact ⟨hp.1, fun s => ihn s (hp.2.1 s), fun e => ihf e (hp.2.2 e)⟩

theorem Calls.ite {c : Prop} [Decidable c] {p q : Prog σ Λ ε α} (hp : p.Calls L) (hq : q.Calls L) :
    (if c then p else q).Calls L := by
  split
  · exact hp
  · exact hq

/-- A log to which calls have been added whose labels satisfy `L`. -/
def Extends (L : Λ → Prop) (log log' : List (Entry σ Λ)) : Prop :=
  ∃ new, log' = new ++ log ∧ ∀ x ∈ new, L x.label

theorem Extends.refl (log : List (Entry σ Λ)) : Extends L log log := ⟨[], rfl, by simp⟩

theorem Extends.cons {log : List (Entry σ Λ)} {x : Entry σ Λ} (h : L x.label) :
    Extends L log (x :: log) :=
  ⟨[x], rfl, by simpa using h⟩

theorem Extends.trans {log log' log'' : List (Entry σ Λ)} (h : Extends L log log')
    (h' : Extends L log' log'') : Extends L log log'' := by
  obtain ⟨new, rfl, hn⟩ := h
  obtain ⟨new', rfl, hn'⟩ := h'
  exact ⟨new' ++ new, (List.append_assoc ..).symm, by simpa [or_imp, forall_and] using ⟨hn', hn⟩⟩

theorem Extends.subset {log log' : List (Entry σ Λ)} (h : Extends L log log') : log ⊆ log' := by
  obtain ⟨new, rfl, -⟩ := h
  exact List.subset_append_right _ _

theorem Extends.length_le {log log' : List (Entry σ Λ)} (h : Extends L log log') :
    log.length ≤ log'.length := by
  obtain ⟨new, rfl, -⟩ := h
  simp

/-- A call of the longer log whose label is not among `L` is one of the
shorter. -/
theorem Extends.mem {log log' : List (Entry σ Λ)} (h : Extends L log log') {x : Entry σ Λ}
    (hx : x ∈ log') (hl : ¬L x.label) : x ∈ log := by
  obtain ⟨new, rfl, hn⟩ := h
  exact (List.mem_append.mp hx).resolve_left fun h => hl (hn x h)

/-- A program whose calls satisfy the guarantee by their labels alone. -/
theorem Calls.obeys {A : List (Entry σ Λ) → σ → Prop} {J : List (Entry σ Λ) → Entry σ Λ → Prop}
    {Q : List (Entry σ Λ) → Except ε α → Prop} {p : Prog σ Λ ε α} {log : List (Entry σ Λ)}
    (hp : p.Calls L) (hJ : ∀ log' x, Extends L log log' → L x.label → J log' x)
    (hQ : ∀ log' r, Extends L log log' → Q log' r) : p.Obeys A J Q log := by
  induction p generalizing log with
  | ret a => exact hQ log _ (.refl _)
  | throw e => exact hQ log _ (.refl _)
  | call l next eff fail ihn ihf =>
    refine ⟨fun s _ => ⟨hJ _ _ (.refl _) hp.1, ?_⟩, fun e => ihf e (hp.2.2 e) hJ hQ⟩
    have hs : Extends L log (⟨l, s, eff s⟩ :: log) := .cons hp.1
    exact ihn s (hp.2.1 s) (fun log' x h => hJ log' x (hs.trans h)) fun log' r h =>
      hQ log' r (hs.trans h)

/-- Such a part at the beginning: what follows it starts from a longer log. -/
theorem Calls.obeys_bind {A : List (Entry σ Λ) → σ → Prop}
    {J : List (Entry σ Λ) → Entry σ Λ → Prop} {Q : List (Entry σ Λ) → Except ε α → Prop}
    {p : Prog σ Λ ε β} {k : β → Prog σ Λ ε α} {log : List (Entry σ Λ)} (hp : p.Calls L)
    (hJ : ∀ log' x, Extends L log log' → L x.label → J log' x)
    (hQ : ∀ log' e, Extends L log log' → Q log' (.error e))
    (hk : ∀ b log', Extends L log log' → (k b).Obeys A J Q log') : (p >>= k).Obeys A J Q log := by
  refine Prog.obeys_bind.mpr (hp.obeys hJ fun log' r h => ?_)
  cases r with
  | ok b => exact hk b log' h
  | error e => exact hQ log' e h

end Calls

/-- The program is put together from programs that satisfy `K`, by sequencing,
reading and handling errors. -/
inductive MadeOf (K : ∀ ⦃γ : Type⦄, Prog σ Λ ε γ → Prop) : ∀ {γ : Type}, Prog σ Λ ε γ → Prop
  | one {γ : Type} {p : Prog σ Λ ε γ} (h : K p) : MadeOf K p
  | ret {γ : Type} (c : γ) : MadeOf K (.ret c)
  | throw {γ : Type} (e : ε) : MadeOf K (.throw e : Prog σ Λ ε γ)
  | query {γ : Type} (l : Λ) (f : σ → γ) : MadeOf K (.query l f)
  | bind {γ δ : Type} {p : Prog σ Λ ε δ} {k : δ → Prog σ Λ ε γ} :
      MadeOf K p → (∀ d, MadeOf K (k d)) → MadeOf K (p >>= k)
  | handle {γ : Type} {p : Prog σ Λ ε γ} {h : ε → Prog σ Λ ε γ} :
      MadeOf K p → (∀ e, MadeOf K (h e)) → MadeOf K (p.handle h)

section MadeOf

variable {K : ∀ ⦃γ : Type⦄, Prog σ Λ ε γ → Prop}

theorem MadeOf.ofExcept {r : Except ε α} : MadeOf K (ofExcept r : Prog σ Λ ε α) := by
  cases r with
  | ok a => exact .ret a
  | error e => exact .throw e

theorem MadeOf.ite {c : Prop} [Decidable c] {p q : Prog σ Λ ε α} (hp : c → MadeOf K p)
    (hq : ¬c → MadeOf K q) : MadeOf K (if c then p else q) := by
  split
  · exact hp ‹_›
  · exact hq ‹_›

/-- What every call of every part guarantees, every call of the whole does. -/
theorem MadeOf.always {G : σ → σ → Prop} [Std.Refl G] {p : Prog σ Λ ε α} (h : MadeOf K p)
    (hK : ∀ ⦃γ : Type⦄ (p : Prog σ Λ ε γ), K p → p.Always G) : p.Always G := by
  induction h with
  | one h => exact hK _ h
  | ret c => trivial
  | throw e => trivial
  | query l f => exact always_query
  | bind _ _ ihp ihk => exact ihp.bind ihk
  | handle _ _ ihp ihh => exact ihp.handle ihh

end MadeOf

end Prog

end Framework

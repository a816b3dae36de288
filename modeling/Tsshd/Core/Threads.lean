import Tsshd.Core.TSys

/-!
# Threads over a shared state

Goroutines as programs whose only steps are atomic accesses to a shared state,
and the rule that proves a property of every interleaving of them.

* **programs** — a `Prog` is a tree of accesses: what an access does to the
  shared state, and how the program goes on with the value it read. `Prog` is a
  monad, so code is written in `do` blocks, one access per line;
* **systems** — a `System` says which programs run from the start, which may be
  started at any time, and the code behind each name; its `machine` interleaves
  the accesses of all threads in every order;
* **contracts** — what a thread relies on the others for, and what it
  guarantees them. `Safe` follows a program through arbitrary interference;
* **assertions** — facts a program carries along, with the rules for programs
  that keep them;
* **outlines** — `Outline.sound`: threads that each keep their contract, with
  contracts that fit together, keep the invariant in every run.
-/

namespace Tsshd

variable {State Env Label Job α β : Type}

/-- A program: a value, or an access and what comes behind it. `Env` is what
the environment chooses for the access: a message, an error, the case of a
`select` that is taken. -/
inductive Prog (State Env Label α : Type)
  | ret (a : α)
  | access (label : Env → Label) (enabled : Env → State → Bool) (update : Env → State → State)
      (next : Env → State → Prog State Env Label α)

namespace Prog

def bind : Prog State Env Label α → (α → Prog State Env Label β) → Prog State Env Label β
  | ret a, f => f a
  | access l en up next, f => access l en up fun e s => (next e s).bind f

instance : Monad (Prog State Env Label) where
  pure := ret
  bind := bind

/-- An access by its effect and the value read, which both see the state in
front of it; its label can tell what was chosen. -/
def choose (label : Env → Label) (enabled : Env → State → Bool) (update : Env → State → State)
    (value : Env → State → α) : Prog State Env Label α :=
  access label enabled update fun e s => ret (value e s)

def atomic (label : Label) (enabled : Env → State → Bool) (update : Env → State → State)
    (value : Env → State → α) : Prog State Env Label α :=
  choose (fun _ => label) enabled update value

def load (label : Label) (value : State → α) : Prog State Env Label α :=
  atomic label (fun _ _ => true) (fun _ s => s) (fun _ s => value s)

def store (label : Label) (update : State → State) : Prog State Env Label Unit :=
  atomic label (fun _ _ => true) (fun _ => update) (fun _ _ => ())

/-- A read and a write in one step. -/
def exchange (label : Label) (update : State → State) (value : State → α) :
    Prog State Env Label α :=
  atomic label (fun _ _ => true) (fun _ => update) (fun _ => value)

/-- What the environment chooses. -/
def input (label : Label) (value : Env → α) : Prog State Env Label α :=
  atomic label (fun _ _ => true) (fun _ s => s) (fun e _ => value e)

/-- A conditional statement. -/
def when (b : Bool) (p : Prog State Env Label Unit) : Prog State Env Label Unit :=
  if b then p else pure ()

def label? (e : Env) : Prog State Env Label α → Option Label
  | ret _ => none
  | access l _ _ _ => some (l e)

end Prog

/-! ## Systems -/

structure System (State Env Label Job : Type) where
  init : State → Prop
  /-- The threads there are from the start. -/
  start : List Job
  /-- The threads that can be started in a state. -/
  spawn : State → Job → Bool
  /-- A thread that ends with `some job` goes on as `job`. -/
  code : Job → Prog State Env Label (Option Job)

structure Pool (State Env Label Job : Type) where
  shared : State
  threads : List (Prog State Env Label (Option Job))

inductive Sched (Env Job : Type)
  | run (thread : Nat) (input : Env)
  | spawn (job : Job)
deriving Repr

namespace System

variable (m : System State Env Label Job)

def next (p : Pool State Env Label Job) : Sched Env Job → Option (Pool State Env Label Job)
  | .run i e =>
    match p.threads[i]? with
    | none => none
    | some (.ret none) => none
    | some (.ret (some job)) => some { p with threads := p.threads.set i (m.code job) }
    | some (.access _ en up k) =>
      if en e p.shared then
        some ⟨up e p.shared, p.threads.set i (k e p.shared)⟩
      else none
  | .spawn job =>
    if m.spawn p.shared job then some { p with threads := p.threads ++ [m.code job] }
    else none

/-- The threads of the start over a shared state. -/
def pool (s : State) : Pool State Env Label Job := ⟨s, m.start.map m.code⟩

def machine : TSys (Pool State Env Label Job) (Sched Env Job) where
  init p := m.init p.shared ∧ p.threads = m.start.map m.code
  next := m.next

/-- The access a thread is about to make. -/
def nextLabel (p : Pool State Env Label Job) (i : Nat) (e : Env) : Option Label :=
  p.threads[i]?.bind (Prog.label? e)

/-- Every access is made in a state that `asm` admits for it. -/
def Meets (asm : Label → State → Prop) (p : Pool State Env Label Job) : Sched Env Job → Prop
  | .run i e => ∀ l, nextLabel p i e = some l → asm l p.shared
  | .spawn _ => True

/-- `Meets`, decided. -/
def meets (asm : Label → State → Bool) (p : Pool State Env Label Job) : Sched Env Job → Bool
  | .run i e => (nextLabel p i e).all fun l => asm l p.shared
  | .spawn _ => true

/-- A schedule whose accesses pass the check leads to a state of an admitted
run. -/
theorem reachableVia_execWhile {m : System State Env Label Job} {asm : Label → State → Prop}
    {asmB : Label → State → Bool} (hasm : ∀ l s, asmB l s = true → asm l s) {s : State}
    (hs : m.init s) {p : Pool State Env Label Job} {acts : List (Sched Env Job)}
    (h : m.machine.execWhile (meets asmB) (m.pool s) acts = some p) :
    m.machine.ReachableVia (Meets asm) p := by
  refine .execWhile (fun q a hq => ?_) (.init ⟨hs, rfl⟩) h
  cases a with
  | run i e =>
    intro l hl
    simp only [meets, hl, Option.all_some] at hq
    exact hasm l _ hq
  | spawn job => trivial

theorem reachable_exec {m : System State Env Label Job} {s : State} (hs : m.init s)
    {p : Pool State Env Label Job} {acts : List (Sched Env Job)}
    (h : m.machine.exec (m.pool s) acts = some p) : m.machine.Reachable p :=
  .exec (.init ⟨hs, rfl⟩) h

/-- Without an assumption every run is admitted. -/
theorem reachableVia_true {m : System State Env Label Job} {p : Pool State Env Label Job}
    (h : m.machine.Reachable p) : m.machine.ReachableVia (Meets fun _ _ => True) p := by
  refine h.mono fun _ a _ => ?_
  cases a with
  | run i e => exact fun _ _ => trivial
  | spawn job => trivial

end System

/-! ## Contracts -/

/-- What a thread relies on the other threads for between two of its accesses,
and what each of its accesses guarantees them. -/
structure Contract (State : Type) where
  rely : State → State → Prop
  guar : State → State → Prop
  rely_refl : ∀ s, rely s s
  rely_trans : ∀ {s t u}, rely s t → rely t u → rely s u
  guar_refl : ∀ s, guar s s

namespace Contract

variable {asm : Label → State → Prop} {C : Contract State} {post : α → State → Prop}
  {s t : State}

/-- From `s` on, whatever the others do within `rely`, every access of the
program keeps `guar`, and the program ends in `post`. Each access may assume
`asm`. -/
def Safe (asm : Label → State → Prop) (C : Contract State) (post : α → State → Prop) :
    Prog State Env Label α → State → Prop
  | .ret a, s => ∀ t, C.rely s t → post a t
  | .access l en up k, s => ∀ t e, C.rely s t → asm (l e) t → en e t = true →
      C.guar t (up e t) ∧ Safe asm C post (k e t) (up e t)

/-- Interference does not make a program unsafe. -/
theorem Safe.stable {p : Prog State Env Label α} (h : C.Safe asm post p s)
    (hst : C.rely s t) : C.Safe asm post p t := by
  cases p with
  | ret a => exact fun u htu => h u (C.rely_trans hst htu)
  | access l en up k => exact fun u e htu => h u e (C.rely_trans hst htu)

theorem Safe.ret {a : α} (h : ∀ t, C.rely s t → post a t) :
    C.Safe asm post (pure a : Prog State Env Label α) s := h

/-- The rule of sequencing. -/
theorem Safe.bind {p : Prog State Env Label β} {f : β → Prog State Env Label α}
    (h : C.Safe asm (fun b t => C.Safe asm post (f b) t) p s) :
    C.Safe asm post (p >>= f) s := by
  induction p generalizing s with
  | ret b => exact h s (C.rely_refl s)
  | access l en up k ih =>
    intro t e hst hasm hen
    obtain ⟨hguar, hrest⟩ := h t e hst hasm hen
    exact ⟨hguar, ih e t hrest⟩

/-- A weaker end is enough. -/
theorem Safe.weaken {post' : α → State → Prop} {p : Prog State Env Label α}
    (h : C.Safe asm post p s) (hpost : ∀ a t, post a t → post' a t) :
    C.Safe asm post' p s := by
  induction p generalizing s with
  | ret a => exact fun t hst => hpost a t (h t hst)
  | access l en up k ih =>
    intro t e hst hasm hen
    obtain ⟨hguar, hrest⟩ := h t e hst hasm hen
    exact ⟨hguar, ih e t hrest⟩

/-! The rules for one access in front of a program. -/

section Access

variable {l : Label} {f : β → Prog State Env Label α}

theorem Safe.choose {label : Env → Label} {en : Env → State → Bool} {up : Env → State → State}
    {value : Env → State → β}
    (h : ∀ t e, C.rely s t → asm (label e) t → en e t = true →
      C.guar t (up e t) ∧ C.Safe asm post (f (value e t)) (up e t)) :
    C.Safe asm post (Prog.choose label en up value >>= f) s := h

theorem Safe.atomic {en : Env → State → Bool} {up : Env → State → State}
    {value : Env → State → β}
    (h : ∀ t e, C.rely s t → asm l t → en e t = true →
      C.guar t (up e t) ∧ C.Safe asm post (f (value e t)) (up e t)) :
    C.Safe asm post (Prog.atomic l en up value >>= f) s := h

theorem Safe.load {value : State → β}
    (h : ∀ t, C.rely s t → asm l t → C.Safe asm post (f (value t)) t) :
    C.Safe asm post ((Prog.load l value : Prog State Env Label β) >>= f) s :=
  fun t _ hst hasm _ => ⟨C.guar_refl t, h t hst hasm⟩

theorem Safe.exchange {up : State → State} {value : State → β}
    (h : ∀ t, C.rely s t → asm l t →
      C.guar t (up t) ∧ C.Safe asm post (f (value t)) (up t)) :
    C.Safe asm post ((Prog.exchange l up value : Prog State Env Label β) >>= f) s :=
  fun t _ hst hasm _ => h t hst hasm

theorem Safe.store {up : State → State} {g : Unit → Prog State Env Label α}
    (h : ∀ t, C.rely s t → asm l t → C.guar t (up t) ∧ C.Safe asm post (g ()) (up t)) :
    C.Safe asm post ((Prog.store l up : Prog State Env Label Unit) >>= g) s :=
  fun t _ hst hasm _ => h t hst hasm

theorem Safe.input {value : Env → β}
    (h : ∀ t e, C.rely s t → asm l t → C.Safe asm post (f (value e)) t) :
    C.Safe asm post ((Prog.input l value : Prog State Env Label β) >>= f) s :=
  fun t e hst hasm _ => ⟨C.guar_refl t, h t e hst hasm⟩

theorem Safe.ite {c : Prop} [Decidable c] {p q : Prog State Env Label α}
    (hp : c → C.Safe asm post p s) (hq : ¬ c → C.Safe asm post q s) :
    C.Safe asm post (if c then p else q) s := by
  split
  · exact hp ‹_›
  · exact hq ‹_›

theorem Safe.when {b : Bool} {p : Prog State Env Label Unit} {post : Unit → State → Prop}
    (hp : b = true → C.Safe asm post p s)
    (hskip : b = false → ∀ t, C.rely s t → post () t) : C.Safe asm post (Prog.when b p) s := by
  cases b with
  | true => exact hp rfl
  | false => exact hskip rfl

end Access

end Contract

/-- What a thread knows of the shared state and no other thread takes away. -/
structure Assertion (C : Contract State) where
  holds : State → Prop
  stable : ∀ {s t}, holds s → C.rely s t → holds t

namespace Assertion

variable {asm : Label → State → Prop} {C : Contract State} {J : Assertion C} {l : Label}

/-- Nothing is known. -/
def unknown (C : Contract State) : Assertion C := ⟨fun _ => True, fun _ _ => trivial⟩

def and (J K : Assertion C) : Assertion C :=
  ⟨fun s => J.holds s ∧ K.holds s, fun h hst => ⟨J.stable h.1 hst, K.stable h.2 hst⟩⟩

/-- A step from `s` to `t` keeps the contract and the assertion. -/
def Admits (J : Assertion C) (s t : State) : Prop := J.holds s → C.guar s t ∧ J.holds t

theorem Admits.refl (s : State) : J.Admits s s := fun hs => ⟨C.guar_refl s, hs⟩

/-- Every step of the program does. -/
def Keeps (J : Assertion C) (asm : Label → State → Prop) (p : Prog State Env Label α) : Prop :=
  ∀ s, J.holds s → C.Safe asm (fun _ t => J.holds t) p s

theorem Keeps.pure (a : α) : J.Keeps asm (Pure.pure a : Prog State Env Label α) :=
  fun _ hs _ hst => J.stable hs hst

theorem Keeps.bind {p : Prog State Env Label β} {f : β → Prog State Env Label α}
    (hp : J.Keeps asm p) (hf : ∀ b, J.Keeps asm (f b)) : J.Keeps asm (p >>= f) :=
  fun s hs => .bind ((hp s hs).weaken fun b t ht => hf b t ht)

theorem Keeps.choose {label : Env → Label} {en : Env → State → Bool}
    {up : Env → State → State} {value : Env → State → α}
    (h : ∀ s e, asm (label e) s → en e s = true → J.Admits s (up e s)) :
    J.Keeps asm (Prog.choose label en up value) := by
  intro s hs t e hst hasm hen
  obtain ⟨hguar, hup⟩ := h t e hasm hen (J.stable hs hst)
  exact ⟨hguar, fun u hu => J.stable hup hu⟩

theorem Keeps.atomic {en : Env → State → Bool} {up : Env → State → State}
    {value : Env → State → α}
    (h : ∀ s e, asm l s → en e s = true → J.Admits s (up e s)) :
    J.Keeps asm (Prog.atomic l en up value) :=
  .choose h

theorem Keeps.exchange {up : State → State} {value : State → α}
    (h : ∀ s, asm l s → J.Admits s (up s)) :
    J.Keeps asm (Prog.exchange l up value : Prog State Env Label α) :=
  .atomic fun s _ hasm _ => h s hasm

theorem Keeps.store {up : State → State} (h : ∀ s, asm l s → J.Admits s (up s)) :
    J.Keeps asm (Prog.store l up : Prog State Env Label Unit) :=
  .atomic fun s _ hasm _ => h s hasm

theorem Keeps.wait {en : Env → State → Bool} {value : Env → State → α} :
    J.Keeps asm (Prog.atomic l en (fun _ s => s) value) :=
  .atomic fun s _ _ _ => .refl s

theorem Keeps.load {value : State → α} :
    J.Keeps asm (Prog.load l value : Prog State Env Label α) := .wait

theorem Keeps.input {value : Env → α} :
    J.Keeps asm (Prog.input l value : Prog State Env Label α) := .wait

theorem Keeps.ite {c : Prop} [Decidable c] {p q : Prog State Env Label α}
    (hp : J.Keeps asm p) (hq : J.Keeps asm q) : J.Keeps asm (if c then p else q) :=
  fun s hs => .ite (fun _ => hp s hs) fun _ => hq s hs

theorem Keeps.when {b : Bool} {p : Prog State Env Label Unit} (hp : J.Keeps asm p) :
    J.Keeps asm (Prog.when b p) :=
  .ite hp (.pure _)

end Assertion

/-! ## Outlines -/

/-- What holds of the threads, once one of them has moved. -/
theorem forall_thread_set {γ : Type} {P : Nat → γ → Prop} {threads : List γ} {i : Nat} {cur : γ}
    (hcur : P i cur) (hothers : ∀ j t, i ≠ j → threads[j]? = some t → P j t) :
    ∀ j t, (threads.set i cur)[j]? = some t → P j t := by
  intro j t ht
  by_cases hij : i = j
  · subst hij
    rw [List.getElem?_set_self', Option.map_eq_map, Option.map_eq_some_iff] at ht
    obtain ⟨_, _, rfl⟩ := ht
    exact hcur
  · exact hothers j t hij (by rwa [List.getElem?_set_ne hij] at ht)

/-- What holds of the threads, once another one has started. -/
theorem forall_thread_append {γ : Type} {P : Nat → γ → Prop} {threads : List γ} {new : γ}
    (hnew : P threads.length new) (hothers : ∀ j t, threads[j]? = some t → P j t) :
    ∀ j t, (threads ++ [new])[j]? = some t → P j t := by
  intro j t ht
  rcases Nat.lt_trichotomy j threads.length with hj | rfl | hj
  · exact hothers j t (by rwa [List.getElem?_append_left hj] at ht)
  · rw [List.getElem?_concat_length] at ht
    exact Option.some.inj ht ▸ hnew
  · rw [List.getElem?_eq_none (by simp; omega)] at ht
    exact absurd ht (by simp)

/-- A proof outline for a system: an invariant of the shared state, a contract
for each thread, and what holds when a thread starts a job. -/
structure Outline (m : System State Env Label Job) (asm : Label → State → Prop) where
  inv : State → Prop
  contract : Nat → Contract State
  pre : Nat → Job → State → Prop
  init : ∀ s, m.init s → inv s
  start : ∀ s i job, m.init s → m.start[i]? = some job → pre i job s
  spawn : ∀ s i job, m.start.length ≤ i → inv s → m.spawn s job = true → pre i job s
  code : ∀ s i job, pre i job s →
    (contract i).Safe (fun l t => inv t ∧ asm l t) (fun o t => ∀ job' ∈ o, pre i job' t)
      (m.code job) s
  keep : ∀ i s t, inv s → (contract i).guar s t → inv t
  compat : ∀ i j s t, i ≠ j → inv s → (contract i).guar s t → (contract j).rely s t

namespace Outline

variable {m : System State Env Label Job} {asm : Label → State → Prop} (o : Outline m asm)

/-- A thread of the pool is inside the outline. -/
def Within (i : Nat) (t : Prog State Env Label (Option Job)) (s : State) : Prop :=
  (o.contract i).Safe (fun l u => o.inv u ∧ asm l u) (fun r u => ∀ job ∈ r, o.pre i job u) t s

structure Holds (p : Pool State Env Label Job) : Prop where
  inv : o.inv p.shared
  size : m.start.length ≤ p.threads.length
  threads : ∀ i t, p.threads[i]? = some t → o.Within i t p.shared

theorem holds_init {p : Pool State Env Label Job} (h : m.machine.init p) : o.Holds p := by
  obtain ⟨hinit, hthreads⟩ := h
  refine ⟨o.init _ hinit, by simp [hthreads], fun i t ht => ?_⟩
  rw [hthreads, List.getElem?_map, Option.map_eq_some_iff] at ht
  obtain ⟨job, hjob, rfl⟩ := ht
  exact o.code _ _ _ (o.start _ _ _ hinit hjob)

/-- What one step does: it keeps the outline, and a thread that moves the
shared state keeps its guarantee. -/
theorem Holds.next {p p' : Pool State Env Label Job} {a : Sched Env Job} (h : o.Holds p)
    (hok : System.Meets asm p a) (hstep : m.next p a = some p') :
    o.Holds p' ∧ (p'.shared = p.shared ∨ ∃ i, (o.contract i).guar p.shared p'.shared) := by
  cases a with
  | spawn job =>
    simp only [System.next] at hstep
    split at hstep
    · cases hstep
      refine ⟨⟨h.inv, ?_, forall_thread_append ?_ h.threads⟩, .inl rfl⟩
      · rw [List.length_append]
        exact Nat.le_add_right_of_le h.size
      · exact o.code _ _ _ (o.spawn _ _ _ h.size h.inv ‹_›)
    · exact absurd hstep (by simp)
  | run i e =>
    simp only [System.next] at hstep
    split at hstep
    · exact absurd hstep (by simp)
    · exact absurd hstep (by simp)
    · rename_i job hcur
      cases hstep
      refine ⟨⟨h.inv, by simpa using h.size, forall_thread_set ?_ fun j t _ => h.threads j t⟩,
        .inl rfl⟩
      exact o.code _ _ _ (h.threads i _ hcur _ ((o.contract i).rely_refl _) job rfl)
    · rename_i l en up k hcur
      split at hstep
      · rename_i hen
        cases hstep
        have hasm : asm (l e) p.shared := hok _ (by simp [System.nextLabel, hcur, Prog.label?])
        obtain ⟨hguar, hrest⟩ :=
          h.threads i _ hcur p.shared e ((o.contract i).rely_refl _) ⟨h.inv, hasm⟩ hen
        refine ⟨⟨o.keep i _ _ h.inv hguar, by simpa using h.size,
          forall_thread_set hrest fun j t hij ht => ?_⟩, .inr ⟨i, hguar⟩⟩
        -- another thread: what this one did is what that one allows for
        exact (h.threads j t ht).stable (o.compat i j _ _ hij h.inv hguar)
      · exact absurd hstep (by simp)

/-- **The outline rule.** Every run whose accesses meet `asm` stays inside the
outline; with `Holds.next`, each of its steps keeps the guarantee of a thread. -/
theorem sound {p : Pool State Env Label Job}
    (h : m.machine.ReachableVia (System.Meets asm) p) : o.Holds p :=
  h.invariant (fun _ h0 => o.holds_init h0) (fun _ _ _ hp hok hn => (hp.next o hok hn).1)

end Outline

end Tsshd

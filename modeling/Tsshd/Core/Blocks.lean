import Tsshd.Core.Threads

/-!
# Threads with uninterrupted blocks

Some functions are looked at as if they ran in one go. Their accesses carry a
label that is `inside` a block: such an access is made right behind the one in
front of it, and no other thread comes in between.

* **blocks** — `settle` runs a program to the end of the block it is in, and
  `System.blocks` is the machine whose steps are whole blocks. Every run of it
  is a run of the system's machine (`blocks_reachable`);
* **triples** — `Triple J p K`: from a state where `J` holds, `p` keeps the
  contract with every block and ends with `K`. `asm` is assumed of each block by
  the states at its two ends;
* **outlines** — `BlockOutline.sound`, the outline rule for the block machine.
-/

namespace Tsshd

variable {State Env Label Job α β : Type}

namespace Prog

/-- Run a program to the end of the block it is in. -/
def settle (inside : Label → Bool) (e : Env) :
    Prog State Env Label α → State → Prog State Env Label α × State
  | ret a, s => (ret a, s)
  | access l en up k, s =>
    if inside (l e) && en e s then settle inside e (k e s) (up e s)
    else (access l en up k, s)

/-- Run a program that never waits, with nothing in between. -/
def alone (e : Env) : Prog State Env Label α → State → α × State
  | ret a, s => (a, s)
  | access _ _ up k, s => alone e (k e s) (up e s)

@[simp] theorem alone_bind (e : Env) (p : Prog State Env Label β)
    (f : β → Prog State Env Label α) (s : State) :
    (p >>= f).alone e s = (f (p.alone e s).1).alone e (p.alone e s).2 := by
  induction p generalizing s with
  | ret b => rfl
  | access l en up k ih => exact ih e s (up e s)

@[simp] theorem alone_pure (e : Env) (a : α) (s : State) :
    (pure a : Prog State Env Label α).alone e s = (a, s) := rfl

@[simp] theorem alone_atomic (e : Env) (l : Label) (en : Env → State → Bool)
    (up : Env → State → State) (value : Env → State → α) (s : State) :
    (atomic l en up value).alone e s = (value e s, up e s) := rfl

@[simp] theorem alone_when (e : Env) (b : Bool) (p : Prog State Env Label Unit) (s : State) :
    (when b p).alone e s = if b then p.alone e s else ((), s) := by
  unfold when
  split <;> rfl

end Prog

/-! ## The block machine -/

namespace System

variable (m : System State Env Label Job) (inside : Label → Bool)

/-- A thread goes on to the end of its block. -/
def finish (i : Nat) (e : Env) (p : Pool State Env Label Job) : Pool State Env Label Job :=
  match p.threads[i]? with
  | none => p
  | some t => ⟨(t.settle inside e p.shared).2, p.threads.set i (t.settle inside e p.shared).1⟩

def nextBlock (p : Pool State Env Label Job) : Sched Env Job → Option (Pool State Env Label Job)
  | .run i e => (m.next p (.run i e)).map (finish inside i e)
  | .spawn job => m.next p (.spawn job)

def blocks : TSys (Pool State Env Label Job) (Sched Env Job) where
  init := m.machine.init
  next := m.nextBlock inside

/-- Every block leads between states that `asm` admits. -/
def BlocksMeet (asm : State → State → Prop) (p : Pool State Env Label Job) (a : Sched Env Job) :
    Prop :=
  ∀ p', m.nextBlock inside p a = some p' → asm p.shared p'.shared

/-- `BlocksMeet`, decided. -/
def blocksMeet (asm : State → State → Bool) (p : Pool State Env Label Job) (a : Sched Env Job) :
    Bool :=
  (m.nextBlock inside p a).all fun p' => asm p.shared p'.shared

variable {m inside}

theorem finish_set {i : Nat} {e : Env} {s : State} {t t₀ : Prog State Env Label (Option Job)}
    {threads : List (Prog State Env Label (Option Job))} (hi : threads[i]? = some t₀) :
    finish inside i e ⟨s, threads.set i t⟩ =
      ⟨(t.settle inside e s).2, threads.set i (t.settle inside e s).1⟩ := by
  have hcur : (threads.set i t)[i]? = some t := by
    rw [List.getElem?_set_self', hi]
    rfl
  simp only [finish, hcur, List.set_set]

/-- A schedule whose blocks pass the check leads to a state of an admitted
run. -/
theorem reachableVia_blocks {asm : State → State → Prop} {asmB : State → State → Bool}
    (hasm : ∀ s t, asmB s t = true → asm s t) {s : State} (hs : m.init s)
    {p : Pool State Env Label Job} {acts : List (Sched Env Job)}
    (h : (m.blocks inside).execWhile (m.blocksMeet inside asmB) (m.pool s) acts = some p) :
    (m.blocks inside).ReachableVia (m.BlocksMeet inside asm) p := by
  refine .execWhile (fun q a hq q' hq' => ?_) (.init ⟨hs, rfl⟩) h
  rw [blocksMeet, hq', Option.all_some] at hq
  exact hasm _ _ hq

/-- The rest of a block is made of steps of the thread. -/
theorem finish_reachable {i : Nat} {e : Env} {t : Prog State Env Label (Option Job)} :
    ∀ {p : Pool State Env Label Job}, p.threads[i]? = some t → m.machine.Reachable p →
      m.machine.Reachable ⟨(t.settle inside e p.shared).2,
        p.threads.set i (t.settle inside e p.shared).1⟩ := by
  have hstay : ∀ {p : Pool State Env Label Job} {t : Prog State Env Label (Option Job)},
      p.threads[i]? = some t → (⟨p.shared, p.threads.set i t⟩ : Pool State Env Label Job) = p := by
    intro p t ht
    obtain ⟨hi, rfl⟩ := List.getElem?_eq_some_iff.mp ht
    rw [List.set_getElem_self]
  induction t with
  | ret a =>
    intro p ht hp
    rw [Prog.settle, hstay ht]
    exact hp
  | access l en up k ih =>
    intro p ht hp
    unfold Prog.settle
    split
    · rename_i hon
      have hen := (Bool.and_eq_true_iff.mp hon).2
      have hstep : m.machine.next p (.run i e) =
          some ⟨up e p.shared, p.threads.set i (k e p.shared)⟩ := by
        simp only [machine, next, ht, hen, if_true]
      have hnext := ih e p.shared (p := ⟨up e p.shared, p.threads.set i (k e p.shared)⟩)
        (by rw [List.getElem?_set_self', ht]; rfl) (.step hp trivial hstep)
      rwa [List.set_set] at hnext
    · rw [hstay ht]
      exact hp

/-- A run in whole blocks is a run. -/
theorem blocks_reachable {p : Pool State Env Label Job} (h : (m.blocks inside).Reachable p) :
    m.machine.Reachable p := by
  induction h with
  | init h0 => exact .init h0
  | @step _ a _ _ _ hn ih =>
    cases a with
    | spawn job =>
      have hstep : m.machine.next _ (.spawn job) = _ := hn
      exact .step ih trivial hstep
    | run i e =>
      obtain ⟨q, hq, rfl⟩ := Option.map_eq_some_iff.mp hn
      have hstep : m.machine.next _ (.run i e) = some q := hq
      have hreach := TSys.ReachableVia.step ih trivial hstep
      unfold finish
      split
      · exact hreach
      · exact finish_reachable ‹_› hreach

end System

/-! ## Triples -/

namespace Contract

variable (inside : Label → Bool) (asm : State → State → Prop) (C : Contract State)

/-- What is owed for a block from `s₀` that ends in `s`: the guarantee, and
what is claimed of `s`. -/
def Owes (J : State → Prop) (s₀ s : State) : Prop := asm s₀ s → C.guar s₀ s ∧ J s

/-- Follow a program that is in `s`, in a block from `s₀`, through arbitrary
interference between its blocks. -/
def Through (post : α → State → State → Prop) :
    Prog State Env Label α → State → State → Prop
  | .ret a, s₀, s => post a s₀ s
  | .access l en up k, s₀, s =>
    (∀ e, (inside (l e) && en e s) = true → Through post (k e s) s₀ (up e s)) ∧
    (∀ e, (inside (l e) && en e s) = false → C.Owes asm
      (fun s => ∀ t e, C.rely s t → en e t = true → Through post (k e t) t (up e t)) s₀ s)

/-- What holds of a thread between two blocks. -/
def Parked (post : α → State → Prop) : Prog State Env Label α → State → Prop
  | .ret a, s => ∀ t, C.rely s t → post a t
  | .access _ en up k, s => ∀ t e, C.rely s t → en e t = true →
      C.Through inside asm (fun a => C.Owes asm fun u => ∀ v, C.rely u v → post a v)
        (k e t) t (up e t)

variable {inside asm C}

theorem Parked.stable {post : α → State → Prop} {p : Prog State Env Label α} {s t : State}
    (h : C.Parked inside asm post p s) (hst : C.rely s t) : C.Parked inside asm post p t := by
  cases p with
  | ret a => exact fun u htu => h u (C.rely_trans hst htu)
  | access l en up k => exact fun u e htu => h u e (C.rely_trans hst htu)

/-- At the end of a block the thread is parked. -/
theorem Through.settle {post : α → State → Prop} (e : Env) {p : Prog State Env Label α}
    {s₀ s : State}
    (h : C.Through inside asm (fun a => C.Owes asm fun u => ∀ v, C.rely u v → post a v) p s₀ s) :
    C.Owes asm (C.Parked inside asm post (p.settle inside e s).1) s₀ (p.settle inside e s).2 := by
  induction p generalizing s with
  | ret a => exact h
  | access l en up k ih =>
    unfold Prog.settle
    split
    · exact ih e s (h.1 e ‹_›)
    · exact h.2 e (Bool.eq_false_iff.mpr ‹_›)

theorem Through.bind {post : α → State → State → Prop} {p : Prog State Env Label β}
    {f : β → Prog State Env Label α} {s₀ s : State}
    (h : C.Through inside asm (fun b s₀ s => C.Through inside asm post (f b) s₀ s) p s₀ s) :
    C.Through inside asm post (p >>= f) s₀ s := by
  induction p generalizing s₀ s with
  | ret b => exact h
  | access l en up k ih =>
    refine ⟨fun e he => ih e s (h.1 e he), fun e he ha => ?_⟩
    obtain ⟨hguar, hrest⟩ := h.2 e he ha
    exact ⟨hguar, fun t e ht hen => ih e t (hrest t e ht hen)⟩

theorem Through.weaken {post post' : α → State → State → Prop} {p : Prog State Env Label α}
    {s₀ s : State} (h : C.Through inside asm post p s₀ s)
    (hpost : ∀ a s₀ s, post a s₀ s → post' a s₀ s) : C.Through inside asm post' p s₀ s := by
  induction p generalizing s₀ s with
  | ret a => exact hpost a s₀ s h
  | access l en up k ih =>
    refine ⟨fun e he => ih e s (h.1 e he), fun e he ha => ?_⟩
    obtain ⟨hguar, hrest⟩ := h.2 e he ha
    exact ⟨hguar, fun t e ht hen => ih e t (hrest t e ht hen)⟩

variable {post : α → State → State → Prop} {f : β → Prog State Env Label α} {l : Label}
  {s₀ s : State}

/-- An access that begins a block. -/
theorem Through.begins {en : Env → State → Bool} {up : Env → State → State}
    {value : Env → State → β} (hl : inside l = false)
    (h : C.Owes asm (fun s => ∀ t e, C.rely s t → en e t = true →
      C.Through inside asm post (f (value e t)) t (up e t)) s₀ s) :
    C.Through inside asm post (Prog.atomic l en up value >>= f) s₀ s :=
  ⟨fun e he => absurd (Bool.and_eq_true_iff.mp he).1 (by simp [hl]), fun _ _ => h⟩

/-- An access inside a block. -/
theorem Through.goesOn {up : State → State} {value : State → β} (hl : inside l = true)
    (h : C.Through inside asm post (f (value s)) s₀ (up s)) :
    C.Through inside asm post (Prog.exchange l up value >>= f) s₀ s :=
  ⟨fun _ _ => h, fun e he => absurd he (by simp [hl])⟩

end Contract

/-- From `J`, the program keeps the contract with every block and ends in
`K`. -/
def Triple (inside : Label → Bool) (asm : State → State → Prop) {C : Contract State}
    (J : Assertion C) (p : Prog State Env Label α) (K : α → Assertion C) : Prop :=
  ∀ s₀ s, C.Owes asm J.holds s₀ s → C.Through inside asm (fun a => C.Owes asm (K a).holds) p s₀ s

namespace Triple

variable {inside : Label → Bool} {asm : State → State → Prop} {C : Contract State}
  {J J' : Assertion C} {l : Label}

theorem pure {K : α → Assertion C} (a : α) (h : ∀ s, J.holds s → (K a).holds s) :
    Triple inside asm J (Pure.pure a : Prog State Env Label α) K :=
  fun _ s hs ha => ⟨(hs ha).1, h s (hs ha).2⟩

theorem bind {p : Prog State Env Label β} {f : β → Prog State Env Label α}
    {L : β → Assertion C} {K : α → Assertion C} (hp : Triple inside asm J p L)
    (hf : ∀ b, Triple inside asm (L b) (f b) K) : Triple inside asm J (p >>= f) K :=
  fun s₀ s hs => .bind ((hp s₀ s hs).weaken fun b t₀ t => hf b t₀ t)

/-- The rule of consequence for what is known in front. -/
theorem weaken_pre {p : Prog State Env Label α} {K : α → Assertion C}
    (h : Triple inside asm J p K) (hJ : ∀ s, J'.holds s → J.holds s) :
    Triple inside asm J' p K :=
  fun s₀ s hs => h s₀ s fun ha => ⟨(hs ha).1, hJ s (hs ha).2⟩

/-- The rule of consequence for what is known at the end. -/
theorem weaken_post {p : Prog State Env Label α} {K K' : α → Assertion C} (h : Triple inside asm J p K)
    (hK : ∀ a s, (K a).holds s → (K' a).holds s) : Triple inside asm J p K' :=
  fun s₀ s hs => (h s₀ s hs).weaken fun a _ t ht ha => ⟨(ht ha).1, hK a t (ht ha).2⟩

/-- A program that is not reached. -/
theorem absurd {p : Prog State Env Label α} {K : α → Assertion C}
    (hout : ∀ e l, p.label? e = some l → inside l = false) (hJ : ∀ s, ¬ J.holds s) :
    Triple inside asm J p K := by
  intro s₀ s hs
  have hno : ¬ asm s₀ s := fun ha => hJ s (hs ha).2
  cases p with
  | ret a => exact fun ha => (hno ha).elim
  | access l en up k =>
    exact ⟨fun e he => by simp [hout e (l e) rfl] at he, fun _ _ ha => (hno ha).elim⟩

theorem atomic {en : Env → State → Bool} {up : Env → State → State} {value : Env → State → α}
    {K : α → Assertion C} (hl : inside l = false)
    (h : ∀ e t, J.holds t → en e t = true → asm t (up e t) →
      C.guar t (up e t) ∧ (K (value e t)).holds (up e t)) :
    Triple inside asm J (Prog.atomic l en up value) K :=
  fun _ _ hs => ⟨fun e he => by simp [hl] at he,
    fun _ _ ha => ⟨(hs ha).1, fun t e ht hen => h e t (J.stable (hs ha).2 ht) hen⟩⟩

theorem load {value : State → α} {K : α → Assertion C} (hl : inside l = false)
    (h : ∀ t, J.holds t → asm t t → (K (value t)).holds t) :
    Triple inside asm J (Prog.load l value : Prog State Env Label α) K :=
  .atomic hl fun _ t ht _ ha => ⟨C.guar_refl t, h t ht ha⟩

theorem input {value : Env → α} {K : α → Assertion C} (hl : inside l = false)
    (h : ∀ e t, J.holds t → (K (value e)).holds t) :
    Triple inside asm J (Prog.input l value : Prog State Env Label α) K :=
  .atomic hl fun e t ht _ _ => ⟨C.guar_refl t, h e t ht⟩

theorem ite {c : Prop} [Decidable c] {p q : Prog State Env Label α} {K : α → Assertion C}
    (hp : c → Triple inside asm J p K) (hq : ¬ c → Triple inside asm J q K) :
    Triple inside asm J (if c then p else q) K := by
  split
  · exact hp ‹_›
  · exact hq ‹_›

theorem when {b : Bool} {p : Prog State Env Label Unit} {K : Assertion C}
    (hp : b = true → Triple inside asm J p fun _ => K)
    (hskip : ∀ s, J.holds s → K.holds s) :
    Triple inside asm J (Prog.when b p) fun _ => K :=
  .ite hp fun _ => .pure () hskip

/-- A thread that is about to begin a block, with what its code needs, is
parked. -/
theorem parked {post : α → State → Prop} {K : α → Assertion C} {p : Prog State Env Label α}
    {s : State} (h : Triple inside asm J p K) (hout : ∀ e l, p.label? e = some l → inside l = false)
    (hs : J.holds s) (ha : asm s s) (hpost : ∀ a s, (K a).holds s → post a s) :
    C.Parked inside asm post p s := by
  have hthrough : C.Through inside asm
      (fun a => C.Owes asm fun u => ∀ v, C.rely u v → post a v) p s s :=
    (h s s fun _ => ⟨C.guar_refl s, hs⟩).weaken fun a t₀ t ht hat =>
      ⟨(ht hat).1, fun u hu => hpost a u ((K a).stable (ht hat).2 hu)⟩
  cases p with
  | ret a => exact (hthrough ha).2
  | access l en up k =>
    intro t e ht hen
    exact (hthrough.2 e (by simp [hout e (l e) rfl]) ha).2 t e ht hen

end Triple

/-! ## Outlines -/

/-- A proof outline for the block machine of a system. -/
structure BlockOutline (m : System State Env Label Job) (inside : Label → Bool)
    (asm : State → State → Prop) where
  inv : State → Prop
  contract : Nat → Contract State
  pre : Nat → Job → State → Prop
  init : ∀ s, m.init s → inv s
  start : ∀ s i job, m.init s → m.start[i]? = some job → pre i job s
  spawn : ∀ s i job, m.start.length ≤ i → inv s → m.spawn s job = true → pre i job s
  code : ∀ s i job, inv s → pre i job s →
    (contract i).Parked inside (fun s t => inv s ∧ asm s t)
      (fun o t => ∀ job' ∈ o, pre i job' t) (m.code job) s
  outside : ∀ job e l, (m.code job).label? e = some l → inside l = false
  keep : ∀ i s t, inv s → (contract i).guar s t → inv t
  compat : ∀ i j s t, i ≠ j → inv s → (contract i).guar s t → (contract j).rely s t

namespace BlockOutline

variable {m : System State Env Label Job} {inside : Label → Bool} {asm : State → State → Prop}
  (o : BlockOutline m inside asm)

def Within (i : Nat) (t : Prog State Env Label (Option Job)) (s : State) : Prop :=
  (o.contract i).Parked inside (fun s t => o.inv s ∧ asm s t) (fun r u => ∀ job ∈ r, o.pre i job u)
    t s

structure Holds (p : Pool State Env Label Job) : Prop where
  inv : o.inv p.shared
  size : m.start.length ≤ p.threads.length
  threads : ∀ i t, p.threads[i]? = some t → o.Within i t p.shared

theorem holds_init {p : Pool State Env Label Job} (h : m.machine.init p) : o.Holds p := by
  obtain ⟨hinit, hthreads⟩ := h
  refine ⟨o.init _ hinit, by simp [hthreads], fun i t ht => ?_⟩
  rw [hthreads, List.getElem?_map, Option.map_eq_some_iff] at ht
  obtain ⟨job, hjob, rfl⟩ := ht
  exact o.code _ _ _ (o.init _ hinit) (o.start _ _ _ hinit hjob)

/-- A program that does not begin inside a block stays where it is. -/
theorem settle_outside {p : Prog State Env Label α} {e : Env} {s : State}
    (hout : ∀ e l, p.label? e = some l → inside l = false) : p.settle inside e s = (p, s) := by
  cases p with
  | ret a => rfl
  | access l en up k => simp [Prog.settle, hout e (l e) rfl]

/-- A block whose thread keeps its contract keeps the outline. -/
theorem Holds.block {p : Pool State Env Label Job} {i : Nat} {s : State}
    {cur : Prog State Env Label (Option Job)} (h : o.Holds p) (ha : asm p.shared s)
    (hcur : (o.contract i).Owes (fun s t => o.inv s ∧ asm s t) (o.Within i cur) p.shared s) :
    o.Holds ⟨s, p.threads.set i cur⟩ := by
  obtain ⟨hguar, hwithin⟩ := hcur ⟨h.inv, ha⟩
  refine ⟨o.keep i _ _ h.inv hguar, by simpa using h.size,
    forall_thread_set hwithin fun j t hij ht => ?_⟩
  -- another thread: what this one did is what that one allows for
  exact (h.threads j t ht).stable (o.compat i j _ _ hij h.inv hguar)

theorem Holds.next {p p' : Pool State Env Label Job} {a : Sched Env Job} (h : o.Holds p)
    (hok : m.BlocksMeet inside asm p a) (hstep : m.nextBlock inside p a = some p') :
    o.Holds p' := by
  have ha := hok p' hstep
  cases a with
  | spawn job =>
    simp only [System.nextBlock, System.next] at hstep
    split at hstep
    · cases hstep
      refine ⟨h.inv, ?_, forall_thread_append ?_ h.threads⟩
      · rw [List.length_append]
        exact Nat.le_add_right_of_le h.size
      · exact o.code _ _ _ h.inv (o.spawn _ _ _ h.size h.inv ‹_›)
    · exact absurd hstep (by simp)
  | run i e =>
    obtain ⟨q, hq, rfl⟩ := Option.map_eq_some_iff.mp hstep
    simp only [System.next] at hq
    split at hq
    · exact absurd hq (by simp)
    · exact absurd hq (by simp)
    · rename_i job hcur
      cases hq
      rw [System.finish_set hcur] at ha ⊢
      rw [settle_outside (o.outside job)] at ha ⊢
      have hpre := h.threads i _ hcur p.shared ((o.contract i).rely_refl _) job rfl
      exact h.block o ha fun _ => ⟨(o.contract i).guar_refl _, o.code _ _ _ h.inv hpre⟩
    · rename_i l en up k hcur
      split at hq
      · rename_i hen
        cases hq
        rw [System.finish_set hcur] at ha ⊢
        have hthrough := h.threads i _ hcur p.shared e ((o.contract i).rely_refl _) hen
        exact h.block o ha (hthrough.settle e)
      · exact absurd hq (by simp)

/-- **The outline rule for blocks.** Every run whose blocks meet `asm` stays
inside the outline. -/
theorem sound {p : Pool State Env Label Job}
    (h : (m.blocks inside).ReachableVia (m.BlocksMeet inside asm) p) : o.Holds p :=
  h.invariant (m := m.blocks inside) (fun _ h0 => o.holds_init h0)
    fun _ _ _ hp hok hn => hp.next o hok hn

end BlockOutline

end Tsshd

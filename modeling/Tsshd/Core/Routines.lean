import Mathlib.Algebra.GroupWithZero.Nat
import Mathlib.Algebra.Order.BigOperators.Group.List
import Mathlib.Algebra.Order.Group.Nat
import Mathlib.Data.List.Perm.Basic
import Mathlib.Data.List.Count
import Mathlib.Data.List.Nodup
import Mathlib.Data.List.Range
import Tsshd.Core.Threads

/-!
# Goroutines by their program counters

Where the code of a goroutine is short and what counts is who is where, a program
counter says more than a program: it can be counted. `Routines` is a shared state,
the step of one goroutine and the calls that may start; its machine runs any
number of them in any order.

* **balances** — every program counter has a weight and the shared state a stock.
  If a step of one goroutine keeps their sum, so does every run (`Balance.holds`);
* **locks** — a mutex is a balance of one token: two goroutines are never inside
  together (`Locks.excl`), and it is taken exactly while one is (`Locks.taken_iff`);
* **outlines** — an assertion for each program counter. It is enough that a step
  establishes its own and keeps those of the goroutines it does not exclude
  (`Outline.sound`);
* **custody** — things that are made once, handed around and disposed of
  (connections, streams): each is in exactly one place (`Custody.accounted`);
* **attendance** — a condition that somebody has to deal with: as long as it lasts
  there is a goroutine that attends to it (`Attendance.attended`).
-/

namespace Tsshd

/-- Goroutines over a shared state. -/
structure Routines (Shared Pc Env : Type) where
  init : Shared → Prop
  /-- The calls that can be made. -/
  start : Shared → Pc → Bool
  /-- One atomic access: the shared state, where the goroutine goes on, and the
  goroutines it starts. -/
  step : Shared → Pc → Env → Option (Shared × Pc × List Pc)

namespace Routines

variable {Shared Pc Env : Type}

structure Pool (Shared Pc : Type) where
  shared : Shared
  threads : List Pc
deriving DecidableEq, Repr

inductive Act (Pc Env : Type)
  | start (pc : Pc)
  | run (i : Nat) (e : Env)
deriving DecidableEq, Repr

def next (m : Routines Shared Pc Env) (p : Pool Shared Pc) : Act Pc Env → Option (Pool Shared Pc)
  | .start pc =>
    if m.start p.shared pc then some { p with threads := p.threads ++ [pc] } else none
  | .run i e =>
    match p.threads[i]? with
    | none => none
    | some pc =>
      match m.step p.shared pc e with
      | none => none
      | some (shared, pc', forks) => some ⟨shared, p.threads.set i pc' ++ forks⟩

def machine (m : Routines Shared Pc Env) : TSys (Pool Shared Pc) (Act Pc Env) where
  init p := m.init p.shared ∧ p.threads = []
  next := m.next

variable {m : Routines Shared Pc Env}

/-- What a step can be. -/
theorem next_cases {p p' : Pool Shared Pc} {a : Act Pc Env} (h : m.next p a = some p') :
    (∃ pc, m.start p.shared pc = true ∧ p' = { p with threads := p.threads ++ [pc] }) ∨
      ∃ i pc e shared pc' forks, p.threads[i]? = some pc ∧
        m.step p.shared pc e = some (shared, pc', forks) ∧
        p' = ⟨shared, p.threads.set i pc' ++ forks⟩ := by
  cases a with
  | start pc =>
    simp only [next, Option.ite_none_right_eq_some, Option.some.injEq] at h
    exact .inl ⟨pc, h.1, h.2.symm⟩
  | run i e =>
    simp only [next] at h
    split at h
    · exact absurd h (by simp)
    · rename_i pc hpc
      split at h
      · exact absurd h (by simp)
      · rename_i shared pc' forks hstep
        exact .inr ⟨i, pc, e, shared, pc', forks, hpc, hstep, (Option.some.inj h).symm⟩

/-- A schedule from the start shows what can be reached. -/
theorem exists_of_exec {s : Shared} (acts : List (Act Pc Env)) (test : Pool Shared Pc → Bool)
    (hinit : m.init s) (h : (m.machine.exec ⟨s, []⟩ acts).any test = true) :
    ∃ p, m.machine.Reachable p ∧ test p = true := by
  obtain ⟨p, hexec, htest⟩ := (Option.any_eq_true _ _).mp h
  have hstart : m.machine.Reachable ⟨s, []⟩ := .init ⟨hinit, rfl⟩
  exact ⟨p, hstart.exec hexec, htest⟩

/-! ## Balances -/

/-- The weight of the goroutines together. -/
def total (w : Pc → Nat) (threads : List Pc) : Nat := (threads.map w).sum

section Total

variable {w : Pc → Nat} {threads : List Pc} {i j : Nat} {pc q : Pc}

@[simp] theorem total_nil : total w [] = 0 := rfl

@[simp] theorem total_cons : total w (pc :: threads) = w pc + total w threads := by
  simp [total]

@[simp] theorem total_append (more : List Pc) :
    total w (threads ++ more) = total w threads + total w more := by
  simp [total]

/-- A goroutine goes on from `pc` to `pc'`. -/
theorem total_set (hpc : threads[i]? = some pc) (pc' : Pc) :
    total w (threads.set i pc') + w pc = total w threads + w pc' := by
  induction threads generalizing i with
  | nil => simp at hpc
  | cons t rest ih =>
    cases i with
    | zero =>
      obtain rfl : t = pc := by simpa using hpc
      simp only [List.set_cons_zero, total_cons]
      omega
    | succ i =>
      have hrest := ih (i := i) (by simpa using hpc)
      simp only [List.set_cons_succ, total_cons]
      omega

theorem le_total (hpc : threads[i]? = some pc) : w pc ≤ total w threads :=
  List.le_sum_of_mem (List.mem_map_of_mem (List.mem_of_getElem? hpc))

theorem add_le_total (hij : i ≠ j) (hpc : threads[i]? = some pc) (hq : threads[j]? = some q) :
    w pc + w q ≤ total w threads := by
  induction threads generalizing i j with
  | nil => simp at hpc
  | cons t rest ih =>
    rw [total_cons]
    cases i with
    | zero =>
      cases j with
      | zero => exact absurd rfl hij
      | succ j =>
        obtain rfl : t = pc := by simpa using hpc
        exact Nat.add_le_add_left (le_total (by simpa using hq)) _
    | succ i =>
      cases j with
      | zero =>
        obtain rfl : t = q := by simpa using hq
        have hle : w pc ≤ total w rest := le_total (i := i) (by simpa using hpc)
        omega
      | succ j =>
        have hle := ih (i := i) (j := j) (by omega) (by simpa using hpc) (by simpa using hq)
        omega

/-- Somebody carries the weight. -/
theorem exists_of_total_pos (h : 0 < total w threads) : ∃ pc ∈ threads, 0 < w pc := by
  by_contra hnone
  push Not at hnone
  have hzero : total w threads = 0 :=
    List.sum_eq_zero fun n hn => by
      obtain ⟨pc, hpc, rfl⟩ := List.mem_map.mp hn
      exact Nat.le_zero.mp (hnone pc hpc)
  omega

end Total

/-- Weights and a stock that a step of one goroutine keeps level with what is due,
as long as `asm` holds where it stands. -/
structure Balance (m : Routines Shared Pc Env) (asm : Shared → Pc → Prop) where
  weight : Pc → Nat
  stock : Shared → Nat
  due : Shared → Nat
  init : ∀ s, m.init s → stock s = due s
  start : ∀ s pc, m.start s pc = true → weight pc = 0
  step : ∀ s pc e s' pc' forks, asm s pc → m.step s pc e = some (s', pc', forks) →
    weight pc' + total weight forks + stock s' + due s = weight pc + stock s + due s'

namespace Balance

variable {asm : Shared → Pc → Prop}

theorem next (b : Balance m asm) {p p' : Pool Shared Pc} {a : Act Pc Env}
    (hasm : ∀ pc ∈ p.threads, asm p.shared pc)
    (h : total b.weight p.threads + b.stock p.shared = b.due p.shared)
    (hstep : m.next p a = some p') :
    total b.weight p'.threads + b.stock p'.shared = b.due p'.shared := by
  obtain ⟨pc, hstart, rfl⟩ | ⟨i, pc, e, s', pc', forks, hpc, hrun, rfl⟩ := next_cases hstep
  · have hzero := b.start _ _ hstart
    simpa [hzero] using h
  · have hlocal := b.step _ _ _ _ _ _ (hasm pc (List.mem_of_getElem? hpc)) hrun
    have hset := total_set (w := b.weight) hpc pc'
    simp only [total_append]
    omega

/-- **The balance rule.** -/
theorem holds (b : Balance m asm)
    (hasm : ∀ p, m.machine.Reachable p → ∀ pc ∈ p.threads, asm p.shared pc)
    {p : Pool Shared Pc} (hp : m.machine.Reachable p) :
    total b.weight p.threads + b.stock p.shared = b.due p.shared := by
  induction hp with
  | init h0 =>
    obtain ⟨hinit, hthreads⟩ := h0
    simpa [hthreads] using b.init _ hinit
  | step hrun _ hstep ih => exact b.next (hasm _ hrun) ih hstep

end Balance

/-! ## Locks -/

/-- Mutexes, named by `Name`: who is inside which, and when one is taken. -/
structure Locks (m : Routines Shared Pc Env) (Name : Type) where
  inside : Name → Pc → Bool
  taken : Name → Shared → Bool
  init : ∀ k s, m.init s → taken k s = false
  start : ∀ k s pc, m.start s pc = true → inside k pc = false
  /-- A step takes no part in the lock, takes it when it is free, or gives it back. -/
  step : ∀ k s pc e s' pc' forks, m.step s pc e = some (s', pc', forks) →
    (∀ q ∈ forks, inside k q = false) ∧
      ((inside k pc' = inside k pc ∧ taken k s' = taken k s) ∨
        (inside k pc = false ∧ inside k pc' = true ∧ taken k s = false ∧ taken k s' = true) ∨
        (inside k pc = true ∧ inside k pc' = false ∧ taken k s' = false))

namespace Locks

variable {Name : Type} (l : Locks m Name) {p : Pool Shared Pc}

/-- The token: with whoever is inside, or with the mutex. -/
def holding (k : Name) (pc : Pc) : Nat := (l.inside k pc).toNat

theorem total_holding_forks {k : Name} {forks : List Pc}
    (h : ∀ q ∈ forks, l.inside k q = false) : total (l.holding k) forks = 0 :=
  List.sum_eq_zero fun n hn => by
    obtain ⟨q, hq, rfl⟩ := List.mem_map.mp hn
    simp [holding, h q hq]

/-- As many are inside as the mutex says. -/
theorem total_holding (k : Name) (hp : m.machine.Reachable p) :
    total (l.holding k) p.threads = (l.taken k p.shared).toNat := by
  induction hp with
  | init h0 => simp [h0.2, l.init k _ h0.1]
  | @step s a _ _ _ hstep ih =>
    obtain ⟨pc, hstart, rfl⟩ | ⟨i, pc, e, s', pc', forks, hpc, hrun, rfl⟩ := next_cases hstep
    · simpa [holding, l.start k _ _ hstart] using ih
    · obtain ⟨hforks, hmove⟩ := l.step k _ _ _ _ _ _ hrun
      have hset := total_set (w := l.holding k) hpc pc'
      have hin := le_total (w := l.holding k) hpc
      simp only [total_append, l.total_holding_forks hforks]
      rcases hmove with ⟨hpc', htaken⟩ | ⟨hout, hpc', hfree, htaken⟩ | ⟨hinside, hpc', htaken⟩
      · simp only [holding, hpc', htaken] at *
        omega
      · simp only [holding, hout, hpc', hfree, htaken, Bool.toNat_true, Bool.toNat_false] at *
        omega
      · -- whoever is inside has the token: nobody else is
        have hone := Bool.toNat_le (l.taken k s.shared)
        simp only [holding, hinside, hpc', htaken, Bool.toNat_true, Bool.toNat_false] at *
        omega

/-- **Mutual exclusion.** -/
theorem excl (k : Name) (hp : m.machine.Reachable p) {i j : Nat} {pc q : Pc} (hij : i ≠ j)
    (hpc : p.threads[i]? = some pc) (hq : p.threads[j]? = some q)
    (hin : l.inside k pc = true) : l.inside k q = false := by
  have htotal := l.total_holding k hp
  have hadd := add_le_total (w := l.holding k) hij hpc hq
  have hone := Bool.toNat_le (l.taken k p.shared)
  cases hq' : l.inside k q with
  | false => rfl
  | true =>
    simp only [holding, hin, hq', Bool.toNat_true] at hadd
    omega

/-- A mutex is taken exactly while a goroutine is inside. -/
theorem taken_iff (k : Name) (hp : m.machine.Reachable p) :
    l.taken k p.shared = true ↔ ∃ pc ∈ p.threads, l.inside k pc = true := by
  have htotal := l.total_holding k hp
  constructor
  · intro htaken
    rw [htaken] at htotal
    obtain ⟨pc, hpc, hpos⟩ := exists_of_total_pos (w := l.holding k) (by rw [htotal]; decide)
    refine ⟨pc, hpc, ?_⟩
    cases hin : l.inside k pc with
    | false => simp [holding, hin] at hpos
    | true => rfl
  · rintro ⟨pc, hpc, hin⟩
    obtain ⟨i, hi⟩ := List.getElem?_of_mem hpc
    have hle := le_total (w := l.holding k) hi
    cases htaken : l.taken k p.shared with
    | true => rfl
    | false =>
      simp only [holding, hin, Bool.toNat_true] at hle
      simp only [htaken, Bool.toNat_false] at htotal
      omega

end Locks

/-! ## Outlines -/

/-- An invariant of the shared state and an assertion for each program counter.
`Beside pc q` is what is known of two goroutines of one pool. -/
structure Outline (m : Routines Shared Pc Env) (Beside : Pc → Pc → Prop) where
  inv : Shared → Prop
  holds : Shared → Pc → Prop
  init : ∀ s, m.init s → inv s
  start : ∀ s pc, inv s → m.start s pc = true → holds s pc
  own : ∀ s pc e s' pc' forks, inv s → holds s pc → m.step s pc e = some (s', pc', forks) →
    inv s' ∧ holds s' pc' ∧ ∀ q ∈ forks, holds s' q
  others : ∀ s pc e s' pc' forks q, inv s → holds s pc → holds s q → Beside pc q →
    m.step s pc e = some (s', pc', forks) → holds s' q

namespace Outline

variable {Beside : Pc → Pc → Prop} (o : Outline m Beside) {p : Pool Shared Pc}

structure Within (p : Pool Shared Pc) : Prop where
  inv : o.inv p.shared
  threads : ∀ pc ∈ p.threads, o.holds p.shared pc

variable {o} in
theorem Within.next {p' : Pool Shared Pc} {a : Act Pc Env} (h : o.Within p)
    (hbeside : ∀ (i j : Nat) pc q, i ≠ j → p.threads[i]? = some pc → p.threads[j]? = some q →
      Beside pc q)
    (hstep : m.next p a = some p') : o.Within p' := by
  obtain ⟨pc, hstart, rfl⟩ | ⟨i, pc, e, s', pc', forks, hpc, hrun, rfl⟩ := next_cases hstep
  · refine ⟨h.inv, fun q hq => ?_⟩
    rcases List.mem_append.mp hq with hq | hq
    · exact h.threads q hq
    · rw [List.mem_singleton.mp hq]
      exact o.start _ _ h.inv hstart
  · have hat := h.threads pc (List.mem_of_getElem? hpc)
    obtain ⟨hinv, hown, hforks⟩ := o.own _ _ _ _ _ _ h.inv hat hrun
    have hset : ∀ j q, (p.threads.set i pc')[j]? = some q → o.holds s' q :=
      forall_thread_set hown fun j q hij hq =>
        o.others _ _ _ _ _ _ _ h.inv hat (h.threads q (List.mem_of_getElem? hq))
          (hbeside i j pc q hij hpc hq) hrun
    refine ⟨hinv, fun q hq => ?_⟩
    rcases List.mem_append.mp hq with hq | hq
    · obtain ⟨j, hj⟩ := List.getElem?_of_mem hq
      exact hset j q hj
    · exact hforks q hq

/-- **The outline rule.** -/
theorem sound
    (hbeside : ∀ p, m.machine.Reachable p → ∀ (i j : Nat) pc q, i ≠ j → p.threads[i]? = some pc →
      p.threads[j]? = some q → Beside pc q)
    (hp : m.machine.Reachable p) : o.Within p := by
  induction hp with
  | init h0 => exact ⟨o.init _ h0.1, by simp [h0.2]⟩
  | step hrun _ hstep ih => exact ih.next (hbeside _ hrun) hstep

end Outline

/-! ## Custody -/

/-- Things numbered in the order they are made: what each goroutine has in hand, and
what lies in the shared state. A step hands things on, and may make the next one. -/
structure Custody (m : Routines Shared Pc Env) (asm : Shared → Pc → Prop) where
  hand : Pc → List Nat
  stored : Shared → List Nat
  made : Shared → Nat
  init : ∀ s, m.init s → stored s = List.range (made s)
  start : ∀ s pc, m.start s pc = true → hand pc = []
  step : ∀ s pc e s' pc' forks, asm s pc → m.step s pc e = some (s', pc', forks) →
    (made s' = made s ∧
      (hand pc' ++ forks.flatMap hand ++ stored s').Perm (hand pc ++ stored s)) ∨
    (made s' = made s + 1 ∧
      (hand pc' ++ forks.flatMap hand ++ stored s').Perm (made s :: (hand pc ++ stored s)))

namespace Custody

variable {asm : Shared → Pc → Prop}

/-- What the goroutines of a pool have in hand, and what lies in its shared state. -/
def places (c : Custody m asm) (p : Pool Shared Pc) : List Nat :=
  p.threads.flatMap c.hand ++ c.stored p.shared

theorem total_count (f : Pc → List Nat) (threads : List Pc) (a : Nat) :
    total (fun pc => (f pc).count a) threads = (threads.flatMap f).count a := by
  rw [List.count_flatMap]
  rfl

/-- The `a`-th thing is in as many places as it has been made. -/
def balance (c : Custody m asm) (a : Nat) : Balance m asm where
  weight pc := (c.hand pc).count a
  stock s := (c.stored s).count a
  due s := (List.range (c.made s)).count a
  init s h := by simp [c.init s h]
  start s pc h := by simp [c.start s pc h]
  step s pc e s' pc' forks hasm h := by
    rw [total_count]
    rcases c.step s pc e s' pc' forks hasm h with ⟨hmade, hperm⟩ | ⟨hmade, hperm⟩
    · have hcount := List.perm_iff_count.mp hperm a
      simp only [List.count_append] at hcount
      rw [hmade]
      omega
    · have hcount := List.perm_iff_count.mp hperm a
      simp only [List.count_append, List.count_cons] at hcount
      rw [hmade, List.range_succ, List.count_append, List.count_singleton]
      omega

/-- **The custody rule.** Each of the things made so far is in exactly one place. -/
theorem accounted (c : Custody m asm)
    (hasm : ∀ p, m.machine.Reachable p → ∀ pc ∈ p.threads, asm p.shared pc)
    {p : Pool Shared Pc} (hp : m.machine.Reachable p) :
    (c.places p).Perm (List.range (c.made p.shared)) := by
  refine List.perm_iff_count.mpr fun a => ?_
  have h := (c.balance a).holds hasm hp
  rw [places, List.count_append, ← total_count]
  exact h

/-- What a goroutine has in hand is nowhere else. -/
theorem alone (c : Custody m asm)
    (hasm : ∀ p, m.machine.Reachable p → ∀ pc ∈ p.threads, asm p.shared pc)
    {p : Pool Shared Pc} (hp : m.machine.Reachable p) {i a : Nat} {pc : Pc}
    (hpc : p.threads[i]? = some pc) (ha : a ∈ c.hand pc) :
    a ∉ c.stored p.shared ∧ ∀ (j : Nat) q, j ≠ i → p.threads[j]? = some q → a ∉ c.hand q := by
  have hbalance : total (fun pc => (c.hand pc).count a) p.threads + (c.stored p.shared).count a =
      (List.range (c.made p.shared)).count a := (c.balance a).holds hasm hp
  have hone := List.nodup_iff_count_le_one.mp (List.nodup_range (n := c.made p.shared)) a
  have hmine := List.count_pos_iff.mpr ha
  constructor
  · intro hstored
    have hpos := List.count_pos_iff.mpr hstored
    have hle := le_total (w := fun pc => (c.hand pc).count a) hpc
    omega
  · intro j q hji hq hhand
    have hpos := List.count_pos_iff.mpr hhand
    have hle := add_le_total (w := fun pc => (c.hand pc).count a) hji hq hpc
    omega

end Custody

/-! ## Attendance -/

/-- A condition of the shared state, and the goroutines that attend to it. A step under
which the condition begins leaves somebody who attends to it, and so does a step of
somebody who does, unless the condition is over. -/
structure Attendance (m : Routines Shared Pc Env) (asm : Shared → Pc → Prop) where
  needed : Shared → Prop
  attends : Pc → Prop
  init : ∀ s, m.init s → ¬ needed s
  step : ∀ s pc e s' pc' forks, asm s pc → m.step s pc e = some (s', pc', forks) → needed s' →
    (needed s ∧ ¬ attends pc) ∨ attends pc' ∨ ∃ q ∈ forks, attends q

/-- **The attendance rule.** -/
theorem Attendance.attended {asm : Shared → Pc → Prop} (c : Attendance m asm)
    (hasm : ∀ p, m.machine.Reachable p → ∀ pc ∈ p.threads, asm p.shared pc)
    {p : Pool Shared Pc} (hp : m.machine.Reachable p) (hneeded : c.needed p.shared) :
    ∃ pc ∈ p.threads, c.attends pc := by
  induction hp with
  | init h0 => exact absurd hneeded (c.init _ h0.1)
  | step hrun _ hstep ih =>
    obtain ⟨pc, hstart, rfl⟩ | ⟨i, pc, e, s', pc', forks, hpc, hlocal, rfl⟩ := next_cases hstep
    · obtain ⟨q, hq, hattends⟩ := ih hneeded
      exact ⟨q, List.mem_append_left _ hq, hattends⟩
    · have hi := (List.getElem?_eq_some_iff.mp hpc).1
      rcases c.step _ _ _ _ _ _ (hasm _ hrun pc (List.mem_of_getElem? hpc)) hlocal hneeded with
        ⟨hbefore, hnot⟩ | hattends | ⟨q, hq, hattends⟩
      · -- Whoever attended before is not the one that has moved.
        obtain ⟨q, hq, hattends⟩ := ih hbefore
        obtain ⟨j, hj⟩ := List.getElem?_of_mem hq
        have hij : i ≠ j := by
          rintro rfl
          exact hnot (Option.some.inj (hpc.symm.trans hj) ▸ hattends)
        refine ⟨q, List.mem_append_left _ (List.mem_of_getElem? (i := j) ?_), hattends⟩
        rw [List.getElem?_set_ne hij]
        exact hj
      · exact ⟨pc', List.mem_append_left _ (List.mem_set hi pc'), hattends⟩
      · exact ⟨q, List.mem_append_right _ hq, hattends⟩

end Routines

end Tsshd

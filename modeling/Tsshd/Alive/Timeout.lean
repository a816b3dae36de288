import Tsshd.Core.TSys
import Mathlib.Logic.Function.Basic

/-!
# The timeout checker

`timeoutChecker` (comm.go): one goroutine handles events and keeps a flag and a
channel, any number of callers of `waitReconnect` read both. A step is one load,
store or swap of an atomic, one `close` or one channel operation; the clock is
read from outside, so every event may find any time.

The two transitions touch the flag and the channel in opposite orders:

* **timeout** — publish a new channel, then set the flag;
* **reconnected** — clear the flag, then take the channel out, then close it.

At most one published channel is open at any time. `Inv` says which one it is
and how far the event loop is with it; `no_lost_wakeup` reads the guarantees of
the callers off it.
-/

namespace Tsshd.Alive

/-- Where `handleEvent` is. -/
inductive Pc
  /-- In front of `select`. -/
  | idle
  /-- `setReconnected`: the load of the flag. -/
  | reconnLoad
  | reconnStore
  | reconnSwap
  | reconnClose (ch : Nat)
  /-- The timeout event: the load of the flag. -/
  | timeoutLoad
  | timeoutSwap
  | timeoutClose (ch : Nat)
  | timeoutStore
  | returned
deriving DecidableEq, Repr

inductive WaitResult
  | ok
  | timeoutClosed
  | ctxDone
deriving DecidableEq, Repr

/-- Where a call of `waitReconnect` is. -/
inductive Waiter
  /-- No call. -/
  | absent
  /-- The first load of the flag in a round. -/
  | check
  | load
  | sleep
  /-- The load of the flag behind the load of `ch`. -/
  | recheck (ch : Option Nat)
  | select (ch : Nat)
  | returned (res : WaitResult)
deriving DecidableEq, Repr

/-- Channels are numbered in the order of `make`. -/
structure Sys where
  timeoutFlag : Bool := false
  reconnectedCh : Option Nat := none
  lastAliveTime : Int
  updateNowChan : Bool := false
  updateTimeChan : List Int := []
  closeChan : Bool := false
  pc : Pc := .idle
  waiter : Nat → Waiter := fun _ => .absent
  /-- The number of channels made; every one of them is published. -/
  made : Nat := 0
  /-- History: the channels closed, in the order of the calls. -/
  closed : List Nat := []
  /-- History: what the call has read from the flag. -/
  seen : Nat → List Bool := fun _ => []

inductive Act
  | updateNow
  | updateTime (msec : Int)
  | close
  /-- The event loop receives from `updateNowChan`. -/
  | recvNow (now : Int)
  | recvTime (now : Int)
  | recvTimeout (now : Int)
  | recvClose
  /-- The next step of the handling of an event. -/
  | loop
  | call (i : Nat)
  /-- The next step of a call. -/
  | wait (i : Nat)
  /-- `select` takes `<-*ch`. -/
  | wake (i : Nat)
  | waitClosed (i : Nat)
  | waitDone (i : Nat)
deriving DecidableEq, Repr

/-- A step of the event loop inside an event. -/
def loopStep (s : Sys) : Option Sys :=
  match s.pc with
  | .idle => none
  | .reconnLoad => some { s with pc := if s.timeoutFlag then .reconnStore else .idle }
  | .reconnStore => some { s with timeoutFlag := false, pc := .reconnSwap }
  | .reconnSwap =>
    match s.reconnectedCh with
    | none => some { s with pc := .idle }
    | some ch => some { s with reconnectedCh := none, pc := .reconnClose ch }
  | .reconnClose ch => some { s with closed := s.closed ++ [ch], pc := .idle }
  | .timeoutLoad => some { s with pc := if s.timeoutFlag then .idle else .timeoutSwap }
  | .timeoutSwap =>
    let oldCh := s.reconnectedCh
    let s := { s with made := s.made + 1, reconnectedCh := some s.made }
    match oldCh with
    | none => some { s with pc := .timeoutStore }
    | some ch => some { s with pc := .timeoutClose ch }
  | .timeoutClose ch => some { s with closed := s.closed ++ [ch], pc := .timeoutStore }
  | .timeoutStore => some { s with timeoutFlag := true, pc := .idle }
  | .returned => none

def Sys.setWaiter (s : Sys) (i : Nat) (w : Waiter) : Sys :=
  { s with waiter := Function.update s.waiter i w }

/-- The call reads the flag. -/
def Sys.readFlag (s : Sys) (i : Nat) : Sys :=
  { s with seen := Function.update s.seen i (s.seen i ++ [s.timeoutFlag]) }

/-- A step of `waitReconnect`. -/
def waitStep (s : Sys) (i : Nat) : Option Sys :=
  match s.waiter i with
  | .absent => none
  | .check => some ((s.readFlag i).setWaiter i (if s.timeoutFlag then .load else .returned .ok))
  | .load =>
    match s.reconnectedCh with
    | none => some (s.setWaiter i .sleep)
    | some ch => some (s.setWaiter i (.select ch))
  | .sleep => some (s.setWaiter i (.recheck s.reconnectedCh))
  | .recheck ch =>
    some ((s.readFlag i).setWaiter i
      (if s.timeoutFlag then
        match ch with
        | none => .sleep
        | some ch => .select ch
      else .returned .ok))
  | .select _ => none
  | .returned _ => none

variable (heartbeatTimeout : Int)

def next (s : Sys) : Act → Option Sys
  | .updateNow => some { s with updateNowChan := true }
  | .updateTime msec =>
    if s.updateTimeChan.length < 2 then some { s with updateTimeChan := s.updateTimeChan ++ [msec] }
    else if s.closeChan then some s
    else none
  | .close => some { s with closeChan := true }
  | .recvNow now =>
    if s.pc = .idle ∧ s.updateNowChan then
      some { s with updateNowChan := false, lastAliveTime := now, pc := .reconnLoad }
    else none
  | .recvTime now =>
    match s.pc, s.updateTimeChan with
    | .idle, msec :: rest =>
      if s.lastAliveTime < msec then
        some { s with
          updateTimeChan := rest
          lastAliveTime := msec
          pc := if now < msec + heartbeatTimeout then .reconnLoad else .idle }
      else some { s with updateTimeChan := rest }
    | _, _ => none
  | .recvTimeout now =>
    if s.pc = .idle then
      some { s with
        pc := if s.lastAliveTime + heartbeatTimeout < now then .timeoutLoad else .idle }
    else none
  | .recvClose => if s.pc = .idle ∧ s.closeChan then some { s with pc := .returned } else none
  | .loop => loopStep s
  | .call i =>
    match s.waiter i with
    | .absent => some { s.setWaiter i .check with seen := Function.update s.seen i [] }
    | .returned _ => some { s.setWaiter i .check with seen := Function.update s.seen i [] }
    | _ => none
  | .wait i => waitStep s i
  | .wake i =>
    match s.waiter i with
    | .select ch => if ch ∈ s.closed then some (s.setWaiter i .check) else none
    | _ => none
  | .waitClosed i =>
    match s.waiter i with
    | .select _ => if s.closeChan then some (s.setWaiter i (.returned .timeoutClosed)) else none
    | _ => none
  | .waitDone i =>
    match s.waiter i with
    | .select _ => some (s.setWaiter i (.returned .ctxDone))
    | _ => none

def machine : TSys Sys Act where
  init s := ∃ start, s = { lastAliveTime := start }
  next := next heartbeatTimeout

/-! ## What a step can do -/

variable {heartbeatTimeout} {s s' : Sys}

/-- The step leaves flag, channels and event loop alone. -/
structure SameLoop (s s' : Sys) : Prop where
  flag : s'.timeoutFlag = s.timeoutFlag
  ch : s'.reconnectedCh = s.reconnectedCh
  made : s'.made = s.made
  closed : s'.closed = s.closed
  pc : s'.pc = s.pc

/-- What a step of a call leads to: it still runs and reads channels that were
made, or it returns, and then nil only on a flag read as false. -/
def Waited (s : Sys) (seen : List Bool) : Waiter → Prop
  | .recheck (some ch) => ch < s.made
  | .select ch => ch < s.made
  | .returned .ok => seen.getLast? = some false
  | _ => True

inductive Step (s s' : Sys) : Prop
  /-- A message to the event loop. -/
  | post (hloop : SameLoop s s') (hwaiter : s'.waiter = s.waiter) (hseen : s'.seen = s.seen)
  /-- The event loop takes an event. -/
  | event (hidle : s.pc = .idle)
      (hpc : s'.pc = .idle ∨ s'.pc = .reconnLoad ∨ s'.pc = .timeoutLoad ∨ s'.pc = .returned)
      (hloop : SameLoop { s with pc := s'.pc } s') (hwaiter : s'.waiter = s.waiter)
      (hseen : s'.seen = s.seen)
  | loop (h : loopStep s = some s')
  | wait {i : Nat} {w : Waiter} {seen : List Bool} (hloop : SameLoop s s')
      (hwaited : (∀ ch, s.reconnectedCh = some ch → ch < s.made) →
        Waited s (s.seen i) (s.waiter i) → Waited s seen w)
      (hwaiter : s'.waiter = Function.update s.waiter i w)
      (hseen : s'.seen = Function.update s.seen i seen)

theorem waitStep_cases {i : Nat} (h : waitStep s i = some s') : Step s s' := by
  have hkeep : s.seen = Function.update s.seen i (s.seen i) := (Function.update_eq_self i s.seen).symm
  unfold waitStep at h
  cases hw : s.waiter i with
  | absent | select | returned => simp [hw] at h
  | check =>
    simp only [hw, Option.some.injEq] at h
    subst h
    refine .wait ⟨rfl, rfl, rfl, rfl, rfl⟩ (fun _ _ => ?_) rfl rfl
    cases hflag : s.timeoutFlag <;> simp [Waited]
  | load =>
    simp only [hw] at h
    cases hch : s.reconnectedCh with
    | none =>
      simp only [hch, Option.some.injEq] at h
      subst h
      refine .wait ⟨rfl, rfl, rfl, rfl, rfl⟩ (fun _ _ => ?_) rfl hkeep
      trivial
    | some ch =>
      simp only [hch, Option.some.injEq] at h
      subst h
      refine .wait ⟨rfl, rfl, rfl, rfl, rfl⟩ (fun hp _ => ?_) rfl hkeep
      exact hp ch hch
  | sleep =>
    simp only [hw, Option.some.injEq] at h
    subst h
    refine .wait ⟨rfl, rfl, rfl, rfl, rfl⟩ (fun hp _ => ?_) rfl hkeep
    cases hch : s.reconnectedCh with
    | none => trivial
    | some ch => exact hp ch hch
  | recheck ch =>
    simp only [hw, Option.some.injEq] at h
    subst h
    refine .wait ⟨rfl, rfl, rfl, rfl, rfl⟩ (fun _ hwaited => ?_) rfl rfl
    rw [hw] at hwaited
    cases hflag : s.timeoutFlag with
    | false => simp [Waited]
    | true =>
      cases ch with
      | none => trivial
      | some ch => exact hwaited

theorem setWaiter_cases {i : Nat} {w : Waiter} (hw : Waited s (s.seen i) (s.waiter i) →
    Waited s (s.seen i) w) : Step s (s.setWaiter i w) :=
  .wait ⟨rfl, rfl, rfl, rfl, rfl⟩ (fun _ h => hw h) rfl (Function.update_eq_self i s.seen).symm

theorem step_cases {a : Act} (h : next heartbeatTimeout s a = some s') : Step s s' := by
  cases a with
  | updateNow =>
    cases h
    exact .post ⟨rfl, rfl, rfl, rfl, rfl⟩ rfl rfl
  | updateTime msec =>
    simp only [next] at h
    split at h
    · cases h
      exact .post ⟨rfl, rfl, rfl, rfl, rfl⟩ rfl rfl
    · split at h
      · cases h
        exact .post ⟨rfl, rfl, rfl, rfl, rfl⟩ rfl rfl
      · cases h
  | close =>
    cases h
    exact .post ⟨rfl, rfl, rfl, rfl, rfl⟩ rfl rfl
  | recvNow now =>
    simp only [next] at h
    split at h
    · rename_i hidle
      cases h
      exact .event hidle.1 (.inr (.inl rfl)) ⟨rfl, rfl, rfl, rfl, rfl⟩ rfl rfl
    · cases h
  | recvTime now =>
    simp only [next] at h
    split at h
    · rename_i msec rest hidle htimes
      split at h
      · cases h
        refine .event hidle ?_ ⟨rfl, rfl, rfl, rfl, rfl⟩ rfl rfl
        by_cases hnow : now < msec + heartbeatTimeout
        · exact .inr (.inl (if_pos hnow))
        · exact .inl (if_neg hnow)
      · cases h
        exact .post ⟨rfl, rfl, rfl, rfl, rfl⟩ rfl rfl
    · cases h
  | recvTimeout now =>
    simp only [next] at h
    split at h
    · rename_i hidle
      cases h
      refine .event hidle ?_ ⟨rfl, rfl, rfl, rfl, rfl⟩ rfl rfl
      by_cases hnow : s.lastAliveTime + heartbeatTimeout < now
      · exact .inr (.inr (.inl (if_pos hnow)))
      · exact .inl (if_neg hnow)
    · cases h
  | recvClose =>
    simp only [next] at h
    split at h
    · rename_i hidle
      cases h
      exact .event hidle.1 (.inr (.inr (.inr rfl))) ⟨rfl, rfl, rfl, rfl, rfl⟩ rfl rfl
    · cases h
  | loop => exact .loop h
  | call i =>
    simp only [next] at h
    split at h
    · cases h
      refine .wait ⟨rfl, rfl, rfl, rfl, rfl⟩ (fun _ _ => ?_) rfl rfl
      trivial
    · cases h
      refine .wait ⟨rfl, rfl, rfl, rfl, rfl⟩ (fun _ _ => ?_) rfl rfl
      trivial
    · cases h
  | wait i => exact waitStep_cases h
  | wake i =>
    simp only [next] at h
    split at h
    · split at h
      · cases h
        exact setWaiter_cases fun _ => trivial
      · cases h
    · cases h
  | waitClosed i =>
    simp only [next] at h
    split at h
    · split at h
      · cases h
        exact setWaiter_cases fun _ => trivial
      · cases h
    · cases h
  | waitDone i =>
    simp only [next] at h
    split at h
    · cases h
      exact setWaiter_cases fun _ => trivial
    · cases h

/-! ## The event loop -/

/-- `o` is the one published channel that is not closed. -/
def Open (s : Sys) (o : Option Nat) : Prop :=
  (∀ ch, o = some ch → ch < s.made) ∧ ∀ ch, ch < s.made → (ch ∈ s.closed ↔ o ≠ some ch)

/-- Flag and channels at each point of the event loop. -/
def AtPc (s : Sys) : Prop :=
  match s.pc with
  | .reconnStore => s.timeoutFlag = true ∧ s.reconnectedCh.isSome ∧ Open s s.reconnectedCh
  | .reconnSwap => s.timeoutFlag = false ∧ s.reconnectedCh.isSome ∧ Open s s.reconnectedCh
  | .reconnClose ch => s.timeoutFlag = false ∧ s.reconnectedCh = none ∧ Open s (some ch)
  | .timeoutSwap => s.timeoutFlag = false ∧ s.reconnectedCh = none ∧ Open s none
  | .timeoutClose _ => False
  | .timeoutStore => s.timeoutFlag = false ∧ s.reconnectedCh.isSome ∧ Open s s.reconnectedCh
  | _ => s.timeoutFlag = s.reconnectedCh.isSome ∧ Open s s.reconnectedCh

structure LoopInv (s : Sys) : Prop where
  atPc : AtPc s
  nodup : s.closed.Nodup
  bound : ∀ ch ∈ s.closed, ch < s.made

theorem Open.congr {o : Option Nat} (h : Open s o) (hmade : s'.made = s.made)
    (hclosed : s'.closed = s.closed) : Open s' o := by
  unfold Open
  rw [hmade, hclosed]
  exact h

/-- Closing the open channel leaves none. -/
theorem Open.close {ch : Nat} (h : Open s (some ch)) (hmade : s'.made = s.made)
    (hclosed : s'.closed = s.closed ++ [ch]) : Open s' none := by
  refine ⟨fun d hd => absurd hd (by simp), fun d hd => ?_⟩
  rw [hclosed, List.mem_append, List.mem_singleton]
  rw [hmade] at hd
  have hd := h.2 d hd
  by_cases hdc : d = ch
  · simp [hdc]
  · simp [hd, Ne.symm hdc]

/-- A new channel is the open one. -/
theorem Open.make (h : Open s none) (hbound : ∀ ch ∈ s.closed, ch < s.made)
    (hmade : s'.made = s.made + 1) (hclosed : s'.closed = s.closed) : Open s' (some s.made) := by
  refine ⟨fun d hd => ?_, fun d hd => ?_⟩
  · rw [hmade, ← Option.some.inj hd]
    exact Nat.lt_succ_self _
  · rw [hclosed]
    by_cases hnew : d = s.made
    · subst hnew
      simp only [ne_eq, not_true, iff_false]
      exact fun hmem => absurd (hbound _ hmem) (Nat.lt_irrefl _)
    · have hlt : d < s.made := by omega
      simp [h.2 d hlt, Ne.symm hnew]

theorem LoopInv.published (h : LoopInv s) {ch : Nat} (hch : s.reconnectedCh = some ch) :
    ch < s.made := by
  have hat := h.atPc
  unfold AtPc at hat
  split at hat
  · exact hat.2.2.1 ch hch
  · exact hat.2.2.1 ch hch
  · rw [hat.2.1] at hch
    cases hch
  · rw [hat.2.1] at hch
    cases hch
  · exact hat.elim
  · exact hat.2.2.1 ch hch
  · exact hat.2.1 ch hch

theorem LoopInv.loop (h : LoopInv s) (hstep : loopStep s = some s') : LoopInv s' := by
  obtain ⟨hat, hnodup, hbound⟩ := h
  unfold loopStep at hstep
  cases hpc : s.pc with
  | idle | returned => simp [hpc] at hstep
  | reconnLoad =>
    simp only [hpc, Option.some.injEq] at hstep
    subst hstep
    simp only [AtPc, hpc] at hat
    refine ⟨?_, hnodup, hbound⟩
    cases hflag : s.timeoutFlag with
    | false => exact ⟨hflag ▸ hat.1, hat.2⟩
    | true => exact ⟨rfl, (hflag ▸ hat.1).symm, hat.2⟩
  | reconnStore =>
    simp only [hpc, Option.some.injEq] at hstep
    subst hstep
    simp only [AtPc, hpc] at hat
    exact ⟨⟨rfl, hat.2.1, hat.2.2⟩, hnodup, hbound⟩
  | reconnSwap =>
    simp only [AtPc, hpc] at hat
    obtain ⟨ch, hch⟩ := Option.isSome_iff_exists.mp hat.2.1
    simp only [hpc, hch, Option.some.injEq] at hstep
    subst hstep
    refine ⟨⟨hat.1, rfl, ?_⟩, hnodup, hbound⟩
    exact hch ▸ hat.2.2
  | reconnClose ch =>
    simp only [hpc, Option.some.injEq] at hstep
    subst hstep
    simp only [AtPc, hpc] at hat
    obtain ⟨hflag, hnone, hopen⟩ := hat
    have hlt : ch < s.made := hopen.1 ch rfl
    have hnot : ch ∉ s.closed := fun hmem => (hopen.2 ch hlt).mp hmem rfl
    refine ⟨⟨?_, ?_⟩, ?_, ?_⟩
    · rw [hflag, hnone]
      rfl
    · show Open _ s.reconnectedCh
      rw [hnone]
      exact hopen.close rfl rfl
    · exact List.nodup_append.mpr ⟨hnodup, List.pairwise_singleton _ _, fun a ha b hb hab =>
        hnot (List.mem_singleton.mp hb ▸ hab ▸ ha)⟩
    · intro d hd
      obtain hd | hd := List.mem_append.mp hd
      · exact hbound d hd
      · exact List.mem_singleton.mp hd ▸ hlt
  | timeoutLoad =>
    simp only [hpc, Option.some.injEq] at hstep
    subst hstep
    simp only [AtPc, hpc] at hat
    refine ⟨?_, hnodup, hbound⟩
    cases hflag : s.timeoutFlag with
    | true => exact ⟨hflag ▸ hat.1, hat.2⟩
    | false =>
      have hnone : s.reconnectedCh = none := by
        rw [hflag] at hat
        simpa using hat.1.symm
      exact ⟨rfl, hnone, hnone ▸ hat.2⟩
  | timeoutSwap =>
    simp only [AtPc, hpc] at hat
    obtain ⟨hflag, hnone, hopen⟩ := hat
    simp only [hpc, hnone, Option.some.injEq] at hstep
    subst hstep
    exact ⟨⟨hflag, rfl, hopen.make hbound rfl rfl⟩, hnodup,
      fun ch hch => Nat.lt_succ_of_lt (hbound ch hch)⟩
  | timeoutClose ch =>
    simp only [AtPc, hpc] at hat
  | timeoutStore =>
    simp only [hpc, Option.some.injEq] at hstep
    subst hstep
    simp only [AtPc, hpc] at hat
    exact ⟨⟨hat.2.1.symm, hat.2.2⟩, hnodup, hbound⟩

theorem LoopInv.same (h : LoopInv s) (hsame : SameLoop s s') : LoopInv s' := by
  obtain ⟨hat, hnodup, hbound⟩ := h
  have hopen : ∀ o, Open s o → Open s' o := fun o ho => ho.congr hsame.made hsame.closed
  refine ⟨?_, hsame.closed ▸ hnodup, ?_⟩
  · unfold AtPc at hat ⊢
    rw [hsame.pc, hsame.flag, hsame.ch]
    cases hpc : s.pc <;> rw [hpc] at hat
    case timeoutClose => exact hat
    case idle | reconnLoad | timeoutLoad | returned => exact ⟨hat.1, hopen _ hat.2⟩
    all_goals exact ⟨hat.1, hat.2.1, hopen _ hat.2.2⟩
  · rw [hsame.closed, hsame.made]
    exact hbound

theorem LoopInv.event (h : LoopInv s) (hidle : s.pc = .idle) {pc : Pc}
    (hpc : pc = .idle ∨ pc = .reconnLoad ∨ pc = .timeoutLoad ∨ pc = .returned) :
    LoopInv { s with pc } := by
  obtain ⟨hat, hnodup, hbound⟩ := h
  refine ⟨?_, hnodup, hbound⟩
  simp only [AtPc, hidle] at hat
  obtain rfl | rfl | rfl | rfl := hpc <;> exact hat

/-! ## The callers -/

/-- The invariant. -/
structure Inv (s : Sys) : Prop extends LoopInv s where
  waiters : ∀ i, Waited s (s.seen i) (s.waiter i)

theorem Waited.mono {seen : List Bool} {w : Waiter} (h : Waited s seen w) (hmade : s.made ≤ s'.made) :
    Waited s' seen w := by
  cases w with
  | recheck ch =>
    cases ch with
    | none => trivial
    | some ch => exact Nat.lt_of_lt_of_le h hmade
  | select ch => exact Nat.lt_of_lt_of_le h hmade
  | returned res => cases res <;> exact h
  | absent | check | load | sleep => trivial

/-- The event loop does not touch the calls. -/
theorem loopStep_frame (h : loopStep s = some s') :
    s'.waiter = s.waiter ∧ s'.seen = s.seen ∧ s.made ≤ s'.made := by
  unfold loopStep at h
  cases hpc : s.pc with
  | idle | returned => simp [hpc] at h
  | reconnSwap =>
    simp only [hpc] at h
    split at h <;> cases h <;> exact ⟨rfl, rfl, Nat.le_refl _⟩
  | timeoutSwap =>
    simp only [hpc] at h
    split at h <;> cases h <;> exact ⟨rfl, rfl, Nat.le_succ _⟩
  | reconnLoad | reconnStore | reconnClose | timeoutLoad | timeoutClose | timeoutStore =>
    simp only [hpc] at h
    cases h
    exact ⟨rfl, rfl, Nat.le_refl _⟩

theorem Inv.step (h : Inv s) (hstep : Step s s') : Inv s' := by
  obtain ⟨hloopInv, hwaiters⟩ := h
  cases hstep with
  | post hloop hwaiter hseen =>
    refine ⟨hloopInv.same hloop, fun i => ?_⟩
    rw [hwaiter, hseen]
    exact (hwaiters i).mono (Nat.le_of_eq hloop.made.symm)
  | event hidle hpc hloop hwaiter hseen =>
    refine ⟨(hloopInv.event hidle hpc).same hloop, fun i => ?_⟩
    rw [hwaiter, hseen]
    exact (hwaiters i).mono (Nat.le_of_eq hloop.made.symm)
  | loop hstep =>
    obtain ⟨hwaiter, hseen, hmade⟩ := loopStep_frame hstep
    refine ⟨hloopInv.loop hstep, fun i => ?_⟩
    rw [hwaiter, hseen]
    exact (hwaiters i).mono hmade
  | @wait i w seen hloop hwaited hwaiter hseen =>
    refine ⟨hloopInv.same hloop, fun j => ?_⟩
    rw [hwaiter, hseen]
    by_cases hj : j = i
    · subst hj
      rw [Function.update_self, Function.update_self]
      exact (hwaited (fun _ hch => hloopInv.published hch) (hwaiters j)).mono
        (Nat.le_of_eq hloop.made.symm)
    · rw [Function.update_of_ne hj, Function.update_of_ne hj]
      exact (hwaiters j).mono (Nat.le_of_eq hloop.made.symm)

theorem inv_reachable (h : (machine heartbeatTimeout).Reachable s) : Inv s := by
  refine TSys.ReachableVia.invariant (fun s hs => ?_) (fun s a s' hinv _ hn => ?_) h
  · obtain ⟨start, rfl⟩ := hs
    refine ⟨⟨⟨rfl, ?_, ?_⟩, List.nodup_nil, fun _ h => absurd h List.not_mem_nil⟩, fun _ => trivial⟩
    · exact fun _ h => absurd h (by simp)
    · exact fun _ h => absurd h (Nat.not_lt_zero _)
  · exact hinv.step (step_cases hn)

/-! ## No lost wake-up -/

/-- The steps an event takes at most. -/
def Pc.rank : Pc → Nat
  | .idle => 0
  | .reconnLoad => 4
  | .reconnStore => 3
  | .reconnSwap => 2
  | .reconnClose _ => 1
  | .timeoutLoad => 4
  | .timeoutSwap => 3
  | .timeoutClose _ => 2
  | .timeoutStore => 1
  | .returned => 0

theorem loopStep_rank (s : Sys) : (s.pc = .idle ∨ s.pc = .returned) ∨
    ∃ s', loopStep s = some s' ∧ s'.pc.rank < s.pc.rank := by
  unfold loopStep
  cases hpc : s.pc with
  | idle => exact .inl (.inl rfl)
  | returned => exact .inl (.inr rfl)
  | reconnLoad => cases s.timeoutFlag <;> exact .inr ⟨_, rfl, by simp [Pc.rank]⟩
  | timeoutLoad => cases s.timeoutFlag <;> exact .inr ⟨_, rfl, by simp [Pc.rank]⟩
  | reconnSwap => cases s.reconnectedCh <;> exact .inr ⟨_, rfl, by simp [Pc.rank]⟩
  | timeoutSwap => cases s.reconnectedCh <;> exact .inr ⟨_, rfl, by simp [Pc.rank]⟩
  | reconnStore | reconnClose | timeoutClose | timeoutStore =>
    exact .inr ⟨_, rfl, by simp [Pc.rank]⟩

/-- The event loop comes to rest by itself, whatever it is at. -/
theorem settles (heartbeatTimeout : Int) (s : Sys) :
    ∃ k s', (machine heartbeatTimeout).exec s (List.replicate k .loop) = some s' ∧
      (s'.pc = .idle ∨ s'.pc = .returned) ∧ s'.waiter = s.waiter := by
  induction hrank : s.pc.rank using Nat.strongRecOn generalizing s with
  | ind n ih =>
    obtain hrest | ⟨t, hstep, hlt⟩ := loopStep_rank s
    · exact ⟨0, s, rfl, hrest, rfl⟩
    · obtain ⟨k, s', hexec, hrest, hwaiter⟩ := ih t.pc.rank (hrank ▸ hlt) t rfl
      refine ⟨k + 1, s', ?_, hrest, hwaiter.trans (loopStep_frame hstep).1⟩
      rw [List.replicate_succ, TSys.exec]
      show (loopStep s).bind _ = some s'
      rw [hstep]
      exact hexec

/-- At rest, a flag that is false leaves no channel open. -/
theorem LoopInv.rest (h : LoopInv s) (hpc : s.pc = .idle ∨ s.pc = .returned) :
    s.timeoutFlag = false ↔
      (∀ ch, ch < s.made → ch ∈ s.closed) ∧ s.reconnectedCh = none := by
  have hat : s.timeoutFlag = s.reconnectedCh.isSome ∧ Open s s.reconnectedCh := by
    have hat := h.atPc
    unfold AtPc at hat
    obtain hpc | hpc := hpc <;> rw [hpc] at hat <;> exact hat
  obtain ⟨hflag, hopen⟩ := hat
  rw [hflag, Option.isSome_eq_false_iff, Option.isNone_iff_eq_none]
  constructor
  · intro hnone
    refine ⟨fun ch hch => ?_, hnone⟩
    rw [hopen.2 ch hch, hnone]
    simp
  · exact fun hall => hall.2

/-- **No lost wake-up.** In every reachable state:

* a call of `waitReconnect` that has returned nil has last read the flag as
  false;
* no channel has been closed twice, and only published ones;
* while the event loop is idle, the flag is false exactly when every channel
  ever published is closed and none is current;
* the event loop comes to rest without anybody's help, and if the flag is false
  then, every channel a caller waits on is closed. -/
theorem no_lost_wakeup (heartbeatTimeout : Int) {s : Sys}
    (h : (machine heartbeatTimeout).Reachable s) :
    (∀ i, s.waiter i = .returned .ok → (s.seen i).getLast? = some false) ∧
    (s.closed.Nodup ∧ ∀ ch ∈ s.closed, ch < s.made) ∧
    (s.pc = .idle → (s.timeoutFlag = false ↔
      (∀ ch, ch < s.made → ch ∈ s.closed) ∧ s.reconnectedCh = none)) ∧
    ∃ k s', (machine heartbeatTimeout).exec s (List.replicate k .loop) = some s' ∧
      (s'.pc = .idle ∨ s'.pc = .returned) ∧
      (s'.timeoutFlag = false → ∀ i ch, s.waiter i = .select ch → ch ∈ s'.closed) := by
  have hinv := inv_reachable h
  refine ⟨fun i hi => ?_, ⟨hinv.nodup, hinv.bound⟩, fun hidle => hinv.rest (.inl hidle), ?_⟩
  · have hwaited := hinv.waiters i
    rw [hi] at hwaited
    exact hwaited
  · obtain ⟨k, s', hexec, hrest, hwaiter⟩ := settles heartbeatTimeout s
    have hinv' := inv_reachable (TSys.Reachable.exec h hexec)
    refine ⟨k, s', hexec, hrest, fun hflag i ch hi => ?_⟩
    have hwaited := hinv'.waiters i
    rw [hwaiter, hi] at hwaited
    exact ((hinv'.rest hrest).mp hflag).1 ch hwaited

/-- A timeout, a caller that waits, a reconnect, and a second timeout whose
channel the caller has not seen. -/
def twoTimeouts : List Act :=
  [Act.recvTimeout 100, .loop, .loop, .loop, .call 0, .wait 0, .wait 0, .updateNow, .recvNow 120,
    .loop, .loop, .loop, .loop, .recvTimeout 200, .loop, .loop]

/-- In the middle of the second timeout the flag is still false; the caller's
channel is closed. -/
theorem no_lost_wakeup_twoTimeouts :
    ∃ s, (machine 10).Reachable s ∧ s.pc = .timeoutStore ∧ s.timeoutFlag = false ∧
      s.waiter 0 = .select 0 ∧ s.closed.Nodup ∧ 0 ∈ s.closed := by
  have hrun : ((machine 10).exec { lastAliveTime := 50 } twoTimeouts).any (fun s =>
      decide (s.pc = .timeoutStore ∧ s.timeoutFlag = false ∧ s.waiter 0 = .select 0 ∧
        0 ∈ s.closed)) = true := by decide
  obtain ⟨s, hs, hend⟩ := (Option.any_eq_true _ _).mp hrun
  obtain ⟨hpc, hflag, hwaiter, hclosed⟩ := of_decide_eq_true hend
  have hreach : (machine 10).Reachable s := TSys.Reachable.exec (.init ⟨50, rfl⟩) hs
  obtain ⟨-, ⟨hnodup, -⟩, -⟩ := no_lost_wakeup 10 hreach
  exact ⟨s, hreach, hpc, hflag, hwaiter, hnodup, hclosed⟩

end Tsshd.Alive

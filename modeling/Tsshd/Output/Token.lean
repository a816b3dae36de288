import Tsshd.Core.Threads
import Tsshd.Output.Cells

/-!
# The processing token, thread by thread

`Tsshd.Output.Machine` has one program counter for whoever owns the token. Here
every goroutine has its own: `forward` with the handlers it calls and its deferred
shutdown, and any number of `onReconnected`, as output.go lets them run.

* **the mutex** — `handleMutex` is taken and released by steps of their own, and
  what a goroutine does under it is one access a step, so a test and the store
  behind it are two steps;
* **the token** — `processing` is a plain flag. Its owner releases the mutex in
  the middle of a handler and comes back for it;
* **the handlers** — between taking the token and giving it back a goroutine runs
  `ownerStep`, the handler of `Tsshd.Output.Machine`, from its own counter.

That only one goroutine is inside is not built in; it is what is proved.
-/

namespace Tsshd.Output.Token

/-! ## The machine -/

/-- What takes the token. -/
inductive Handler
  | buffer (buf : Text) (eof : Bool)
  | error
  | reconnected
deriving DecidableEq, Repr

/-- What a goroutine waits for the token for; the shutdown is the loop of the
function that `forward` defers. -/
inductive Job
  | handle (h : Handler)
  | shutdown
deriving DecidableEq, Repr

/-- Where a goroutine is. -/
inductive Stage
  | reading
  /-- At `handleMutex.Lock()`. -/
  | lock (job : Job)
  | locked (job : Job)
  /-- At the test of `processing`, and behind it when it is set. -/
  | test (job : Job)
  | busy (job : Job)
  /-- At `<-done`. -/
  | await (job : Job) (done : Nat)
  /-- At `processing = true`, or at `close(f.writeBufCh)`. -/
  | take (job : Job)
  /-- At `processDone = make(chan struct{})`. -/
  | make (h : Handler)
  /-- In a handler, and coming back from one of its waits. -/
  | handler (h : Handler) (pc : Pc)
  | relock (h : Handler) (pc : Pc)
  /-- At `close(f.processDone)`. -/
  | close (h : Handler)
  /-- At `handleMutex.Unlock()`, with nothing left to do. -/
  | unlock (job : Job)
  /-- `forward` is about to return: at its `Lock`, and at `returned = true`. -/
  | returning
  | setReturned
  | finished
deriving DecidableEq, Repr

structure Sys where
  /-- The forwarder and what is around it; its own counters are not used. -/
  shared : Output.Sys
  mutex : Option Nat := none
  /-- `forward`, and behind it the notifications. -/
  threads : List Stage := [.reading]
  /-- History: how often `writeBufCh` was closed. -/
  closes : Nat := 0

/-- The first step of a handler. -/
def Handler.entry : Handler → Pc
  | .buffer buf _ => .swapMarker buf
  | .error => .errorLoop
  | .reconnected => .flushBegin .endProcessing

/-- Where the goroutine goes on behind its `Unlock`. -/
def Job.next : Job → Stage
  | .handle (.buffer _ true) => .lock (.handle .error)
  | .handle (.buffer _ false) => .reading
  | .handle .error => .returning
  | .handle .reconnected | .shutdown => .finished

namespace Sys

def goto (s : Sys) (i : Nat) (st : Stage) : Sys := { s with threads := s.threads.set i st }

def withF (s : Sys) (f : Forwarder) : Sys := { s with shared := { s.shared with f := f } }

/-- Behind `Lock`. -/
def locked (s : Sys) (i : Nat) : Job → Sys
  | .handle .reconnected =>
    if s.shared.f.returned then s.goto i (.unlock (.handle .reconnected))
    else s.goto i (.test (.handle .reconnected))
  | job => s.goto i (.test job)

/-- Another handler is inside: leave a note, or wait for it without the mutex. -/
def busy (s : Sys) (i : Nat) : Job → Sys
  | .handle .reconnected =>
    (s.withF { s.shared.f with reconnectPending := true }).goto i (.unlock (.handle .reconnected))
  | job => { s with mutex := none }.goto i (.await job s.shared.f.processDone)

/-- No handler is inside. -/
def take (s : Sys) (i : Nat) : Job → Sys
  | .handle h => (s.withF { s.shared.f with processing := true }).goto i (.make h)
  | .shutdown =>
    { s.withF { s.shared.f with chClosed := true } with closes := s.closes + 1 }.goto i
      (.unlock .shutdown)

/-- One step of a handler; `endProcessing` ends here. -/
def handle (cfg : Config) (ok : Bool) (s : Sys) (i : Nat) (h : Handler) (pc : Pc) : Option Sys :=
  if pc.released then
    (wakeOwner (!ok) (s.shared.goto pc)).map fun o => s.goto i (.relock h o.pc)
  else if pc = .endLoop ∧ (s.shared.f.reconnectPending && !s.shared.f.returned) = false then
    some ((s.withF { s.shared.f with processing := false }).goto i (.close h))
  else
    (ownerStep cfg ok (s.shared.goto pc)).map fun o =>
      { s with shared := o, mutex := if o.pc.released then none else s.mutex }.goto i
        (.handler h o.pc)

/-- One step of a goroutine. -/
def run (cfg : Config) (s : Sys) (i : Nat) (ok : Bool) : Stage → Option Sys
  | .reading | .finished => none
  | .lock job =>
    if s.mutex = none then some ({ s with mutex := some i }.goto i (.locked job)) else none
  | .locked job => some (s.locked i job)
  | .test job =>
    if s.shared.f.processing then some (s.goto i (.busy job)) else some (s.goto i (.take job))
  | .busy job => some (s.busy i job)
  | .await job done =>
    if done ∈ s.shared.f.doneClosed then some (s.goto i (.lock job)) else none
  | .take job => some (s.take i job)
  | .make h =>
    some ((s.withF { s.shared.f with processDone := s.shared.f.processDone + 1 }).goto i
      (.handler h h.entry))
  | .handler h pc => s.handle cfg ok i h pc
  | .relock h pc =>
    if s.mutex = none then some ({ s with mutex := some i }.goto i (.handler h pc)) else none
  | .close h =>
    some ((s.withF { s.shared.f with
      doneClosed := s.shared.f.doneClosed ++ [s.shared.f.processDone] }).goto i
        (.unlock (.handle h)))
  | .unlock job => some ({ s with mutex := none }.goto i job.next)
  | .returning =>
    if s.mutex = none then some ({ s with mutex := some i }.goto i .setReturned) else none
  | .setReturned =>
    some ((s.withF { s.shared.f with returned := true }).goto i (.test .shutdown))

end Sys

/-- The acts of `Tsshd.Output.Machine` that are not those of a handler or of
`forward`: the writer loop, the checker and the clients. -/
def beside : Output.Act → Bool
  | .owner _ | .wake _ | .read _ _ | .begin | .shutdown | .onReconnected => false
  | _ => true

inductive Act
  /-- A goroutine goes on; `ok` says how its call ends. -/
  | run (thread : Nat) (ok : Bool)
  /-- `Read` of `forward` returns. -/
  | read (bytes : List UInt8) (eof : Bool)
  /-- A client is back. -/
  | onReconnected
  | beside (act : Output.Act)
deriving DecidableEq, Repr

def next (cfg : Config) (s : Sys) : Act → Option Sys
  | .run i ok =>
    match s.threads[i]? with
    | some st => s.run cfg i ok st
    | none => none
  | .read bytes eof =>
    if s.threads[0]? = some .reading then
      if bytes.isEmpty then some (s.goto 0 (if eof then .lock (.handle .error) else .reading))
      else some (s.goto 0 (.lock (.handle (.buffer (plain bytes) eof))))
    else none
  | .onReconnected => some { s with threads := s.threads ++ [.lock (.handle .reconnected)] }
  | .beside a =>
    if beside a then (Output.next cfg s.shared a).map fun o => { s with shared := o } else none

def machine (cfg : Config) : TSys Sys Act where
  init s := s = { shared := start cfg }
  next := next cfg

/-- It has the token. -/
def Stage.owns : Stage → Bool
  | .make _ | .handler _ _ | .relock _ _ => true
  | _ => false

/-- It has a `processDone` channel to close. -/
def Stage.unclosed : Stage → Bool
  | .handler _ _ | .relock _ _ | .close _ => true
  | _ => false

def Sys.Owns (s : Sys) (i : Nat) : Prop := ∃ st, s.threads[i]? = some st ∧ st.owns = true

/-- The cached lines and the counters. -/
def store (f : Forwarder) : List Text × Text × Bool × Nat × Nat × Nat × Nat :=
  (f.cacheLines, f.tmuxOutputPrefix, f.chHasNewLine, f.noNewLineCount, f.discardLines,
    f.discardBytes, f.voidedCapacity)

/-- Something was sent on `writeBufCh`. -/
def sent (f f' : Forwarder) : Prop := f'.writeBufCh ≠ none ∧ f'.writeBufCh ≠ f.writeBufCh

/-! ## What the steps of a handler and of the others leave alone -/

/-- The token with its channels, and the shutdown. -/
structure SameToken (f g : Forwarder) : Prop where
  processing : f.processing = g.processing
  processDone : f.processDone = g.processDone
  doneClosed : f.doneClosed = g.doneClosed
  returned : f.returned = g.returned
  chClosed : f.chClosed = g.chClosed

theorem SameToken.refl (f : Forwarder) : SameToken f f := ⟨rfl, rfl, rfl, rfl, rfl⟩

/-- A handler leaves the token alone until it gives it back. -/
theorem SameToken.survives (g : Forwarder) : Survives (fun _ => True) (SameToken · g) where
  marker h := { h with }
  discard _ h := { h with }
  clear h := { h with }
  cache lim rows _ h := by
    unfold cacheOutput trimCache
    dsimp only
    split <;> exact { h with }
  newLine _ _ h := { h with }
  queue _ h := { h with }
  warned h := { h with }
  lines _ h := { h with }
  pending h := { h with }

theorem ownerStep_sameToken {cfg : Config} {ok : Bool} {s s' : Output.Sys}
    (hend : ¬(s.pc = .endLoop ∧ (s.f.reconnectPending && !s.f.returned) = false))
    (hstep : ownerStep cfg ok s = some s') : SameToken s'.f s.f := by
  refine (SameToken.survives s.f).ownerStep (.refl s.f) (fun _ _ => trivial) (fun hpc => ?_) hstep
  simpa [hpc] using hend

/-- Nothing is cached or counted, and nothing is sent. -/
structure Idle (f f' : Forwarder) : Prop where
  store : store f' = store f
  queue : f'.writeBufCh = f.writeBufCh ∨ f'.writeBufCh = none

theorem Idle.refl (f : Forwarder) : Idle f f := ⟨rfl, .inl rfl⟩

theorem Idle.not_changed {f f' : Forwarder} (h : Idle f f') :
    ¬(Token.store f' ≠ Token.store f ∨ sent f f') := by
  rintro (hstore | ⟨hsome, hne⟩)
  · exact hstore h.store
  · rcases h.queue with hsame | hnone
    · exact hne hsame
    · exact hsome hnone

/-- The writer only takes from the queue, and the checker and the clients set flags
that no handler's state depends on. -/
theorem next_beside {cfg : Config} {a : Output.Act} {s s' : Output.Sys} (ha : beside a = true)
    (hstep : Output.next cfg s a = some s') : SameToken s'.f s.f ∧ Idle s.f s'.f := by
  cases a with
  | owner _ | wake _ | read _ _ | begin | shutdown | onReconnected =>
    exact absurd ha Bool.false_ne_true
  | op ok =>
    simp only [Output.next, opStep] at hstep
    repeat' split at hstep
    all_goals cases hstep
    all_goals exact ⟨⟨rfl, rfl, rfl, rfl, rfl⟩, rfl, .inl rfl⟩
  | dequeue =>
    simp only [Output.next] at hstep
    split at hstep <;> cases hstep
    exact ⟨⟨rfl, rfl, rfl, rfl, rfl⟩, rfl, .inr rfl⟩
  | _ =>
    simp only [Output.next] at hstep
    repeat' split at hstep
    all_goals cases hstep
    all_goals exact ⟨⟨rfl, rfl, rfl, rfl, rfl⟩, rfl, .inl rfl⟩

/-- No wait leads into another. -/
theorem wakeOwner_released {failed : Bool} {s s' : Output.Sys}
    (hstep : wakeOwner failed s = some s') : s'.pc.released = false := by
  unfold wakeOwner wakeOwner.reconnected at hstep
  repeat' split at hstep
  all_goals cases hstep
  all_goals rfl

/-! ## What a goroutine knows at its stage -/

/-- It holds `handleMutex`. -/
def Stage.holds : Stage → Bool
  | .locked _ | .test _ | .busy _ | .take _ | .make _ | .close _ | .unlock _ | .setReturned => true
  | .handler _ pc => !pc.released
  | _ => false

/-- It is between taking the token and closing its channel. -/
def Stage.inside : Stage → Bool
  | .make _ | .handler _ _ | .relock _ _ | .close _ => true
  | _ => false

/-- The handler it is about to run or runs. -/
def Stage.handler? : Stage → Option Handler
  | .lock (.handle h) | .locked (.handle h) | .test (.handle h) | .busy (.handle h)
  | .await (.handle h) _ | .take (.handle h) | .make h | .handler h _ | .relock h _ | .close h
  | .unlock (.handle h) => some h
  | _ => none

/-- How far the shutdown is when `forward` is at a stage. -/
inductive Phase
  | open
  | closing
  | closed
deriving DecidableEq

def Stage.phase : Stage → Phase
  | .lock .shutdown | .locked .shutdown | .test .shutdown | .busy .shutdown
  | .await .shutdown _ | .take .shutdown => .closing
  | .unlock .shutdown | .finished => .closed
  | _ => .open

/-- What the token's flag is at a stage, and that no wait leads into another. -/
def Stage.Flag (f : Forwarder) : Stage → Prop
  | .take _ | .close _ => f.processing = false
  | .make _ | .handler _ _ => f.processing = true
  | .relock _ pc => f.processing = true ∧ pc.released = false
  | _ => True

structure Forward (f : Forwarder) (st : Stage) : Prop where
  handler : st.handler? ≠ some .reconnected
  returned : f.returned = true ↔ st.phase ≠ .open
  chClosed : f.chClosed = true ↔ st.phase = .closed

/-- It has found `returned` unset, and has the mutex since. -/
def Stage.checked : Stage → Bool
  | .test _ | .busy _ | .take _ => true
  | _ => false

structure Notification (f : Forwarder) (st : Stage) : Prop where
  handler : st = .finished ∨ st.handler? = some .reconnected
  returned : st.checked = true → f.returned = false

/-- The goroutine `i` at a stage; the first is `forward`. -/
structure Knows (f : Forwarder) (i : Nat) (st : Stage) : Prop where
  flag : st.Flag f
  forward : i = 0 → Forward f st
  notification : i ≠ 0 → Notification f st
  done : st.unclosed = true →
    0 < f.processDone ∧ f.doneClosed = List.range' 1 (f.processDone - 1)

section Knows

variable {f g : Forwarder} {i : Nat} {st st' : Stage}

/-- Another goroutine moves on. -/
theorem Knows.beside (h : Knows f i st) (hreturned : g.returned = f.returned)
    (hclosed : g.chClosed = f.chClosed) (hflag : st.Flag g)
    (hdone : st.unclosed = true →
      0 < g.processDone ∧ g.doneClosed = List.range' 1 (g.processDone - 1)) : Knows g i st := by
  refine ⟨hflag, ?_, ?_, hdone⟩
  · intro hi
    obtain ⟨hhandler, hret, hcl⟩ := h.forward hi
    exact ⟨hhandler, hreturned ▸ hret, hclosed ▸ hcl⟩
  · intro hi
    obtain ⟨hhandler, hret⟩ := h.notification hi
    exact ⟨hhandler, hreturned ▸ hret⟩

theorem Stage.Flag.congr (h : st.Flag f) (hprocessing : g.processing = f.processing) :
    st.Flag g := by
  unfold Stage.Flag at h ⊢
  rw [hprocessing]
  exact h

theorem Knows.congr (h : Knows f i st) (hsame : SameToken g f) : Knows g i st := by
  refine h.beside hsame.returned hsame.chClosed (h.flag.congr hsame.processing) ?_
  rw [hsame.processDone, hsame.doneClosed]
  exact h.done

/-- The same handler, or the same shutdown, one step on. -/
theorem Knows.along (h : Knows f i st) (hst : st ≠ .finished)
    (hhandler : st'.handler? = st.handler?) (hphase : st'.phase = st.phase)
    (hreturned : g.returned = f.returned) (hclosed : g.chClosed = f.chClosed) (hflag : st'.Flag g)
    (hchecked : i ≠ 0 → st'.checked = true → g.returned = false)
    (hdone : st'.unclosed = true →
      0 < g.processDone ∧ g.doneClosed = List.range' 1 (g.processDone - 1)) : Knows g i st' := by
  refine ⟨hflag, ?_, ?_, hdone⟩
  · intro hi
    obtain ⟨hnot, hret, hcl⟩ := h.forward hi
    exact ⟨hhandler ▸ hnot, hphase ▸ hreturned ▸ hret, hphase ▸ hclosed ▸ hcl⟩
  · intro hi
    obtain ⟨hnot, -⟩ := h.notification hi
    exact ⟨.inr (hhandler.trans (hnot.resolve_left hst)), hchecked hi⟩

theorem Knows.forward_of (h : Knows f i st) (hst : st ≠ .finished)
    (hnot : st.handler? ≠ some .reconnected) : i = 0 := by
  by_contra hne
  exact hnot ((h.notification hne).handler.resolve_left hst)

/-- Behind the `Unlock` at the end of a handler or of the shutdown. -/
theorem Knows.next {job : Job} (h : Knows f i (.unlock job)) : Knows f i job.next := by
  have hnever : ∀ {p : Prop}, false = true → p := fun h => absurd h Bool.false_ne_true
  by_cases hjob : job = .handle .reconnected
  · subst hjob
    exact ⟨trivial, fun hi => absurd rfl (h.forward hi).handler, fun _ => ⟨.inl rfl, hnever⟩, hnever⟩
  · have hnot : (Stage.unlock job).handler? ≠ some .reconnected := by
      cases job with
      | handle hd => exact fun h' => hjob (congrArg Job.handle (Option.some.inj h'))
      | shutdown => simp [Stage.handler?]
    obtain rfl : i = 0 := h.forward_of (by simp) hnot
    obtain ⟨-, hreturned, hclosed⟩ := h.forward rfl
    rcases job with (⟨buf, _ | _⟩ | _ | _) | _
    case handle.reconnected => exact absurd rfl hjob
    all_goals
      exact ⟨trivial, fun _ => ⟨by simp [Job.next, Stage.handler?], hreturned, hclosed⟩,
        fun hne => absurd rfl hne, hnever⟩

end Knows

theorem Handler.entry_released (hd : Handler) : hd.entry.released = false := by
  cases hd <;> rfl

structure Inv (s : Sys) : Prop where
  size : 0 < s.threads.length
  holder : ∀ i, s.mutex = some i → i < s.threads.length
  mutex : ∀ i st, s.threads[i]? = some st → (st.holds = true ↔ s.mutex = some i)
  knows : ∀ i st, s.threads[i]? = some st → Knows s.shared.f i st
  inside : ∀ (i j : Nat) (st st' : Stage), s.threads[i]? = some st → s.threads[j]? = some st' →
    st.inside = true → st'.inside = true → i = j
  allClosed : (∀ st ∈ s.threads, st.unclosed = false) →
    s.shared.f.doneClosed = List.range' 1 s.shared.f.processDone
  ended : s.shared.f.chClosed = true → s.shared.f.returned = true ∧ s.shared.f.processing = false
  closes : s.closes = if s.shared.f.chClosed then 1 else 0

variable {s s' : Sys} {i : Nat} {st st' : Stage}

/-- The mutex is kept, taken or released by the goroutine `i`. -/
def MutexMove (i : Nat) (st' : Stage) (m m' : Option Nat) : Prop :=
  (st'.holds = true ↔ m' = some i) ∧ ∀ j, j ≠ i → (m' = some j ↔ m = some j)

theorem MutexMove.keep {m : Option Nat} (hst : st.holds = true ↔ m = some i)
    (h : st'.holds = st.holds) : MutexMove i st' m m :=
  ⟨h ▸ hst, fun _ _ => Iff.rfl⟩

theorem MutexMove.held (h : st'.holds = true) : MutexMove i st' (some i) (some i) :=
  ⟨by simp [h], fun _ _ => Iff.rfl⟩

theorem MutexMove.acquire (h : st'.holds = true) : MutexMove i st' none (some i) := by
  refine ⟨by simp [h], ?_⟩
  intro j hj
  simp [Ne.symm hj]

theorem MutexMove.release (h : st'.holds = false) : MutexMove i st' (some i) none := by
  refine ⟨by simp [h], ?_⟩
  intro j hj
  simp [Ne.symm hj]

/-- One goroutine moves. What is left to show: what it knows at its new stage, that
the others still know what they did, and that it does not come inside beside
another. -/
theorem Inv.move (h : Inv s) (hi : s.threads[i]? = some st)
    (hthreads : s'.threads = s.threads.set i st') (hmutex : MutexMove i st' s.mutex s'.mutex)
    (hknows : Knows s'.shared.f i st')
    (hothers : ∀ j stj, j ≠ i → s.threads[j]? = some stj → Knows s'.shared.f j stj)
    (hinside : st'.inside = true → st.inside = true ∨
      ∀ j stj, j ≠ i → s.threads[j]? = some stj → stj.inside = false)
    (hall : st'.unclosed = false →
      st.unclosed = false ∧ s'.shared.f.doneClosed = s.shared.f.doneClosed ∧
        s'.shared.f.processDone = s.shared.f.processDone ∨
      s'.shared.f.doneClosed = List.range' 1 s'.shared.f.processDone)
    (hended : s'.shared.f.chClosed = true →
      s'.shared.f.returned = true ∧ s'.shared.f.processing = false)
    (hcloses : s'.closes = if s'.shared.f.chClosed then 1 else 0) : Inv s' := by
  have hlt : i < s.threads.length := (List.getElem?_eq_some_iff.mp hi).1
  have hlength : s'.threads.length = s.threads.length := by rw [hthreads, List.length_set]
  have hmem : st' ∈ s'.threads := by
    rw [hthreads]
    exact List.mem_set hlt st'
  -- the goroutine itself, or another one at its old stage
  have hcases : ∀ j stj, s'.threads[j]? = some stj →
      (j = i ∧ stj = st') ∨ (j ≠ i ∧ s.threads[j]? = some stj) := by
    rw [hthreads]
    refine forall_thread_set (.inl ⟨rfl, rfl⟩) ?_
    intro j stj hij hj
    exact .inr ⟨Ne.symm hij, hj⟩
  refine ⟨hlength ▸ h.size, ?_, ?_, ?_, ?_, ?_, hended, hcloses⟩
  · intro j hj
    rw [hlength]
    by_cases hji : j = i
    · exact hji ▸ hlt
    · exact h.holder j ((hmutex.2 j hji).mp hj)
  · intro j stj hj
    rcases hcases j stj hj with ⟨rfl, rfl⟩ | ⟨hne, hold⟩
    · exact hmutex.1
    · rw [hmutex.2 j hne]
      exact h.mutex j stj hold
  · intro j stj hj
    rcases hcases j stj hj with ⟨rfl, rfl⟩ | ⟨hne, hold⟩
    · exact hknows
    · exact hothers j stj hne hold
  · -- two inside: one of them was not before, and then it came in alone
    have halone : ∀ j stj, j ≠ i → s.threads[j]? = some stj → stj.inside = true →
        st'.inside = true → j = i := by
      intro j stj hne hold hin hin'
      rcases hinside hin' with hst | hnone
      · exact h.inside j i stj st hold hi hin hst
      · exact absurd ((hnone j stj hne hold).symm.trans hin) Bool.false_ne_true
    intro j k stj stk hj hk hinj hink
    rcases hcases j stj hj with ⟨rfl, rfl⟩ | ⟨hnej, holdj⟩ <;>
      rcases hcases k stk hk with ⟨rfl, rfl⟩ | ⟨hnek, holdk⟩
    · rfl
    · exact (halone k stk hnek holdk hink hinj).symm
    · exact halone j stj hnej holdj hinj hink
    · exact h.inside j k stj stk holdj holdk hinj hink
  · intro hclosed
    rcases hall (hclosed st' hmem) with ⟨hst, hdone, hmade⟩ | hdone
    · rw [hdone, hmade]
      refine h.allClosed ?_
      intro stj hstj
      obtain ⟨j, hj⟩ := List.mem_iff_getElem?.mp hstj
      by_cases hji : j = i
      · subst hji
        rw [hi] at hj
        cases hj
        exact hst
      · refine hclosed stj (List.mem_iff_getElem?.mpr ⟨j, ?_⟩)
        rw [hthreads, List.getElem?_set_ne (Ne.symm hji)]
        exact hj
    · exact hdone

/-- A move that leaves the token and the shutdown as they are. -/
theorem Inv.stay (h : Inv s) (hi : s.threads[i]? = some st)
    (hthreads : s'.threads = s.threads.set i st') (hmutex : MutexMove i st' s.mutex s'.mutex)
    (hsame : SameToken s'.shared.f s.shared.f) (hcloses : s'.closes = s.closes)
    (hknows : Knows s.shared.f i st') (hinside : st'.inside = true → st.inside = true)
    (hunclosed : st'.unclosed = false → st.unclosed = false) : Inv s' := by
  refine h.move hi hthreads hmutex (hknows.congr hsame) ?_ (fun hin => .inl (hinside hin)) ?_ ?_ ?_
  · intro j stj _ hj
    exact (h.knows j stj hj).congr hsame
  · intro hclosed
    exact .inl ⟨hunclosed hclosed, hsame.doneClosed, hsame.processDone⟩
  · rw [hsame.chClosed, hsame.returned, hsame.processing]
    exact h.ended
  · rw [hcloses, hsame.chClosed]
    exact h.closes

/-- Only one goroutine holds the mutex. -/
theorem Inv.holds_unique (h : Inv s) (hi : s.threads[i]? = some st) (hst : st.holds = true)
    {j : Nat} (hj : s.threads[j]? = some st') (hst' : st'.holds = true) : j = i := by
  have hmi := (h.mutex i st hi).mp hst
  have hmj := (h.mutex j st' hj).mp hst'
  exact Option.some.inj (hmj.symm.trans hmi)

/-- Nobody else is inside with it. -/
theorem Inv.inside_unique (h : Inv s) (hi : s.threads[i]? = some st) (hst : st.inside = true)
    {j : Nat} (hne : j ≠ i) (hj : s.threads[j]? = some st') : st'.inside = false := by
  cases hin : st'.inside with
  | false => rfl
  | true => exact absurd (h.inside j i st' st hj hi hin hst) hne

theorem Stage.inside_of_unclosed (h : st.unclosed = true) : st.inside = true := by
  cases st <;> first | rfl | exact absurd h Bool.false_ne_true

theorem Stage.holds_of_checked (h : st.checked = true) : st.holds = true := by
  cases st <;> first | rfl | exact absurd h Bool.false_ne_true

/-- Behind the test of `returned` a notification knows its result. -/
theorem Inv.not_returned (h : Inv s) (hi : s.threads[i]? = some st) (hst : st.checked = true) :
    i ≠ 0 → s.shared.f.returned = false :=
  fun hne => ((h.knows i st hi).notification hne).returned hst

/-! ## Every step -/

section Steps

variable (h : Inv s)
include h

theorem Inv.locked {job : Job} (hi : s.threads[i]? = some (.locked job)) : Inv (s.locked i job) := by
  have hm := h.mutex i _ hi
  have hk := h.knows i _ hi
  unfold Sys.locked
  split
  case h_1 =>
    split
    · refine h.stay hi rfl (.keep hm rfl) (.refl _) rfl ?_ id id
      exact hk.along (by simp) rfl rfl rfl rfl trivial (fun _ h => absurd h Bool.false_ne_true)
        hk.done
    case isFalse hreturned =>
      refine h.stay hi rfl (.keep hm rfl) (.refl _) rfl ?_ id id
      exact hk.along (by simp) rfl rfl rfl rfl trivial
        (fun _ _ => Bool.not_eq_true _ ▸ hreturned) hk.done
  case h_2 hjob =>
    refine h.stay hi rfl (.keep hm rfl) (.refl _) rfl ?_ id id
    refine hk.along (by simp) (by cases job <;> rfl) (by cases job <;> rfl) rfl rfl trivial ?_
      hk.done
    -- a notification has come through the other branch
    intro hne _
    rcases (hk.notification hne).handler with h' | h'
    · cases h'
    · cases job with
      | handle hd => exact absurd (congrArg Job.handle (Option.some.inj h')) hjob
      | shutdown => cases h'

theorem Inv.test {job : Job} (hi : s.threads[i]? = some (.test job)) (st' : Stage)
    (hst' : st' = .busy job ∨ st' = .take job ∧ s.shared.f.processing = false) :
    Inv (s.goto i st') := by
  have hm := h.mutex i _ hi
  have hk := h.knows i _ hi
  have hreturned := h.not_returned hi rfl
  rcases hst' with rfl | ⟨rfl, hfree⟩
  · refine h.stay hi rfl (.keep hm rfl) (.refl _) rfl ?_ id id
    exact hk.along (by simp) (by cases job <;> rfl) (by cases job <;> rfl) rfl rfl trivial
      (fun hne _ => hreturned hne) hk.done
  · refine h.stay hi rfl (.keep hm rfl) (.refl _) rfl ?_ id id
    exact hk.along (by simp) (by cases job <;> rfl) (by cases job <;> rfl) rfl rfl hfree
      (fun hne _ => hreturned hne) hk.done

theorem Inv.busy {job : Job} (hi : s.threads[i]? = some (.busy job)) : Inv (s.busy i job) := by
  have hm := h.mutex i _ hi
  have hk := h.knows i _ hi
  unfold Sys.busy
  split
  case h_1 =>
    refine h.stay hi rfl (.keep hm rfl) ⟨rfl, rfl, rfl, rfl, rfl⟩ rfl ?_ id id
    exact hk.along (by simp) rfl rfl rfl rfl trivial (fun _ h => absurd h Bool.false_ne_true)
      hk.done
  case h_2 =>
    refine h.stay hi rfl (hm.mp rfl ▸ .release rfl) (.refl _) rfl ?_ id id
    exact hk.along (by simp) (by cases job <;> rfl) (by cases job <;> rfl) rfl rfl trivial
      (fun _ h => absurd h Bool.false_ne_true) hk.done

/-- The flag is free and the mutex its own: nobody is inside. -/
theorem Inv.nobody_inside {job : Job} (hi : s.threads[i]? = some (.take job)) {j : Nat}
    (hne : j ≠ i) (hj : s.threads[j]? = some st) : st.inside = false := by
  have hfree : s.shared.f.processing = false := (h.knows i _ hi).flag
  have hflag := (h.knows j st hj).flag
  cases st with
  | close hd => exact absurd (h.holds_unique hi rfl hj rfl) hne
  | make hd => exact absurd (hfree.symm.trans hflag) Bool.false_ne_true
  | handler hd pc => exact absurd (hfree.symm.trans hflag) Bool.false_ne_true
  | relock hd pc => exact absurd (hfree.symm.trans hflag.1) Bool.false_ne_true
  | _ => rfl

theorem Inv.takeToken {hd : Handler} (hi : s.threads[i]? = some (.take (.handle hd))) :
    Inv (s.take i (.handle hd)) := by
  have hk := h.knows i _ hi
  have hopen : s.shared.f.chClosed = true → False := by
    intro hclosed
    by_cases hzero : i = 0
    · cases (hk.forward hzero).chClosed.mp hclosed
    · have hreturned := h.not_returned hi rfl hzero
      exact absurd (hreturned.symm.trans (h.ended hclosed).1) Bool.false_ne_true
  refine h.move hi rfl (.keep (h.mutex i _ hi) rfl) ?_ ?_ ?_ ?_ (fun hc => (hopen hc).elim) h.closes
  · exact hk.along (by simp) rfl rfl rfl rfl rfl (fun _ h => absurd h Bool.false_ne_true) hk.done
  · -- the others: those that rely on the flag being free hold the mutex
    intro j stj hne hj
    have hkj := h.knows j stj hj
    have hnot : stj.holds = true → False := fun hst => hne (h.holds_unique hi rfl hj hst)
    refine hkj.beside rfl rfl ?_ hkj.done
    cases stj with
    | take job => exact (hnot rfl).elim
    | close hd' => exact (hnot rfl).elim
    | make hd' => rfl
    | handler hd' pc => rfl
    | relock hd' pc => exact ⟨rfl, hkj.flag.2⟩
    | _ => trivial
  · intro _
    exact .inr fun j stj hne hj => h.nobody_inside hi hne hj
  · intro _
    exact .inl ⟨rfl, rfl, rfl⟩

theorem Inv.closeQueue (hi : s.threads[i]? = some (.take .shutdown)) :
    Inv (s.take i .shutdown) := by
  have hk := h.knows i _ hi
  obtain rfl : i = 0 := hk.forward_of (by simp) (by simp [Stage.handler?])
  obtain ⟨-, hreturned, hclosed⟩ := hk.forward rfl
  have hdown : s.shared.f.returned = true := hreturned.mpr (by simp [Stage.phase])
  have hopen : s.shared.f.chClosed = false := by simpa [Stage.phase] using hclosed
  refine h.move hi rfl (.keep (h.mutex 0 _ hi) rfl) ?_ ?_ (fun hin => absurd hin Bool.false_ne_true)
    (fun _ => .inl ⟨rfl, rfl, rfl⟩) (fun _ => ⟨hdown, hk.flag⟩) ?_
  · refine ⟨trivial, fun _ => ⟨by simp [Stage.handler?], ?_, ?_⟩, fun hne => absurd rfl hne,
      fun h => absurd h Bool.false_ne_true⟩
    · exact ⟨fun _ => by simp [Stage.phase], fun _ => hdown⟩
    · exact ⟨fun _ => rfl, fun _ => rfl⟩
  · intro j stj hne hj
    obtain ⟨hflag, -, hnotification, hdone⟩ := h.knows j stj hj
    exact ⟨hflag, fun hz => absurd hz hne,
      fun hz => ⟨(hnotification hz).1, (hnotification hz).2⟩, hdone⟩
  · show s.closes + 1 = 1
    rw [h.closes, hopen]
    rfl

/-- A channel is made or closed: no other goroutine has one to close. -/
theorem Inv.others_done (hi : s.threads[i]? = some st) (hst : st.inside = true)
    {f : Forwarder} (hprocessing : f.processing = s.shared.f.processing)
    (hreturned : f.returned = s.shared.f.returned) (hclosed : f.chClosed = s.shared.f.chClosed) :
    ∀ j stj, j ≠ i → s.threads[j]? = some stj → Knows f j stj := by
  intro j stj hne hj
  have hkj := h.knows j stj hj
  refine hkj.beside hreturned hclosed (hkj.flag.congr hprocessing) ?_
  intro hun
  have hin := h.inside_unique hi hst hne hj
  exact absurd (hin.symm.trans (Stage.inside_of_unclosed hun)) Bool.false_ne_true

theorem Inv.make {hd : Handler} (hi : s.threads[i]? = some (.make hd)) :
    Inv ((s.withF { s.shared.f with processDone := s.shared.f.processDone + 1 }).goto i
      (.handler hd hd.entry)) := by
  have hk := h.knows i _ hi
  have hall : s.shared.f.doneClosed = List.range' 1 s.shared.f.processDone := by
    refine h.allClosed ?_
    intro stj hstj
    obtain ⟨j, hj⟩ := List.mem_iff_getElem?.mp hstj
    by_cases hji : j = i
    · subst hji
      rw [hi] at hj
      cases hj
      rfl
    · by_contra hun
      have hin := h.inside_unique hi rfl hji hj
      rw [Bool.not_eq_false] at hun
      exact absurd (hin.symm.trans (Stage.inside_of_unclosed hun)) Bool.false_ne_true
  refine h.move hi rfl (.keep (h.mutex i _ hi) ?_) ?_ (h.others_done hi rfl rfl rfl rfl)
    (fun _ => .inl rfl) (fun h => absurd h.symm Bool.false_ne_true) h.ended h.closes
  · simp [Stage.holds, hd.entry_released]
  · exact hk.along (by simp) rfl rfl rfl rfl hk.flag (fun _ h => absurd h Bool.false_ne_true)
      fun _ => ⟨Nat.succ_pos _, hall⟩

theorem Inv.close {hd : Handler} (hi : s.threads[i]? = some (.close hd)) :
    Inv ((s.withF { s.shared.f with
      doneClosed := s.shared.f.doneClosed ++ [s.shared.f.processDone] }).goto i
        (.unlock (.handle hd))) := by
  have hk := h.knows i _ hi
  obtain ⟨hpos, hdone⟩ := hk.done rfl
  refine h.move hi rfl (.keep (h.mutex i _ hi) rfl) ?_ (h.others_done hi rfl rfl rfl rfl)
    (fun hin => absurd hin Bool.false_ne_true) (fun _ => .inr ?_) h.ended h.closes
  · exact hk.along (by simp) rfl rfl rfl rfl trivial (fun _ h => absurd h Bool.false_ne_true)
      fun h => absurd h Bool.false_ne_true
  · show s.shared.f.doneClosed ++ [s.shared.f.processDone] = List.range' 1 s.shared.f.processDone
    rw [hdone]
    obtain ⟨n, hn⟩ := Nat.exists_eq_succ_of_ne_zero (Nat.ne_of_gt hpos)
    rw [hn, Nat.succ_sub_one, Nat.succ_eq_add_one, List.range'_1_concat, Nat.add_comm 1 n]

/-- The end of `endProcessing`. -/
theorem Inv.endProcessing {hd : Handler} {pc : Pc} (hi : s.threads[i]? = some (.handler hd pc))
    (hpc : pc.released = false) :
    Inv ((s.withF { s.shared.f with processing := false }).goto i (.close hd)) := by
  have hk := h.knows i _ hi
  have hholds : (Stage.close hd).holds = (Stage.handler hd pc).holds := by simp [Stage.holds, hpc]
  refine h.move hi rfl (.keep (h.mutex i _ hi) hholds) ?_ ?_ (fun _ => .inl rfl)
    (fun h => absurd h.symm Bool.false_ne_true) (fun hc => ⟨(h.ended hc).1, rfl⟩) h.closes
  · exact hk.along (by simp) rfl rfl rfl rfl rfl (fun _ h => absurd h Bool.false_ne_true) hk.done
  · intro j stj hne hj
    have hkj := h.knows j stj hj
    have hin := h.inside_unique hi rfl hne hj
    refine hkj.beside rfl rfl ?_ hkj.done
    cases stj with
    | make hd' | handler hd' pc | relock hd' pc => exact absurd hin.symm Bool.false_ne_true
    | take job | close hd' => rfl
    | _ => trivial

/-- A step of a handler under the mutex, which it may release behind it. -/
theorem Inv.body {hd : Handler} {pc : Pc} {o : Output.Sys}
    (hi : s.threads[i]? = some (.handler hd pc)) (hpc : pc.released = false)
    (hsame : SameToken o.f s.shared.f) :
    Inv ({ s with shared := o, mutex := if o.pc.released then none else s.mutex }.goto i
      (.handler hd o.pc)) := by
  have hk := h.knows i _ hi
  have hm : s.mutex = some i := (h.mutex i _ hi).mp (by simp [Stage.holds, hpc])
  refine h.stay hi rfl ?_ hsame rfl ?_ id id
  · show MutexMove i (.handler hd o.pc) s.mutex (if o.pc.released then none else s.mutex)
    rw [hm]
    split
    · exact .release (by simp [Stage.holds, *])
    · exact .held (by simp_all [Stage.holds])
  · exact hk.along (by simp) rfl rfl rfl rfl hk.flag (fun _ h => absurd h Bool.false_ne_true)
      hk.done

theorem Inv.wake {hd : Handler} {pc pc' : Pc} (hi : s.threads[i]? = some (.handler hd pc))
    (hpc : pc.released = true) (hpc' : pc'.released = false) : Inv (s.goto i (.relock hd pc')) := by
  have hk := h.knows i _ hi
  have hholds : (Stage.relock hd pc').holds = (Stage.handler hd pc).holds := by
    simp [Stage.holds, hpc]
  refine h.stay hi rfl (.keep (h.mutex i _ hi) hholds) (.refl _) rfl ?_ id id
  exact hk.along (by simp) rfl rfl rfl rfl ⟨hk.flag, hpc'⟩
    (fun _ h => absurd h Bool.false_ne_true) hk.done

theorem Inv.handle {cfg : Config} {ok : Bool} {hd : Handler} {pc : Pc}
    (hi : s.threads[i]? = some (.handler hd pc)) (hstep : s.handle cfg ok i hd pc = some s') :
    Inv s' := by
  unfold Sys.handle at hstep
  split at hstep
  case isTrue hpc =>
    obtain ⟨o, ho, rfl⟩ := Option.map_eq_some_iff.mp hstep
    exact h.wake hi hpc (wakeOwner_released ho)
  case isFalse hpc =>
    rw [Bool.not_eq_true] at hpc
    split at hstep
    · cases hstep
      exact h.endProcessing hi hpc
    case isFalse hend =>
      obtain ⟨o, ho, rfl⟩ := Option.map_eq_some_iff.mp hstep
      have hsame : SameToken o.f (s.shared.goto pc).f := ownerStep_sameToken hend ho
      exact h.body hi hpc hsame

theorem Inv.unlock {job : Job} (hi : s.threads[i]? = some (.unlock job)) :
    Inv ({ s with mutex := none }.goto i job.next) := by
  have hk := h.knows i _ hi
  have hm := (h.mutex i _ hi).mp rfl
  have hrest : job.next.holds = false ∧ job.next.inside = false := by
    rcases job with (⟨buf, _ | _⟩ | _ | _) | _ <;> exact ⟨rfl, rfl⟩
  refine h.stay hi rfl (hm ▸ .release hrest.1) (.refl _) rfl hk.next ?_ fun _ => rfl
  exact fun hin => absurd (hrest.2.symm.trans hin) Bool.false_ne_true

theorem Inv.setReturned (hi : s.threads[i]? = some .setReturned) :
    Inv ((s.withF { s.shared.f with returned := true }).goto i (.test .shutdown)) := by
  have hk := h.knows i _ hi
  obtain rfl : i = 0 := hk.forward_of (by simp) (by simp [Stage.handler?])
  obtain ⟨-, -, hclosed⟩ := hk.forward rfl
  have hopen : s.shared.f.chClosed = true → False := fun hc => by cases hclosed.mp hc
  refine h.move hi rfl (.keep (h.mutex 0 _ hi) rfl) ?_ ?_ (fun hin => absurd hin Bool.false_ne_true)
    (fun _ => .inl ⟨rfl, rfl, rfl⟩) (fun hc => (hopen hc).elim) h.closes
  · refine ⟨trivial, fun _ => ⟨by simp [Stage.handler?], ?_, ?_⟩, fun hne => absurd rfl hne,
      fun h => absurd h Bool.false_ne_true⟩
    · exact ⟨fun _ => by simp [Stage.phase], fun _ => rfl⟩
    · exact ⟨fun hc => (hopen hc).elim, fun hp => by cases hp⟩
  · -- a notification behind its test of `returned` would hold the mutex
    intro j stj hne hj
    obtain ⟨hflag, -, hnotification, hdone⟩ := h.knows j stj hj
    refine ⟨hflag, fun hz => absurd hz hne, fun hz => ⟨(hnotification hz).1, ?_⟩, hdone⟩
    intro hchecked
    exact absurd (h.holds_unique hi rfl hj (Stage.holds_of_checked hchecked)) hne

theorem Inv.run {cfg : Config} {ok : Bool} (hi : s.threads[i]? = some st)
    (hstep : s.run cfg i ok st = some s') : Inv s' := by
  have hk := h.knows i _ hi
  have hm := h.mutex i _ hi
  unfold Sys.run at hstep
  cases st with
  | reading | finished => cases hstep
  | lock job =>
    simp only at hstep
    split at hstep
    case isTrue hfree =>
      cases hstep
      refine h.stay hi rfl (hfree ▸ .acquire rfl) (.refl _) rfl ?_ id id
      exact hk.along (by simp) (by cases job <;> rfl) (by cases job <;> rfl) rfl rfl trivial
        (fun _ h => absurd h Bool.false_ne_true) hk.done
    case isFalse => cases hstep
  | locked job =>
    cases hstep
    exact h.locked hi
  | test job =>
    simp only at hstep
    split at hstep
    · cases hstep
      exact h.test hi _ (.inl rfl)
    case isFalse hfree =>
      cases hstep
      exact h.test hi _ (.inr ⟨rfl, Bool.not_eq_true _ ▸ hfree⟩)
  | busy job =>
    cases hstep
    exact h.busy hi
  | await job done =>
    simp only at hstep
    split at hstep
    · cases hstep
      refine h.stay hi rfl (.keep hm rfl) (.refl _) rfl ?_ id id
      exact hk.along (by simp) (by cases job <;> rfl) (by cases job <;> rfl) rfl rfl trivial
        (fun _ h => absurd h Bool.false_ne_true) hk.done
    · cases hstep
  | take job =>
    cases hstep
    cases job with
    | handle hd => exact h.takeToken hi
    | shutdown => exact h.closeQueue hi
  | make hd =>
    cases hstep
    exact h.make hi
  | handler hd pc => exact h.handle hi hstep
  | relock hd pc =>
    simp only at hstep
    split at hstep
    case isTrue hfree =>
      cases hstep
      refine h.stay hi rfl (hfree ▸ .acquire (by simp [Stage.holds, hk.flag.2])) (.refl _) rfl ?_
        id id
      exact hk.along (by simp) rfl rfl rfl rfl hk.flag.1
        (fun _ h => absurd h Bool.false_ne_true) hk.done
    case isFalse => cases hstep
  | close hd =>
    cases hstep
    exact h.close hi
  | unlock job =>
    cases hstep
    exact h.unlock hi
  | returning =>
    simp only at hstep
    split at hstep
    case isTrue hfree =>
      cases hstep
      refine h.stay hi rfl (hfree ▸ .acquire rfl) (.refl _) rfl ?_ id id
      exact hk.along (by simp) rfl rfl rfl rfl trivial
        (fun _ h => absurd h Bool.false_ne_true) hk.done
    case isFalse => cases hstep
  | setReturned =>
    cases hstep
    exact h.setReturned hi

theorem Inv.read (hi : s.threads[0]? = some .reading) (st' : Stage)
    (hst' : st' = .reading ∨ ∃ hd, hd ≠ .reconnected ∧ st' = .lock (.handle hd)) :
    Inv (s.goto 0 st') := by
  have hm := h.mutex 0 _ hi
  obtain ⟨-, hreturned, hclosed⟩ := (h.knows 0 _ hi).forward rfl
  rcases hst' with rfl | ⟨hd, hne, rfl⟩
  · exact h.stay hi rfl (.keep hm rfl) (.refl _) rfl (h.knows 0 _ hi) id id
  · refine h.stay hi rfl (.keep hm rfl) (.refl _) rfl ?_ id id
    refine ⟨trivial, fun _ => ⟨?_, hreturned, hclosed⟩, fun hne => absurd rfl hne,
      fun h => absurd h Bool.false_ne_true⟩
    exact fun h' => hne (Option.some.inj h')

/-- A new notification waits for the mutex first. -/
theorem Inv.spawn : Inv { s with threads := s.threads ++ [.lock (.handle .reconnected)] } := by
  have hcases : ∀ j stj, (s.threads ++ [.lock (.handle .reconnected)])[j]? = some stj →
      (j = s.threads.length ∧ stj = .lock (.handle .reconnected)) ∨ s.threads[j]? = some stj :=
    forall_thread_append (.inl ⟨rfl, rfl⟩) fun _ _ hj => .inr hj
  refine ⟨?_, ?_, ?_, ?_, ?_, ?_, h.ended, h.closes⟩
  · simp
  · intro j hj
    have := h.holder j hj
    simp only [List.length_append]
    omega
  · intro j stj hj
    rcases hcases j stj hj with ⟨rfl, rfl⟩ | hold
    · simp only [Stage.holds, Bool.false_eq_true, false_iff]
      exact fun hm => Nat.lt_irrefl _ (h.holder _ hm)
    · exact h.mutex j stj hold
  · intro j stj hj
    rcases hcases j stj hj with ⟨rfl, rfl⟩ | hold
    · refine ⟨trivial, fun hz => absurd hz (Nat.ne_of_gt h.size), fun _ => ⟨.inr rfl, ?_⟩, ?_⟩ <;>
        exact fun h => absurd h Bool.false_ne_true
    · exact h.knows j stj hold
  · intro j k stj stk hj hk hinj hink
    rcases hcases j stj hj with ⟨-, rfl⟩ | holdj
    · exact absurd hinj Bool.false_ne_true
    rcases hcases k stk hk with ⟨-, rfl⟩ | holdk
    · exact absurd hink Bool.false_ne_true
    exact h.inside j k stj stk holdj holdk hinj hink
  · intro hclosed
    exact h.allClosed fun st hst => hclosed st (List.mem_append_left _ hst)

theorem Inv.beside {o : Output.Sys} (hsame : SameToken o.f s.shared.f) :
    Inv { s with shared := o } := by
  refine ⟨h.size, h.holder, h.mutex, ?_, h.inside, ?_, ?_, ?_⟩
  · exact fun j stj hj => (h.knows j stj hj).congr hsame
  · show _ → o.f.doneClosed = List.range' 1 o.f.processDone
    rw [hsame.doneClosed, hsame.processDone]
    exact h.allClosed
  · show o.f.chClosed = true → o.f.returned = true ∧ o.f.processing = false
    rw [hsame.chClosed, hsame.returned, hsame.processing]
    exact h.ended
  · show s.closes = if o.f.chClosed then 1 else 0
    rw [hsame.chClosed]
    exact h.closes

theorem Inv.next {cfg : Config} {a : Act} (hstep : next cfg s a = some s') : Inv s' := by
  unfold Token.next at hstep
  cases a with
  | run i ok =>
    simp only at hstep
    split at hstep
    · exact h.run ‹_› hstep
    · cases hstep
  | read bytes eof =>
    simp only at hstep
    split at hstep
    case isTrue hi =>
      split at hstep <;> cases hstep
      · refine h.read hi _ ?_
        split
        · exact .inr ⟨.error, by simp, rfl⟩
        · exact .inl rfl
      · exact h.read hi _ (.inr ⟨.buffer (plain bytes) eof, by simp, rfl⟩)
    case isFalse => cases hstep
  | onReconnected =>
    cases hstep
    exact h.spawn
  | beside a =>
    simp only at hstep
    split at hstep
    case isTrue ha =>
      obtain ⟨o, ho, rfl⟩ := Option.map_eq_some_iff.mp hstep
      exact h.beside (next_beside ha ho).1
    case isFalse => cases hstep

end Steps

theorem inv_reachable {cfg : Config} (hs : (machine cfg).Reachable s) : Inv s := by
  refine TSys.ReachableVia.invariant ?_ ?_ hs
  · rintro s rfl
    refine ⟨by simp, (by rintro _ ⟨⟩), ?_, ?_, ?_, fun _ => rfl,
      fun h => absurd h Bool.false_ne_true, rfl⟩
    · rintro (_ | i) st h
      · cases h
        simp [Stage.holds]
      · cases h
    · rintro (_ | i) st h
      · cases h
        refine ⟨trivial, fun _ => ⟨by simp [Stage.handler?], ?_, ?_⟩, fun h => absurd rfl h,
          fun h => absurd h Bool.false_ne_true⟩
        · simp [start, Stage.phase]
        · simp [start, Stage.phase]
      · cases h
    · rintro (_ | i) (_ | j) st st' h h'
      · exact fun _ _ => rfl
      · cases h'
      · cases h
      · cases h
  · intro s a s' h _ hnext
    exact h.next hnext

/-! ## The token and the shutdown -/

/-- A goroutine outside of a handler's steps leaves the lines, the counters and the
queue alone. -/
theorem run_idle {cfg : Config} {ok : Bool} (hst : st.holds = false ∨ st.owns = false)
    (hstep : s.run cfg i ok st = some s') : Idle s.shared.f s'.shared.f := by
  unfold Sys.run at hstep
  cases st with
  | reading | finished => cases hstep
  | lock job | relock hd pc | await job done | returning =>
    simp only at hstep
    split at hstep <;> cases hstep
    exact .refl _
  | test job =>
    simp only at hstep
    split at hstep <;> cases hstep <;> exact .refl _
  | locked job =>
    cases hstep
    unfold Sys.locked
    repeat' split
    all_goals exact .refl _
  | busy job =>
    cases hstep
    unfold Sys.busy
    split <;> exact ⟨rfl, .inl rfl⟩
  | take job =>
    cases hstep
    cases job <;> exact ⟨rfl, .inl rfl⟩
  | make hd | close hd | unlock job | setReturned =>
    cases hstep
    exact ⟨rfl, .inl rfl⟩
  | handler hd pc =>
    have hreleased : pc.released = true := by simpa [Stage.holds, Stage.owns] using hst
    simp only [Sys.handle, hreleased, if_true] at hstep
    obtain ⟨o, -, rfl⟩ := Option.map_eq_some_iff.mp hstep
    exact .refl _

/-- A step that caches, counts or sends is a step of the goroutine that has the token
and the mutex. -/
theorem owner_of_change {cfg : Config} {a : Act} (h : Inv s) (hstep : next cfg s a = some s')
    (hchange : store s'.shared.f ≠ store s.shared.f ∨ sent s.shared.f s'.shared.f) :
    ∃ i ok, a = .run i ok ∧ s.Owns i ∧ s.mutex = some i := by
  have hidle : ¬Idle s.shared.f s'.shared.f := fun hidle => hidle.not_changed hchange
  unfold next at hstep
  cases a with
  | run i ok =>
    simp only at hstep
    split at hstep
    case h_1 st hi =>
      by_cases hst : st.holds = true ∧ st.owns = true
      · exact ⟨i, ok, rfl, ⟨st, hi, hst.2⟩, (h.mutex i st hi).mp hst.1⟩
      · rw [Classical.not_and_iff_not_or_not, Bool.not_eq_true, Bool.not_eq_true] at hst
        exact absurd (run_idle hst hstep) hidle
    case h_2 => cases hstep
  | read bytes eof =>
    simp only at hstep
    repeat' split at hstep
    all_goals cases hstep
    all_goals exact absurd (.refl _) hidle
  | onReconnected =>
    cases hstep
    exact absurd (.refl _) hidle
  | beside a =>
    simp only at hstep
    split at hstep
    case isTrue ha =>
      obtain ⟨o, ho, rfl⟩ := Option.map_eq_some_iff.mp hstep
      exact absurd (next_beside ha ho).2 hidle
    case isFalse => cases hstep

theorem Stage.inside_of_owns (h : st.owns = true) : st.inside = true := by
  cases st <;> first | rfl | exact absurd h Bool.false_ne_true

/-- Behind the close of the queue nobody has the token. -/
theorem Inv.not_owns_closed (h : Inv s) (hclosed : s.shared.f.chClosed = true) (i : Nat) :
    ¬s.Owns i := by
  rintro ⟨st, hi, howns⟩
  have hfree := (h.ended hclosed).2
  have hflag := (h.knows i st hi).flag
  cases st with
  | make hd | handler hd pc => exact absurd (hfree.symm.trans hflag) Bool.false_ne_true
  | relock hd pc => exact absurd (hfree.symm.trans hflag.1) Bool.false_ne_true
  | _ => exact absurd howns Bool.false_ne_true

/-- Some goroutine has a `processDone` channel to close. -/
def Sys.closesLater (s : Sys) : Bool := s.threads.any Stage.unclosed

/-- Every channel made was closed once, but for the one that is still to be closed. -/
theorem Inv.doneClosed (h : Inv s) :
    s.shared.f.doneClosed =
      List.range' 1 (s.shared.f.processDone - if s.closesLater then 1 else 0) := by
  by_cases hlater : s.closesLater = true
  · obtain ⟨st, hst, hun⟩ := List.any_eq_true.mp hlater
    obtain ⟨i, hi⟩ := List.mem_iff_getElem?.mp hst
    rw [if_pos hlater]
    exact ((h.knows i st hi).done hun).2
  · rw [if_neg hlater]
    refine h.allClosed ?_
    simpa [Sys.closesLater] using hlater

/-- **The token and the shutdown are safe.** At most one goroutine has the token, and
only it caches, counts or sends, under the mutex. Every `processDone` channel that was
made is closed once, or its handler has still to close it. `writeBufCh` is closed once,
by the time `forward` is finished, and nobody has the token behind that. -/
theorem token_safe {cfg : Config} (hs : (machine cfg).Reachable s) :
    (∀ i j, s.Owns i → s.Owns j → i = j) ∧
    (∀ a s', next cfg s a = some s' →
      store s'.shared.f ≠ store s.shared.f ∨ sent s.shared.f s'.shared.f →
        ∃ i ok, a = .run i ok ∧ s.Owns i ∧ s.mutex = some i) ∧
    (∀ c, 0 < c → c ≤ s.shared.f.processDone → s.shared.f.doneClosed.count c =
      if c = s.shared.f.processDone ∧ s.closesLater = true then 0 else 1) ∧
    s.closes ≤ 1 ∧ (s.threads[0]? = some .finished → s.closes = 1) ∧
    (0 < s.closes → ∀ i, ¬s.Owns i) := by
  have h := inv_reachable hs
  refine ⟨?_, fun a s' hstep hchange => owner_of_change h hstep hchange, ?_, ?_, ?_, ?_⟩
  · rintro i j ⟨st, hi, hst⟩ ⟨st', hj, hst'⟩
    exact h.inside i j st st' hi hj (Stage.inside_of_owns hst) (Stage.inside_of_owns hst')
  · intro c hpos hmade
    rw [h.doneClosed, List.Nodup.count List.nodup_range']
    simp only [List.mem_range'_1]
    by_cases hlater : s.closesLater = true
    · simp only [hlater, and_true, if_true]
      split <;> split <;> omega
    · simp only [hlater, and_false, if_false, Bool.false_eq_true]
      rw [if_pos (by omega)]
  · rw [h.closes]
    split <;> omega
  · intro hfinished
    have hclosed := ((h.knows 0 _ hfinished).forward rfl).chClosed.mpr rfl
    rw [h.closes, if_pos hclosed]
  · intro hpos
    refine h.not_owns_closed ?_
    rw [h.closes] at hpos
    by_contra hopen
    rw [if_neg hopen] at hpos
    exact Nat.lt_irrefl 0 hpos

/-- Steps of one goroutine. -/
def goes (thread n : Nat) : List Act := List.replicate n (.run thread true)

/-- A notification comes while `forward` waits for the queue with the token, and
another one when everything is over. -/
def lateNotification : List Act :=
  .read [97, 10] false :: goes 0 15 ++ .read [98, 10] true :: goes 0 13 ++
    .onReconnected :: .onReconnected :: goes 1 5 ++ .beside .dequeue :: goes 0 23 ++ goes 2 3

theorem token_safe_lateNotification :
    ∃ s, (machine {}).Reachable s ∧ s.threads = [.finished, .finished, .finished] ∧
      s.shared.f.processDone = 3 ∧ s.shared.f.doneClosed.count 2 = 1 ∧ s.closes = 1 ∧
      ∀ i, ¬s.Owns i := by
  have hrun : ((machine {}).exec { shared := start {} } lateNotification).any (fun s =>
      decide (s.threads = [.finished, .finished, .finished] ∧ s.shared.f.processDone = 3)) = true := by
    decide
  obtain ⟨s, hs, hend⟩ := (Option.any_eq_true _ _).mp hrun
  obtain ⟨hthreads, hmade⟩ := of_decide_eq_true hend
  have hreach : (machine {}).Reachable s := TSys.Reachable.exec (.init rfl) hs
  obtain ⟨-, -, hdone, -, hfinished, hnobody⟩ := token_safe hreach
  have hcloses : s.closes = 1 := hfinished (by rw [hthreads]; rfl)
  refine ⟨s, hreach, hthreads, hmade, ?_, hcloses, hnobody (by omega)⟩
  rw [hdone 2 (by decide) (by omega), if_neg (by omega)]

end Tsshd.Output.Token

import Tsshd.Core.Routines
import Tsshd.Alive.Timeout

/-!
# Reconnecting

When the checker of the heartbeats finds them timed out, `notifyTimeout` (comm.go) starts
a goroutine for every registered callback, and `tryToReconnect` (client.go) is one. It
renews the path until the heartbeats are back, but waits first: for the server to fall
silent, for the client of the proxy to have reconnected. It may return on many ways, and
more than one of it may be started. Both checkers are those of `Tsshd.Alive.Timeout`;
what a renewal and the client of the proxy come to is left open.

* `timeout_attended` — while the heartbeats are timed out, somebody is at work on it, and
  not stuck: the path is renewed, or the wait for that goes on. Exceptions are a closed
  client, a closed client of the proxy, and a timeout that was notified before
  `NewSshUdpClient` had registered `tryToReconnect`: nobody is told of it again.
-/

namespace Tsshd.Client.Reconnect

/-! ## Goroutines -/

/-- The lines of `tryToReconnect`. -/
inductive Line
  | lock
  /-- `for !serverChecker.isTimeout()`, and the look at the heartbeats in it. -/
  | server
  | transient
  /-- `proxyClient.activeChecker`: the flag, and `waitUntilReconnected`. -/
  | proxy
  | proxyWait
  /-- `for activeChecker.isTimeout() && !IsClosed()`. -/
  | loop
  | loopClosed
  | renew
  /-- The renewal has failed: `IsClosed`. -/
  | failed
  /-- The renewal has succeeded: wait until the heartbeats are back. -/
  | normal
  | dropped
  | unlock
deriving DecidableEq, Repr

inductive Pc
  /-- The goroutines and the callers of both checkers. -/
  | checkers
  /-- `onTimeout(tryToReconnect)`. -/
  | register
  /-- `notifyTimeout` of the heartbeats. -/
  | notify
  | reconnect (line : Line)
  | close
  | done
deriving DecidableEq, Repr

structure Shared where
  activeChecker : Alive.Sys
  /-- `serverChecker` of the proxy. -/
  serverChecker : Alive.Sys
  registered : Bool := false
  closed : Bool := false
  reconnectMutex : Bool := false
  /-- History: the client of the proxy was found closed. -/
  proxyClosed : Bool := false
  /-- History: nobody had registered when the timeout was notified. -/
  missed : Bool := false

inductive Choice
  | active (a : Alive.Act)
  | server (a : Alive.Act)
  | ok
  | fail
deriving DecidableEq, Repr

variable (heartbeatTimeout : Int) (proxied : Bool)

/-- The event loop sets the flag: a timeout begins. -/
def begins (c : Alive.Sys) (a : Alive.Act) : Bool := a = .loop ∧ c.pc = .timeoutStore

/-- It starts `notifyTimeout` then. -/
def notified (c : Alive.Sys) (a : Alive.Act) : List Pc :=
  if begins c a then [.notify] else []

def checkersStep (s : Shared) : Choice → Option (Shared × Pc × List Pc)
  | .active a =>
    match Alive.next heartbeatTimeout s.activeChecker a with
    | none => none
    | some checker =>
      some ({ s with
          activeChecker := checker
          missed := s.missed && !begins s.activeChecker a },
        .checkers, notified s.activeChecker a)
  | .server a =>
    match Alive.next heartbeatTimeout s.serverChecker a with
    | none => none
    | some checker => some ({ s with serverChecker := checker }, .checkers, [])
  | .ok | .fail => none

/-- One line of `tryToReconnect`. The sleeps are in front of the next line. -/
def lineStep (s : Shared) (ok : Bool) : Line → Option (Shared × Option Line)
  | .lock => if s.reconnectMutex then none else some ({ s with reconnectMutex := true }, some .server)
  | .server =>
    if s.serverChecker.timeoutFlag then some (s, some (if proxied then .proxy else .loop))
    else some (s, some .transient)
  | .transient => some (s, some (if s.activeChecker.timeoutFlag then .server else .unlock))
  | .proxy => some (s, some (if ok then .loop else .proxyWait))
  | .proxyWait =>
    if ok then some (s, some .loop) else some ({ s with proxyClosed := true }, some .unlock)
  | .loop => some (s, some (if s.activeChecker.timeoutFlag then .loopClosed else .unlock))
  | .loopClosed => some (s, some (if s.closed then .unlock else .renew))
  | .renew => some (s, some (if ok then .normal else .failed))
  | .failed => some (s, some (if s.closed then .unlock else .loop))
  | .normal => some (s, some (if s.activeChecker.timeoutFlag then .dropped else .unlock))
  | .dropped => some (s, some (if s.serverChecker.timeoutFlag then .loop else .normal))
  | .unlock => some ({ s with reconnectMutex := false }, none)

def Pc.of : Option Line → Pc
  | some line => .reconnect line
  | none => .done

def step (s : Shared) (pc : Pc) (e : Choice) : Option (Shared × Pc × List Pc) :=
  match pc with
  | .checkers => checkersStep heartbeatTimeout s e
  | .register => some ({ s with registered := true }, .done, [])
  | .notify =>
    if s.registered then some ({ s with missed := false }, .done, [.reconnect .lock])
    else some ({ s with missed := true }, .done, [])
  | .reconnect line =>
    match lineStep proxied s (e = .ok) line with
    | none => none
    | some (s', line') => some (s', .of line', [])
  | .close => some ({ s with closed := true }, .done, [])
  | .done => none

def starts : Pc → Bool
  | .checkers | .register | .close => true
  | _ => false

def routines : Routines Shared Pc Choice where
  init s := ∃ t u,
    s = { activeChecker := { lastAliveTime := t }, serverChecker := { lastAliveTime := u } }
  start _ := starts
  step := step heartbeatTimeout proxied

variable {heartbeatTimeout proxied} {s s' : Shared} {pc pc' : Pc} {e : Choice} {forks : List Pc}

/-! ## Who attends to a timeout -/

/-- The flag is set by the one store that `notifyTimeout` is started behind. -/
theorem flag_set {c c' : Alive.Sys} {a : Alive.Act} (h : Alive.next heartbeatTimeout c a = some c')
    (hbefore : c.timeoutFlag = false) (hafter : c'.timeoutFlag = true) :
    notified c a = [.notify] := by
  have hsame : c'.timeoutFlag ≠ c.timeoutFlag := by simp [hbefore, hafter]
  refine if_pos (decide_eq_true ?_)
  cases a with
  | loop =>
    refine ⟨rfl, ?_⟩
    simp only [Alive.next, Alive.loopStep] at h
    cases hpc : c.pc with
    | timeoutStore => rfl
    | reconnStore =>
      rw [hpc] at h
      cases h
      cases hafter
    | _ =>
      rw [hpc] at h
      simp only at h
      repeat' split at h
      all_goals cases h
      all_goals exact absurd rfl hsame
  | _ =>
    simp only [Alive.next, Alive.waitStep] at h
    repeat' split at h
    all_goals cases h
    all_goals exact absurd rfl hsame

/-- The lines on which the goroutine does not leave the timeout as it is. -/
def Pc.AtWork (pc : Pc) : Prop := pc = .notify ∨ ∃ line, line ≠ .unlock ∧ pc = .reconnect line

/-- The heartbeats are timed out, and there is something to be done about it. -/
def Shared.TimedOut (s : Shared) : Prop :=
  s.activeChecker.timeoutFlag = true ∧ s.closed = false ∧ s.proxyClosed = false ∧ s.missed = false

/-- A line leads to the end only if the heartbeats are back or nothing can be done. -/
theorem lineStep_atWork {line : Line} {line' : Option Line} {ok : Bool}
    (h : lineStep proxied s ok line = some (s', line')) (hline : line ≠ .unlock)
    (hneeded : s'.TimedOut) : (Pc.of line').AtWork := by
  obtain ⟨hflag, hopen, hproxy, -⟩ := hneeded
  have hwork : ∀ l, l ≠ .unlock → (Pc.of (some l)).AtWork := fun l hl => .inr ⟨l, hl, rfl⟩
  cases line with
  | lock =>
    obtain ⟨-, heq⟩ := Option.ite_none_left_eq_some.mp h
    cases heq
    exact hwork _ (by simp)
  | server =>
    simp only [lineStep] at h
    split at h <;> cases h
    · exact hwork _ (by cases proxied <;> simp)
    · exact hwork _ (by simp)
  | proxyWait =>
    simp only [lineStep] at h
    split at h <;> cases h
    · exact hwork _ (by simp)
    · cases hproxy
  | transient | loop | normal =>
    cases h
    exact hwork _ (by simp [hflag])
  | loopClosed | failed =>
    cases h
    exact hwork _ (by simp [hopen])
  | proxy | renew | dropped =>
    cases h
    refine hwork _ ?_
    split <;> simp
  | unlock => exact absurd rfl hline

def attendance : Routines.Attendance (routines heartbeatTimeout proxied) fun _ _ => True where
  needed := Shared.TimedOut
  attends := Pc.AtWork
  init s h := by
    obtain ⟨t, u, rfl⟩ := h
    exact fun hneeded => absurd hneeded.1 (by simp)
  step s pc e s' pc' forks _ h hneeded := by
    cases pc with
    | checkers =>
      simp only [routines, step, checkersStep] at h
      split at h
      case h_1 a =>
        split at h <;> cases h
        rename_i checker hchecker
        obtain ⟨hflag, hopen, hproxy, hmissed⟩ := hneeded
        cases hbegins : begins s.activeChecker a with
        | true => exact .inr (.inr ⟨.notify, by simp [notified, hbegins], .inl rfl⟩)
        | false =>
          simp only [hbegins, Bool.not_false, Bool.and_true] at hmissed
          cases hbefore : s.activeChecker.timeoutFlag with
          | true => exact .inl ⟨⟨hbefore, hopen, hproxy, hmissed⟩, by simp [Pc.AtWork]⟩
          | false =>
            rw [flag_set hchecker hbefore hflag]
            exact .inr (.inr ⟨_, List.mem_singleton.mpr rfl, .inl rfl⟩)
      case h_2 a =>
        split at h <;> cases h
        exact .inl ⟨hneeded, by simp [Pc.AtWork]⟩
      all_goals cases h
    | register =>
      cases h
      exact .inl ⟨hneeded, by simp [Pc.AtWork]⟩
    | notify =>
      simp only [routines, step] at h
      split at h <;> cases h
      · exact .inr (.inr ⟨_, List.mem_singleton.mpr rfl, .inr ⟨.lock, by simp, rfl⟩⟩)
      · exact absurd hneeded.2.2.2 (by simp)
    | reconnect line =>
      simp only [routines, step] at h
      split at h <;> cases h
      rename_i line' hstep
      by_cases hline : line = .unlock
      · subst hline
        cases hstep
        exact .inl ⟨hneeded, by simp [Pc.AtWork]⟩
      · exact .inr (.inl (lineStep_atWork hstep hline hneeded))
    | close =>
      cases h
      exact absurd hneeded.2.1 (by simp)
    | done => cases h

/-! ## The mutex -/

def mutex : Routines.Locks (routines heartbeatTimeout proxied) Unit where
  inside _ pc :=
    match pc with
    | .reconnect line => line ≠ .lock
    | _ => false
  taken _ s := s.reconnectMutex
  init _ s h := by
    obtain ⟨t, u, rfl⟩ := h
    rfl
  start _ s pc h := by
    cases pc <;> first | rfl | cases h
  step _ s pc e s' pc' forks h := by
    cases pc with
    | checkers =>
      simp only [routines, step, checkersStep] at h
      split at h
      case h_1 a =>
        split at h <;> cases h
        refine ⟨fun q hq => ?_, .inl ⟨rfl, rfl⟩⟩
        simp only [notified] at hq
        split at hq
        · rw [List.mem_singleton.mp hq]
        · cases hq
      case h_2 a =>
        split at h <;> cases h
        exact ⟨by simp, .inl ⟨rfl, rfl⟩⟩
      all_goals cases h
    | notify =>
      simp only [routines, step] at h
      split at h <;> cases h
      · exact ⟨by simp, .inl ⟨rfl, rfl⟩⟩
      · exact ⟨by simp, .inl ⟨rfl, rfl⟩⟩
    | reconnect line =>
      simp only [routines, step] at h
      split at h <;> cases h
      rename_i line' hstep
      refine ⟨by simp, ?_⟩
      cases line with
      | lock =>
        obtain ⟨hfree, heq⟩ := Option.ite_none_left_eq_some.mp hstep
        cases heq
        exact .inr (.inl ⟨by simp, by simp [Pc.of], by simpa using hfree, rfl⟩)
      | unlock =>
        cases hstep
        exact .inr (.inr ⟨by simp, rfl, rfl⟩)
      | server | proxyWait =>
        simp only [lineStep] at hstep
        split at hstep <;> cases hstep
        · exact .inl ⟨by cases proxied <;> simp [Pc.of], rfl⟩
        · exact .inl ⟨by simp [Pc.of], rfl⟩
      | _ =>
        cases hstep
        refine .inl ⟨?_, rfl⟩
        simp only [Pc.of]
        split <;> simp
    | register | close =>
      cases h
      exact ⟨by simp, .inl ⟨rfl, rfl⟩⟩
    | done => cases h

variable {p : Routines.Pool Shared Pc}

/-! ## Results -/

/-- **Somebody attends to a timeout**, and if the mutex is taken, somebody is there to
give it back. -/
theorem timeout_attended (hp : (routines heartbeatTimeout proxied).machine.Reachable p) :
    (p.shared.activeChecker.timeoutFlag = true →
      p.shared.closed = true ∨ p.shared.proxyClosed = true ∨ p.shared.missed = true ∨
        .notify ∈ p.threads ∨ ∃ line, line ≠ .unlock ∧ .reconnect line ∈ p.threads) ∧
    (p.shared.reconnectMutex = true → ∃ line, line ≠ .lock ∧ .reconnect line ∈ p.threads) := by
  refine ⟨fun hflag => ?_, fun htaken => ?_⟩
  · by_cases hneeded : p.shared.TimedOut
    · obtain ⟨pc, hpc, rfl | ⟨line, hline, rfl⟩⟩ :=
        attendance.attended (fun _ _ _ _ => trivial) hp hneeded
      · exact .inr (.inr (.inr (.inl hpc)))
      · exact .inr (.inr (.inr (.inr ⟨line, hline, hpc⟩)))
    · simp only [Shared.TimedOut, hflag, true_and, not_and_or, Bool.not_eq_false] at hneeded
      rcases hneeded with h | h | h
      · exact .inl h
      · exact .inr (.inl h)
      · exact .inr (.inr (.inl h))
  · obtain ⟨pc, hpc, hin⟩ := (mutex.taken_iff () hp).mp htaken
    cases pc with
    | reconnect line => exact ⟨line, of_decide_eq_true hin, hpc⟩
    | _ => cases hin

/-- A checker times out. -/
def timeOut (choice : Alive.Act → Choice) (now : Int) : List (Routines.Act Pc Choice) :=
  [.run 1 (choice (.recvTimeout now)), .run 1 (choice .loop), .run 1 (choice .loop),
    .run 1 (choice .loop)]

/-- The heartbeats come back and are lost again: the second callback waits for the first,
which is still at its renewal. -/
theorem timeout_attended_twice : ∃ p, (routines 10 false).machine.Reachable p ∧
    p.shared.activeChecker.timeoutFlag = true ∧ p.shared.reconnectMutex = true ∧
    p.threads = [.done, .checkers, .done, .reconnect .renew, .done, .reconnect .lock] ∧
    ∃ line, line ≠ .lock ∧ .reconnect line ∈ p.threads := by
  obtain ⟨p, hp, htest⟩ := Routines.exists_of_exec (m := routines 10 false)
    (s := { activeChecker := { lastAliveTime := 0 }, serverChecker := { lastAliveTime := 0 } })
    ([.start .register, .run 0 .ok, .start .checkers] ++ timeOut .active 100 ++
      timeOut .server 100 ++ [.run 2 .ok, .run 3 .ok, .run 3 .ok, .run 3 .ok, .run 3 .ok,
      .run 1 (.active (.updateTime 95)), .run 1 (.active (.recvTime 100)), .run 1 (.active .loop),
      .run 1 (.active .loop), .run 1 (.active .loop), .run 1 (.active .loop)] ++
      timeOut .active 200 ++ [.run 4 .ok])
    (fun p => p.shared.activeChecker.timeoutFlag ∧ p.shared.reconnectMutex ∧
      p.threads = [.done, .checkers, .done, .reconnect .renew, .done, .reconnect .lock])
    ⟨0, 0, rfl⟩ (by decide)
  obtain ⟨hflag, hmutex, hthreads⟩ := of_decide_eq_true htest
  exact ⟨p, hp, hflag, hmutex, hthreads, (timeout_attended hp).2 hmutex⟩

end Tsshd.Client.Reconnect

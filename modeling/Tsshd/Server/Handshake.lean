import Tsshd.Core.TSys

/-!
# The bus handshake and the client checker of one connection

One `sshUdpServer` from `newSshUdpServer` on: `handleStream` with its deferred
cleanup, `handleBusEvent` and `initBusAndServer` (bus.go), the connect-timeout
watchdog, `Close`, and the takeover that `activateServer` of a later connection
starts (server.go).

`clientChecker` is nil until `initBusAndServer` runs. Dereferencing it before
that is a nil pointer panic, which no code recovers: `crashed`. The cleanup of
every stream and `Close` dereference it on every path, so a stream that returns
before the handshake, or a handshake that takes longer than the connect
timeout, ends the daemon (`early_return_crashes`).
Where the handshake comes first nothing of the kind happens
(`checker_ready_when_used`).
-/

namespace Tsshd.Handshake

/-- The first command of a stream, by the handler table it is found in. -/
inductive Command
  | bus
  | session
  | stderr
  | forward
  | unknown
deriving DecidableEq, Repr

/-- A `tsshdVersion`. -/
structure Version where
  major : Nat
  minor : Nat
  patch : Nat
deriving DecidableEq, Repr

/-- `v.compare(ver) < 0`. -/
def Version.older (v ver : Version) : Bool :=
  v.major < ver.major ||
    (v.major = ver.major && (v.minor < ver.minor ||
      (v.minor = ver.minor && v.patch < ver.patch)))

/-- The fields of `busMessage` the handshake checks; `clientVer` is `none` when
it does not parse. -/
structure BusMessage where
  protoVer : Nat := 1
  clientVer : Option Version := none
deriving DecidableEq, Repr

/-- The version check of `handleBusEvent` fails. -/
def BusMessage.rejected (m : BusMessage) : Bool :=
  m.protoVer = 0 &&
    match m.clientVer with
    | none => true
    | some v => v.older ⟨0, 1, 6⟩

/-- What a stream meets at its next step: whether its I/O succeeds, the command
or the message it reads, and whether the activation succeeds. -/
structure Input where
  ok : Bool := true
  command : Command := .bus
  message : BusMessage := {}
deriving DecidableEq, Repr

/-- A stream handler, by its next step. -/
inductive StreamPc
  -- handleStream
  | command
  | unlist
  | checkServing (command : Command)
  | checkActive (command : Command)
  | dispatch (command : Command)
  | hello (command : Command)
  /-- One of the other handlers runs. -/
  | handler
  -- handleBusEvent, initBusAndServer
  | busMessage
  | lockBus
  | checkBus
  | initChecker
  | activate
  | serve
  | ack
  | setBus
  | busReady
  | busLoop
  -- the deferred cleanup, with the rounds left
  | cleanup (rounds : Nat)
  | cleanupClosed (rounds : Nat)
  | unregister
  | done
deriving DecidableEq, Repr

/-- `Close` behind its compare-and-swap, by its next step. -/
inductive ClosePc
  | checker
  | busStream
  | streams
  | done
deriving DecidableEq, Repr

/-- The goroutine a takeover starts for the old server, by its next step. -/
inductive SupersedePc
  | streams
  | checker
  | close
  | done
deriving DecidableEq, Repr

structure Config where
  enableForwardings : Bool := true
deriving DecidableEq, Repr

structure Sys where
  /-- `clientChecker` is not nil. -/
  checker : Bool := false
  serving : Bool := false
  closed : Bool := false
  /-- This server is `activeSshUdpServer`. -/
  active : Bool := false
  /-- The ids in `streamMap`; `none` when the map is nil. -/
  streamMap : Option (List Nat) := some []
  busMutex : Bool := false
  busStream : Bool := false
  /-- The stream handlers, by stream id. -/
  streams : List StreamPc := []
  closing : Option ClosePc := none
  superseding : List SupersedePc := []
  /-- The connect-timeout watchdog still sleeps. -/
  watchdog : Bool := true
  crashed : Bool := false
deriving DecidableEq, Repr

namespace Sys

def goto (s : Sys) (id : Nat) (pc : StreamPc) : Sys := { s with streams := s.streams.set id pc }

/-- `return`: the deferred cleanup begins. -/
def cleanup (s : Sys) (id : Nat) : Sys := s.goto id (.cleanup 60)

/-- `delete(s.streamMap, id)`; on a nil map it does nothing. -/
def unlist (s : Sys) (id : Nat) : Sys := { s with streamMap := s.streamMap.map fun m => m.erase id }

/-- A method call on `s.clientChecker`. -/
def useChecker (s : Sys) (cont : Sys) : Sys := if s.checker then cont else { s with crashed := true }

/-- `Close`, up to its compare-and-swap. -/
def close (s : Sys) : Sys :=
  if s.closed then s else { s with closed := true, closing := some .checker }

end Sys

/-- One step of the stream handler `id`. -/
def streamStep (cfg : Config) (id : Nat) (input : Input) (s : Sys) : Option Sys :=
  match s.streams[id]? with
  | none => none
  | some .command =>
    if !input.ok then some (s.cleanup id)
    else if input.command = .bus then some (s.goto id .unlist)
    else some (s.goto id (.checkServing input.command))
  | some .unlist => some ((s.unlist id).goto id (.dispatch .bus))
  | some (.checkServing c) =>
    if s.serving then some (s.goto id (.checkActive c)) else some (s.cleanup id)
  | some (.checkActive c) =>
    if s.active then some (s.goto id (.dispatch c)) else some (s.cleanup id)
  | some (.dispatch c) =>
    match c with
    | .bus | .session | .stderr => some (s.goto id (.hello c))
    | .forward =>
      if cfg.enableForwardings then some (s.goto id (.hello c)) else some (s.cleanup id)
    | .unknown => some (s.cleanup id)
  | some (.hello c) =>
    if !input.ok then some (s.cleanup id)
    else some (s.goto id (if c = .bus then .busMessage else .handler))
  | some .handler => some (s.cleanup id)
  | some .busMessage =>
    if !input.ok || input.message.rejected then some (s.cleanup id)
    else some (s.goto id .lockBus)
  | some .lockBus => if s.busMutex then none else some ({ s with busMutex := true }.goto id .checkBus)
  | some .checkBus =>
    if s.busStream then some ({ s with busMutex := false }.cleanup id)
    else some (s.goto id .initChecker)
  | some .initChecker => some ({ s with checker := true }.goto id .activate)
  | some .activate =>
    -- fails when another server is active (without --attachable) or the bus is closed
    if input.ok then some ({ s with active := true }.goto id .serve)
    else some ({ s with busMutex := false }.cleanup id)
  | some .serve => some ({ s with serving := true }.goto id .ack)
  | some .ack =>
    if input.ok then some (s.goto id .setBus)
    else some ({ s with busMutex := false }.goto id .busReady)
  | some .setBus => some ({ s with busStream := true, busMutex := false }.goto id .busReady)
  | some .busReady => if s.busStream then some (s.goto id .busLoop) else some (s.cleanup id)
  | some .busLoop =>
    -- one command: the loop goes on unless the read fails or the server is inactive
    if input.ok && s.active then some s else some (s.cleanup id)
  | some (.cleanup n) => some (s.useChecker (s.goto id (.cleanupClosed n)))
  | some (.cleanupClosed n) =>
    if s.closed then some (s.goto id .done)
    else some (s.goto id (if n ≤ 1 then .unregister else .cleanup (n - 1)))
  | some .unregister => some ((s.unlist id).goto id .done)
  | some .done => none

/-- One step of the `Close` that passed the compare-and-swap. -/
def closeStep (s : Sys) : Option Sys :=
  match s.closing with
  | some .checker => some (s.useChecker { s with closing := some .busStream })
  | some .busStream => some { s with closing := some .streams }
  | some .streams => some { s with streamMap := none, closing := some .done }
  | _ => none

/-- One step of a takeover's goroutine. -/
def supersedeStep (k : Nat) (s : Sys) : Option Sys :=
  match s.superseding[k]? with
  | some .streams =>
    some { s with streamMap := none, superseding := s.superseding.set k .checker }
  | some .checker => some (s.useChecker { s with superseding := s.superseding.set k .close })
  | some .close => some { s.close with superseding := s.superseding.set k .done }
  | _ => none

/-- What can happen next. -/
inductive Act
  /-- A stream is accepted. -/
  | accept
  | stream (id : Nat) (input : Input)
  /-- The connect timeout expires. -/
  | expire
  /-- A later connection becomes the active server; its goroutine moves. -/
  | supersede
  | superseded (k : Nat)
  /-- The daemon exits and closes the active server. -/
  | exit
  | close
deriving DecidableEq, Repr

def next (cfg : Config) (s : Sys) (a : Act) : Option Sys :=
  if s.crashed then none
  else
    match a with
    | .accept =>
      match s.streamMap with
      | none => some s
      | some m =>
        some { s with
          streamMap := some (s.streams.length :: m), streams := s.streams ++ [.command] }
    | .stream id input => streamStep cfg id input s
    | .expire =>
      if s.watchdog then
        some (if s.serving then { s with watchdog := false }
          else { s with watchdog := false }.close)
      else none
    | .supersede =>
      if s.active then
        some { s with active := false, superseding := s.superseding ++ [.streams] }
      else none
    | .superseded k => supersedeStep k s
    | .exit => if s.active then some s.close else none
    | .close => closeStep s

/-- One connection, from its acceptance on. -/
def machine (cfg : Config) : TSys Sys Act where
  init s := s = {}
  next := next cfg

/-! ## Crashes -/

/-- The first stream of a connection asks for a session: it is refused, and its
cleanup finds no checker. -/
theorem early_return_crashes :
    ∃ s, (machine {}).Reachable s ∧ s.checker = false ∧ s.crashed = true := by
  have hrun : ((machine {}).exec {} [.accept, .stream 0 { command := .session },
      .stream 0 {}, .stream 0 {}]).any (fun s => s.checker = false ∧ s.crashed = true) = true := by
    decide
  obtain ⟨s, hs, hend⟩ := (Option.any_eq_true _ _).mp hrun
  exact ⟨s, .exec (.init rfl) hs, of_decide_eq_true hend⟩

-- The same when nobody speaks: the watchdog closes the server, which finds no
-- checker.
example : ((machine {}).exec {} [.expire, .close]).any
    (fun s => s.streams = [] ∧ s.crashed = true) = true := by
  decide

/-! ## Runs in which the handshake comes first -/

/-- Until the checker exists, no stream returns and the connect timeout does not
expire: what is read is the `bus` command and an acceptable bus message, and
what is sent goes out. -/
def handshakeFirst (s : Sys) (a : Act) : Bool :=
  s.checker ||
    match a with
    | .stream id input =>
      match s.streams[id]? with
      | some .command => input.ok && input.command = .bus
      | some (.hello _) => input.ok
      | some .busMessage => input.ok && !input.message.rejected
      | _ => true
    | .expire => false
    | _ => true

/-- The program counters of a bus stream in front of the checker's creation. -/
def StreamPc.early : StreamPc → Bool
  | .command | .unlist | .dispatch .bus | .hello .bus | .busMessage | .lockBus | .checkBus
  | .initChecker => true
  | _ => false

/-- A connection before its handshake. -/
structure Early (s : Sys) : Prop where
  streams : ∀ pc ∈ s.streams, pc.early = true
  closing : s.closing = none
  superseding : s.superseding = []
  serving : s.serving = false
  active : s.active = false
  busStream : s.busStream = false

/-- The checker exists, or the connection is still before its handshake. -/
def Inv (s : Sys) : Prop := s.crashed = false ∧ (s.checker = true ∨ Early s)

theorem Early.goto {s : Sys} (h : Early s) (id : Nat) {pc : StreamPc} (hpc : pc.early = true) :
    Early (s.goto id pc) := by
  refine { h with streams := fun pc' hmem => ?_ }
  rcases List.mem_or_eq_of_mem_set hmem with hmem | rfl
  · exact h.streams pc' hmem
  · exact hpc

theorem Early.streamStep {cfg : Config} {id : Nat} {input : Input} {s s' : Sys} (h : Early s)
    (hnone : s.checker = false) (hok : handshakeFirst s (.stream id input) = true)
    (hstep : streamStep cfg id input s = some s') :
    s'.crashed = s.crashed ∧ (s'.checker = true ∨ Early s') := by
  simp only [handshakeFirst, hnone, Bool.false_or] at hok
  unfold Handshake.streamStep at hstep
  cases hst : s.streams[id]? with
  | none => simp [hst] at hstep
  | some pc =>
    have hearly := h.streams pc (List.mem_of_getElem? hst)
    simp only [hst] at hok hstep
    cases pc with
    | command =>
      simp only [Bool.and_eq_true, decide_eq_true_eq] at hok
      simp only [hok.1, hok.2, Bool.not_true, Bool.false_eq_true, if_false, if_true,
        Option.some.injEq] at hstep
      subst hstep
      exact ⟨rfl, .inr (h.goto id rfl)⟩
    | unlist =>
      cases hstep
      have hu : Early (s.unlist id) := { h with }
      exact ⟨rfl, .inr (hu.goto id rfl)⟩
    | dispatch c =>
      obtain rfl : c = .bus := by cases c <;> simp [StreamPc.early] at hearly ⊢
      cases hstep
      exact ⟨rfl, .inr (h.goto id rfl)⟩
    | hello c =>
      obtain rfl : c = .bus := by cases c <;> simp [StreamPc.early] at hearly ⊢
      simp only [hok, Bool.not_true, Bool.false_eq_true, if_false, if_true,
        Option.some.injEq] at hstep
      subst hstep
      exact ⟨rfl, .inr (h.goto id rfl)⟩
    | busMessage =>
      simp only [Bool.and_eq_true, Bool.not_eq_true'] at hok
      simp only [hok.1, hok.2, Bool.not_true, Bool.or_self, Bool.false_eq_true, if_false,
        Option.some.injEq] at hstep
      subst hstep
      exact ⟨rfl, .inr (h.goto id rfl)⟩
    | lockBus =>
      simp only at hstep
      split at hstep <;> cases hstep
      have hl : Early { s with busMutex := true } := { h with }
      exact ⟨rfl, .inr (hl.goto id rfl)⟩
    | checkBus =>
      simp only [h.busStream, Bool.false_eq_true, if_false, Option.some.injEq] at hstep
      subst hstep
      exact ⟨rfl, .inr (h.goto id rfl)⟩
    | initChecker =>
      cases hstep
      exact ⟨rfl, .inl rfl⟩
    | _ => exact absurd hearly (by simp [StreamPc.early])

theorem Sys.useChecker_of {s : Sys} (hc : s.checker = true) (cont : Sys) :
    s.useChecker cont = cont := if_pos hc

/-- Once it exists the checker stays, and its uses do not crash. -/
theorem streamStep_checker {cfg : Config} {id : Nat} {input : Input} {s s' : Sys}
    (hc : s.checker = true) (hstep : streamStep cfg id input s = some s') :
    s'.crashed = s.crashed ∧ s'.checker = true := by
  unfold streamStep Sys.cleanup Sys.unlist Sys.goto at hstep
  simp only [Sys.useChecker_of hc] at hstep
  -- every branch keeps both fields, or creates the checker
  repeat' split at hstep
  all_goals cases hstep <;> first | exact ⟨rfl, hc⟩ | exact ⟨rfl, rfl⟩

theorem Sys.close_checker (s : Sys) : s.close.checker = s.checker ∧ s.close.crashed = s.crashed := by
  unfold Sys.close
  split <;> exact ⟨rfl, rfl⟩

theorem Inv.next {cfg : Config} {s s' : Sys} {a : Act} (h : Inv s)
    (hok : handshakeFirst s a = true) (hstep : next cfg s a = some s') : Inv s' := by
  obtain ⟨hrun, hinv⟩ := h
  unfold Handshake.next at hstep
  rw [if_neg (by simp [hrun])] at hstep
  cases hc : s.checker with
  | true =>
    -- whatever happens, the checker stays
    have hkeep : s'.crashed = s.crashed ∧ s'.checker = true := by
      cases a with
      | accept =>
        simp only at hstep
        split at hstep <;> cases hstep <;> exact ⟨rfl, hc⟩
      | stream id input => exact streamStep_checker hc hstep
      | expire =>
        simp only at hstep
        split at hstep <;> cases hstep
        split
        · exact ⟨rfl, hc⟩
        · have := Sys.close_checker { s with watchdog := false }
          exact ⟨this.2, this.1.trans hc⟩
      | supersede =>
        simp only at hstep
        split at hstep <;> cases hstep
        exact ⟨rfl, hc⟩
      | superseded k =>
        simp only [supersedeStep, Sys.useChecker_of hc] at hstep
        split at hstep <;> cases hstep
        · exact ⟨rfl, hc⟩
        · exact ⟨rfl, hc⟩
        · exact ⟨(Sys.close_checker s).2, (Sys.close_checker s).1.trans hc⟩
      | exit =>
        simp only at hstep
        split at hstep <;> cases hstep
        exact ⟨(Sys.close_checker s).2, (Sys.close_checker s).1.trans hc⟩
      | close =>
        simp only [closeStep, Sys.useChecker_of hc] at hstep
        split at hstep <;> cases hstep <;> exact ⟨rfl, hc⟩
    exact ⟨hkeep.1.trans hrun, .inl hkeep.2⟩
  | false =>
    have he : Early s := hinv.resolve_left (by simp [hc])
    cases a with
    | accept =>
      simp only at hstep
      split at hstep <;> cases hstep
      · exact ⟨hrun, .inr he⟩
      · refine ⟨hrun, .inr { he with streams := fun pc hpc => ?_ }⟩
        rcases List.mem_append.mp hpc with hpc | hpc
        · exact he.streams pc hpc
        · rw [List.mem_singleton.mp hpc]
          rfl
    | stream id input =>
      obtain ⟨hcrash, hnext⟩ := he.streamStep hc hok hstep
      exact ⟨hcrash.trans hrun, hnext⟩
    | expire => exact absurd hok (by simp [handshakeFirst, hc])
    | supersede => simp [he.active] at hstep
    | superseded k => simp [supersedeStep, he.superseding] at hstep
    | exit => simp [he.active] at hstep
    | close => simp [closeStep, he.closing] at hstep

/-- **No nil checker is used.** In every run in which, until the checker exists,
no stream returns and the connect timeout does not expire, the daemon does not
crash, and the checker exists wherever a cleanup, `Close` or a takeover is
about to use it. -/
theorem checker_ready_when_used (cfg : Config) {s : Sys}
    (h : (machine cfg).ReachableVia (fun s a => handshakeFirst s a = true) s) :
    s.crashed = false ∧
      ((∃ n, StreamPc.cleanup n ∈ s.streams) ∨ s.closing = some .checker ∨
        SupersedePc.checker ∈ s.superseding → s.checker = true) := by
  have hinv : Inv s := by
    refine h.invariant (fun s h0 => ?_) (fun s a s' hs hok hn => hs.next hok hn)
    rw [show s = {} from h0]
    exact ⟨rfl, .inr ⟨by simp, rfl, rfl, rfl, rfl, rfl⟩⟩
  refine ⟨hinv.1, fun huse => hinv.2.resolve_right fun he => ?_⟩
  rcases huse with ⟨n, hn⟩ | hclose | hsup
  · exact absurd (he.streams _ hn) (by simp [StreamPc.early])
  · exact absurd (he.closing.symm.trans hclose) (by simp)
  · exact absurd hsup (by simp [he.superseding])

/-- The handshake, then a refused stream and a takeover. -/
def handshakeThenTakeover : List Act :=
  [Act.accept] ++ List.replicate 13 (Act.stream 0 {}) ++
    [Act.accept, .stream 1 { command := .unknown }] ++ List.replicate 3 (Act.stream 1 {}) ++
    [Act.supersede, .superseded 0, .superseded 0, .superseded 0, .close]

theorem checker_ready_when_used_takeover :
    ∃ s, (machine {}).execWhile handshakeFirst {} handshakeThenTakeover = some s ∧
      s.streams = [.busLoop, .cleanup 60] ∧ s.closing = some .busStream ∧ s.crashed = false := by
  have hrun : ((machine {}).execWhile handshakeFirst {} handshakeThenTakeover).any
      (fun s => s.streams = [.busLoop, .cleanup 60] ∧ s.closing = some .busStream) = true := by
    decide
  obtain ⟨s, hs, hend⟩ := (Option.any_eq_true _ _).mp hrun
  obtain ⟨hstreams, hclosing⟩ := of_decide_eq_true hend
  exact ⟨s, hs, hstreams, hclosing,
    (checker_ready_when_used {} (.execWhile (fun _ _ h => h) (.init rfl) hs)).1⟩

end Tsshd.Handshake

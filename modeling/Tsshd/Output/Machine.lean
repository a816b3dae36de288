import Tsshd.Core.TSys
import Tsshd.Output.Forwarder

/-!
# The output forwarder as a transition system

One session output (`forward` in output.go) with everything that touches it:
the goroutine that reads the program, the writer loop, the reconnect
notifications, the flags of the client checker, and the attach, detach and
resize operations that hold `attachMutex` (attach.go, session.go).

* **the token** — at most one handler owns `processing`; its program counter is
  `Pc`. A step is one access to something shared (a flag, the queue, a redraw
  request) together with the private work up to the next one, so every other
  party can act between any two checks;
* **the mutex** — `handleMutex` is held at every `Pc` except the waits
  (`Pc.released`); notifications and the shutdown need it free;
* **the reader** — `Main` is the stage of `forward`; while it is `inBuffer` or
  `inError` the owner of the token is the reader itself;
* **the environment** — flags flip, the writer dequeues and writes, clients
  attach, detach and ask for redraws at any time.
-/

namespace Tsshd.Output

/-- Where `flushOutput` returns to. -/
inductive Ret
  | endProcessing
  | handleError
deriving DecidableEq, Repr

/-- What `handleBuffer` does once `enqueueWhileDisconnected` has queued. -/
inductive After
  /-- No LF yet: count the read. -/
  | count
  /-- No LF for too long: start caching. -/
  | start
  /-- The queued part ended with LF: cache what is left. -/
  | left (t : Text)
deriving DecidableEq, Repr

/-- The program counter of the token owner. -/
inductive Pc
  | idle
  -- handleBuffer
  | swapMarker (buf : Text)
  | stopDiscard (marker buf : Text)
  | clearForMarker (marker buf : Text)
  | takeDiscard (buf : Text)
  | clearForDiscard (buf : Text)
  | checkTimeout (buf : Text)
  | checkKeep (buf : Text)
  | checkCache (buf : Text)
  | splitTimeout (buf : Text)
  | splitKeep (buf : Text)
  | send (buf remaining : Text)
  | sendTimeout (buf remaining : Text)
  | sendKeep (buf remaining : Text)
  | sendReconnect (buf remaining : Text)
  | pullBack (buf remaining : Text)
  | sendReturned (buf remaining : Text)
  | sendWait (buf remaining : Text)
  | enqueue (buf : Buf) (after : After) (remaining : Text)
  | enqueueReturned (buf : Buf) (after : After) (remaining : Text)
  | enqueueWait (buf : Buf) (after : After) (remaining : Text)
  | cacheRemaining (remaining : Text)
  -- flushOutput
  | flushBegin (ret : Ret)
  | flushRedraw (ret : Ret)
  | redrawStore (ret : Ret)
  | redrawResize (ret : Ret)
  | flushClear (ret : Ret)
  | flushWarn (ret : Ret)
  | flushLine (ret : Ret) (i : Nat)
  | flushSend (ret : Ret) (i : Option Nat) (line : Flushed)
  | flushTimeout (ret : Ret) (i : Option Nat) (line : Flushed)
  | flushReturned (ret : Ret) (i : Option Nat) (line : Flushed)
  | flushWait (ret : Ret) (i : Option Nat) (line : Flushed)
  -- handleError
  | errorLoop
  | errorTimeout
  | errorReconnect
  -- endProcessing
  | endLoop
deriving DecidableEq, Repr

/-- The waits that release `handleMutex`; without an owner it is free too. -/
def Pc.released : Pc → Bool
  | .idle | .sendReconnect .. | .sendWait .. | .enqueueWait .. | .flushWait ..
  | .errorReconnect => true
  | _ => false

def Ret.pc : Ret → Pc
  | .endProcessing => .endLoop
  | .handleError => .errorLoop

/-- The stage of `forward`. -/
inductive Main
  | reading
  | wantBuffer (buf : Text) (eof : Bool)
  | inBuffer (eof : Bool)
  | wantError
  | inError
  | exiting
  | closing
  | closed
deriving DecidableEq, Repr

/-- The writer loop: it has dequeued a buffer and not yet written it, or it
stopped on a write error. -/
inductive Writer
  | waiting
  | holding (buf : Buf)
  | failed
deriving DecidableEq, Repr

/-- The operation that holds `attachMutex`, with its next step. -/
inductive AttachOp
  | free
  | detachChecker
  | detachStream
  | detachServer
  | attachServer (client : Nat) (size : Int × Int)
  | attachStream (client : Nat) (size : Int × Int)
  | attachRedraw (client : Nat) (size : Int × Int)
  | attachResize (client : Nat) (size : Int × Int)
  | attachChecker (client : Nat)
  | resizeStore (size : Int × Int) (redraw : Bool) (marker : Option Text)
  | resizeApply (size : Int × Int)
deriving DecidableEq, Repr

/-- What is fixed for one session. -/
structure Config where
  lim : Limits := {}
  pty : Bool := false
  /-- Columns and rows of the start message. -/
  size : Int × Int := (0, 0)
  client : Nat := 0

structure Sys where
  f : Forwarder := {}
  pc : Pc := .idle
  main : Main := .reading
  writer : Writer := .waiting
  op : AttachOp := .free
  /-- `onReconnected` calls that have been spawned and not yet run. -/
  notifications : Nat := 0
  /-- `clientChecker`: the server whose checker is installed, and per server
  its timeout flag and whether it was closed. -/
  checker : Option Nat := none
  timedOut : Nat → Bool := fun _ => false
  checkerClosed : Nat → Bool := fun _ => false
  /-- `sess.server`, with the `keepPendingOutput` setting of every server. -/
  server : Option Nat := none
  keepPendingOutput : Nat → Bool := fun _ => false
  /-- The client whose stream is installed in the replaceable stream. -/
  stream : Option Nat := none
  closed : Bool := false
  /-- `sess.cols` and `sess.rows`. -/
  size : Int × Int := (0, 0)
  /-- History: the bytes read from the program, the buffers written to each
  client's stream, the `discard` messages sent to each server. -/
  input : Text := []
  output : List (Nat × Buf) := []
  reports : List (Nat × Nat × Nat) := []

namespace Sys

/-- `f.sess.clientChecker.isTimeout()`: detached counts as timed out. -/
def isTimeout (s : Sys) : Bool :=
  match s.checker with
  | none => true
  | some c => s.timedOut c

/-- `f.sess.isKeepPendingOutput()`. -/
def isKeepPendingOutput (s : Sys) : Bool :=
  match s.server with
  | none => false
  | some c => s.keepPendingOutput c

def goto (s : Sys) (pc : Pc) : Sys := { s with pc := pc }

/-- `clearOutput`, with its `discard` message. -/
def clear (s : Sys) : Sys :=
  { s with
    f := clearOutput s.f
    reports :=
      match s.server, clearReport s.f with
      | some c, some (lines, bytes) => s.reports ++ [(c, lines, bytes)]
      | _, _ => s.reports }

def cache (cfg : Config) (s : Sys) (buf : Text) : Sys :=
  { s with f := cacheOutput cfg.lim s.size.2 s.f buf }

/-- `case f.writeBufCh <- buf` with its success and its default branch. -/
def trySend (s : Sys) (buf : Buf) (sent full : Sys → Sys) : Sys :=
  match s.f.writeBufCh with
  | none => sent { s with f := { s.f with writeBufCh := some buf } }
  | some _ => full s

/-- `pos := bytes.IndexByte(buf, '\n')` and the branches behind the pull-back. -/
def splitPulled (s : Sys) (buf : Buf) (remaining : Text) : Sys :=
  match cutAfter Cell.isLF buf.text with
  | none =>
    if s.f.noNewLineCount < 3 then s.goto (.enqueue buf .count remaining)
    else s.goto (.enqueue buf .start remaining)
  | some (line, left) => s.goto (.enqueue (buf.take line.length) (.left left) remaining)

/-- The code behind a successful `enqueueWhileDisconnected`. -/
def afterEnqueue (cfg : Config) (s : Sys) (after : After) (remaining : Text) : Sys :=
  match after with
  | .count =>
    { s with f := { s.f with noNewLineCount := s.f.noNewLineCount + 1 } }.goto
      (.cacheRemaining remaining)
  | .start => { s with f := { s.f with chHasNewLine := true } }.goto (.cacheRemaining remaining)
  | .left t =>
    let s := if t.isEmpty then s else s.cache cfg t
    { s with f := { s.f with chHasNewLine := true } }.goto (.cacheRemaining remaining)

/-- The next loop index of `flushOutput`. -/
def flushNext (s : Sys) (ret : Ret) : Option Nat → Sys
  | none => s.goto (.flushLine ret 0)
  | some i => s.goto (.flushLine ret (i + 1))

/-- A line went out; behind the warning the counters start again. -/
def flushSent (s : Sys) (ret : Ret) (i : Option Nat) : Sys :=
  match i with
  | none =>
    { s with f := { s.f with discardLines := 0, discardBytes := 0, dropped := [] } }.flushNext
      ret none
  | some i => s.flushNext ret (some i)

/-- The flush stops at a timeout: the lines already sent leave the cache. -/
def flushStop (s : Sys) (ret : Ret) (i : Option Nat) : Sys :=
  match i with
  | none => s.goto ret.pc
  | some i => { s with f := { s.f with cacheLines := s.f.cacheLines.drop i } }.goto ret.pc

/-- The end of `endProcessing`, and where the reader goes when it was the
owner. -/
def endProcessing (s : Sys) : Sys :=
  { s with
    f := { s.f with processing := false, doneClosed := s.f.doneClosed ++ [s.f.processDone] }
    pc := .idle
    main :=
      match s.main with
      | .inBuffer true => .wantError
      | .inBuffer false => .reading
      | .inError => .exiting
      | m => m }

/-- Take the token with a fresh `processDone`. -/
def takeToken (s : Sys) (pc : Pc) : Sys :=
  { s with
    f := { s.f with processing := true, processDone := s.f.processDone + 1 }
    pc := pc }

end Sys

/-- One step of the token owner. `resizeOk` is the result of the final resize
of a redraw, the only step that depends on it. The waits go on by `wake`. -/
def ownerStep (cfg : Config) (resizeOk : Bool) (s : Sys) : Option Sys :=
  match s.pc with
  -- handleBuffer
  | .swapMarker buf =>
    match s.f.discardMarker with
    | some marker =>
      some ({ s with f := { s.f with discardMarker := none } }.goto (.stopDiscard marker buf))
    | none => some (s.goto (.takeDiscard buf))
  | .stopDiscard marker buf =>
    some ({ s with f := { s.f with discardOutput := false } }.goto (.clearForMarker marker buf))
  | .clearForMarker marker buf => some (s.clear.goto (.takeDiscard (marker ++ buf)))
  | .takeDiscard buf =>
    if s.f.discardOutput then
      some ({ s with f := { s.f with discardOutput := false } }.goto (.clearForDiscard buf))
    else some (s.goto (.checkTimeout buf))
  | .clearForDiscard buf => some (s.clear.goto (.checkTimeout buf))
  | .checkTimeout buf =>
    if s.f.chHasNewLine && s.isTimeout then some (s.goto (.checkKeep buf))
    else some (s.goto (.checkCache buf))
  | .checkKeep buf =>
    if !s.isKeepPendingOutput then some ((s.cache cfg buf).goto .endLoop)
    else some (s.goto (.checkCache buf))
  | .checkCache buf =>
    if s.f.cacheLines.isEmpty then some (s.goto (.splitTimeout buf))
    else some ((s.cache cfg buf).goto (.flushBegin .endProcessing))
  | .splitTimeout buf =>
    if s.isTimeout then some (s.goto (.splitKeep buf)) else some (s.goto (.send buf []))
  | .splitKeep buf =>
    if s.isKeepPendingOutput then some (s.goto (.send buf []))
    else
      match cutAfter Cell.isLF buf with
      | some (line, remaining) =>
        some ({ s with f := { s.f with chHasNewLine := true } }.goto (.send line remaining))
      | none =>
        if s.f.noNewLineCount < 3 then
          some ({ s with f := { s.f with noNewLineCount := s.f.noNewLineCount + 1 } }.goto
            (.send buf []))
        else
          some (({ s with f := { s.f with chHasNewLine := true } }.cache cfg buf).goto .endLoop)
  | .send buf remaining =>
    some (s.trySend { raw := buf } (·.goto (.cacheRemaining remaining))
      (·.goto (.sendTimeout buf remaining)))
  | .sendTimeout buf remaining =>
    if s.isTimeout then some (s.goto (.sendKeep buf remaining))
    else some (s.goto (.sendReturned buf remaining))
  | .sendKeep buf remaining =>
    if s.isKeepPendingOutput then some (s.goto (.sendReconnect buf remaining))
    else some (s.goto (.pullBack buf remaining))
  | .sendReconnect .. => none
  | .pullBack buf remaining =>
    match s.f.writeBufCh with
    | some b =>
      some ({ s with f := { s.f with writeBufCh := none } }.splitPulled (b.append buf) remaining)
    | none => some (s.splitPulled { raw := buf } remaining)
  | .sendReturned buf remaining =>
    if s.f.returned || s.f.writeError then some (s.goto .endLoop)
    else some (s.goto (.sendWait buf remaining))
  | .sendWait .. => none
  | .enqueue buf after remaining =>
    some (s.trySend buf (·.afterEnqueue cfg after remaining)
      (·.goto (.enqueueReturned buf after remaining)))
  | .enqueueReturned buf after remaining =>
    if s.f.returned || s.f.writeError then some (s.goto .endLoop)
    else some (s.goto (.enqueueWait buf after remaining))
  | .enqueueWait .. => none
  | .cacheRemaining remaining =>
    some ((if remaining.isEmpty then s else s.cache cfg remaining).goto .endLoop)
  -- flushOutput
  | .flushBegin ret =>
    if s.f.cacheLines.isEmpty || s.isTimeout then some (s.goto ret.pc)
    else if 0 < s.f.discardLines then some (s.goto (.flushRedraw ret))
    else some (s.goto (.flushLine ret 0))
  | .flushRedraw ret =>
    -- SetSize(0, 0, true, true, nil): nothing to do once closed, an error without a pty
    if s.closed then some (s.goto (.flushClear ret))
    else if cfg.pty then some (s.goto (.redrawStore ret))
    else some (s.goto (.flushWarn ret))
  | .redrawStore ret =>
    some ({ s with f := { s.f with discardOutput := true } }.goto (.redrawResize ret))
  | .redrawResize ret =>
    if resizeOk then some (s.goto (.flushClear ret)) else some (s.goto (.flushWarn ret))
  | .flushClear ret => some (s.clear.goto ret.pc)
  | .flushWarn ret =>
    some (s.goto (.flushSend ret none (.warn (flushWarning s.f) s.f.dropped)))
  | .flushLine ret i =>
    match s.f.cacheLines[i]? with
    | none =>
      some ({ s with f := { s.f with
        cacheLines := [], chHasNewLine := false, noNewLineCount := 0 } }.goto ret.pc)
    | some line =>
      if (filterLine line).isEmpty then some (s.flushNext ret (some i))
      else some (s.goto (.flushSend ret (some i) (.line line)))
  | .flushSend ret i line =>
    some (s.trySend { front := some line } (·.flushSent ret i)
      (·.goto (.flushTimeout ret i line)))
  | .flushTimeout ret i line =>
    if s.isTimeout then some (s.flushStop ret i)
    else some (s.goto (.flushReturned ret i line))
  | .flushReturned ret i line =>
    if s.f.returned || s.f.writeError then some (s.goto ret.pc)
    else some (s.goto (.flushWait ret i line))
  | .flushWait .. => none
  -- handleError
  | .errorLoop =>
    if s.f.cacheLines.isEmpty || s.f.writeError then some (s.goto .endLoop)
    else some (s.goto .errorTimeout)
  | .errorTimeout =>
    if s.isTimeout then some (s.goto .errorReconnect)
    else some (s.goto (.flushBegin .handleError))
  | .errorReconnect => none
  -- endProcessing
  | .endLoop =>
    if s.f.reconnectPending && !s.f.returned then
      some ({ s with f := { s.f with reconnectPending := false } }.goto
        (.flushBegin .endProcessing))
    else some s.endProcessing
  | .idle => none

/-- A wait of the token owner ends: the queue waits after their sleep, the
reconnect waits once the checker reports the client back, or with `failed` when
the checker was closed. -/
def wakeOwner (failed : Bool) (s : Sys) : Option Sys :=
  match s.pc with
  | .sendWait buf remaining => if failed then none else some (s.goto (.send buf remaining))
  | .enqueueWait buf after remaining =>
    if failed then none else some (s.goto (.enqueue buf after remaining))
  | .flushWait ret i line => if failed then none else some (s.goto (.flushSend ret i line))
  | .sendReconnect buf remaining => reconnected (.send buf remaining)
  | .errorReconnect => reconnected (.flushBegin .handleError)
  | _ => none
where
  reconnected (pc : Pc) : Option Sys :=
    if failed then
      match s.checker with
      | some c => if s.checkerClosed c then some (s.goto .endLoop) else none
      | none => none
    else if s.isTimeout then none
    else some (s.goto pc)

/-- The next step of the operation that holds `attachMutex`. -/
def opStep (cfg : Config) (resizeOk : Bool) (s : Sys) : Option Sys :=
  match s.op with
  | .free => none
  -- detachAllSessions, for this session
  | .detachChecker => some { s with checker := none, op := .detachStream }
  | .detachStream => some { s with stream := none, op := .detachServer }
  | .detachServer => some { s with server := none, op := .free }
  -- attachSession behind its checks
  | .attachServer c size => some { s with server := some c, op := .attachStream c size }
  | .attachStream c size =>
    some { s with
      stream := some c
      op := if cfg.pty then .attachRedraw c size else .attachChecker c }
  | .attachRedraw c size =>
    if s.closed then some { s with op := .attachChecker c }
    else some { s with f := { s.f with discardOutput := true }, op := .attachResize c size }
  | .attachResize c size =>
    some { s with size := if resizeOk then size else s.size, op := .attachChecker c }
  | .attachChecker c =>
    some { s with checker := some c, notifications := s.notifications + 1, op := .free }
  -- SetSize for a resize message
  | .resizeStore size redraw marker =>
    if s.closed || !cfg.pty || (size = s.size && !redraw) then some { s with op := .free }
    else
      match marker with
      | some m =>
        some { s with f := { s.f with discardMarker := some m }, op := .resizeApply size }
      | none => some { s with op := .resizeApply size }
  | .resizeApply size =>
    some { s with size := if resizeOk then size else s.size, op := .free }

/-- Everything that can happen next. -/
inductive Act
  /-- The token owner moves, with the result of a redraw's final resize. -/
  | owner (resizeOk : Bool)
  /-- A wait of the token owner ends. -/
  | wake (failed : Bool)
  /-- The program produced bytes, or its output ended, or both. -/
  | read (bytes : List UInt8) (eof : Bool)
  /-- `forward` takes the token for the handler it is about to run. -/
  | begin
  /-- `forward` returns: it marks itself returned, then closes the queue. -/
  | shutdown
  /-- A spawned `onReconnected` runs. -/
  | onReconnected
  /-- The writer loop takes a buffer, writes it, or fails on it. -/
  | dequeue
  | write
  | writeFail
  /-- The checker of a server reports a timeout or a reconnect, or is closed. -/
  | timeout (client : Nat)
  | reconnect (client : Nat)
  | closeChecker (client : Nat)
  /-- A setting message of a client. -/
  | setKeep (client : Nat) (on : Bool)
  /-- `attachMutex` is taken for a detach, an attach, or a resize message with
  an optional redraw marker; then its holder moves. -/
  | detach
  | attach (client : Nat) (size : Int × Int)
  | resize (client : Nat) (size : Int × Int) (redraw : Bool) (marker : Option (List UInt8))
  | op (resizeOk : Bool)
  /-- The session is closed. -/
  | closeSession
  /-- The other forwarder of the session redraws, which discards output on
  both. -/
  | siblingRedraw
deriving DecidableEq, Repr

def next (cfg : Config) (s : Sys) : Act → Option Sys
  | .owner resizeOk => ownerStep cfg resizeOk s
  | .wake failed => wakeOwner failed s
  | .read bytes eof =>
    match s.main with
    | .reading =>
      if bytes.isEmpty then
        some { s with main := if eof then .wantError else .reading }
      else
        some { s with
          input := s.input ++ plain bytes
          main := .wantBuffer (plain bytes) eof }
    | _ => none
  | .begin =>
    if s.f.processing then none
    else
      match s.main with
      | .wantBuffer buf eof => some ({ s with main := .inBuffer eof }.takeToken (.swapMarker buf))
      | .wantError => some ({ s with main := .inError }.takeToken .errorLoop)
      | _ => none
  | .shutdown =>
    match s.main with
    | .exiting =>
      if s.pc.released then
        some { s with f := { s.f with returned := true }, main := .closing }
      else none
    | .closing =>
      if s.f.processing then none
      else some { s with f := { s.f with chClosed := true }, main := .closed }
    | _ => none
  | .onReconnected =>
    if s.notifications = 0 || !s.pc.released then none
    else
      let s := { s with notifications := s.notifications - 1 }
      if s.f.returned then some s
      else if s.f.processing then
        some { s with f := { s.f with reconnectPending := true } }
      else some (s.takeToken (.flushBegin .endProcessing))
  | .dequeue =>
    match s.writer, s.f.writeBufCh with
    | .waiting, some b =>
      some { s with f := { s.f with writeBufCh := none }, writer := .holding b }
    | _, _ => none
  | .write =>
    match s.writer, s.stream with
    | .holding b, some c => some { s with output := s.output ++ [(c, b)], writer := .waiting }
    | _, _ => none
  | .writeFail =>
    match s.writer with
    | .holding _ => some { s with f := { s.f with writeError := true }, writer := .failed }
    | _ => none
  | .timeout c => some { s with timedOut := Function.update s.timedOut c true }
  | .reconnect c =>
    if s.timedOut c then
      some { s with
        timedOut := Function.update s.timedOut c false
        notifications := s.notifications + 1 }
    else none
  | .closeChecker c => some { s with checkerClosed := Function.update s.checkerClosed c true }
  | .setKeep c on => some { s with keepPendingOutput := Function.update s.keepPendingOutput c on }
  | .detach => if s.op = .free then some { s with op := .detachChecker } else none
  | .attach c size =>
    if s.op = .free ∧ s.server = none then some { s with op := .attachServer c size } else none
  | .resize c size redraw marker =>
    if s.op = .free ∧ s.server = some c then
      some { s with op := .resizeStore size redraw (marker.map (marked c)) }
    else none
  | .op resizeOk => opStep cfg resizeOk s
  | .closeSession => some { s with closed := true }
  | .siblingRedraw =>
    if cfg.pty then some { s with f := { s.f with discardOutput := true } } else none

/-- A session starts attached to the client that opened it. -/
def start (cfg : Config) : Sys :=
  { size := cfg.size, checker := some cfg.client, server := some cfg.client,
    stream := some cfg.client }

/-- The forwarder of one session output. -/
def machine (cfg : Config) : TSys Sys Act where
  init s := s = start cfg
  next := next cfg

/-- Steps of the token owner. -/
def handler (n : Nat) : List Act := List.replicate n (.owner true)

end Tsshd.Output

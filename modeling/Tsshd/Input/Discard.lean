import Tsshd.Core.TSys
import Mathlib.Algebra.GroupWithZero.Nat
import Mathlib.Data.List.Infix
import Mathlib.Logic.Function.Basic

/-!
# Discarding pending input

When a client reconnects, what its user typed in the meantime must not reach
the programs. The server draws a marker, stores it in every session
(`enablePendingInputDiscard`, session.go) and sends it to the client over the
bus; the client stores it in its own sessions (`handleDiscardEvent`, client.go)
and puts it in front of the next input (`forwardInput`). The server drops the
input of a session up to the marker (`discardPendingInput`).

* **markers** — `Marker.id` numbers the calls that drew one; on the server a
  marker is a pointer, and `CompareAndSwap` compares pointers;
* **the bus** — every message is sent by a goroutine of its own, so `deliver`
  may take any message in flight;
* **sessions** — the client's half, the input stream and the server's half of
  one session. The client's map has a session from `NewSession` on, the
  server's from `newSessionContext` on;
* **cells** — a byte of the stream with its origin: typed, or the given place of
  a marker. No step looks at the origin.
-/

namespace Tsshd.Input

/-! ## Markers -/

/-- One turn of the loop of `getNextDiscardMarkerIndex`: the byte at `shift` is
skipped when it is `;` or `\r`. -/
def skipAt (cur shift : Nat) : Option Nat :=
  let b := cur / 2 ^ shift % 256
  if b = 59 ∨ b = 13 then some ((cur / 2 ^ shift + 1) * 2 ^ shift % 2 ^ 32) else none

def getNextDiscardMarkerIndex (index : Nat) : Nat :=
  let cur := (index + 1) % 2 ^ 32
  ([24, 16, 8, 0].findSome? (skipAt cur)).getD cur

structure Marker where
  id : Nat
  idx : Nat
deriving DecidableEq, Repr

def Marker.bytes (m : Marker) : List UInt8 :=
  [0xFF, 0xC0, 0xC1, 0xFF, (m.idx / 2 ^ 24).toUInt8, (m.idx / 2 ^ 16).toUInt8,
    (m.idx / 2 ^ 8).toUInt8, m.idx.toUInt8]

/-- A byte of an input stream. `origin` is the marker it belongs to and its
place there; typed bytes have none. -/
structure Cell where
  byte : UInt8
  origin : Option (Marker × Nat) := none
deriving DecidableEq, Repr

abbrev Text := List Cell

def typed (bytes : List UInt8) : Text := bytes.map fun b => ⟨b, none⟩

def Marker.cells (m : Marker) : Text := m.bytes.zipIdx.map fun (b, k) => ⟨b, some (m, k)⟩

/-- `bytes.Index`. -/
def index (text : Text) (pat : List UInt8) : Option Nat :=
  ((text.map Cell.byte).dropInfix? pat).map (·.1.length)

/-! ## The two halves of a session -/

/-- The client's `forwardInput`. -/
inductive ClientPc
  | reading
  /-- `stdin.Read` returned `buf`. -/
  | got (buf : Text)
  /-- Behind the `Swap`: the marker, if any, and the buffer are to be written. -/
  | send (marker : Option Marker) (buf : Text)
  | returned
deriving DecidableEq, Repr

/-- The server's `forwardInput`. -/
inductive ServerPc
  | reading
  /-- `stream.Read` returned `chunk`. -/
  | got (chunk : Text)
  /-- `discardMarker` is loaded. -/
  | loaded (marker : Option Marker) (chunk : Text)
  /-- `discardPendingInput` has found the marker; its `CompareAndSwap` is next. -/
  | clearing (marker : Marker)
  | returned
deriving DecidableEq, Repr

structure Session where
  /-- The session is in the client's map, and its `inputMarker`. -/
  opened : Bool := false
  inputMarker : Option Marker := none
  client : ClientPc := .reading
  /-- What the client has written and the server has not read. -/
  wire : Text := []
  /-- The session is in the server's map; it has told the client that it
  started. -/
  registered : Bool := false
  started : Bool := false
  discardMarker : Option Marker := none
  discardedInput : Text := []
  server : ServerPc := .reading
  /-- History: what the user typed, what the program got, the markers the server
  stored. -/
  typed : Text := []
  stdin : Text := []
  armed : List Nat := []
deriving DecidableEq, Repr

namespace Session

/-- One step of the client's `forwardInput`. `drop` says that the server is timed
out and pending input is not kept: the buffer is discarded. A wait for the
reconnect only delays the step. -/
def clientStep (drop : Bool) (x : Session) : Option Session :=
  match x.client with
  | .reading | .returned => none
  | .got buf =>
    if drop then some { x with client := .reading }
    else some { x with client := .send x.inputMarker buf, inputMarker := none }
  | .send (some m) buf => some { x with wire := x.wire ++ m.cells, client := .send none buf }
  | .send none buf => some { x with wire := x.wire ++ buf, client := .reading }

/-- A write of the client fails behind its first `n` bytes. -/
def clientFail (n : Nat) (x : Session) : Option Session :=
  match x.client with
  | .send (some m) _ => some { x with wire := x.wire ++ m.cells.take n, client := .returned }
  | .send none buf => some { x with wire := x.wire ++ buf.take n, client := .returned }
  | _ => none

/-- `writeAll(c.stdin, out)`, which fails behind `n` bytes for `some n`. -/
def writeStdin (out : Text) (fail : Option Nat) (next : ServerPc) (x : Session) : Session :=
  match fail with
  | none => { x with stdin := x.stdin ++ out, server := next }
  | some n => { x with stdin := x.stdin ++ out.take n, server := .returned }

/-- `discardPendingInput`, up to its `CompareAndSwap`. -/
def discardPendingInput (marker : Marker) (buf : Text) (fail : Option Nat) (x : Session) :
    Session :=
  let discarded := x.discardedInput ++ buf
  match index discarded marker.bytes with
  | none => { x with discardedInput := discarded, server := .reading }
  | some pos =>
    let remaining := discarded.drop (pos + marker.bytes.length)
    { x with discardedInput := [] }.writeStdin remaining fail (.clearing marker)

theorem discardPendingInput_server (x : Session) (pc : ServerPc) (marker : Marker) (buf : Text)
    (fail : Option Nat) :
    { x with server := pc }.discardPendingInput marker buf fail =
      x.discardPendingInput marker buf fail := by
  unfold discardPendingInput
  dsimp only
  split
  · rfl
  · cases fail <;> rfl

/-- One step of the server's `forwardInput`; `fail` says how its write to the
program fails. -/
def serverStep (fail : Option Nat) (x : Session) : Option Session :=
  match x.server with
  | .reading | .returned => none
  | .got chunk => some { x with server := .loaded x.discardMarker chunk }
  | .loaded (some marker) chunk => some (x.discardPendingInput marker chunk fail)
  | .loaded none chunk => some (x.writeStdin chunk fail .reading)
  | .clearing marker =>
    some { x with
      discardMarker := if x.discardMarker = some marker then none else x.discardMarker
      server := .reading }

/-- What happens to one session alone. -/
inductive Event
  /-- The server registers the session of a start message, and acknowledges the
  start. -/
  | register
  | start
  /-- The user types. -/
  | type (bytes : List UInt8)
  | client (drop : Bool)
  | clientFail (n : Nat)
  /-- The server reads `n` bytes of the stream. -/
  | read (n : Nat)
  | server (fail : Option Nat)
deriving DecidableEq, Repr

def step (x : Session) : Event → Option Session
  | .register =>
    if x.opened ∧ x.registered = false then some { x with registered := true } else none
  | .start => if x.registered then some { x with started := true } else none
  | .type bytes =>
    if x.started ∧ x.client = .reading ∧ bytes ≠ [] then
      some { x with
        typed := x.typed ++ Input.typed bytes, client := .got (Input.typed bytes) }
    else none
  | .client drop => x.clientStep drop
  | .clientFail n => x.clientFail n
  | .read n =>
    if x.started ∧ x.server = .reading ∧ 0 < n ∧ n ≤ x.wire.length then
      some { x with server := .got (x.wire.take n), wire := x.wire.drop n }
    else none
  | .server fail => x.serverStep fail

end Session

/-! ## The connection -/

structure Sys where
  sessions : Nat → Session := fun _ => {}
  /-- The client's counter of session ids. -/
  sessionID : Nat := 0
  keepPendingInput : Bool := false
  discardMarkerCurrentIndex : Nat := 0
  /-- How many markers were drawn. -/
  drawn : Nat := 0
  /-- The discard messages in flight, oldest first. -/
  bus : List Marker := []

inductive Act
  /-- `NewSession` on the client. -/
  | newSession
  /-- A setting message. -/
  | setKeep (on : Bool)
  /-- `enablePendingInputDiscard`. -/
  | reconnect
  /-- The `i`th message in flight arrives, or its send fails. -/
  | deliver (i : Nat)
  | sendFailed (i : Nat)
  | session (j : Nat) (e : Session.Event)
deriving DecidableEq, Repr

namespace Sys

def update (s : Sys) (j : Nat) (x : Session) : Sys :=
  { s with sessions := Function.update s.sessions j x }

/-- `len(getAllSessions()) > 0`. The server knows no session the client has not
opened. -/
def anySession (s : Sys) : Bool :=
  (List.range s.sessionID).any fun j => (s.sessions j).registered

/-- The marker the next call draws. -/
def nextMarker (s : Sys) : Marker :=
  ⟨s.drawn, getNextDiscardMarkerIndex s.discardMarkerCurrentIndex⟩

/-- The loop over the sessions is one step: it holds `attachMutex`, and what one
session does is independent of the marker of another. -/
def enablePendingInputDiscard (s : Sys) : Sys :=
  if s.keepPendingInput || !s.anySession then s
  else
    { s with
      discardMarkerCurrentIndex := s.nextMarker.idx
      drawn := s.drawn + 1
      bus := s.bus ++ [s.nextMarker]
      sessions := fun j => if (s.sessions j).registered then
          { s.sessions j with
            discardMarker := some s.nextMarker, armed := s.drawn :: (s.sessions j).armed }
        else s.sessions j }

/-- `handleDiscardEvent` for a marker. -/
def handleDiscardEvent (s : Sys) (m : Marker) : Sys :=
  { s with
    sessions := fun j => if (s.sessions j).opened then
        { s.sessions j with inputMarker := some m }
      else s.sessions j }

end Sys

def next (s : Sys) : Act → Option Sys
  | .newSession =>
    some ({ s with sessionID := s.sessionID + 1 }.update s.sessionID
      { s.sessions s.sessionID with opened := true })
  | .setKeep on => some { s with keepPendingInput := on }
  | .reconnect => some s.enablePendingInputDiscard
  | .deliver i =>
    (s.bus[i]?).map fun m => { s.handleDiscardEvent m with bus := s.bus.eraseIdx i }
  | .sendFailed i => (s.bus[i]?).map fun _ => { s with bus := s.bus.eraseIdx i }
  | .session j e => ((s.sessions j).step e).map (s.update j)

/-- A client and its server; the marker index is shared with earlier
connections. -/
def machine : TSys Sys Act where
  init s := ∃ index, s = { discardMarkerCurrentIndex := index }
  next := next

end Tsshd.Input

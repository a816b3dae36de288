import Tsshd.Core.TSys
import Tsshd.Proxy.Framing
import Mathlib.Logic.Function.Basic

/-!
# The TCP de-multiplexer

`tcpFrontendConn` with `Attachable` set (proxy_server.go). Every authenticated
connection has a `readLoop` goroutine that reads the header of a frame, sends a
signal and waits for its acknowledgement; one goroutine calls `readFrom`, which
takes a signal, reads the body from the connection of the signal and
acknowledges. The signals share a channel of capacity ten; every loop has an
unbuffered channel of its own for the acknowledgements.

A step is one `Read`, one channel operation or one access to `clientConn`.
Connections are installed, replaced and closed at any time, and `readFrom` is
called with buffers of any size.

The machine refines the connections read one by one: each step is a
`Track.Step` of every connection (`step_track`).
-/

namespace Tsshd.Proxy.Demux

/-! ## The machine -/

/-- `tcpFrameSignal`. -/
structure Signal where
  conn : Nat
  client : Nat
  length : Nat
  ackCh : Nat
deriving DecidableEq, Repr

/-- Where a `readLoop` is. -/
inductive Phase
  /-- Not started. -/
  | absent
  /-- In front of the condition of the loop. -/
  | check
  | header (got : List UInt8)
  /-- In front of the send on `frameSignalCh`. -/
  | signal (length : Nat)
  /-- Waiting on `ackCh`. -/
  | ack (length : Nat)
  /-- The deferred `setClientConn(conn, nil)`. -/
  | ending
  /-- The deferred `close(ackCh)`. -/
  | closing
  | done
deriving DecidableEq, Repr

/-- The loop has returned. -/
def Phase.over : Phase → Bool
  | .ending => true
  | .closing => true
  | .done => true
  | _ => false

structure Conn where
  stream : Stream
  closed : Bool := false
  phase : Phase := .absent
  ackCh : Nat := 0

/-- Where the goroutine that calls `readFrom` is. -/
inductive Reader
  /-- Between two calls. -/
  | idle
  /-- Waiting on `frameSignalCh`. -/
  | recv (size : Nat)
  | body (size : Nat) (signal : Signal) (got : List UInt8)
  /-- In front of the send on `signal.ackCh`. -/
  | reply (size : Nat) (signal : Signal) (res : Except FrameError (List UInt8))

/-- The signal the reader works on. -/
def Reader.held : Reader → List Signal
  | .idle => []
  | .recv _ => []
  | .body _ signal _ => [signal]
  | .reply _ signal _ => [signal]

/-- A frame that `readFrom` has returned. -/
structure Returned where
  conn : Nat
  client : Nat
  size : Nat
  frame : List UInt8
deriving DecidableEq, Repr

/-- Whose the connections are and what arrives on them. -/
structure Net where
  owner : Nat → Nat
  stream : Nat → Stream

structure Sys where
  clientConn : Nat → Option Nat := fun _ => none
  conn : Nat → Conn
  frameSignalCh : List Signal := []
  reader : Reader := .idle
  /-- The next channel that `make` returns. -/
  nextCh : Nat := 0
  installed : Nat → Bool := fun _ => false
  /-- History: the connections replaced or dropped by others than their loop. -/
  removed : Nat → Bool := fun _ => false
  /-- History: the buffer of the call in which the connection failed. -/
  failed : Nat → Option Nat := fun _ => none
  /-- History: what `readFrom` has returned. -/
  returned : List Returned := []
  /-- History: for every acknowledgement, the connection of the signal and the
  connection whose loop has received it. -/
  acks : List (Nat × Nat) := []

def Sys.setConn (s : Sys) (c : Nat) (conn : Conn) : Sys :=
  { s with conn := Function.update s.conn c conn }

def Sys.setPhase (s : Sys) (c : Nat) (phase : Phase) : Sys :=
  s.setConn c { s.conn c with phase }

/-- `clientConn.Swap(newConn)`; the connection that was in use is removed. -/
def Sys.point (s : Sys) (client : Nat) (newConn : Option Nat) : Sys :=
  { s with
    clientConn := Function.update s.clientConn client newConn
    removed := fun c => s.removed c || s.clientConn client == some c }

inductive Act
  /-- The end of a handshake: `setClientConn(nil, conn)`. -/
  | install (c : Nat)
  /-- `go c.readLoop(conn, client)`. -/
  | start (c : Nat)
  /-- `setClientConn` with a nil connection by anyone but the loop. -/
  | drop (client : Nat)
  /-- `oldConn.Close()` behind the change of `clientConn`. -/
  | close (c : Nat)
  /-- A call of `readFrom`. -/
  | call (size : Nat)
  /-- A step of a loop. -/
  | loop (c : Nat)
  /-- A step of the reader. -/
  | read
  /-- The reader's acknowledgement meets a loop. -/
  | ack (c : Nat)
deriving DecidableEq, Repr

/-- One round of reading the header. -/
def Conn.readHeader (conn : Conn) (got : List UInt8) : Conn :=
  match connRound conn.closed 2 got conn.stream with
  | (.more got', stream) => { conn with stream, phase := .header got' }
  | (.full got', stream) => { conn with stream, phase := .signal (beNat got') }
  | (.failed _, stream) => { conn with stream, phase := .ending }

/-- One round of reading the body, and where the reader is then. -/
def Conn.readBody (conn : Conn) (size : Nat) (signal : Signal) (got : List UInt8) : Conn × Reader :=
  if signal.length ≤ got.length then (conn, .reply size signal (.ok got))
  else
    match connRound conn.closed signal.length got conn.stream with
    | (.more got', stream) => ({ conn with stream }, .body size signal got')
    | (.full got', stream) => ({ conn with stream }, .reply size signal (.ok got'))
    | (.failed e, stream) => ({ conn with stream }, .reply size signal (.error (.io e)))

/-- A signal is taken from the channel. -/
def Reader.take (size : Nat) (signal : Signal) : Reader :=
  if size < signal.length then .reply size signal (.error .shortBuffer) else .body size signal []

/-- The acknowledgement of `signal` has reached the loop of `c`. -/
def Sys.acked (s : Sys) (c : Nat) (size : Nat) (signal : Signal) :
    Except FrameError (List UInt8) → Sys
  | .ok frame =>
    { s.setPhase c .check with
      reader := .idle
      returned := s.returned ++ [⟨signal.conn, signal.client, size, frame⟩]
      acks := s.acks ++ [(signal.conn, c)] }
  | .error _ =>
    { s.setPhase c .ending with
      reader := .recv size
      failed := Function.update s.failed signal.conn (some size)
      acks := s.acks ++ [(signal.conn, c)] }

/-- The deferred `setClientConn(conn, nil)` of the loop of `c`. -/
def Sys.release (s : Sys) (client c : Nat) : Sys :=
  if s.clientConn client = some c then
    { s with clientConn := Function.update s.clientConn client none }
  else s

variable (net : Net)

/-- The loop of `c`. -/
def loopStep (s : Sys) (c : Nat) : Option Sys :=
  match (s.conn c).phase with
  | .absent => none
  | .check =>
    if s.clientConn (net.owner c) = some c then some (s.setPhase c (.header []))
    else some (s.setPhase c .ending)
  | .header got => some (s.setConn c ((s.conn c).readHeader got))
  | .signal length =>
    if s.frameSignalCh.length < 10 then
      some { s.setPhase c (.ack length) with
        frameSignalCh := s.frameSignalCh ++ [⟨c, net.owner c, length, (s.conn c).ackCh⟩] }
    else none
  | .ack _ => none
  | .ending => some ((s.setPhase c .closing).release (net.owner c) c)
  | .closing => some (s.setPhase c .done)
  | .done => none

/-- The reader. -/
def readStep (s : Sys) : Option Sys :=
  match s.reader with
  | .idle => none
  | .recv size =>
    match s.frameSignalCh with
    | [] => none
    | signal :: rest => some { s with frameSignalCh := rest, reader := .take size signal }
  | .body size signal got =>
    match (s.conn signal.conn).readBody size signal got with
    | (conn, reader) => some { s.setConn signal.conn conn with reader }
  | .reply _ _ _ => none

/-- The reader's send on `signal.ackCh` and the receive of the loop of `c`. -/
def ackStep (s : Sys) (c : Nat) : Option Sys :=
  match s.reader, (s.conn c).phase with
  | .reply size signal res, .ack _ =>
    if (s.conn c).ackCh = signal.ackCh then some (s.acked c size signal res) else none
  | _, _ => none

def next (s : Sys) : Act → Option Sys
  | .install c =>
    if s.installed c then none
    else
      some { s.point (net.owner c) (some c) with
        installed := Function.update s.installed c true }
  | .start c =>
    if s.installed c && (s.conn c).phase == .absent then
      some { s.setConn c { s.conn c with phase := .check, ackCh := s.nextCh } with
        nextCh := s.nextCh + 1 }
    else none
  | .drop client => some (s.point client none)
  | .close c =>
    if s.installed c && s.clientConn (net.owner c) != some c then
      some (s.setConn c { s.conn c with closed := true })
    else none
  | .call size =>
    match s.reader with
    | .idle => some { s with reader := .recv size }
    | _ => none
  | .loop c => loopStep net s c
  | .read => readStep s
  | .ack c => ackStep s c

def machine : TSys Sys Act where
  init s := s = { conn := fun c => { stream := net.stream c } }
  next := next net

/-! ## What a step can do -/

variable {net} {s s' : Sys}

inductive Step (net : Net) (s : Sys) : Sys → Prop
  | install {c : Nat} (hnew : s.installed c = false) :
      Step net s { s.point (net.owner c) (some c) with
        installed := Function.update s.installed c true }
  | start {c : Nat} (hinst : s.installed c = true) (hphase : (s.conn c).phase = .absent) :
      Step net s { s.setConn c { s.conn c with phase := .check, ackCh := s.nextCh } with
        nextCh := s.nextCh + 1 }
  | drop (client : Nat) : Step net s (s.point client none)
  | close {c : Nat} (hinst : s.installed c = true) (hgone : s.clientConn (net.owner c) ≠ some c) :
      Step net s (s.setConn c { s.conn c with closed := true })
  | call (size : Nat) (hreader : s.reader = .idle) : Step net s { s with reader := .recv size }
  | enter {c : Nat} (hphase : (s.conn c).phase = .check) : Step net s (s.setPhase c (.header []))
  | leave {c : Nat} (hphase : (s.conn c).phase = .check)
      (hgone : s.clientConn (net.owner c) ≠ some c) : Step net s (s.setPhase c .ending)
  | header {c : Nat} {got : List UInt8} (hphase : (s.conn c).phase = .header got) :
      Step net s (s.setConn c ((s.conn c).readHeader got))
  | signal {c length : Nat} (hphase : (s.conn c).phase = .signal length) :
      Step net s { s.setPhase c (.ack length) with
        frameSignalCh := s.frameSignalCh ++ [⟨c, net.owner c, length, (s.conn c).ackCh⟩] }
  | ending {c : Nat} (hphase : (s.conn c).phase = .ending) :
      Step net s ((s.setPhase c .closing).release (net.owner c) c)
  | closing {c : Nat} (hphase : (s.conn c).phase = .closing) : Step net s (s.setPhase c .done)
  | take {size : Nat} {signal : Signal} {rest : List Signal} (hreader : s.reader = .recv size)
      (hqueue : s.frameSignalCh = signal :: rest) :
      Step net s { s with frameSignalCh := rest, reader := .take size signal }
  | body {size : Nat} {signal : Signal} {got : List UInt8}
      (hreader : s.reader = .body size signal got) :
      Step net s { s.setConn signal.conn ((s.conn signal.conn).readBody size signal got).1 with
        reader := ((s.conn signal.conn).readBody size signal got).2 }
  | ack {c size n : Nat} {signal : Signal} {res : Except FrameError (List UInt8)}
      (hreader : s.reader = .reply size signal res) (hphase : (s.conn c).phase = .ack n)
      (hch : (s.conn c).ackCh = signal.ackCh) : Step net s (s.acked c size signal res)

theorem loopStep_cases {c : Nat} (h : loopStep net s c = some s') : Step net s s' := by
  unfold loopStep at h
  cases hphase : (s.conn c).phase with
  | absent | ack | done => simp [hphase] at h
  | check =>
    simp only [hphase] at h
    split at h
    · cases h
      exact .enter hphase
    · rename_i hgone
      cases h
      exact .leave hphase hgone
  | header got =>
    simp only [hphase, Option.some.injEq] at h
    exact h ▸ .header hphase
  | signal length =>
    simp only [hphase] at h
    split at h
    · cases h
      exact .signal hphase
    · cases h
  | ending =>
    simp only [hphase, Option.some.injEq] at h
    exact h ▸ .ending hphase
  | closing =>
    simp only [hphase, Option.some.injEq] at h
    exact h ▸ .closing hphase

theorem readStep_cases (h : readStep s = some s') : Step net s s' := by
  unfold readStep at h
  cases hreader : s.reader with
  | idle | reply => simp [hreader] at h
  | recv size =>
    simp only [hreader] at h
    split at h
    · cases h
    · rename_i signal rest hqueue
      cases h
      exact .take hreader hqueue
  | body size signal got =>
    simp only [hreader, Option.some.injEq] at h
    exact h ▸ .body hreader

theorem ackStep_cases {c : Nat} (h : ackStep s c = some s') : Step net s s' := by
  unfold ackStep at h
  split at h
  · rename_i size signal res n hreader hphase
    split at h
    · rename_i hch
      cases h
      exact .ack hreader hphase hch
    · cases h
  · cases h

theorem step_cases {a : Act} (h : next net s a = some s') : Step net s s' := by
  cases a with
  | install c =>
    simp only [next] at h
    split at h
    · cases h
    · rename_i hnew
      cases h
      exact .install (Bool.eq_false_iff.mpr hnew)
  | start c =>
    simp only [next] at h
    split at h
    · rename_i hok
      cases h
      simp only [Bool.and_eq_true, beq_iff_eq] at hok
      exact .start hok.1 hok.2
    · cases h
  | drop client =>
    cases h
    exact .drop client
  | close c =>
    simp only [next] at h
    split at h
    · rename_i hok
      cases h
      simp only [Bool.and_eq_true, bne_iff_ne] at hok
      exact .close hok.1 hok.2
    · cases h
  | call size =>
    simp only [next] at h
    split at h
    · rename_i hreader
      cases h
      exact .call size hreader
    · cases h
  | loop c => exact loopStep_cases h
  | read => exact readStep_cases h
  | ack c => exact ackStep_cases h

/-! ## Frame lemmas -/

@[simp] theorem setConn_self (s : Sys) (c : Nat) (conn : Conn) : (s.setConn c conn).conn c = conn :=
  Function.update_self ..

theorem setConn_of_ne (s : Sys) {c d : Nat} (conn : Conn) (h : d ≠ c) :
    (s.setConn c conn).conn d = s.conn d := Function.update_of_ne h ..

theorem release_frame (s : Sys) (client c : Nat) :
    (s.release client c).conn = s.conn ∧ (s.release client c).reader = s.reader ∧
    (s.release client c).frameSignalCh = s.frameSignalCh ∧
    (s.release client c).nextCh = s.nextCh ∧ (s.release client c).installed = s.installed ∧
    (s.release client c).removed = s.removed ∧ (s.release client c).failed = s.failed ∧
    (s.release client c).returned = s.returned ∧ (s.release client c).acks = s.acks := by
  unfold Sys.release
  split <;> simp

theorem readHeader_ackCh (conn : Conn) (got : List UInt8) :
    (conn.readHeader got).ackCh = conn.ackCh := by
  unfold Conn.readHeader
  split <;> rfl

/-- Reading the body changes the stream and keeps the signal. -/
theorem readBody_frame (conn : Conn) (size : Nat) (signal : Signal) (got : List UInt8) :
    (conn.readBody size signal got).1.phase = conn.phase ∧
    (conn.readBody size signal got).1.ackCh = conn.ackCh ∧
    (conn.readBody size signal got).1.closed = conn.closed ∧
    (conn.readBody size signal got).2.held = [signal] := by
  unfold Conn.readBody
  split
  · exact ⟨rfl, rfl, rfl, rfl⟩
  · split <;> exact ⟨rfl, rfl, rfl, rfl⟩

theorem held_take (size : Nat) (signal : Signal) : (Reader.take size signal).held = [signal] := by
  unfold Reader.take
  split <;> rfl

/-! ## Signals -/

/-- The signals sent and not yet acknowledged. -/
def Sys.inFlight (s : Sys) : List Signal := s.reader.held ++ s.frameSignalCh

/-- The connection waits for an acknowledgement. -/
def Phase.waits : Phase → Bool
  | .ack _ => true
  | _ => false

/-- Exactly the waiting loops have a signal in flight, and it is theirs. -/
structure Signals (net : Net) (s : Sys) : Prop where
  sender : ∀ signal ∈ s.inFlight, (s.conn signal.conn).phase = .ack signal.length ∧
    (s.conn signal.conn).ackCh = signal.ackCh ∧ signal.client = net.owner signal.conn
  nodup : (s.inFlight.map Signal.conn).Nodup
  waiting : ∀ c, (s.conn c).phase.waits = true → ∃ signal ∈ s.inFlight, signal.conn = c

theorem Signals.not_mem (h : Signals net s) {c : Nat} (hphase : (s.conn c).phase.waits = false) :
    c ∉ s.inFlight.map Signal.conn := by
  intro hmem
  obtain ⟨signal, hsignal, rfl⟩ := List.mem_map.mp hmem
  rw [(h.sender signal hsignal).1] at hphase
  cases hphase

/-- Steps that leave the signals and the waiting loops alone. -/
theorem Signals.keep (h : Signals net s) (hflight : s'.inFlight = s.inFlight)
    (hconn : ∀ c, ((s'.conn c).phase = (s.conn c).phase ∧ (s'.conn c).ackCh = (s.conn c).ackCh) ∨
      ((s.conn c).phase.waits = false ∧ (s'.conn c).phase.waits = false)) : Signals net s' := by
  refine ⟨fun signal hsignal => ?_, hflight ▸ h.nodup, fun c hc => ?_⟩
  · rw [hflight] at hsignal
    obtain ⟨hphase, hch, hclient⟩ := h.sender signal hsignal
    obtain ⟨hphase', hch'⟩ | ⟨hwaits, -⟩ := hconn signal.conn
    · exact ⟨hphase'.trans hphase, hch'.trans hch, hclient⟩
    · rw [hphase] at hwaits
      cases hwaits
  · rw [hflight]
    obtain ⟨hphase, -⟩ | ⟨-, hwaits⟩ := hconn c
    · exact h.waiting c (hphase ▸ hc)
    · rw [hwaits] at hc
      cases hc

/-- The same for a step on one connection. -/
theorem Signals.setConn (h : Signals net s) {c : Nat} {conn : Conn}
    (hconn : (conn.phase = (s.conn c).phase ∧ conn.ackCh = (s.conn c).ackCh) ∨
      ((s.conn c).phase.waits = false ∧ conn.phase.waits = false)) :
    Signals net (s.setConn c conn) := by
  refine h.keep rfl fun d => ?_
  by_cases hd : d = c
  · subst hd
    rw [setConn_self]
    exact hconn
  · rw [setConn_of_ne s conn hd]
    exact .inl ⟨rfl, rfl⟩

/-- A loop sends its signal. -/
theorem Signals.signal (h : Signals net s) {c length : Nat}
    (hphase : (s.conn c).phase = .signal length) :
    Signals net { s.setPhase c (.ack length) with
      frameSignalCh := s.frameSignalCh ++ [⟨c, net.owner c, length, (s.conn c).ackCh⟩] } := by
  have hnot := h.not_mem (c := c) (by rw [hphase]; rfl)
  have hflight : Sys.inFlight { s.setPhase c (.ack length) with
      frameSignalCh := s.frameSignalCh ++ [⟨c, net.owner c, length, (s.conn c).ackCh⟩] } =
      s.inFlight ++ [⟨c, net.owner c, length, (s.conn c).ackCh⟩] :=
    (List.append_assoc _ _ _).symm
  refine ⟨fun signal hsignal => ?_, ?_, fun d hd => ?_⟩
  · rw [hflight, List.mem_append, List.mem_singleton] at hsignal
    obtain hold | rfl := hsignal
    · have hne : signal.conn ≠ c := fun heq => hnot (heq ▸ List.mem_map_of_mem hold)
      show ((s.setConn c _).conn signal.conn).phase = _ ∧
        ((s.setConn c _).conn signal.conn).ackCh = _ ∧ _
      rw [setConn_of_ne s _ hne]
      exact h.sender signal hold
    · show ((s.setConn c _).conn c).phase = _ ∧ ((s.setConn c _).conn c).ackCh = _ ∧ _
      rw [setConn_self]
      exact ⟨rfl, rfl, rfl⟩
  · rw [hflight, List.map_append, List.nodup_append]
    refine ⟨h.nodup, List.pairwise_singleton _ _, fun a ha b hb => ?_⟩
    have hbc : b = c := List.mem_singleton.mp hb
    intro hab
    exact hnot (hbc ▸ hab ▸ ha)
  · rw [hflight]
    by_cases hdc : d = c
    · exact ⟨_, List.mem_append_right _ (List.mem_singleton_self _), hdc.symm⟩
    · have hd : ((s.setConn c { s.conn c with phase := .ack length }).conn d).phase.waits = true := hd
      rw [setConn_of_ne s _ hdc] at hd
      obtain ⟨signal, hsignal, hsc⟩ := h.waiting d hd
      exact ⟨signal, List.mem_append_left _ hsignal, hsc⟩

/-- The loop of the signal is acknowledged. -/
theorem Signals.acked (h : Signals net s) {size : Nat} {signal : Signal}
    {res : Except FrameError (List UInt8)} (hreader : s.reader = .reply size signal res) :
    Signals net (s.acked signal.conn size signal res) := by
  have hflight : s.inFlight = signal :: s.frameSignalCh := by
    rw [Sys.inFlight, hreader]
    rfl
  have hnodup := h.nodup
  rw [hflight, List.map_cons, List.nodup_cons] at hnodup
  have hflight' : (s.acked signal.conn size signal res).inFlight = s.frameSignalCh := by
    cases res <;> rfl
  obtain ⟨conn, hconn, hwaits⟩ : ∃ conn : Conn,
      (s.acked signal.conn size signal res).conn = (s.setConn signal.conn conn).conn ∧
      conn.phase.waits = false := by
    cases res with
    | ok frame => exact ⟨{ s.conn signal.conn with phase := .check }, rfl, rfl⟩
    | error e => exact ⟨{ s.conn signal.conn with phase := .ending }, rfl, rfl⟩
  refine ⟨fun other hother => ?_, hflight' ▸ hnodup.2, fun d hd => ?_⟩
  · rw [hflight'] at hother
    have hne : other.conn ≠ signal.conn := fun heq => hnodup.1 (heq ▸ List.mem_map_of_mem hother)
    rw [hconn, setConn_of_ne s _ hne]
    exact h.sender other (hflight ▸ List.mem_cons_of_mem _ hother)
  · rw [hconn] at hd
    rw [hflight']
    by_cases hdc : d = signal.conn
    · rw [hdc, setConn_self, hwaits] at hd
      cases hd
    · rw [setConn_of_ne s _ hdc] at hd
      obtain ⟨other, hother, hsc⟩ := h.waiting d hd
      rw [hflight, List.mem_cons] at hother
      obtain rfl | hother := hother
      · exact absurd hsc.symm hdc
      · exact ⟨other, hother, hsc⟩

/-! ## Channels and ownership -/

/-- Every loop has a channel of its own. -/
structure Channels (s : Sys) : Prop where
  started : ∀ c, (s.conn c).phase ≠ .absent → s.installed c = true ∧ (s.conn c).ackCh < s.nextCh
  injective : ∀ c d, (s.conn c).phase ≠ .absent → (s.conn d).phase ≠ .absent →
    (s.conn c).ackCh = (s.conn d).ackCh → c = d

/-- Steps that start no loop. -/
theorem Channels.keep (h : Channels s) (hnext : s'.nextCh = s.nextCh)
    (hinst : ∀ c, s.installed c = true → s'.installed c = true)
    (hconn : ∀ c, (s'.conn c).phase ≠ .absent →
      (s.conn c).phase ≠ .absent ∧ (s'.conn c).ackCh = (s.conn c).ackCh) : Channels s' := by
  refine ⟨fun c hc => ?_, fun c d hc hd heq => ?_⟩
  · obtain ⟨hphase, hch⟩ := hconn c hc
    rw [hch, hnext]
    exact ⟨hinst c (h.started c hphase).1, (h.started c hphase).2⟩
  · obtain ⟨hphase, hch⟩ := hconn c hc
    obtain ⟨hphase', hch'⟩ := hconn d hd
    exact h.injective c d hphase hphase' (hch ▸ hch' ▸ heq)

theorem Channels.setConn (h : Channels s) {c : Nat} {conn : Conn}
    (hphase : (s.conn c).phase ≠ .absent ∨ conn.phase = .absent)
    (hch : conn.ackCh = (s.conn c).ackCh) : Channels (s.setConn c conn) := by
  refine h.keep rfl (fun _ hi => hi) fun d hd => ?_
  by_cases hdc : d = c
  · subst hdc
    rw [setConn_self] at hd ⊢
    exact ⟨hphase.resolve_right hd, hch⟩
  · rw [setConn_of_ne s conn hdc] at hd ⊢
    exact ⟨hd, rfl⟩

/-- `make` returns a new channel. -/
theorem Channels.start (h : Channels s) {c : Nat} (hinst : s.installed c = true) :
    Channels { s.setConn c { s.conn c with phase := .check, ackCh := s.nextCh } with
      nextCh := s.nextCh + 1 } := by
  have hself : ∀ {d}, d ≠ c → (s.setConn c { s.conn c with phase := .check, ackCh := s.nextCh }).conn d =
      s.conn d := fun hd => setConn_of_ne s _ hd
  have hnew : ((s.setConn c { s.conn c with phase := .check, ackCh := s.nextCh }).conn c).ackCh =
      s.nextCh := by rw [setConn_self]
  refine ⟨fun d hd => ?_, fun d e hd he heq => ?_⟩
  · by_cases hdc : d = c
    · subst hdc
      exact ⟨hinst, Nat.lt_succ_of_le (Nat.le_of_eq hnew)⟩
    · dsimp only at hd ⊢
      rw [hself hdc] at hd ⊢
      exact ⟨(h.started d hd).1, Nat.lt_succ_of_lt (h.started d hd).2⟩
  · dsimp only at hd he heq
    by_cases hdc : d = c
    · by_cases hec : e = c
      · exact hdc.trans hec.symm
      · rw [hdc, hnew, hself hec] at heq
        rw [hself hec] at he
        exact absurd heq (Nat.ne_of_gt (h.started e he).2)
    · by_cases hec : e = c
      · rw [hec, hnew, hself hdc] at heq
        rw [hself hdc] at hd
        exact absurd heq (Nat.ne_of_lt (h.started d hd).2)
      · rw [hself hdc, hself hec] at heq
        rw [hself hdc] at hd
        rw [hself hec] at he
        exact h.injective d e hd he heq

/-- The loop has given its connection back. -/
def Phase.released : Phase → Bool
  | .closing => true
  | .done => true
  | _ => false

/-- A connection that is not in use any more was removed by others or given back
by its loop. -/
structure Owned (net : Net) (s : Sys) : Prop where
  owner : ∀ k c, s.clientConn k = some c → net.owner c = k
  gone : ∀ c, s.installed c = true → s.clientConn (net.owner c) ≠ some c →
    s.removed c = true ∨ (s.conn c).phase.released = true

theorem Owned.keep (h : Owned net s) (hclient : s'.clientConn = s.clientConn)
    (hinst : s'.installed = s.installed) (hremoved : s'.removed = s.removed)
    (hconn : ∀ c, (s.conn c).phase.released = true → (s'.conn c).phase.released = true) :
    Owned net s' := by
  refine ⟨hclient ▸ h.owner, fun c hc hgone => ?_⟩
  rw [hclient] at hgone
  rw [hinst] at hc
  rw [hremoved]
  exact (h.gone c hc hgone).imp_right (hconn c)

theorem Owned.setConn (h : Owned net s) {c : Nat} {conn : Conn}
    (hphase : (s.conn c).phase.released = false ∨ conn.phase.released = true) :
    Owned net (s.setConn c conn) := by
  refine h.keep rfl rfl rfl fun d hd => ?_
  by_cases hdc : d = c
  · subst hdc
    rw [setConn_self]
    obtain hphase | hphase := hphase
    · rw [hphase] at hd
      cases hd
    · exact hphase
  · rw [setConn_of_ne s conn hdc]
    exact hd

/-- Replaced connections count as removed. -/
theorem Owned.point (h : Owned net s) {client : Nat} {newConn : Option Nat}
    (hnew : ∀ c, newConn = some c → net.owner c = client) : Owned net (s.point client newConn) := by
  refine ⟨fun k c hk => ?_, fun c hc hgone => ?_⟩
  · by_cases hkc : k = client
    · subst hkc
      have hk : newConn = some c := (Function.update_self k newConn s.clientConn) ▸ hk
      exact hnew c hk
    · have hk : s.clientConn k = some c :=
        (Function.update_of_ne hkc newConn s.clientConn) ▸ hk
      exact h.owner k c hk
  · by_cases hcur : s.clientConn (net.owner c) = some c
    · left
      by_cases hkc : net.owner c = client
      · show (s.removed c || s.clientConn client == some c) = true
        rw [← hkc, hcur, beq_self_eq_true, Bool.or_true]
      · refine absurd ?_ hgone
        exact (Function.update_of_ne hkc ..).trans hcur
    · obtain hr | hphase := h.gone c hc hcur
      · left
        show (s.removed c || s.clientConn client == some c) = true
        rw [hr, Bool.true_or]
      · exact .inr hphase

theorem Owned.install (h : Owned net s) (c : Nat) :
    Owned net { s.point (net.owner c) (some c) with
      installed := Function.update s.installed c true } := by
  have hpoint : Owned net (s.point (net.owner c) (some c)) :=
    h.point fun d hd => Option.some.inj hd ▸ rfl
  refine ⟨hpoint.owner, fun d hd hgone => ?_⟩
  by_cases hdc : d = c
  · subst hdc
    refine absurd ?_ hgone
    exact Function.update_self ..
  · have hd : s.installed d = true := (Function.update_of_ne hdc true s.installed) ▸ hd
    exact hpoint.gone d hd hgone

/-- The loop gives its connection back. -/
theorem Owned.release (h : Owned net s) {c : Nat} (hphase : (s.conn c).phase.released = true) :
    Owned net (s.release (net.owner c) c) := by
  unfold Sys.release
  split
  · rename_i hcur
    refine ⟨fun k d hk => ?_, fun d hd hgone => ?_⟩
    · by_cases hkc : k = net.owner c
      · subst hkc
        exact absurd (Function.update_self (net.owner c) none s.clientConn ▸ hk) (by simp)
      · exact h.owner k d ((Function.update_of_ne hkc none s.clientConn) ▸ hk)
    · by_cases hdc : d = c
      · exact .inr (hdc ▸ hphase)
      · refine h.gone d hd fun hdcur => ?_
        by_cases hkc : net.owner d = net.owner c
        · rw [hkc, hcur] at hdcur
          exact hdc (Option.some.inj hdcur).symm
        · exact hgone ((Function.update_of_ne hkc none s.clientConn).trans hdcur)
  · exact h

/-! ## The connections one by one -/

/-- Where the call on connection `c` is that its loop and the reader share. -/
def viewOf (reader : Reader) (c : Nat) : Phase → View
  | .absent => .fresh
  | .check => .fresh
  | .header got => .header got
  | .signal n => .length n
  | .ack n =>
    match reader with
    | .idle => .length n
    | .recv _ => .length n
    | .body size signal got => if signal.conn = c then .body size n got else .length n
    | .reply size signal res => if signal.conn = c then .result size res else .length n
  | .ending => .over
  | .closing => .over
  | .done => .over

/-- The frames returned for `c`. -/
def framesOf (returned : List Returned) (c : Nat) : List (Nat × List UInt8) :=
  (returned.filter fun r => r.conn == c).map fun r => (r.size, r.frame)

/-- What the machine does to one connection. -/
def Sys.track (s : Sys) (c : Nat) : Track where
  stream := (s.conn c).stream
  closed := (s.conn c).closed
  view := viewOf s.reader c (s.conn c).phase
  frames := framesOf s.returned c
  removed := s.removed c
  failed := s.failed c

theorem viewOf_other {r : Reader} {c : Nat} (h : ∀ signal ∈ r.held, signal.conn ≠ c) (p : Phase) :
    viewOf r c p = viewOf .idle c p := by
  cases p with
  | ack n =>
    cases r with
    | idle | recv => rfl
    | body size signal got => exact if_neg (h signal (List.mem_singleton_self _))
    | reply size signal res => exact if_neg (h signal (List.mem_singleton_self _))
  | absent | check | header | signal | ending | closing | done => rfl

theorem track_setConn_of_ne (s : Sys) {c d : Nat} (conn : Conn) (h : d ≠ c) :
    (s.setConn c conn).track d = s.track d := by
  simp only [Sys.track, setConn_of_ne s conn h]
  rfl

theorem track_setConn_self (s : Sys) (c : Nat) (conn : Conn) :
    (s.setConn c conn).track c = { s.track c with
      stream := conn.stream, closed := conn.closed, view := viewOf s.reader c conn.phase } := by
  simp only [Sys.track, setConn_self]
  rfl

/-- A step on the connection `c` alone. -/
theorem track_setConn {c : Nat} {conn : Conn}
    (h : (s.track c).Step { s.track c with
      stream := conn.stream, closed := conn.closed, view := viewOf s.reader c conn.phase }) (d : Nat) :
    (s.track d).Step ((s.setConn c conn).track d) := by
  by_cases hd : d = c
  · subst hd
    rw [track_setConn_self]
    exact h
  · rw [track_setConn_of_ne s conn hd]
    exact .same

theorem track_point (s : Sys) (client : Nat) (newConn : Option Nat) (d : Nat) :
    (s.track d).Step ((s.point client newConn).track d) := by
  cases hcur : s.clientConn client == some d with
  | true =>
    have htrack : (s.point client newConn).track d = { s.track d with removed := true } := by
      simp only [Sys.track, Sys.point, hcur, Bool.or_true]
    rw [htrack]
    exact .remove
  | false =>
    have htrack : (s.point client newConn).track d = s.track d := by
      simp only [Sys.track, Sys.point, hcur, Bool.or_false]
    rw [htrack]
    exact .same

theorem track_header {c : Nat} {got : List UInt8} (hphase : (s.conn c).phase = .header got) :
    (s.track c).Step { s.track c with
      stream := ((s.conn c).readHeader got).stream
      closed := ((s.conn c).readHeader got).closed
      view := viewOf s.reader c ((s.conn c).readHeader got).phase } := by
  have hview : (s.track c).view = .header got := by
    simp only [Sys.track, hphase, viewOf]
  have hread : (s.track c).readHeader got = { s.track c with
      stream := ((s.conn c).readHeader got).stream
      closed := ((s.conn c).readHeader got).closed
      view := viewOf s.reader c ((s.conn c).readHeader got).phase } := by
    simp only [Track.readHeader, Conn.readHeader, Sys.track]
    generalize connRound (s.conn c).closed 2 got (s.conn c).stream = r
    obtain ⟨res, stream⟩ := r
    cases res <;> rfl
  rw [← hread]
  exact .header hview

/-- The reader and its signal leave the other connections alone. -/
theorem track_reader {s s' : Sys} (signal : Signal) {d : Nat} (hd : d ≠ signal.conn)
    (hconn : s'.conn d = s.conn d) (hreturned : s'.returned = s.returned)
    (hremoved : s'.removed = s.removed) (hfailed : s'.failed = s.failed)
    (hheld : ∀ other ∈ s.reader.held, other = signal)
    (hheld' : ∀ other ∈ s'.reader.held, other = signal) : (s.track d).Step (s'.track d) := by
  have hview : viewOf s.reader d (s.conn d).phase = viewOf .idle d (s.conn d).phase :=
    viewOf_other (fun other h => hheld other h ▸ hd.symm) _
  have hview' : viewOf s'.reader d (s.conn d).phase = viewOf .idle d (s.conn d).phase :=
    viewOf_other (fun other h => hheld' other h ▸ hd.symm) _
  have htrack : s'.track d = s.track d := by
    simp only [Sys.track, hconn, hreturned, hremoved, hfailed, hview, hview']
  rw [htrack]
  exact .same

theorem track_take {size : Nat} {signal : Signal} {rest : List Signal}
    (hsignals : Signals net s) (hreader : s.reader = .recv size)
    (hqueue : s.frameSignalCh = signal :: rest) (d : Nat) :
    (s.track d).Step (Sys.track { s with frameSignalCh := rest, reader := .take size signal } d) := by
  by_cases hd : d = signal.conn
  · subst hd
    have hmem : signal ∈ s.inFlight := by simp [Sys.inFlight, hqueue]
    obtain ⟨hphase, -, -⟩ := hsignals.sender signal hmem
    have hview : (s.track signal.conn).view = .length signal.length := by
      simp only [Sys.track, hphase, hreader, viewOf]
    have htake : Sys.track { s with frameSignalCh := rest, reader := .take size signal } signal.conn =
        (s.track signal.conn).take size signal.length := by
      simp only [Sys.track, Track.take, hphase, Reader.take]
      split <;> simp [viewOf]
    rw [htake]
    exact .take size hview
  · refine track_reader signal hd rfl rfl rfl rfl ?_ ?_
    · intro other hother
      rw [hreader] at hother
      cases hother
    · intro other hother
      rw [held_take, List.mem_singleton] at hother
      exact hother

theorem track_body {size : Nat} {signal : Signal} {got : List UInt8} (hsignals : Signals net s)
    (hreader : s.reader = .body size signal got) (d : Nat) :
    (s.track d).Step (Sys.track
      { s.setConn signal.conn ((s.conn signal.conn).readBody size signal got).1 with
        reader := ((s.conn signal.conn).readBody size signal got).2 } d) := by
  by_cases hd : d = signal.conn
  · subst hd
    have hmem : signal ∈ s.inFlight := by simp [Sys.inFlight, hreader, Reader.held]
    obtain ⟨hphase, -, -⟩ := hsignals.sender signal hmem
    have hview : (s.track signal.conn).view = .body size signal.length got := by
      simp [Sys.track, hphase, hreader, viewOf]
    have hread : Sys.track { s.setConn signal.conn ((s.conn signal.conn).readBody size signal got).1 with
        reader := ((s.conn signal.conn).readBody size signal got).2 } signal.conn =
        (s.track signal.conn).readBody size signal.length got := by
      simp only [Sys.track, Track.readBody, Conn.readBody, setConn_self]
      split
      · simp [viewOf, hphase, Sys.setConn]
      · generalize connRound (s.conn signal.conn).closed signal.length got
          (s.conn signal.conn).stream = r
        obtain ⟨res, stream⟩ := r
        cases res <;> simp [viewOf, hphase, Sys.setConn]
    rw [hread]
    exact .body hview
  · obtain ⟨-, -, -, hheld⟩ := readBody_frame (s.conn signal.conn) size signal got
    refine track_reader signal hd (setConn_of_ne s _ hd) rfl rfl rfl ?_ ?_
    · intro other hother
      rw [hreader] at hother
      exact List.mem_singleton.mp hother
    · intro other hother
      dsimp only at hother
      rw [hheld] at hother
      exact List.mem_singleton.mp hother

theorem framesOf_concat_of_ne (returned : List Returned) (r : Returned) {c : Nat} (h : c ≠ r.conn) :
    framesOf (returned ++ [r]) c = framesOf returned c := by
  simp [framesOf, h.symm]

theorem track_acked {size : Nat} {signal : Signal} {res : Except FrameError (List UInt8)}
    (hsignals : Signals net s) (hreader : s.reader = .reply size signal res) (d : Nat) :
    (s.track d).Step ((s.acked signal.conn size signal res).track d) := by
  have hmem : signal ∈ s.inFlight := by simp [Sys.inFlight, hreader, Reader.held]
  obtain ⟨hphase, -, -⟩ := hsignals.sender signal hmem
  by_cases hd : d = signal.conn
  · subst hd
    have hview : (s.track signal.conn).view = .result size res := by
      simp [Sys.track, hphase, hreader, viewOf]
    have hacked : (s.acked signal.conn size signal res).track signal.conn =
        (s.track signal.conn).finish size res := by
      cases res with
      | ok frame =>
        simp [Sys.acked, Sys.track, Sys.setPhase, Track.finish, viewOf, Sys.setConn, framesOf]
      | error e =>
        simp [Sys.acked, Sys.track, Sys.setPhase, Track.finish, viewOf, Sys.setConn]
    rw [hacked]
    exact .finish hview
  · have hview : viewOf s.reader d (s.conn d).phase = viewOf .idle d (s.conn d).phase := by
      refine viewOf_other (fun other hother => ?_) _
      rw [hreader] at hother
      rw [List.mem_singleton.mp hother]
      exact Ne.symm hd
    have hacked : (s.acked signal.conn size signal res).track d = s.track d := by
      cases res with
      | ok frame =>
        have hframes : framesOf (s.returned ++ [⟨signal.conn, signal.client, size, frame⟩]) d =
            framesOf s.returned d := framesOf_concat_of_ne _ _ hd
        simp only [Sys.acked, Sys.track, Sys.setPhase, setConn_of_ne s _ hd, hview, hframes]
        rfl
      | error e =>
        have hrecv : viewOf (.recv size) d (s.conn d).phase = viewOf .idle d (s.conn d).phase :=
          viewOf_other (fun _ h => absurd h List.not_mem_nil) _
        simp only [Sys.acked, Sys.track, Sys.setPhase, setConn_of_ne s _ hd, hview, hrecv,
          Function.update_of_ne hd]
        rfl
    rw [hacked]
    exact .same

/-! ## Every step -/

/-- The acknowledgement reaches the loop that has sent the signal. -/
theorem ack_own {c size n : Nat} {signal : Signal} {res : Except FrameError (List UInt8)}
    (hsignals : Signals net s) (hchannels : Channels s) (hreader : s.reader = .reply size signal res)
    (hphase : (s.conn c).phase = .ack n) (hch : (s.conn c).ackCh = signal.ackCh) :
    c = signal.conn := by
  have hmem : signal ∈ s.inFlight := by simp [Sys.inFlight, hreader, Reader.held]
  obtain ⟨hphase', hch', -⟩ := hsignals.sender signal hmem
  exact hchannels.injective c signal.conn (by simp [hphase]) (by simp [hphase']) (hch.trans hch'.symm)

/-- **Refinement.** A step of the machine is a step of every connection. -/
theorem step_track (hsignals : Signals net s) (hchannels : Channels s) (howned : Owned net s)
    (h : Step net s s') (d : Nat) : (s.track d).Step (s'.track d) := by
  cases h with
  | @install c hnew => exact track_point s (net.owner c) (some c) d
  | drop client => exact track_point s client none d
  | @start c hinst hphase =>
    refine track_setConn (c := c) ?_ d
    have hview : viewOf s.reader c .check = (s.track c).view := by
      simp only [Sys.track, hphase, viewOf]
    rw [hview]
    exact .same
  | @close c hinst hgone =>
    refine track_setConn (c := c) (.close ?_) d
    refine (howned.gone c hinst hgone).imp_right fun hphase => ?_
    simp only [Sys.track]
    cases hp : (s.conn c).phase <;> rw [hp] at hphase <;> first | rfl | cases hphase
  | call size hreader =>
    have hview : ∀ p, viewOf (.recv size) d p = viewOf s.reader d p := by
      intro p
      rw [hreader, viewOf_other (fun _ h => absurd h List.not_mem_nil)]
    have htrack : Sys.track { s with reader := .recv size } d = s.track d := by
      simp only [Sys.track, hview]
    rw [htrack]
    exact .same
  | @enter c hphase =>
    refine track_setConn (c := c) (.enter ?_) d
    simp only [Sys.track, hphase, viewOf]
  | @leave c hphase hgone =>
    refine track_setConn (c := c) (.leave ?_ ?_) d
    · simp only [Sys.track, hphase, viewOf]
    · have hinst := (hchannels.started c (by simp [hphase])).1
      refine (howned.gone c hinst hgone).resolve_right ?_
      simp [hphase, Phase.released]
  | header hphase => exact track_setConn (track_header hphase) d
  | @signal c length hphase =>
    refine track_setConn (c := c) ?_ d
    have hother : ∀ signal ∈ s.reader.held, signal.conn ≠ c := by
      intro signal hheld heq
      have hmem : signal.conn ∈ s.inFlight.map Signal.conn :=
        List.mem_map_of_mem (List.mem_append_left _ hheld)
      exact hsignals.not_mem (by rw [hphase]; rfl) (heq ▸ hmem)
    have hview : viewOf s.reader c (.ack length) = (s.track c).view := by
      rw [viewOf_other hother]
      simp only [Sys.track, hphase, viewOf]
    rw [hview]
    exact .same
  | @ending c hphase =>
    have hrelease : ((s.setPhase c .closing).release (net.owner c) c).track d =
        (s.setPhase c .closing).track d := by
      obtain ⟨hconn, hreader, -, -, -, hremoved, hfailed, hreturned, -⟩ :=
        release_frame (s.setPhase c .closing) (net.owner c) c
      simp only [Sys.track, hconn, hreader, hremoved, hfailed, hreturned]
    rw [hrelease]
    refine track_setConn (c := c) ?_ d
    have hview : viewOf s.reader c .closing = (s.track c).view := by
      simp only [Sys.track, hphase, viewOf]
    rw [hview]
    exact .same
  | @closing c hphase =>
    refine track_setConn (c := c) ?_ d
    have hview : viewOf s.reader c .done = (s.track c).view := by
      simp only [Sys.track, hphase, viewOf]
    rw [hview]
    exact .same
  | take hreader hqueue => exact track_take hsignals hreader hqueue d
  | body hreader => exact track_body hsignals hreader d
  | ack hreader hphase hch =>
    rw [ack_own hsignals hchannels hreader hphase hch]
    exact track_acked hsignals hreader d

theorem Signals.step (hchannels : Channels s) (hsignals : Signals net s) (h : Step net s s') :
    Signals net s' := by
  have same : ∀ c, ((s.conn c).phase = (s.conn c).phase ∧ (s.conn c).ackCh = (s.conn c).ackCh) ∨
      ((s.conn c).phase.waits = false ∧ (s.conn c).phase.waits = false) := fun _ => .inl ⟨rfl, rfl⟩
  cases h with
  | install hnew => exact hsignals.keep rfl same
  | drop client => exact hsignals.keep rfl same
  | call size hreader =>
    refine hsignals.keep ?_ same
    simp only [Sys.inFlight, hreader, Reader.held]
  | @start c hinst hphase =>
    have hset : Signals net (s.setConn c { s.conn c with phase := .check, ackCh := s.nextCh }) :=
      hsignals.setConn (.inr ⟨by rw [hphase]; rfl, rfl⟩)
    exact hset.keep rfl fun _ => .inl ⟨rfl, rfl⟩
  | close hinst hgone => exact hsignals.setConn (.inl ⟨rfl, rfl⟩)
  | enter hphase => exact hsignals.setConn (.inr ⟨by rw [hphase]; rfl, rfl⟩)
  | leave hphase hgone => exact hsignals.setConn (.inr ⟨by rw [hphase]; rfl, rfl⟩)
  | @header c got hphase =>
    refine hsignals.setConn (.inr ⟨by rw [hphase]; rfl, ?_⟩)
    unfold Conn.readHeader
    split <;> rfl
  | signal hphase => exact hsignals.signal hphase
  | @ending c hphase =>
    have hset : Signals net (s.setPhase c .closing) :=
      hsignals.setConn (.inr ⟨by rw [hphase]; rfl, rfl⟩)
    obtain ⟨hconn, hreader, hqueue, -⟩ := release_frame (s.setPhase c .closing) (net.owner c) c
    refine hset.keep ?_ fun _ => .inl ?_
    · simp only [Sys.inFlight, hreader, hqueue]
    · rw [hconn]
      exact ⟨rfl, rfl⟩
  | closing hphase => exact hsignals.setConn (.inr ⟨by rw [hphase]; rfl, rfl⟩)
  | take hreader hqueue =>
    refine hsignals.keep ?_ same
    simp only [Sys.inFlight, hreader, hqueue, held_take]
    rfl
  | @body size signal got hreader =>
    obtain ⟨hphase, hch, -, hheld⟩ := readBody_frame (s.conn signal.conn) size signal got
    have hset : Signals net (s.setConn signal.conn ((s.conn signal.conn).readBody size signal got).1) :=
      hsignals.setConn (.inl ⟨hphase, hch⟩)
    refine hset.keep ?_ fun _ => .inl ⟨rfl, rfl⟩
    show _ ++ s.frameSignalCh = s.reader.held ++ s.frameSignalCh
    rw [hheld, hreader]
    rfl
  | ack hreader hphase hch =>
    rw [ack_own hsignals hchannels hreader hphase hch]
    exact hsignals.acked hreader

theorem Channels.step (hchannels : Channels s) (h : Step net s s') : Channels s' := by
  cases h with
  | @install c hnew =>
    refine hchannels.keep rfl (fun d hd => ?_) fun _ h => ⟨h, rfl⟩
    show Function.update s.installed c true d = true
    by_cases hdc : d = c
    · subst hdc
      exact Function.update_self ..
    · exact (Function.update_of_ne hdc ..).trans hd
  | drop client => exact hchannels.keep rfl (fun _ h => h) fun _ h => ⟨h, rfl⟩
  | call size hreader => exact hchannels.keep rfl (fun _ h => h) fun _ h => ⟨h, rfl⟩
  | start hinst hphase => exact hchannels.start hinst
  | @close c hinst hgone =>
    by_cases hphase : (s.conn c).phase = .absent
    · exact hchannels.setConn (.inr hphase) rfl
    · exact hchannels.setConn (.inl hphase) rfl
  | enter hphase => exact hchannels.setConn (.inl (by simp [hphase])) rfl
  | leave hphase hgone => exact hchannels.setConn (.inl (by simp [hphase])) rfl
  | header hphase => exact hchannels.setConn (.inl (by simp [hphase])) (readHeader_ackCh _ _)
  | @signal c length hphase =>
    have hset : Channels (s.setPhase c (.ack length)) :=
      hchannels.setConn (.inl (by simp [hphase])) rfl
    exact hset.keep rfl (fun _ h => h) fun _ h => ⟨h, rfl⟩
  | @ending c hphase =>
    have hset : Channels (s.setPhase c .closing) := hchannels.setConn (.inl (by simp [hphase])) rfl
    obtain ⟨hconn, -, -, hnext, hinst, -⟩ := release_frame (s.setPhase c .closing) (net.owner c) c
    refine hset.keep hnext (fun d hd => ?_) fun d hd => ?_
    · rw [hinst]
      exact hd
    · rw [hconn] at hd ⊢
      exact ⟨hd, rfl⟩
  | closing hphase => exact hchannels.setConn (.inl (by simp [hphase])) rfl
  | take hreader hqueue => exact hchannels.keep rfl (fun _ h => h) fun _ h => ⟨h, rfl⟩
  | @body size signal got hreader =>
    obtain ⟨hphase, hch, -⟩ := readBody_frame (s.conn signal.conn) size signal got
    have hset : Channels (s.setConn signal.conn ((s.conn signal.conn).readBody size signal got).1) := by
      refine hchannels.setConn ?_ hch
      rw [hphase]
      exact (em ((s.conn signal.conn).phase = .absent)).symm
    exact hset.keep rfl (fun _ h => h) fun _ h => ⟨h, rfl⟩
  | @ack c size n signal res hreader hphase hch =>
    have hset : ∀ p, Channels (s.setPhase c p) :=
      fun p => hchannels.setConn (.inl (by simp [hphase])) rfl
    cases res with
    | ok frame => exact (hset .check).keep rfl (fun _ h => h) fun _ h => ⟨h, rfl⟩
    | error e => exact (hset .ending).keep rfl (fun _ h => h) fun _ h => ⟨h, rfl⟩

theorem Owned.step (howned : Owned net s) (h : Step net s s') : Owned net s' := by
  cases h with
  | @install c hnew => exact howned.install c
  | drop client => exact howned.point fun _ hc => absurd hc (by simp)
  | call size hreader => exact howned.keep rfl rfl rfl fun _ h => h
  | @start c hinst hphase =>
    have hset : Owned net (s.setConn c { s.conn c with phase := .check, ackCh := s.nextCh }) :=
      howned.setConn (.inl (by rw [hphase]; rfl))
    exact hset.keep rfl rfl rfl fun _ h => h
  | @close c hinst hgone =>
    refine howned.setConn ?_
    cases hphase : (s.conn c).phase.released
    · exact .inl rfl
    · exact .inr rfl
  | enter hphase => exact howned.setConn (.inl (by rw [hphase]; rfl))
  | leave hphase hgone => exact howned.setConn (.inl (by rw [hphase]; rfl))
  | header hphase => exact howned.setConn (.inl (by rw [hphase]; rfl))
  | @signal c length hphase =>
    have hset : Owned net (s.setPhase c (.ack length)) :=
      howned.setConn (.inl (by rw [hphase]; rfl))
    exact hset.keep rfl rfl rfl fun _ h => h
  | @ending c hphase =>
    have hset : Owned net (s.setPhase c .closing) := howned.setConn (.inr rfl)
    refine hset.release ?_
    rw [Sys.setPhase, setConn_self]
    rfl
  | closing hphase => exact howned.setConn (.inr rfl)
  | take hreader hqueue => exact howned.keep rfl rfl rfl fun _ h => h
  | @body size signal got hreader =>
    obtain ⟨hphase, -⟩ := readBody_frame (s.conn signal.conn) size signal got
    have hset :
        Owned net (s.setConn signal.conn ((s.conn signal.conn).readBody size signal got).1) := by
      refine howned.setConn ?_
      rw [hphase]
      cases (s.conn signal.conn).phase.released
      · exact .inl rfl
      · exact .inr rfl
    exact hset.keep rfl rfl rfl fun _ h => h
  | @ack c size n signal res hreader hphase hch =>
    have hset : ∀ p, Owned net (s.setPhase c p) :=
      fun p => howned.setConn (.inl (by rw [hphase]; rfl))
    cases res with
    | ok frame => exact (hset .check).keep rfl rfl rfl fun _ h => h
    | error e => exact (hset .ending).keep rfl rfl rfl fun _ h => h

/-- What `readFrom` hands out and whom it acknowledges. -/
structure Logged (net : Net) (s : Sys) : Prop where
  acks : ∀ a ∈ s.acks, a.1 = a.2
  clients : ∀ r ∈ s.returned, r.client = net.owner r.conn

theorem Logged.step (hsignals : Signals net s) (hchannels : Channels s) (hlogged : Logged net s)
    (h : Step net s s') : Logged net s' := by
  cases h with
  | @ack c size n signal res hreader hphase hch =>
    have hmem : signal ∈ s.inFlight := by simp [Sys.inFlight, hreader, Reader.held]
    obtain rfl := ack_own hsignals hchannels hreader hphase hch
    have hacks : ∀ a ∈ s.acks ++ [(signal.conn, signal.conn)], a.1 = a.2 := by
      intro a ha
      obtain ha | ha := List.mem_append.mp ha
      · exact hlogged.acks a ha
      · rw [List.mem_singleton.mp ha]
    cases res with
    | ok frame =>
      refine ⟨hacks, fun r hr => ?_⟩
      obtain hr | hr := List.mem_append.mp hr
      · exact hlogged.clients r hr
      · rw [List.mem_singleton.mp hr]
        exact (hsignals.sender signal hmem).2.2
    | error e => exact ⟨hacks, hlogged.clients⟩
  | @ending c hphase =>
    obtain ⟨-, -, -, -, -, -, -, hreturned, hacks⟩ :=
      release_frame (s.setPhase c .closing) (net.owner c) c
    exact ⟨hacks ▸ hlogged.acks, hreturned ▸ hlogged.clients⟩
  | install | start | drop | close | call | enter | leave | header | signal | closing | take | body =>
    exact ⟨hlogged.acks, hlogged.clients⟩

/-- The invariant. -/
structure Inv (net : Net) (s : Sys) : Prop where
  signals : Signals net s
  channels : Channels s
  owned : Owned net s
  logged : Logged net s
  tracks : ∀ c, (s.track c).Sound (net.stream c)

theorem Inv.step (h : Inv net s) (hstep : Step net s s') : Inv net s' where
  signals := h.signals.step h.channels hstep
  channels := h.channels.step hstep
  owned := h.owned.step hstep
  logged := h.logged.step h.signals h.channels hstep
  tracks c := (h.tracks c).step (step_track h.signals h.channels h.owned hstep c)

theorem inv_init : Inv net { conn := fun c => { stream := net.stream c } } where
  signals :=
    ⟨fun _ h => absurd h List.not_mem_nil, List.nodup_nil, fun _ h => absurd h Bool.false_ne_true⟩
  channels := ⟨fun _ h => absurd rfl h, fun _ _ h => absurd rfl h⟩
  owned := ⟨fun _ _ h => absurd h (by simp), fun _ h => absurd h (by simp)⟩
  logged := ⟨fun _ h => absurd h List.not_mem_nil, fun _ h => absurd h List.not_mem_nil⟩
  tracks _ := ⟨fun h => absurd h Bool.false_ne_true, fun h => absurd rfl h, _, rfl, rfl⟩

theorem inv_reachable (h : (machine net).Reachable s) : Inv net s := by
  refine TSys.ReachableVia.invariant (fun s hs => ?_) (fun s a s' hinv _ hn => ?_) h
  · cases hs
    exact inv_init
  · exact hinv.step (step_cases hn)

/-! ## Nothing gets stuck -/

/-- No goroutine can move. -/
def Blocked (net : Net) (s : Sys) : Prop :=
  (∀ c, loopStep net s c = none) ∧ readStep s = none ∧ ∀ c, ackStep s c = none

/-- The reader can move unless it waits for a signal and there is none. -/
theorem Blocked.reader (hinv : Inv net s) (hblocked : Blocked net s) (hcall : s.reader ≠ .idle) :
    s.inFlight = [] := by
  obtain ⟨-, hread, hack⟩ := hblocked
  cases hreader : s.reader with
  | idle => exact absurd hreader hcall
  | recv size =>
    cases hqueue : s.frameSignalCh with
    | nil => rw [Sys.inFlight, hreader, hqueue]; rfl
    | cons signal rest => simp [readStep, hreader, hqueue] at hread
  | body size signal got => simp [readStep, hreader] at hread
  | reply size signal res =>
    have hmem : signal ∈ s.inFlight := by simp [Sys.inFlight, hreader, Reader.held]
    obtain ⟨hphase, hch, -⟩ := hinv.signals.sender signal hmem
    have := hack signal.conn
    simp [ackStep, hreader, hphase, hch] at this

/-- While `readFrom` is called, a loop that has been started comes to its end. -/
theorem Blocked.over (hinv : Inv net s) (hblocked : Blocked net s) (hcall : s.reader ≠ .idle)
    (c : Nat) : (s.conn c).phase = .absent ∨ (s.conn c).phase = .done := by
  have hflight := hblocked.reader hinv hcall
  have hqueue : s.frameSignalCh = [] := (List.append_eq_nil_iff.mp hflight).2
  have hloop := hblocked.1 c
  cases hphase : (s.conn c).phase with
  | absent => exact .inl rfl
  | done => exact .inr rfl
  | ack n =>
    obtain ⟨signal, hmem, -⟩ := hinv.signals.waiting c (by rw [hphase]; rfl)
    rw [hflight] at hmem
    cases hmem
  | check => simp only [loopStep, hphase] at hloop; split at hloop <;> cases hloop
  | signal n => simp [loopStep, hphase, hqueue] at hloop
  | header | ending | closing => simp [loopStep, hphase] at hloop

/-! ## The de-multiplexer -/

theorem viewOf_over (reader : Reader) (c : Nat) (p : Phase) :
    viewOf reader c p = .over ↔ p.over = true := by
  cases p with
  | ack n =>
    cases reader with
    | idle | recv => simp [viewOf, Phase.over]
    | body size signal got =>
      simp only [viewOf, Phase.over]
      split <;> simp
    | reply size signal res =>
      simp only [viewOf, Phase.over]
      split <;> simp
  | absent | check | header | signal | ending | closing | done => simp [viewOf, Phase.over]

/-- **De-multiplexing refines framing.** In every reachable state, for every
connection:

* the frames `readFrom` has returned for it are those that `recvUdpPacket`
  returns on its stream alone with the same buffers, and they carry its client;
* its loop has ended only if it was removed (replaced, or closed by the proxy),
  or if the next `recvUdpPacket` alone fails too: for want of a header, or into
  the buffer of the call in which it failed. A connection that failed has ended;
* its loop and the reader never read from it at the same time;
* every acknowledgement has reached the loop whose signal it answers;
* while `readFrom` is called, the goroutines stop only when all loops that were
  started have ended. -/
theorem demux_refines (net : Net) {s : Sys} (h : (machine net).Reachable s) (c : Nat) :
    (∃ before, recvPackets ((framesOf s.returned c).map Prod.fst) (net.stream c) =
        ((framesOf s.returned c).map Prod.snd, none, before) ∧
      ((s.conn c).phase.over = true → s.removed c = true ∨ (∀ size, Track.Fails before size) ∨
        ∃ size, s.failed c = some size ∧ Track.Fails before size)) ∧
    (∀ r ∈ s.returned, r.client = net.owner r.conn) ∧
    (s.failed c ≠ none → (s.conn c).phase.over = true) ∧
    (∀ got size signal got', (s.conn c).phase = .header got → s.reader = .body size signal got' →
      signal.conn ≠ c) ∧
    (∀ a ∈ s.acks, a.1 = a.2) ∧
    (s.reader ≠ .idle → Blocked net s → (s.conn c).phase = .absent ∨ (s.conn c).phase = .done) := by
  have hinv := inv_reachable h
  obtain ⟨-, hended, before, halone, hat⟩ := hinv.tracks c
  refine ⟨⟨before, halone, fun hover => ?_⟩, hinv.logged.clients, fun hfailed => ?_, ?_,
    hinv.logged.acks, fun hcall hblocked => hblocked.over hinv hcall c⟩
  · have hview : (s.track c).view = .over := (viewOf_over _ _ _).mpr hover
    simp only [Track.At, hview] at hat
    exact hat
  · exact (viewOf_over _ _ _).mp (hended hfailed)
  · intro got size signal got' hphase hreader heq
    have hmem : signal ∈ s.inFlight := by simp [Sys.inFlight, hreader, Reader.held]
    have hwaits := (hinv.signals.sender signal hmem).1
    rw [heq, hphase] at hwaits
    cases hwaits

/-- Connection 0 brings two frames in pieces, connection 1 a frame of five
bytes. -/
def twoConns : Net where
  owner := id
  stream c :=
    if c = 0 then { pieces := [⟨[0], by simp⟩, ⟨[2, 7], by simp⟩, ⟨[8, 0, 1, 9], by simp⟩] }
    else { pieces := [⟨[0, 5, 1, 2, 3, 4, 5], by simp⟩] }

/-- `readFrom` with a buffer of three bytes returns the first frame of
connection 0; then connection 1 fails and connection 0 goes on. -/
def twoConnsRun : List Act :=
  [Act.install 0, .start 0, .install 1, .start 1, .call 3, .loop 0, .loop 1, .loop 0, .loop 1,
    .loop 0, .loop 0, .loop 1, .read, .read, .read, .ack 0, .call 3, .read, .ack 1, .loop 0]

theorem demux_refines_two :
    ∃ s, (machine twoConns).Reachable s ∧ framesOf s.returned 0 = [(3, [7, 8])] ∧
      (s.conn 0).phase = .header [] ∧ (s.conn 1).phase.over = true ∧
      (∃ before, recvPackets [3] (twoConns.stream 0) = ([[7, 8]], none, before)) ∧
      ∀ a ∈ s.acks, a.1 = a.2 := by
  have hrun : ((machine twoConns).exec { conn := fun c => { stream := twoConns.stream c } }
      twoConnsRun).any (fun s => decide (framesOf s.returned 0 = [(3, [7, 8])] ∧
        (s.conn 0).phase = .header [] ∧ s.failed 1 ≠ none)) = true := by decide
  obtain ⟨s, hs, hend⟩ := (Option.any_eq_true _ _).mp hrun
  obtain ⟨hframes, hphase, hfailed⟩ := of_decide_eq_true hend
  have hreach : (machine twoConns).Reachable s := TSys.Reachable.exec (.init rfl) hs
  obtain ⟨⟨before, halone, -⟩, -, -, -, hacks, -⟩ := demux_refines twoConns hreach 0
  obtain ⟨-, -, hended, -⟩ := demux_refines twoConns hreach 1
  rw [hframes] at halone
  exact ⟨s, hreach, hframes, hphase, hended hfailed, ⟨before, halone⟩, hacks⟩

end Tsshd.Proxy.Demux

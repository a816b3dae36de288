import Tsshd.Core.Search
import Tsshd.Input.Discard
import Mathlib.Logic.Relation

/-!
# Discarded input when another client takes over

A session outlives its client: `detachAllSessions` takes it from one server and
`attachSession` gives it to the next one (attach.go). The loop `forwardInput`
(session.go) stays the same all along. It holds a chunk it has read, the server
it has loaded, and `discardedInput`, what it has read since a reconnect without
having seen the marker; when the marker comes, `discardPendingInput` reports
what was in front of it to the client.

`attachMutex` serializes the attach, the detach and `enablePendingInputDiscard`,
but not the loop: each of their stores is a step of its own.

Cells carry the client that typed them. Neither `next` nor what is reported
depends on it. While one client has the session, the loop does what the one of
`Tsshd.Input.Discard` does (`Mirrors.exec`).
-/

namespace Tsshd.Input.Takeover

/-! ## The machine -/

/-- A byte of input, and the client on whose stream it came in. -/
structure Cell where
  byte : UInt8
  sender : Nat
deriving DecidableEq, Repr

abbrev Text := List Cell

def sentBy (c : Nat) (bytes : List UInt8) : Text := bytes.map fun b => ⟨b, c⟩

/-- The session's fields. Servers and their streams are named by the client. -/
structure Session where
  server : Option Nat := some 0
  ioStream : Option Nat := some 0
  discardMarker : Option Marker := none
  discardedInput : Text := []
deriving DecidableEq, Repr

/-- Where `forwardInput` is. -/
inductive Pc
  /-- In front of `Read`, or waiting in it for a stream. -/
  | reading
  /-- In the `Read` of the stream of a client. -/
  | picked (c : Nat)
  /-- `Read` returned a chunk, and perhaps an error with it. -/
  | got (chunk : Text) (err : Bool)
  /-- The server is loaded. -/
  | served (server : Nat) (chunk : Text) (err : Bool)
  /-- The `CompareAndSwap` of `discardPendingInput` is next. -/
  | clearing (marker : Marker)
  | returned
deriving DecidableEq, Repr

/-- Where the holder of `attachMutex` is. -/
inductive Op
  | idle
  | detachMarker
  | detachServer
  | attachStream (c : Nat)
deriving DecidableEq, Repr

structure Sys where
  sess : Session := {}
  pc : Pc := .reading
  op : Op := .idle
  discardMarkerCurrentIndex : Nat := 0
  drawn : Nat := 0
  /-- What has come in on the stream of a client and is not read. -/
  wire : Nat → List UInt8 := fun _ => []
  /-- History: what the program got, and every `DiscardedInput` with the client
  it was sent to. -/
  stdin : Text := []
  reports : List (Nat × Text) := []

inductive Act
  /-- Bytes come in on the stream of a client. -/
  | type (c : Nat) (bytes : List UInt8)
  /-- `enablePendingInputDiscard` of the client's server. -/
  | reconnect (c : Nat)
  /-- `detachAllSessions` and `attachSession`, and their further stores. -/
  | detach
  | attach (c : Nat)
  | proceed
  /-- `Read` takes the stream, and returns. -/
  | pick
  | read (n : Nat) (err : Bool)
  | readFails
  /-- The loop goes on; a write to the program may fail behind some bytes. -/
  | forward (fail : Option Nat)
deriving DecidableEq, Repr

/-- The marker the next call draws. -/
def Sys.nextMarker (s : Sys) : Marker :=
  ⟨s.drawn, getNextDiscardMarkerIndex s.discardMarkerCurrentIndex⟩

/-- `discardPendingInput`, up to its `CompareAndSwap`. -/
def discardPendingInput (s : Sys) (server : Nat) (buf : Text) (marker : Marker)
    (fail : Option Nat) : Sys :=
  let discarded := s.sess.discardedInput ++ buf
  match subIndex marker.bytes (discarded.map Cell.byte) with
  | none => { s with sess := { s.sess with discardedInput := discarded }, pc := .reading }
  | some pos =>
    let remaining := discarded.drop (pos + marker.bytes.length)
    match fail with
    | some n =>
      { s with
        sess := { s.sess with discardedInput := discarded }
        stdin := s.stdin ++ remaining.take n
        pc := .returned }
    | none =>
      { s with
        sess := { s.sess with discardedInput := [] }
        stdin := s.stdin ++ remaining
        reports := if 0 < pos then s.reports ++ [(server, discarded.take pos)] else s.reports
        pc := .clearing marker }

/-- The loop behind its `Read`. -/
def forwardInput (s : Sys) (fail : Option Nat) : Option Sys :=
  match s.pc with
  | .got chunk err =>
    match s.sess.server with
    | none => some { s with pc := .reading }
    | some server => some { s with pc := .served server chunk err }
  | .served server chunk err =>
    match s.sess.discardMarker, fail with
    | some marker, _ => some (discardPendingInput s server chunk marker fail)
    | none, none =>
      some { s with
        stdin := s.stdin ++ chunk
        pc := if err then .returned else .reading }
    | none, some n => some { s with stdin := s.stdin ++ chunk.take n, pc := .returned }
  | .clearing marker =>
    some { s with
      sess := { s.sess with
        discardMarker :=
          if s.sess.discardMarker = some marker then none else s.sess.discardMarker }
      pc := .reading }
  | _ => none

def next (s : Sys) : Act → Option Sys
  | .type c bytes => some { s with wire := Function.update s.wire c (s.wire c ++ bytes) }
  | .reconnect c =>
    if s.op = .idle then
      some { s with
        discardMarkerCurrentIndex := s.nextMarker.idx
        drawn := s.drawn + 1
        sess := { s.sess with
          discardMarker :=
            if s.sess.server = some c then some s.nextMarker else s.sess.discardMarker } }
    else none
  | .detach =>
    if s.op = .idle ∧ s.sess.server ≠ none then
      some { s with sess := { s.sess with ioStream := none }, op := .detachMarker }
    else none
  | .attach c =>
    if s.op = .idle ∧ s.sess.server = none then
      some { s with sess := { s.sess with server := some c }, op := .attachStream c }
    else none
  | .proceed =>
    match s.op with
    | .idle => none
    | .detachMarker =>
      some { s with sess := { s.sess with discardMarker := none }, op := .detachServer }
    | .detachServer => some { s with sess := { s.sess with server := none }, op := .idle }
    | .attachStream c => some { s with sess := { s.sess with ioStream := some c }, op := .idle }
  | .pick =>
    match s.pc, s.sess.ioStream with
    | .reading, some c => some { s with pc := .picked c }
    | _, _ => none
  | .read n err =>
    match s.pc with
    | .picked c =>
      if 0 < n ∧ n ≤ (s.wire c).length then
        -- An attempt that failed on a stream that was replaced is repeated.
        some { s with
          wire := Function.update s.wire c ((s.wire c).drop n)
          pc := if err = true ∧ s.sess.ioStream ≠ some c then .reading
            else .got (sentBy c ((s.wire c).take n)) err }
      else none
    | _ => none
  | .readFails =>
    match s.pc with
    | .picked c =>
      some { s with pc := if s.sess.ioStream ≠ some c then .reading else .returned }
    | _ => none
  | .forward fail => forwardInput s fail

/-- A session of client 0. The marker index is shared with other sessions. -/
def machine : TSys Sys Act where
  init s := ∃ index, s = { discardMarkerCurrentIndex := index }
  next := next

/-- A client attaches when the loop holds nothing of the one before: it waits for
a stream and has no input that was read since a reconnect. -/
def Settled (s : Sys) : Act → Prop
  | .attach _ => s.pc = .reading ∧ s.sess.discardedInput = []
  | _ => True

variable {s s' : Sys} {a : Act} {o : Nat}

/-! ## The loop of one client

While one client has the session, the loop is the one of `Tsshd.Input.Discard`: it does
the same to the same bytes. There the marker is loaded in a step of its own, and
the server is not looked at. -/

/-- What the loop does without an error of `Read`. -/
def Act.ofLoop : Act → Bool
  | .pick | .read _ false | .forward _ => true
  | _ => false

/-- Both loops are at the same place with the same bytes in hand. -/
def Pc.Mirrors (c : Nat) : Pc → ServerPc → Prop
  | .reading, .reading | .returned, .returned => True
  | .picked c', .reading => c' = c
  | .got chunk err, .got chunk' | .served _ chunk err, .got chunk' =>
    err = false ∧ chunk'.map Input.Cell.byte = chunk.map Cell.byte
  | .clearing marker, .clearing marker' => marker' = marker
  | _, _ => False

structure Mirrors (c : Nat) (s : Sys) (x : Input.Session) : Prop where
  started : x.started = true
  wire : x.wire.map Input.Cell.byte = s.wire c
  marker : x.discardMarker = s.sess.discardMarker
  discarded : x.server ≠ .returned →
    x.discardedInput.map Input.Cell.byte = s.sess.discardedInput.map Cell.byte
  stdin : x.stdin.map Input.Cell.byte = s.stdin.map Cell.byte
  pc : s.pc.Mirrors c x.server

/-- Steps of the server's half of a session. -/
def Serves (x x' : Input.Session) : Prop := ∃ e, x.step e = some x'

section Mirror

variable {c : Nat} {x : Input.Session}

theorem Pc.mirrors_reading {pc : ServerPc} (h : Pc.Mirrors c .reading pc) : pc = .reading := by
  cases pc <;> first | rfl | cases h

theorem Pc.mirrors_picked {c' : Nat} {pc : ServerPc} (h : Pc.Mirrors c (.picked c') pc) :
    pc = .reading ∧ c' = c := by
  cases pc <;> first | exact ⟨rfl, h⟩ | cases h

theorem Pc.mirrors_clearing {marker : Marker} {pc : ServerPc}
    (h : Pc.Mirrors c (.clearing marker) pc) : pc = .clearing marker := by
  cases pc <;> first | exact congrArg _ h | cases h

theorem Pc.mirrors_served {server : Nat} {chunk : Text} {err : Bool} {pc : ServerPc}
    (h : Pc.Mirrors c (.served server chunk err) pc) :
    err = false ∧ ∃ chunk', pc = .got chunk' ∧
      chunk'.map Input.Cell.byte = chunk.map Cell.byte := by
  cases pc <;> first | exact ⟨h.1, _, rfl, h.2⟩ | cases h

/-- Behind the load of the marker both loops write the same, or keep the same. -/
theorem Mirrors.discard (h : Mirrors c s x) {server : Nat} {chunk : Text} {chunk' : Input.Text}
    (hlive : x.server ≠ .returned)
    (hchunk : chunk'.map Input.Cell.byte = chunk.map Cell.byte) (marker : Marker)
    (fail : Option Nat) :
    Mirrors c (discardPendingInput s server chunk marker fail)
      (x.discardPendingInput marker chunk' fail) := by
  have hall : (x.discardedInput ++ chunk').map Input.Cell.byte =
      (s.sess.discardedInput ++ chunk).map Cell.byte := by
    rw [List.map_append, List.map_append, h.discarded hlive, hchunk]
  have hindex : index (x.discardedInput ++ chunk') marker.bytes =
      subIndex marker.bytes ((s.sess.discardedInput ++ chunk).map Cell.byte) := by
    rw [← hall]
    rfl
  unfold discardPendingInput Session.discardPendingInput
  simp only [hindex]
  cases subIndex marker.bytes ((s.sess.discardedInput ++ chunk).map Cell.byte) with
  | none => exact ⟨h.started, h.wire, h.marker, fun _ => hall, h.stdin, trivial⟩
  | some pos =>
    have hrest (k n : Nat) : ((x.discardedInput ++ chunk').drop k).map Input.Cell.byte =
        ((s.sess.discardedInput ++ chunk).drop k).map Cell.byte ∧
        (((x.discardedInput ++ chunk').drop k).take n).map Input.Cell.byte =
          (((s.sess.discardedInput ++ chunk).drop k).take n).map Cell.byte := by
      simp only [List.map_take, List.map_drop, hall, and_self]
    cases fail with
    | none =>
      refine ⟨h.started, h.wire, h.marker, fun _ => rfl, ?_, rfl⟩
      simp only [Session.writeStdin, List.map_append, h.stdin, (hrest _ 0).1]
    | some n =>
      refine ⟨h.started, h.wire, h.marker, fun hnot => absurd rfl hnot, ?_, trivial⟩
      simp only [Session.writeStdin, List.map_append, h.stdin, (hrest _ n).2]

theorem Mirrors.forwardInput (h : Mirrors c s x) (hserver : s.sess.server = some c)
    {fail : Option Nat} (hstep : forwardInput s fail = some s') :
    ∃ x', Relation.ReflTransGen Serves x x' ∧ Mirrors c s' x' := by
  have hpc := h.pc
  unfold Takeover.forwardInput at hstep
  split at hstep
  case h_1 chunk err hgot =>
    rw [hserver] at hstep
    cases hstep
    rw [hgot] at hpc
    refine ⟨x, .refl, h.started, h.wire, h.marker, h.discarded, h.stdin, ?_⟩
    cases hx : x.server <;> rw [hx] at hpc <;> exact hpc
  case h_2 server chunk err hserved =>
    rw [hserved] at hpc
    obtain ⟨rfl, chunk', hx, hchunk⟩ := Pc.mirrors_served hpc
    have hload : Serves x { x with server := .loaded x.discardMarker chunk' } :=
      ⟨.server none, by simp only [Session.step, Session.serverStep, hx]⟩
    have hlive : x.server ≠ .returned := by simp [hx]
    cases hmarker : s.sess.discardMarker with
    | some marker =>
      simp only [hmarker] at hstep
      cases hstep
      have hdiscard : Serves { x with server := .loaded x.discardMarker chunk' }
          (x.discardPendingInput marker chunk' fail) :=
        ⟨.server fail, by
          simp only [Session.step, Session.serverStep, h.marker, hmarker]
          rw [← x.discardPendingInput_server (.loaded (some marker) chunk'), ← hmarker, ← h.marker]⟩
      exact ⟨_, .tail (.single hload) hdiscard, h.discard hlive hchunk marker fail⟩
    | none =>
      have hwrite : Serves { x with server := .loaded x.discardMarker chunk' }
          (x.writeStdin chunk' fail .reading) :=
        ⟨.server fail, by
          simp only [Session.step, Session.serverStep, h.marker, hmarker]
          cases fail <;> simp [Session.writeStdin, h.marker, hmarker]⟩
      refine ⟨_, .tail (.single hload) hwrite, ?_⟩
      cases fail with
      | none =>
        simp only [hmarker] at hstep
        cases hstep
        refine ⟨h.started, h.wire, h.marker, fun _ => h.discarded hlive, ?_, trivial⟩
        simp only [Session.writeStdin, List.map_append, h.stdin, hchunk]
      | some n =>
        simp only [hmarker] at hstep
        cases hstep
        refine ⟨h.started, h.wire, h.marker, fun hnot => absurd rfl hnot, ?_, trivial⟩
        simp only [Session.writeStdin, List.map_append, List.map_take, h.stdin, hchunk]
  case h_3 marker hclearing =>
    cases hstep
    rw [hclearing] at hpc
    have hx := Pc.mirrors_clearing hpc
    have hlive : x.server ≠ .returned := by simp [hx]
    refine ⟨_, .single ⟨.server none, by simp only [Session.step, Session.serverStep, hx]; rfl⟩, ?_⟩
    refine ⟨h.started, h.wire, ?_, fun _ => h.discarded hlive, h.stdin, trivial⟩
    simp only [h.marker]
  case h_4 => cases hstep

/-- What the loop does to its own session, the server's half does in a few steps. -/
theorem Mirrors.next (h : Mirrors c s x) (hserver : s.sess.server = some c)
    (hstream : s.sess.ioStream = some c) (hloop : a.ofLoop = true)
    (hnext : next s a = some s') :
    ∃ x', Relation.ReflTransGen Serves x x' ∧ Mirrors c s' x' := by
  have hpc := h.pc
  cases a with
  | forward fail => exact h.forwardInput hserver hnext
  | pick =>
    simp only [Takeover.next, hstream] at hnext
    split at hnext
    case h_1 hreading heq =>
      cases heq
      cases hnext
      rw [hreading] at hpc
      have hx := Pc.mirrors_reading hpc
      refine ⟨x, .refl, h.started, h.wire, h.marker, h.discarded, h.stdin, ?_⟩
      rw [hx]
      rfl
    case h_2 => cases hnext
  | read n err =>
    cases err with
    | true => cases hloop
    | false =>
      simp only [Takeover.next] at hnext
      split at hnext
      case h_1 c' hpicked =>
        rw [hpicked] at hpc
        obtain ⟨hx, rfl⟩ := Pc.mirrors_picked hpc
        obtain ⟨hn, heq⟩ := Option.ite_none_right_eq_some.mp hnext
        cases heq
        have hlength : x.wire.length = (s.wire c').length := by
          rw [← h.wire, List.length_map]
        refine ⟨_, .single ⟨.read n, if_pos ⟨h.started, hx, hn.1, hlength ▸ hn.2⟩⟩, h.started, ?_,
          h.marker, fun _ => h.discarded (by simp [hx]), h.stdin, ?_⟩
        · simp only [List.map_drop, h.wire, Function.update_self]
        · refine ⟨rfl, ?_⟩
          rw [List.map_take, h.wire, sentBy, List.map_map]
          exact (List.map_id _).symm
      case h_2 => cases hnext
  | _ => cases hloop

/-- What the loop does leaves the session to its client. -/
theorem owner_ofLoop (hloop : a.ofLoop = true) (hnext : next s a = some s') :
    s'.sess.server = s.sess.server ∧ s'.sess.ioStream = s.sess.ioStream := by
  cases a with
  | forward fail =>
    simp only [Takeover.next, Takeover.forwardInput, discardPendingInput] at hnext
    repeat' split at hnext
    all_goals cases hnext <;> exact ⟨rfl, rfl⟩
  | pick | read =>
    simp only [Takeover.next] at hnext
    repeat' split at hnext
    all_goals cases hnext <;> exact ⟨rfl, rfl⟩
  | _ => cases hloop

/-- **The loop of one client**, for a whole run. -/
theorem Mirrors.exec {acts : List Act} (h : Mirrors c s x) (hserver : s.sess.server = some c)
    (hstream : s.sess.ioStream = some c) (hloop : ∀ a ∈ acts, a.ofLoop = true)
    (hexec : machine.exec s acts = some s') :
    ∃ x', Relation.ReflTransGen Serves x x' ∧ Mirrors c s' x' := by
  induction acts generalizing s x with
  | nil =>
    cases hexec
    exact ⟨x, .refl, h⟩
  | cons a acts ih =>
    obtain ⟨u, hu, hexec⟩ := Option.bind_eq_some_iff.mp hexec
    have ha := hloop a List.mem_cons_self
    obtain ⟨y, hxy, hy⟩ := h.next hserver hstream ha hu
    obtain ⟨hs, hi⟩ := owner_ofLoop ha hu
    obtain ⟨x', hyx, hx'⟩ := ih hy (hs.trans hserver) (hi.trans hstream)
      (fun b hb => hloop b (List.mem_cons_of_mem _ hb)) hexec
    exact ⟨x', hxy.trans hyx, hx'⟩

end Mirror

/-! ## The loop holds input of one client -/

/-- What the loop holds is from `o`, and is reported to `o`. -/
def Pc.From (o : Nat) : Pc → Prop
  | .picked c => c = o
  | .got chunk _ => ∀ x ∈ chunk, x.sender = o
  | .served server chunk _ => server = o ∧ ∀ x ∈ chunk, x.sender = o
  | _ => True

/-- What the holder of `attachMutex` has done so far. -/
def Op.Fits (o : Nat) (sess : Session) : Op → Prop
  | .idle => sess.server = none → sess.ioStream = none ∧ sess.discardMarker = none
  | .detachMarker => sess.ioStream = none
  | .detachServer => sess.ioStream = none ∧ sess.discardMarker = none
  | .attachStream c => c = o ∧ sess.server ≠ none

structure Own (o : Nat) (s : Sys) : Prop where
  server : ∀ c, s.sess.server = some c → c = o
  stream : ∀ c, s.sess.ioStream = some c → c = o
  buffer : ∀ x ∈ s.sess.discardedInput, x.sender = o
  pc : s.pc.From o
  op : s.op.Fits o s.sess
  reported : ∀ r ∈ s.reports, ∀ x ∈ r.2, x.sender = r.1

theorem Own.discard (h : Own o s) {server : Nat} {chunk : Text} {err : Bool} {marker : Marker}
    (fail : Option Nat) (hpc : s.pc = .served server chunk err) :
    Own o (discardPendingInput s server chunk marker fail) := by
  have hheld : server = o ∧ ∀ x ∈ chunk, x.sender = o := by
    have := h.pc
    rw [hpc] at this
    exact this
  have hall : ∀ x ∈ s.sess.discardedInput ++ chunk, x.sender = o := by
    intro x hx
    rcases List.mem_append.mp hx with hx | hx
    · exact h.buffer x hx
    · exact hheld.2 x hx
  unfold discardPendingInput
  dsimp only
  split
  · exact ⟨h.server, h.stream, hall, trivial, h.op, h.reported⟩
  · split
    · exact ⟨h.server, h.stream, hall, trivial, h.op, h.reported⟩
    · refine ⟨h.server, h.stream, fun x hx => absurd hx List.not_mem_nil, trivial, h.op, ?_⟩
      intro r hr
      dsimp only at hr
      split at hr
      · rcases List.mem_append.mp hr with hr | hr
        · exact h.reported r hr
        · rw [List.mem_singleton.mp hr]
          intro x hx
          exact (hall x (List.mem_of_mem_take hx)).trans hheld.1.symm
      · exact h.reported r hr

theorem Own.forwardInput (h : Own o s) {fail : Option Nat}
    (hstep : forwardInput s fail = some s') : Own o s' := by
  unfold Takeover.forwardInput at hstep
  split at hstep
  case h_1 chunk err hpc =>
    have hheld : ∀ x ∈ chunk, x.sender = o := by
      have := h.pc
      rw [hpc] at this
      exact this
    split at hstep
    case h_1 =>
      cases hstep
      exact ⟨h.server, h.stream, h.buffer, trivial, h.op, h.reported⟩
    case h_2 server hserver =>
      cases hstep
      exact ⟨h.server, h.stream, h.buffer, ⟨h.server server hserver, hheld⟩, h.op, h.reported⟩
  case h_2 server chunk err hpc =>
    split at hstep
    · cases hstep
      exact h.discard _ hpc
    · cases hstep
      refine ⟨h.server, h.stream, h.buffer, ?_, h.op, h.reported⟩
      dsimp only
      split <;> trivial
    · cases hstep
      exact ⟨h.server, h.stream, h.buffer, trivial, h.op, h.reported⟩
  case h_3 marker hpc =>
    cases hstep
    have hnone : s.sess.discardMarker = none →
        (if s.sess.discardMarker = some marker then none else s.sess.discardMarker) = none := by
      intro hnone
      rw [hnone]
      exact ite_self none
    refine ⟨h.server, h.stream, h.buffer, trivial, ?_, h.reported⟩
    have hop := h.op
    show s.op.Fits o _
    cases hcase : s.op with
    | idle =>
      rw [hcase] at hop
      exact fun hserver => ⟨(hop hserver).1, hnone (hop hserver).2⟩
    | detachMarker =>
      rw [hcase] at hop
      exact hop
    | detachServer =>
      rw [hcase] at hop
      exact ⟨hop.1, hnone hop.2⟩
    | attachStream c =>
      rw [hcase] at hop
      exact hop
  case h_4 => cases hstep

theorem sender_sentBy {c : Nat} {bytes : List UInt8} {x : Cell} (hx : x ∈ sentBy c bytes) :
    x.sender = c := by
  obtain ⟨b, -, rfl⟩ := List.mem_map.mp hx
  rfl

/-- The owner changes with an attach only, and the loop is settled then. -/
theorem Own.next (h : Own o s) (hok : Settled s a) (hnext : next s a = some s') :
    ∃ o', Own o' s' := by
  cases a with
  | type c bytes =>
    cases hnext
    exact ⟨o, h.server, h.stream, h.buffer, h.pc, h.op, h.reported⟩
  | reconnect c =>
    simp only [Takeover.next] at hnext
    split at hnext
    case isTrue hidle =>
      cases hnext
      refine ⟨o, h.server, h.stream, h.buffer, h.pc, ?_, h.reported⟩
      have hop := h.op
      rw [hidle] at hop
      show s.op.Fits o _
      rw [hidle]
      intro hserver
      have hserver' : s.sess.server = none := hserver
      refine ⟨(hop hserver').1, ?_⟩
      show (if s.sess.server = some c then _ else s.sess.discardMarker) = none
      rw [hserver', if_neg (by simp)]
      exact (hop hserver').2
    case isFalse => cases hnext
  | detach =>
    simp only [Takeover.next] at hnext
    split at hnext
    · cases hnext
      exact ⟨o, h.server, (by rintro c ⟨⟩), h.buffer, h.pc, rfl, h.reported⟩
    · cases hnext
  | attach c =>
    simp only [Takeover.next] at hnext
    split at hnext
    case isTrue hidle =>
      cases hnext
      have hop := h.op
      rw [hidle.1] at hop
      have hstream := (hop hidle.2).1
      refine ⟨c, ?_, ?_, ?_, ?_, ⟨rfl, Option.some_ne_none c⟩, h.reported⟩
      · intro c' hc'
        exact (Option.some.inj hc').symm
      · intro c' hc'
        exact absurd (hstream.symm.trans hc') (by simp)
      · intro x hx
        have hx' : x ∈ s.sess.discardedInput := hx
        rw [hok.2] at hx'
        exact absurd hx' List.not_mem_nil
      · show s.pc.From c
        rw [hok.1]
        trivial
    case isFalse => cases hnext
  | proceed =>
    have hop := h.op
    simp only [Takeover.next] at hnext
    split at hnext
    case h_1 => cases hnext
    case h_2 hcase =>
      cases hnext
      rw [hcase] at hop
      exact ⟨o, h.server, h.stream, h.buffer, h.pc, ⟨hop, rfl⟩, h.reported⟩
    case h_3 hcase =>
      cases hnext
      rw [hcase] at hop
      exact ⟨o, (by rintro c ⟨⟩), h.stream, h.buffer, h.pc, fun _ => hop, h.reported⟩
    case h_4 c hcase =>
      cases hnext
      rw [hcase] at hop
      refine ⟨o, h.server, ?_, h.buffer, h.pc, ?_, h.reported⟩
      · intro c' hc'
        rw [← Option.some.inj hc']
        exact hop.1
      · exact fun hserver => absurd hserver hop.2
  | pick =>
    simp only [Takeover.next] at hnext
    split at hnext
    case h_1 c _ hstream =>
      cases hnext
      exact ⟨o, h.server, h.stream, h.buffer, h.stream c hstream, h.op, h.reported⟩
    case h_2 => cases hnext
  | read n err =>
    simp only [Takeover.next] at hnext
    split at hnext
    case h_1 c hpc =>
      split at hnext
      · cases hnext
        refine ⟨o, h.server, h.stream, h.buffer, ?_, h.op, h.reported⟩
        have hc : c = o := by
          have := h.pc
          rw [hpc] at this
          exact this
        dsimp only
        split
        · trivial
        · intro x hx
          exact (sender_sentBy hx).trans hc
      · cases hnext
    case h_2 => cases hnext
  | readFails =>
    simp only [Takeover.next] at hnext
    split at hnext
    · cases hnext
      refine ⟨o, h.server, h.stream, h.buffer, ?_, h.op, h.reported⟩
      dsimp only
      split <;> trivial
    · cases hnext
  | forward fail => exact ⟨o, h.forwardInput hnext⟩

/-- There is one client whose input the loop holds. -/
def Owned (s : Sys) : Prop := ∃ o, Own o s

theorem owned_reachable (hs : machine.ReachableVia Settled s) : Owned s := by
  refine TSys.ReachableVia.invariant ?_ ?_ hs
  · rintro s ⟨index, rfl⟩
    refine ⟨0, ?_, ?_, fun x hx => absurd hx List.not_mem_nil, trivial, ?_,
      fun r hr => absurd hr List.not_mem_nil⟩
    · rintro c ⟨⟩
      rfl
    · rintro c ⟨⟩
      rfl
    · rintro ⟨⟩
  · rintro s a s' ⟨o, h⟩ hok hnext
    exact h.next hok hnext

/-! ## Two runs -/

/-- What was reported to a client. -/
def Sys.reportsTo (s : Sys) (c : Nat) : List Text :=
  (s.reports.filter fun r => r.1 = c).map Prod.snd

/-- The session, the loop and the counter of the markers, with empty streams and
without a history. -/
def Sys.control (s : Sys) : Sys := { s with wire := fun _ => [], stdin := [], reports := [] }

/-- A step that began with the streams and the history of `s`. -/
def Sys.extend (s u : Sys) : Sys :=
  { u with wire := s.wire, stdin := s.stdin ++ u.stdin, reports := s.reports ++ u.reports }

def Act.onWire : Act → Bool
  | .type _ _ | .read _ _ => true
  | _ => false

/-- All other steps see neither the streams nor the history. -/
theorem next_control (ha : a.onWire = false) :
    next s a = (next s.control a).map s.extend := by
  cases a with
  | type | read => cases ha
  | forward fail =>
    simp only [next, forwardInput, discardPendingInput, Sys.control]
    repeat' split
    all_goals simp [Sys.extend, *]
  | _ =>
    simp only [next, Sys.control]
    repeat' split
    all_goals simp [Sys.extend, Sys.nextMarker, *]

/-- The loop reads, and goes on to read, streams of clients outside `E`. -/
structure Avoids (E : Nat → Prop) (s : Sys) : Prop where
  stream : ∀ c, s.sess.ioStream = some c → ¬E c
  picked : ∀ c, s.pc = .picked c → ¬E c
  attaching : ∀ c, s.op = .attachStream c → ¬E c

variable {E : Nat → Prop} {t t' : Sys}

theorem Avoids.next (h : Avoids E s) (hattach : ∀ c, a = .attach c → ¬E c)
    (hnext : next s a = some s') : Avoids E s' := by
  cases a with
  | type c bytes =>
    cases hnext
    exact ⟨h.stream, h.picked, h.attaching⟩
  | reconnect c =>
    obtain ⟨-, heq⟩ := Option.ite_none_right_eq_some.mp hnext
    cases heq
    exact ⟨h.stream, h.picked, h.attaching⟩
  | detach =>
    obtain ⟨-, heq⟩ := Option.ite_none_right_eq_some.mp hnext
    cases heq
    exact ⟨nofun, h.picked, nofun⟩
  | attach c =>
    obtain ⟨-, heq⟩ := Option.ite_none_right_eq_some.mp hnext
    cases heq
    exact ⟨h.stream, h.picked, fun c' hc' => Op.attachStream.inj hc' ▸ hattach c rfl⟩
  | proceed =>
    simp only [Takeover.next] at hnext
    split at hnext
    case h_1 => cases hnext
    case h_4 c hcase =>
      cases hnext
      exact ⟨fun c' hc' => Option.some.inj hc' ▸ h.attaching c hcase, h.picked, nofun⟩
    all_goals
      cases hnext
      exact ⟨h.stream, h.picked, nofun⟩
  | pick =>
    simp only [Takeover.next] at hnext
    split at hnext
    case h_1 c _ hstream =>
      cases hnext
      exact ⟨h.stream, fun c' hc' => Pc.picked.inj hc' ▸ h.stream c hstream, h.attaching⟩
    case h_2 => cases hnext
  | read | readFails | forward =>
    simp only [Takeover.next, forwardInput, discardPendingInput] at hnext
    repeat' split at hnext
    all_goals cases hnext <;> exact ⟨h.stream, nofun, h.attaching⟩

/-- The two sessions are alike: they differ at most in what came in from the
clients `E`, which do not own them, and in what became of that. -/
structure Alike (E : Nat → Prop) (s t : Sys) : Prop where
  control : s.control = t.control
  wire : ∀ c, ¬E c → s.wire c = t.wire c
  reports : ∀ c, ¬E c → s.reportsTo c = t.reportsTo c
  avoids : Avoids E s

/-- The same happens to one stream of both. -/
theorem Alike.update_wire (h : Alike E s t) {c : Nat} {w w' : List UInt8}
    (hw : ¬E c → w = w') (c' : Nat) (hc' : ¬E c') :
    Function.update s.wire c w c' = Function.update t.wire c w' c' := by
  by_cases hcc : c' = c
  · subst hcc
    rw [Function.update_self, Function.update_self, hw hc']
  · rw [Function.update_of_ne hcc, Function.update_of_ne hcc, h.wire c' hc']

theorem Sys.reportsTo_extend (s u : Sys) (c : Nat) :
    (s.extend u).reportsTo c = s.reportsTo c ++ u.reportsTo c := by
  rw [reportsTo, extend, List.filter_append, List.map_append]
  rfl

/-- **Unwinding.** Alike sessions that do the same stay alike, as long as none of
the clients `E` attaches. -/
theorem Alike.next (h : Alike E s t) (hattach : ∀ c, a = .attach c → ¬E c)
    (hs : next s a = some s') (ht : next t a = some t') : Alike E s' t' := by
  have havoids := h.avoids.next hattach hs
  by_cases ha : a.onWire = false
  · rw [next_control ha] at hs ht
    obtain ⟨u, hu, rfl⟩ := Option.map_eq_some_iff.mp hs
    obtain ⟨v, hv, rfl⟩ := Option.map_eq_some_iff.mp ht
    obtain rfl : u = v := Option.some.inj (hu.symm.trans (h.control ▸ hv))
    refine ⟨rfl, h.wire, fun c hc => ?_, havoids⟩
    rw [Sys.reportsTo_extend, Sys.reportsTo_extend, h.reports c hc]
  · cases a with
    | type c bytes =>
      cases hs
      cases ht
      refine ⟨h.control, h.update_wire fun hc => ?_, h.reports, havoids⟩
      rw [h.wire c hc]
    | read n err =>
      have hpc : t.pc = s.pc := (congrArg Sys.pc h.control.symm :)
      have hstream : t.sess.ioStream = s.sess.ioStream :=
        (congrArg (fun x => x.sess.ioStream) h.control.symm :)
      have hcontrol (pc : Pc) : { s.control with pc := pc } = { t.control with pc := pc } := by
        rw [h.control]
      simp only [Takeover.next] at hs ht
      split at hs
      case h_1 c hpicked =>
        simp only [hpc, hpicked, ← h.wire c (h.avoids.picked c hpicked), hstream] at ht
        obtain ⟨hn, heq⟩ := Option.ite_none_right_eq_some.mp hs
        rw [if_pos hn] at ht
        cases heq
        cases ht
        refine ⟨?_, h.update_wire fun _ => rfl, h.reports, havoids⟩
        exact hcontrol _
      case h_2 => cases hs
    | _ => exact absurd rfl ha

/-- The same happens, but for what the clients `E` type. -/
inductive SameBut (E : Nat → Prop) : List Act → List Act → Prop
  | nil : SameBut E [] []
  | same (a : Act) {acts acts' : List Act} :
      SameBut E acts acts' → SameBut E (a :: acts) (a :: acts')
  | left {c : Nat} (hc : E c) (bytes : List UInt8) {acts acts' : List Act} :
      SameBut E acts acts' → SameBut E (.type c bytes :: acts) acts'
  | right {c : Nat} (hc : E c) (bytes : List UInt8) {acts acts' : List Act} :
      SameBut E acts acts' → SameBut E acts (.type c bytes :: acts')

theorem SameBut.refl (acts : List Act) : SameBut E acts acts := by
  induction acts with
  | nil => exact .nil
  | cons a acts ih => exact .same a ih

/-- A client of `E` types in one of the two. -/
theorem Alike.typing (h : Alike E s t) {c : Nat} (hc : E c) (w w' : List UInt8) :
    Alike E { s with wire := Function.update s.wire c (s.wire c ++ w) }
      { t with wire := Function.update t.wire c (t.wire c ++ w') } :=
  ⟨h.control, h.update_wire fun hout => absurd hc hout, h.reports,
    ⟨h.avoids.stream, h.avoids.picked, h.avoids.attaching⟩⟩

/-- A client that types nothing. -/
theorem typing_nil (s : Sys) (c : Nat) :
    { s with wire := Function.update s.wire c (s.wire c ++ []) } = s := by
  rw [List.append_nil, Function.update_eq_self]

theorem Alike.exec (h : Alike E s t) {acts acts' : List Act} (hacts : SameBut E acts acts')
    (hattach : ∀ c, .attach c ∈ acts → ¬E c) (hs : machine.exec s acts = some s')
    (ht : machine.exec t acts' = some t') : Alike E s' t' := by
  induction hacts generalizing s t with
  | nil =>
    cases hs
    cases ht
    exact h
  | same a _ ih =>
    obtain ⟨u, hu, hs⟩ := Option.bind_eq_some_iff.mp hs
    obtain ⟨v, hv, ht⟩ := Option.bind_eq_some_iff.mp ht
    have hstep : Alike E u v := by
      refine h.next ?_ hu hv
      rintro c rfl
      exact hattach c List.mem_cons_self
    exact ih hstep (fun c hc => hattach c (List.mem_cons_of_mem _ hc)) hs ht
  | left hc bytes _ ih =>
    have htyped := h.typing hc bytes []
    rw [typing_nil] at htyped
    exact ih htyped (fun c hc => hattach c (List.mem_cons_of_mem _ hc)) hs ht
  | right hc bytes _ ih =>
    have htyped := h.typing hc [] bytes
    rw [typing_nil] at htyped
    exact ih htyped hattach hs ht

/-- A detached session holds nothing of its old client when the loop is settled. -/
theorem Own.sess_settled (h : Own o s) (hidle : s.op = .idle) (hserver : s.sess.server = none)
    (hbuffer : s.sess.discardedInput = []) : s.sess = ⟨none, none, none, []⟩ := by
  have hop := h.op
  rw [hidle] at hop
  obtain ⟨hstream, hmarker⟩ := hop hserver
  clear hop h
  generalize s.sess = x at hserver hbuffer hstream hmarker ⊢
  obtain ⟨server, stream, marker, buffer⟩ := x
  dsimp only at hserver hbuffer hstream hmarker
  subst hserver hstream hmarker hbuffer
  rfl

/-- After the attach of a client outside `E` nothing of the earlier runs is left. -/
theorem alike_attach {b : Nat} (hs : Owned s) (ht : Owned t) (hsettled : Settled s (.attach b))
    (htsettled : Settled t (.attach b)) (hb : ¬E b)
    (hindex : s.discardMarkerCurrentIndex = t.discardMarkerCurrentIndex) (hdrawn : s.drawn = t.drawn)
    (hwire : ∀ c, ¬E c → s.wire c = t.wire c)
    (hreports : ∀ c, ¬E c → s.reportsTo c = t.reportsTo c)
    (hs' : next s (.attach b) = some s') (ht' : next t (.attach b) = some t') : Alike E s' t' := by
  simp only [Takeover.next] at hs' ht'
  split at hs'
  case isTrue hfree =>
    split at ht'
    case isTrue hfree' =>
      cases hs'
      cases ht'
      obtain ⟨o, hown⟩ := hs
      obtain ⟨o', hown'⟩ := ht
      have hsess := hown.sess_settled hfree.1 hfree.2 hsettled.2
      have hsess' := hown'.sess_settled hfree'.1 hfree'.2 htsettled.2
      refine ⟨?_, hwire, hreports, ?_, ?_, ?_⟩
      · simp only [Sys.control, hsess, hsess', hsettled.1, htsettled.1, hindex, hdrawn]
      · intro c hc
        rw [hsess] at hc
        cases hc
      · intro c hc
        have hc' : s.pc = .picked c := hc
        rw [hsettled.1] at hc'
        cases hc'
      · rintro c ⟨⟩
        exact hb
    case isFalse => cases ht'
  case isFalse => cases hs'

/-! ## Discarded input is reported to its client -/

/-- **Discarded input stays with its client**, when every client attaches to a
settled loop. Every report consists of what its receiver typed. And after the
attach of a client, runs that differed before, in what the clients `E` typed or
in any other way that is not seen in the marker counter, report the same to all
other clients, whatever happens next and whatever the clients `E` type next. -/
theorem discarded_stays_with_client (hs : machine.ReachableVia Settled s) :
    (∀ r ∈ s.reports, ∀ x ∈ r.2, x.sender = r.1) ∧
    (∀ (E : Nat → Prop) (b : Nat) (t s₁ t₁ s' t' : Sys) (acts acts' : List Act),
      machine.ReachableVia Settled t → Settled s (.attach b) → Settled t (.attach b) → ¬E b →
      s.discardMarkerCurrentIndex = t.discardMarkerCurrentIndex → s.drawn = t.drawn →
      (∀ c, ¬E c → s.wire c = t.wire c) → (∀ c, ¬E c → s.reportsTo c = t.reportsTo c) →
      machine.next s (.attach b) = some s₁ → machine.next t (.attach b) = some t₁ →
      SameBut E acts acts' → (∀ c, .attach c ∈ acts → ¬E c) →
      machine.exec s₁ acts = some s' → machine.exec t₁ acts' = some t' →
      ∀ c, ¬E c → s'.reportsTo c = t'.reportsTo c) := by
  refine ⟨?_, ?_⟩
  · obtain ⟨o, h⟩ := owned_reachable hs
    exact h.reported
  · intro E b t s₁ t₁ s' t' acts acts' ht hsettled htsettled hb hindex hdrawn hwire hreports hs₁ ht₁
      hacts hattach hs' ht'
    have halike : Alike E s₁ t₁ := alike_attach (owned_reachable hs) (owned_reachable ht) hsettled
      htsettled hb hindex hdrawn hwire hreports hs₁ ht₁
    exact (halike.exec hacts hattach hs' ht').reports

/-- Client 0 types `secret` after a reconnect, sends the marker and loses the
session. -/
def finished (secret : UInt8) : List Act :=
  [Act.reconnect 0, .type 0 (secret :: Marker.bytes ⟨0, 1⟩), .pick, .read 9 false, .forward none,
    .forward none, .forward none, .detach, .proceed, .proceed]

/-- Client 1 gets its stream, reconnects, and has typed `x` before it sends the
marker. -/
def secondClient : List Act :=
  [Act.proceed, .reconnect 1, .type 1 (120 :: Marker.bytes ⟨1, 2⟩), .pick, .read 9 false,
    .forward none, .forward none]

instance (s : Sys) (a : Act) : Decidable (Settled s a) :=
  match a with
  | .attach _ => inferInstanceAs (Decidable (_ ∧ _))
  | .type _ _ | .reconnect _ | .detach | .proceed | .pick | .read _ _ | .readFails
  | .forward _ => inferInstanceAs (Decidable True)

theorem discarded_stays_with_client_finished :
    ∃ s t s' t', machine.ReachableVia Settled s ∧ machine.ReachableVia Settled t ∧
      s.reports = [(0, [⟨112, 0⟩])] ∧ t.reports = [(0, [⟨113, 0⟩])] ∧
      machine.exec s (.attach 1 :: secondClient) = some s' ∧
      machine.exec t (.attach 1 :: secondClient) = some t' ∧ s'.reportsTo 1 = t'.reportsTo 1 := by
  have hrun : ∀ secret c, (secret = 112 ∨ secret = 113) →
      (machine.execWhile (fun s a => decide (Settled s a)) {} (finished secret)).any (fun s =>
        decide (s.reports = [(0, [⟨secret, 0⟩])] ∧ s.discardMarkerCurrentIndex = 1 ∧ s.drawn = 1 ∧
          Settled s (.attach 1) ∧ (c ≠ 0 → s.wire c = []) ∧
          (machine.exec s (.attach 1 :: secondClient)).isSome = true)) = true := by
    rintro secret c (rfl | rfl)
    · match c with
      | 0 => decide
      | c + 1 => rfl
    · match c with
      | 0 => decide
      | c + 1 => rfl
  have hstart : ∀ secret, secret = 112 ∨ secret = 113 → ∃ s, machine.ReachableVia Settled s ∧
      s.reports = [(0, [⟨secret, 0⟩])] ∧ s.discardMarkerCurrentIndex = 1 ∧ s.drawn = 1 ∧
      Settled s (.attach 1) ∧ (∀ c, c ≠ 0 → s.wire c = []) ∧
      ∃ s', machine.exec s (.attach 1 :: secondClient) = some s' := by
    intro secret hsecret
    obtain ⟨s, hs, hend⟩ := (Option.any_eq_true _ _).mp (hrun secret 0 hsecret)
    obtain ⟨hreports, hindex, hdrawn, hsettled, -, hlater⟩ := of_decide_eq_true hend
    refine ⟨s, TSys.ReachableVia.execWhile (fun _ _ h => of_decide_eq_true h) (.init ⟨0, rfl⟩) hs,
      hreports, hindex, hdrawn, hsettled, ?_, Option.isSome_iff_exists.mp hlater⟩
    intro c
    have hc := hrun secret c hsecret
    rw [hs] at hc
    exact (of_decide_eq_true hc).2.2.2.2.1
  obtain ⟨s, hs, hreports, hindex, hdrawn, hsettled, hwire, s', hs'⟩ := hstart 112 (.inl rfl)
  obtain ⟨t, ht, treports, tindex, tdrawn, tsettled, twire, t', ht'⟩ := hstart 113 (.inr rfl)
  refine ⟨s, t, s', t', hs, ht, hreports, treports, hs', ht', ?_⟩
  obtain ⟨s₁, hs₁, hs'⟩ := Option.bind_eq_some_iff.mp hs'
  obtain ⟨t₁, ht₁, ht'⟩ := Option.bind_eq_some_iff.mp ht'
  refine (discarded_stays_with_client hs).2 (· = 0) 1 t s₁ t₁ s' t' secondClient secondClient ht
    hsettled tsettled (by decide) (hindex.trans tindex.symm) (hdrawn.trans tdrawn.symm) ?_ ?_ hs₁ ht₁
    (.refl _) ?_ hs' ht' 1 (by decide)
  · intro c hc
    rw [hwire c hc, twire c hc]
  · intro c hc
    simp [Sys.reportsTo, hreports, treports, Ne.symm hc]
  · intro c hc
    simp [secondClient] at hc

/-- The same without the marker of client 0, whose input stays in the loop. -/
def interrupted (secret : UInt8) : List Act :=
  [Act.reconnect 0, .type 0 [secret], .pick, .read 1 false, .forward none, .forward none,
    .detach, .proceed, .proceed, .attach 1] ++ secondClient

theorem reports_other_client :
    ∃ s t, machine.exec {} (interrupted 112) = some s ∧ machine.exec {} (interrupted 113) = some t ∧
      s.reports = [(1, [⟨112, 0⟩, ⟨120, 1⟩])] ∧ t.reports = [(1, [⟨113, 0⟩, ⟨120, 1⟩])] := by
  have hrun : (machine.exec {} (interrupted 112)).any (fun s =>
      decide (s.reports = [(1, [⟨112, 0⟩, ⟨120, 1⟩])])) = true := by
    decide
  have hrun' : (machine.exec {} (interrupted 113)).any (fun s =>
      decide (s.reports = [(1, [⟨113, 0⟩, ⟨120, 1⟩])])) = true := by
    decide
  obtain ⟨s, hs, hend⟩ := (Option.any_eq_true _ _).mp hrun
  obtain ⟨t, ht, hend'⟩ := (Option.any_eq_true _ _).mp hrun'
  exact ⟨s, t, hs, ht, of_decide_eq_true hend, of_decide_eq_true hend'⟩

end Tsshd.Input.Takeover

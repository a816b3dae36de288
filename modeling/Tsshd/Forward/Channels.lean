import Tsshd.Core.TSys
import Tsshd.Core.Bytes
import Mathlib.Data.List.AList

/-!
# The UDP forwarder

`udpForwarder` (datagram.go) carries the packets of many channels in datagrams:
the payload and behind it the id of the channel in eight bytes. Callers add and
remove channels, one goroutine receives the datagrams and hands them to a
worker, and the worker puts the payloads on the channels and closes the channels
that are removed. When no more datagrams come, or when the forwarder is closed,
the worker leaves its loop, handles the removals until `Close`, and closes what
is left.

`addChannel`, `removeChannel` and `Close` hold one mutex, so each of them is one
step; the worker's steps are single operations on the map and the channels.

Two invariants carry the result:

* **the ledger** — every channel ever made is in exactly one place: in the map,
  in the worker's hands to be closed, or closed;
* **the routing** — what was put on a channel, with its id behind it and the
  datagrams still in somebody's hands after it, is a subsequence of the
  datagrams received.
-/

namespace Tsshd.Forward

/-! ## Datagrams -/

/-- A payload and behind it the id of its channel. -/
def datagram (id : UInt64) (payload : List UInt8) : List UInt8 := payload ++ putBE 8 id.toNat

/-- `sendDatagram`: what is given to the connection, if anything is. -/
def sendDatagram (closed : Bool) (maxSize : Nat) (id : UInt64) (buf : List UInt8) :
    Option (List UInt8) :=
  if closed then none else if maxSize < buf.length then none else some (datagram id buf)

/-- `binary.BigEndian.Uint64(buf[len(buf)-kUdpForwardChannelIdSize:])`. -/
def channelId (buf : List UInt8) : UInt64 := UInt64.ofNat (beNat (buf.drop (buf.length - 8)))

/-- `buf[:len(buf)-kUdpForwardChannelIdSize]`. -/
def payloadOf (buf : List UInt8) : List UInt8 := buf.take (buf.length - 8)

theorem payloadOf_datagram (id : UInt64) (payload : List UInt8) :
    payloadOf (datagram id payload) = payload := by
  simp [payloadOf, datagram]

theorem channelId_datagram (id : UInt64) (payload : List UInt8) :
    channelId (datagram id payload) = id := by
  simp [channelId, datagram, beNat_putBE]

/-- What is long enough to have an id is a datagram for that id. -/
theorem datagram_channelId {buf : List UInt8} (hlong : 8 ≤ buf.length) :
    datagram (channelId buf) (payloadOf buf) = buf := by
  have hlen : (buf.drop (buf.length - 8)).length = 8 := by
    rw [List.length_drop]
    omega
  have hid : (channelId buf).toNat = beNat (buf.drop (buf.length - 8)) % 256 ^ 8 :=
    UInt64.toNat_ofNat'
  have htag : putBE 8 (channelId buf).toNat = buf.drop (buf.length - 8) := by
    have hback := putBE_beNat (buf.drop (buf.length - 8))
    rw [hlen] at hback
    rw [hid, putBE_mod, hback]
  rw [datagram, payloadOf, htag, List.take_append_drop]

/-! ## The machine -/

/-- `channelMap`: from ids to channels, which are numbered in the order of `make`. -/
abbrev ChannelMap := AList fun _ : UInt64 => Nat

/-- The values of the map. -/
def channels (m : ChannelMap) : List Nat := m.entries.map Sigma.snd

/-- Where the receiving goroutine is. -/
inductive Receiver
  | absent
  | receiving
  /-- In front of the send on `incomingBufferChan`. -/
  | handing (buf : List UInt8)
  /-- Returned, and `incomingBufferChan` closed. -/
  | returned
deriving DecidableEq, Repr

/-- Where the worker is. The removals are handled in the loop and, once it has
left the loop, in the deferred function: `leaving` tells the two apart. -/
inductive Worker
  | absent
  | select
  /-- A datagram has come in. -/
  | load (buf : List UInt8)
  | send (ch : Nat) (payload : List UInt8)
  /-- In front of the next removal in the deferred function. -/
  | drain
  /-- A removal has come in. -/
  | delete (leaving : Bool) (id : UInt64)
  | close (leaving : Bool) (ch : Nat)
  /-- In the deferred `Range`, with the channels still to close. -/
  | closeAll (chs : List Nat)
  | finished
deriving DecidableEq, Repr

/-- Back from a removal. -/
def Worker.after (leaving : Bool) : Worker := if leaving then .drain else .select

structure Sys where
  channelMap : ChannelMap := ∅
  closingCh : List UInt64 := []
  closed : Bool := false
  receiver : Receiver := .absent
  worker : Worker := .absent
  made : Nat := 0
  /-- What is on a channel. -/
  queue : Nat → List (List UInt8) := fun _ => []
  /-- A send on a closed channel, or a second close. -/
  panicked : Bool := false
  /-- History: the ids the channels were made for. -/
  owner : Nat → UInt64 := fun _ => 0
  /-- History: the channels closed. -/
  closedChs : List Nat := []
  /-- History: the datagrams received. -/
  arrived : List (List UInt8) := []
  /-- History: what was taken from a channel. -/
  taken : Nat → List (List UInt8) := fun _ => []

inductive Act
  | addChannel (id : UInt64)
  | removeChannel (id : UInt64)
  | close
  | receive (buf : List UInt8)
  | receiveFails
  /-- The receiver's datagram meets the worker's `select`. -/
  | hand
  /-- `select` finds `incomingBufferChan` closed. -/
  | noMore
  /-- The worker receives from `closingCh`. -/
  | takeClosing
  /-- The worker finds `closingCh` closed and empty. -/
  | closingEnds
  /-- `Range` comes to this channel. -/
  | range (ch : Nat)
  /-- Any other step of the worker. -/
  | work
  /-- The reader of a channel takes a payload. -/
  | consume (ch : Nat)
deriving DecidableEq, Repr

/-- `workerOnce.Do(f.startWorker)`. -/
def Sys.start (s : Sys) : Sys :=
  if s.worker = .absent then { s with worker := .select, receiver := .receiving } else s

/-- `make` and `channelMap.Store`. -/
def Sys.store (s : Sys) (id : UInt64) : Sys :=
  { s with
    made := s.made + 1
    channelMap := s.channelMap.insert id s.made
    owner := Function.update s.owner s.made id }

/-- `close(ch)`. -/
def Sys.closeChannel (s : Sys) (ch : Nat) (w : Worker) : Sys :=
  { s with
    worker := w
    closedChs := ch :: s.closedChs
    panicked := s.panicked || decide (ch ∈ s.closedChs) }

/-- The inner `select`: a send on `ch` that does not wait. -/
def Sys.offer (s : Sys) (ch : Nat) (payload : List UInt8) : Sys :=
  if ch ∈ s.closedChs then { s with worker := .select, panicked := true }
  else if (s.queue ch).length < 1024 then
    { s with
      worker := .select
      queue := Function.update s.queue ch (s.queue ch ++ [payload]) }
  else { s with worker := .select }

/-- The worker inside a turn. -/
def workStep (s : Sys) : Option Sys :=
  match s.worker with
  | .load buf =>
    match s.channelMap.lookup (channelId buf) with
    | none => some { s with worker := .select }
    | some ch => some { s with worker := .send ch (payloadOf buf) }
  | .send ch payload => some (s.offer ch payload)
  | .delete leaving id =>
    match s.channelMap.lookup id with
    | none => some { s with worker := .after leaving }
    | some ch => some { s with channelMap := s.channelMap.erase id, worker := .close leaving ch }
  | .close leaving ch => some (s.closeChannel ch (.after leaving))
  | .closeAll [] => some { s with worker := .finished }
  | _ => none

def next (s : Sys) : Act → Option Sys
  | .addChannel id => if s.closed then some s else some (s.start.store id)
  | .removeChannel id =>
    if s.closed then some s
    else if s.closingCh.length < 10 then
      some { s.start with closingCh := s.start.closingCh ++ [id] }
    else none
  | .close => some { s with closed := true }
  | .receive buf =>
    if s.receiver = .receiving then
      some { s with
        arrived := s.arrived ++ [buf]
        receiver := if buf.length < 8 then .receiving else .handing buf }
    else none
  | .receiveFails => if s.receiver = .receiving then some { s with receiver := .returned } else none
  | .hand =>
    match s.receiver, s.worker with
    | .handing buf, .select => some { s with receiver := .receiving, worker := .load buf }
    | _, _ => none
  | .noMore =>
    if s.receiver = .returned ∧ s.worker = .select then some { s with worker := .drain } else none
  | .takeClosing =>
    match s.closingCh, s.worker with
    | id :: rest, .select => some { s with closingCh := rest, worker := .delete false id }
    | id :: rest, .drain => some { s with closingCh := rest, worker := .delete true id }
    | _, _ => none
  | .closingEnds =>
    if s.closingCh = [] ∧ s.closed = true then
      match s.worker with
      | .select => some { s with worker := .drain }
      | .drain => some { s with worker := .closeAll (channels s.channelMap) }
      | _ => none
    else none
  | .range ch =>
    match s.worker with
    | .closeAll chs =>
      if ch ∈ chs then some (s.closeChannel ch (.closeAll (chs.erase ch))) else none
    | _ => none
  | .work => workStep s
  | .consume ch =>
    match s.queue ch with
    | [] => none
    | payload :: rest =>
      some { s with
        queue := Function.update s.queue ch rest
        taken := Function.update s.taken ch (s.taken ch ++ [payload]) }

def machine : TSys Sys Act where
  init s := s = {}
  next := next

/-- Channels are added under ids that were never used. -/
def Fresh (s : Sys) : Act → Prop
  | .addChannel id => ∀ ch < s.made, s.owner ch ≠ id
  | _ => True

instance (s : Sys) (a : Act) : Decidable (Fresh s a) :=
  match a with
  | .addChannel id => inferInstanceAs (Decidable (∀ ch < s.made, s.owner ch ≠ id))
  | .removeChannel _ | .close | .receive _ | .receiveFails | .hand | .noMore | .takeClosing
  | .closingEnds | .range _ | .work | .consume _ => inferInstanceAs (Decidable True)

/-- Everything that was ever put on a channel. -/
def Sys.appeared (s : Sys) (ch : Nat) : List (List UInt8) := s.taken ch ++ s.queue ch

/-! ## What a step can do, said once -/

/-- The worker holds no channel, and no datagram that it has found a channel for. -/
def Worker.light : Worker → Bool
  | .absent | .select | .load _ | .drain | .delete _ _ => true
  | _ => false

/-- The worker holds nothing at all. -/
def Worker.idle : Worker → Bool
  | .load _ => false
  | w => w.light

theorem Worker.after_idle (leaving : Bool) : (Worker.after leaving).idle = true := by
  cases leaving <;> rfl

variable {s s' : Sys} {a : Act}

inductive Step (s : Sys) : Sys → Prop
  | stay : Step s s
  | start (hworker : s.worker = .absent) :
      Step s { s with worker := .select, receiver := .receiving }
  | store (id : UInt64) (hopen : s.closed = false) (hfresh : ∀ ch < s.made, s.owner ch ≠ id) :
      Step s (s.store id)
  /-- Only the removals asked for change, or `closed` is set. -/
  | ask (closingCh : List UInt64) (closed : Bool) (hkeep : s.closed = true → closed = true) :
      Step s { s with closingCh := closingCh, closed := closed }
  | receive (buf : List UInt8) (hreceiver : s.receiver = .receiving) :
      Step s { s with
        arrived := s.arrived ++ [buf]
        receiver := if buf.length < 8 then .receiving else .handing buf }
  | receiveFails (hreceiver : s.receiver = .receiving) : Step s { s with receiver := .returned }
  | hand (buf : List UInt8) (hreceiver : s.receiver = .handing buf) (hworker : s.worker = .select) :
      Step s { s with receiver := .receiving, worker := .load buf }
  /-- The worker drops what it may hold and moves on. -/
  | turn (w : Worker) (closingCh : List UInt64) (hlight : s.worker.light = true)
      (hidle : w.idle = true) : Step s { s with closingCh := closingCh, worker := w }
  | route (buf : List UInt8) (ch : Nat) (hworker : s.worker = .load buf)
      (hfound : s.channelMap.lookup (channelId buf) = some ch) :
      Step s { s with worker := .send ch (payloadOf buf) }
  | offer (ch : Nat) (payload : List UInt8) (hworker : s.worker = .send ch payload) :
      Step s (s.offer ch payload)
  | delete (leaving : Bool) (id : UInt64) (ch : Nat) (hworker : s.worker = .delete leaving id)
      (hfound : s.channelMap.lookup id = some ch) :
      Step s { s with channelMap := s.channelMap.erase id, worker := .close leaving ch }
  | close (leaving : Bool) (ch : Nat) (hworker : s.worker = .close leaving ch) :
      Step s (s.closeChannel ch (.after leaving))
  | closeAll (hworker : s.worker = .drain) (hclosed : s.closed = true) :
      Step s { s with worker := .closeAll (channels s.channelMap) }
  | range (chs : List Nat) (ch : Nat) (hworker : s.worker = .closeAll chs) (hmem : ch ∈ chs) :
      Step s (s.closeChannel ch (.closeAll (chs.erase ch)))
  | finish (hworker : s.worker = .closeAll []) : Step s { s with worker := .finished }
  | consume (ch : Nat) (payload : List UInt8) (rest : List (List UInt8))
      (hqueue : s.queue ch = payload :: rest) :
      Step s { s with
        queue := Function.update s.queue ch rest
        taken := Function.update s.taken ch (s.taken ch ++ [payload]) }

theorem step_start (s : Sys) : Step s s.start := by
  unfold Sys.start
  split
  · exact .start ‹_›
  · exact .stay

@[simp] theorem start_closed (s : Sys) : s.start.closed = s.closed := by
  unfold Sys.start
  split <;> rfl

@[simp] theorem start_made (s : Sys) : s.start.made = s.made := by
  unfold Sys.start
  split <;> rfl

@[simp] theorem start_owner (s : Sys) : s.start.owner = s.owner := by
  unfold Sys.start
  split <;> rfl

theorem step_work (h : workStep s = some s') : Step s s' := by
  unfold workStep at h
  cases hworker : s.worker <;> rw [hworker] at h
  case load buf =>
    simp only at h
    split at h
    · cases h
      exact .turn .select s.closingCh (by rw [hworker]; rfl) rfl
    · cases h
      exact .route buf _ hworker ‹_›
  case send ch payload =>
    cases h
    exact .offer ch payload hworker
  case delete leaving id =>
    simp only at h
    split at h
    · cases h
      exact .turn (.after leaving) s.closingCh (by rw [hworker]; rfl) (Worker.after_idle leaving)
    · cases h
      exact .delete leaving id _ hworker ‹_›
  case close leaving ch =>
    cases h
    exact .close leaving ch hworker
  case closeAll chs =>
    cases chs with
    | nil =>
      cases h
      exact .finish hworker
    | cons ch rest => cases h
  all_goals cases h

/-- A caller's step may start the worker first. -/
theorem step_cases (hok : Fresh s a) (h : next s a = some s') :
    ∃ mid, Step s mid ∧ Step mid s' := by
  cases a with
  | addChannel id =>
    simp only [next] at h
    split at h
    · cases h
      exact ⟨s, .stay, .stay⟩
    · cases h
      refine ⟨s.start, step_start s, .store id ?_ ?_⟩
      · simpa using ‹¬s.closed = true›
      · rw [start_made, start_owner]
        exact hok
  | removeChannel id =>
    simp only [next] at h
    split at h
    · cases h
      exact ⟨s, .stay, .stay⟩
    · split at h
      · cases h
        exact ⟨s.start, step_start s, .ask (s.start.closingCh ++ [id]) s.start.closed fun h => h⟩
      · cases h
  | close =>
    cases h
    exact ⟨s, .stay, .ask s.closingCh true fun _ => rfl⟩
  | receive buf =>
    simp only [next] at h
    split at h
    · cases h
      exact ⟨s, .stay, .receive buf ‹_›⟩
    · cases h
  | receiveFails =>
    simp only [next] at h
    split at h
    · cases h
      exact ⟨s, .stay, .receiveFails ‹_›⟩
    · cases h
  | hand =>
    simp only [next] at h
    split at h
    · cases h
      exact ⟨s, .stay, .hand _ ‹_› ‹_›⟩
    · cases h
  | noMore =>
    simp only [next] at h
    split at h
    case isTrue hends =>
      cases h
      exact ⟨s, .stay, .turn .drain s.closingCh (by rw [hends.2]; rfl) rfl⟩
    case isFalse => cases h
  | takeClosing =>
    simp only [next] at h
    split at h
    case h_1 id rest _ hworker =>
      cases h
      exact ⟨s, .stay, .turn (.delete false id) rest (by rw [hworker]; rfl) rfl⟩
    case h_2 id rest _ hworker =>
      cases h
      exact ⟨s, .stay, .turn (.delete true id) rest (by rw [hworker]; rfl) rfl⟩
    case h_3 => cases h
  | closingEnds =>
    simp only [next] at h
    split at h
    case isTrue hends =>
      split at h
      case h_1 hworker =>
        cases h
        exact ⟨s, .stay, .turn .drain s.closingCh (by rw [hworker]; rfl) rfl⟩
      case h_2 hworker =>
        cases h
        exact ⟨s, .stay, .closeAll hworker hends.2⟩
      case h_3 => cases h
    case isFalse => cases h
  | range ch =>
    simp only [next] at h
    split at h
    · split at h
      · cases h
        exact ⟨s, .stay, .range _ ch ‹_› ‹_›⟩
      · cases h
    · cases h
  | work => exact ⟨s, .stay, step_work h⟩
  | consume ch =>
    simp only [next] at h
    split at h
    · cases h
    · cases h
      exact ⟨s, .stay, .consume ch _ _ ‹_›⟩

/-! ## The ledger -/

/-- The worker is in its last stage: it has listed what is left in the map. -/
def Worker.last : Worker → Bool
  | .closeAll _ | .finished => true
  | _ => false

/-- What the map answers for. In the last stage it is the worker that does. -/
def Worker.mapped (m : ChannelMap) (w : Worker) : List Nat := if w.last then [] else channels m

/-- The channels in the worker's hands. -/
def Worker.closing : Worker → List Nat
  | .close _ ch => [ch]
  | .closeAll chs => chs
  | _ => []

theorem Worker.last_light {w : Worker} (h : w.light = true) : w.last = false := by
  cases w <;> first | rfl | exact absurd h (by simp [Worker.light])

theorem Worker.closing_light {w : Worker} (h : w.light = true) : w.closing = [] := by
  cases w <;> first | rfl | exact absurd h (by simp [Worker.light])

theorem Worker.light_of_idle {w : Worker} (h : w.idle = true) : w.light = true := by
  cases w <;> first | rfl | exact h

/-- Taking a key out of the map takes its value out of the values. -/
theorem channels_erase {m : ChannelMap} {id : UInt64} {ch : Nat} (h : m.lookup id = some ch) :
    (channels m).Perm (ch :: channels (m.erase id)) := by
  have hmem : id ∈ m.entries.keys := AList.mem_keys.mp (AList.lookup_isSome.mp (by rw [h]; rfl))
  obtain ⟨b, l₁, l₂, -, hentries, herase⟩ := List.exists_of_kerase hmem
  have hb : m.lookup id = some b := by
    refine AList.mem_lookup_iff.mpr ?_
    rw [hentries]
    exact List.mem_append_right _ List.mem_cons_self
  have hch : b = ch := Option.some.inj (hb.symm.trans h)
  subst hch
  have hchannels : channels m = l₁.map Sigma.snd ++ b :: l₂.map Sigma.snd := by
    rw [channels, hentries, List.map_append, List.map_cons]
  have hrest : channels (m.erase id) = l₁.map Sigma.snd ++ l₂.map Sigma.snd := by
    rw [channels, ← List.map_append, ← herase]
    rfl
  rw [hchannels, hrest]
  exact List.perm_middle

theorem mem_channels {m : ChannelMap} {id : UInt64} {ch : Nat} (h : m.lookup id = some ch) :
    ch ∈ channels m :=
  (channels_erase h).mem_iff.mpr List.mem_cons_self

theorem channels_insert {m : ChannelMap} {id : UInt64} (ch : Nat) (h : id ∉ m) :
    channels (m.insert id ch) = ch :: channels m := by
  rw [channels, AList.entries_insert_of_notMem h]
  rfl

/-- Every channel ever made is in one place. -/
structure Ledger (s : Sys) : Prop where
  all : (s.worker.mapped s.channelMap ++ (s.worker.closing ++ s.closedChs)).Perm
    (List.range s.made)
  owned : ∀ id ch, s.channelMap.lookup id = some ch → ch < s.made ∧ s.owner ch = id
  /-- The last stage starts after `Close`. -/
  last : s.worker.last = true → s.closed = true
  target : ∀ ch payload, s.worker = .send ch payload → ch < s.made ∧ ch ∉ s.closedChs
  sound : s.panicked = false

theorem Ledger.nodup (h : Ledger s) :
    (s.worker.mapped s.channelMap ++ (s.worker.closing ++ s.closedChs)).Nodup :=
  h.all.nodup_iff.mpr List.nodup_range

theorem Ledger.closed_nodup (h : Ledger s) : s.closedChs.Nodup :=
  (List.nodup_append.mp (List.nodup_append.mp h.nodup).2.1).2.1

/-- What the worker holds is not closed yet. -/
theorem Ledger.not_closed_of_closing (h : Ledger s) {ch : Nat} (hmem : ch ∈ s.worker.closing) :
    ch ∉ s.closedChs := by
  have hdisjoint := (List.nodup_append.mp (List.nodup_append.mp h.nodup).2.1).2.2
  intro hclosed
  exact hdisjoint ch hmem ch hclosed rfl

/-- Nor is what the map answers for. -/
theorem Ledger.not_closed_of_mapped (h : Ledger s) {ch : Nat}
    (hmem : ch ∈ s.worker.mapped s.channelMap) : ch ∉ s.closedChs := by
  have hdisjoint := (List.nodup_append.mp h.nodup).2.2
  intro hclosed
  exact hdisjoint ch hmem ch (List.mem_append_right _ hclosed) rfl

/-- Moves of the worker that carry no channel. -/
theorem Ledger.move (h : Ledger s) (w : Worker) (receiver : Receiver) (closingCh : List UInt64)
    (hlight : s.worker.light = true) (hw : w.light = true) :
    Ledger { s with worker := w, receiver := receiver, closingCh := closingCh } := by
  refine ⟨?_, h.owned, ?_, ?_, h.sound⟩
  · have hall := h.all
    rw [Worker.mapped, Worker.last_light hlight, Worker.closing_light hlight] at hall
    rw [Worker.mapped, Worker.last_light hw, Worker.closing_light hw]
    exact hall
  · intro hlast
    exact absurd ((Worker.last_light hw).symm.trans hlast) Bool.false_ne_true
  · rintro ch payload rfl
    exact absurd hw Bool.false_ne_true

/-- A channel goes from the worker's hands to the closed ones. -/
theorem Ledger.closeChannel (h : Ledger s) {ch : Nat} {w : Worker}
    (hlast : w.last = s.worker.last) (hclosing : s.worker.closing.Perm (ch :: w.closing))
    (hsend : ∀ ch payload, w ≠ .send ch payload) : Ledger (s.closeChannel ch w) := by
  have hnew : ch ∉ s.closedChs :=
    h.not_closed_of_closing (hclosing.mem_iff.mpr List.mem_cons_self)
  refine ⟨?_, h.owned, ?_, ?_, ?_⟩
  · have hmove : (w.closing ++ ch :: s.closedChs).Perm (s.worker.closing ++ s.closedChs) :=
      List.perm_middle.trans (hclosing.symm.append_right s.closedChs)
    have hall := h.all
    rw [Worker.mapped, ← hlast] at hall
    exact (hmove.append_left _).trans hall
  · intro hw
    exact h.last (hlast ▸ hw)
  · intro ch' payload hw
    exact absurd hw (hsend ch' payload)
  · simp [Sys.closeChannel, h.sound, hnew]

theorem Ledger.store (h : Ledger s) {id : UInt64} (hopen : s.closed = false)
    (hfresh : ∀ ch < s.made, s.owner ch ≠ id) : Ledger (s.store id) := by
  have hnot : id ∉ s.channelMap := by
    intro hmem
    obtain ⟨ch, hfound⟩ := Option.isSome_iff_exists.mp (AList.lookup_isSome.mpr hmem)
    obtain ⟨hlt, howner⟩ := h.owned id ch hfound
    exact hfresh ch hlt howner
  have hlast : s.worker.last = false := by
    by_contra hw
    have hclosed := h.last (by simpa using hw)
    exact absurd (hopen.symm.trans hclosed) Bool.false_ne_true
  refine ⟨?_, ?_, h.last, ?_, h.sound⟩
  · have hall := h.all
    rw [Worker.mapped, hlast] at hall
    show (s.worker.mapped (s.channelMap.insert id s.made) ++ _).Perm (List.range (s.made + 1))
    rw [Worker.mapped, hlast, List.range_succ]
    show (channels (s.channelMap.insert id s.made) ++ _).Perm _
    rw [channels_insert s.made hnot]
    exact (hall.cons s.made).trans (List.perm_append_singleton _ _).symm
  · intro id' ch hfound
    show ch < s.made + 1 ∧ Function.update s.owner s.made id ch = id'
    by_cases hid : id' = id
    · subst hid
      have hch : s.made = ch := Option.some.inj ((AList.lookup_insert _).symm.trans hfound)
      subst hch
      exact ⟨Nat.lt_succ_self _, Function.update_self ..⟩
    · obtain ⟨hlt, howner⟩ := h.owned id' ch ((AList.lookup_insert_ne hid).symm.trans hfound)
      exact ⟨Nat.lt_succ_of_lt hlt, (Function.update_of_ne (Nat.ne_of_lt hlt) _ _).trans howner⟩
  · intro ch payload hw
    exact ⟨Nat.lt_succ_of_lt (h.target ch payload hw).1, (h.target ch payload hw).2⟩

/-- The channel was open, so the send does not panic. -/
theorem Ledger.offer (h : Ledger s) {ch : Nat} {payload : List UInt8}
    (hworker : s.worker = .send ch payload) : Ledger (s.offer ch payload) := by
  have hselect : Ledger { s with worker := .select } := by
    refine ⟨?_, h.owned, fun hlast => absurd hlast Bool.false_ne_true, ?_, h.sound⟩
    · have hall := h.all
      rw [hworker] at hall
      exact hall
    · rintro _ _ ⟨⟩
  unfold Sys.offer
  rw [if_neg (h.target ch payload hworker).2]
  split
  · exact ⟨hselect.all, hselect.owned, hselect.last, hselect.target, hselect.sound⟩
  · exact hselect

theorem Ledger.delete (h : Ledger s) {leaving : Bool} {id : UInt64} {ch : Nat}
    (hworker : s.worker = .delete leaving id) (hfound : s.channelMap.lookup id = some ch) :
    Ledger { s with channelMap := s.channelMap.erase id, worker := .close leaving ch } := by
  refine ⟨?_, ?_, fun hlast => absurd hlast Bool.false_ne_true, ?_, h.sound⟩
  · have hall := h.all
    rw [hworker] at hall
    have hmove : (channels (s.channelMap.erase id) ++ ch :: s.closedChs).Perm
        (channels s.channelMap ++ s.closedChs) :=
      List.perm_middle.trans ((channels_erase hfound).symm.append_right s.closedChs)
    exact hmove.trans hall
  · intro id' ch' hfound'
    by_cases hid : id' = id
    · subst hid
      rw [AList.lookup_erase] at hfound'
      cases hfound'
    · exact h.owned id' ch' ((AList.lookup_erase_ne hid).symm.trans hfound')
  · rintro _ _ ⟨⟩

theorem Ledger.step (h : Ledger s) (hstep : Step s s') : Ledger s' := by
  cases hstep with
  | stay => exact h
  | start hworker => exact h.move .select .receiving s.closingCh (by rw [hworker]; rfl) rfl
  | store id hopen hfresh => exact h.store hopen hfresh
  | ask closingCh closed hkeep =>
    exact ⟨h.all, h.owned, fun hlast => hkeep (h.last hlast), h.target, h.sound⟩
  | receive buf hreceiver => exact ⟨h.all, h.owned, h.last, h.target, h.sound⟩
  | receiveFails hreceiver => exact ⟨h.all, h.owned, h.last, h.target, h.sound⟩
  | hand buf hreceiver hworker =>
    exact h.move (.load buf) .receiving s.closingCh (by rw [hworker]; rfl) rfl
  | turn w closingCh hlight hidle =>
    exact h.move w s.receiver closingCh hlight (Worker.light_of_idle hidle)
  | route buf ch hworker hfound =>
    have hmapped : s.worker.mapped s.channelMap = channels s.channelMap := by rw [hworker]; rfl
    refine ⟨?_, h.owned, fun hlast => absurd hlast Bool.false_ne_true, ?_, h.sound⟩
    · have hall := h.all
      rw [hworker] at hall
      exact hall
    · rintro _ _ ⟨⟩
      refine ⟨(h.owned _ ch hfound).1, h.not_closed_of_mapped ?_⟩
      rw [hmapped]
      exact mem_channels hfound
  | offer ch payload hworker => exact h.offer hworker
  | delete leaving id ch hworker hfound => exact h.delete hworker hfound
  | close leaving ch hworker =>
    apply h.closeChannel
    · rw [hworker]
      cases leaving <;> rfl
    · rw [hworker]
      cases leaving <;> exact List.Perm.refl _
    · intro ch' payload
      cases leaving <;> exact fun heq => by cases heq
  | closeAll hworker hclosed =>
    refine ⟨?_, h.owned, fun _ => hclosed, by rintro _ _ ⟨⟩, h.sound⟩
    have hall := h.all
    rw [hworker] at hall
    exact hall
  | range chs ch hworker hmem =>
    apply h.closeChannel
    · rw [hworker]
      rfl
    · rw [hworker]
      exact List.perm_cons_erase hmem
    · rintro _ _ ⟨⟩
  | finish hworker =>
    refine ⟨?_, h.owned, fun _ => h.last (by rw [hworker]; rfl), by rintro _ _ ⟨⟩, h.sound⟩
    have hall := h.all
    rw [hworker] at hall
    exact hall
  | consume ch payload rest hqueue => exact ⟨h.all, h.owned, h.last, h.target, h.sound⟩

/-! ## The routing -/

/-- The datagram the worker is busy with. -/
def Worker.inHand (owner : Nat → UInt64) : Worker → List (List UInt8)
  | .load buf => [buf]
  | .send ch payload => [datagram (owner ch) payload]
  | _ => []

/-- The datagram the receiver is about to hand over. -/
def Receiver.inHand : Receiver → List (List UInt8)
  | .handing buf => [buf]
  | _ => []

/-- Received and not yet routed, the oldest first. -/
def Sys.inHand (s : Sys) : List (List UInt8) := s.worker.inHand s.owner ++ s.receiver.inHand

/-- What is on the channels and in hand came in, in this order. -/
structure Routing (s : Sys) : Prop where
  unused : ∀ ch, s.made ≤ ch → s.appeared ch = []
  long : ∀ buf, s.worker = .load buf ∨ s.receiver = .handing buf → 8 ≤ buf.length
  order : ∀ ch, ((s.appeared ch).map (datagram (s.owner ch)) ++ s.inHand).Sublist s.arrived

theorem Worker.inHand_idle {w : Worker} (h : w.idle = true) (owner : Nat → UInt64) :
    w.inHand owner = [] := by
  cases w <;> first | rfl | exact absurd h Bool.false_ne_true

/-- The channels are as before, and no datagram is new in hand. -/
theorem Routing.of_sublist (h : Routing s) (hmade : s'.made = s.made) (howner : s'.owner = s.owner)
    (happeared : s'.appeared = s.appeared) (harrived : s'.arrived = s.arrived)
    (hlong : ∀ buf, s'.worker = .load buf ∨ s'.receiver = .handing buf → 8 ≤ buf.length)
    (hsub : s'.inHand.Sublist s.inHand) : Routing s' := by
  refine ⟨?_, hlong, ?_⟩
  · rw [hmade, happeared]
    exact h.unused
  · intro ch
    rw [happeared, howner, harrived]
    exact (hsub.append_left _).trans (h.order ch)

/-- The worker goes on with empty hands, whatever it had. -/
theorem Routing.drop (h : Routing s) (hmade : s'.made = s.made) (howner : s'.owner = s.owner)
    (happeared : s'.appeared = s.appeared) (harrived : s'.arrived = s.arrived)
    (hreceiver : s'.receiver = s.receiver) (hworker : s'.worker.inHand s'.owner = []) :
    Routing s' := by
  refine h.of_sublist hmade howner happeared harrived ?_ ?_
  · rintro buf (hload | hhanding)
    · rw [hload] at hworker
      exact absurd hworker (List.cons_ne_nil _ _)
    · exact h.long buf (.inr (hreceiver ▸ hhanding))
  · rw [Sys.inHand, Sys.inHand, hworker, hreceiver]
    exact List.sublist_append_right _ _

theorem Routing.store (h : Routing s) (hledger : Ledger s) (id : UInt64) :
    Routing (s.store id) := by
  refine ⟨fun ch hch => h.unused ch (Nat.le_of_succ_le hch), h.long, ?_⟩
  intro ch
  -- The new channel is not the one the worker is about to send on.
  have hhand : (s.store id).inHand = s.inHand := by
    show s.worker.inHand (Function.update s.owner s.made id) ++ _ = s.worker.inHand s.owner ++ _
    cases hw : s.worker with
    | send target payload =>
      have hne := Nat.ne_of_lt (hledger.target target payload hw).1
      simp only [Worker.inHand, Function.update_of_ne hne]
      rfl
    | _ => rfl
  rw [hhand]
  show ((s.appeared ch).map (datagram (Function.update s.owner s.made id ch)) ++ _).Sublist _
  by_cases hch : ch = s.made
  · rw [h.unused ch (Nat.le_of_eq hch.symm)]
    exact (List.sublist_append_right _ _).trans (h.order ch)
  · rw [Function.update_of_ne hch]
    exact h.order ch

theorem Routing.receive (h : Routing s) (buf : List UInt8) (hreceiver : s.receiver = .receiving) :
    Routing { s with
      arrived := s.arrived ++ [buf]
      receiver := if buf.length < 8 then .receiving else .handing buf } := by
  have hhand : s.inHand = s.worker.inHand s.owner := by
    rw [Sys.inHand, hreceiver]
    exact List.append_nil _
  refine ⟨h.unused, ?_, ?_⟩
  · rintro buf' (hload | hhanding)
    · exact h.long buf' (.inl hload)
    · dsimp only at hhanding
      split at hhanding
      · cases hhanding
      · cases hhanding
        omega
  · intro ch
    have hnew : (if buf.length < 8 then Receiver.receiving else .handing buf).inHand.Sublist
        [buf] := by
      split
      · exact List.nil_sublist _
      · exact List.Sublist.refl _
    have horder := h.order ch
    rw [hhand] at horder
    show (_ ++ (s.worker.inHand s.owner ++ _)).Sublist (s.arrived ++ [buf])
    rw [← List.append_assoc]
    exact horder.append hnew

/-- The payload goes to the end of the channel, or nowhere. -/
theorem Routing.offer (h : Routing s) (hledger : Ledger s) {ch : Nat} {payload : List UInt8}
    (hworker : s.worker = .send ch payload) : Routing (s.offer ch payload) := by
  unfold Sys.offer
  split
  · exact h.drop rfl rfl rfl rfl rfl rfl
  · split
    · refine ⟨?_, ?_, ?_⟩
      · intro ch' hch'
        have hne : ch' ≠ ch := by
          have := (hledger.target ch payload hworker).1
          have : s.made ≤ ch' := hch'
          omega
        show s.taken ch' ++ Function.update s.queue ch _ ch' = []
        rw [Function.update_of_ne hne]
        exact h.unused ch' hch'
      · rintro buf (hload | hhanding)
        · cases hload
        · exact h.long buf (.inr hhanding)
      · intro ch'
        have horder := h.order ch'
        rw [Sys.inHand, hworker] at horder
        show ((s.taken ch' ++ Function.update s.queue ch _ ch').map _ ++ s.receiver.inHand).Sublist _
        by_cases hch : ch' = ch
        · subst hch
          rw [Function.update_self, ← List.append_assoc, List.map_append]
          rw [← List.append_assoc] at horder
          exact horder
        · rw [Function.update_of_ne hch]
          exact ((List.sublist_append_right _ _).append_left _).trans horder
    · exact h.drop rfl rfl rfl rfl rfl rfl

theorem Routing.step (h : Routing s) (hledger : Ledger s) (hstep : Step s s') : Routing s' := by
  cases hstep with
  | stay => exact h
  | start hworker =>
    refine h.of_sublist rfl rfl rfl rfl ?_ (List.nil_sublist _)
    rintro buf (hload | hhanding)
    · cases hload
    · cases hhanding
  | store id hopen hfresh => exact h.store hledger id
  | ask closingCh closed hkeep => exact ⟨h.unused, h.long, h.order⟩
  | receive buf hreceiver => exact h.receive buf hreceiver
  | receiveFails hreceiver =>
    refine h.of_sublist rfl rfl rfl rfl ?_ ?_
    · rintro buf (hload | hhanding)
      · exact h.long buf (.inl hload)
      · cases hhanding
    · exact (List.nil_sublist _).append_left _
  | hand buf hreceiver hworker =>
    refine h.of_sublist rfl rfl rfl rfl ?_ ?_
    · rintro _ (hload | hhanding)
      · cases hload
        exact h.long buf (.inr hreceiver)
      · cases hhanding
    · rw [Sys.inHand, Sys.inHand, hreceiver, hworker]
      exact List.Sublist.refl _
  | turn w closingCh hlight hidle =>
    exact h.drop rfl rfl rfl rfl rfl (Worker.inHand_idle hidle _)
  | route buf ch hworker hfound =>
    have hbuf : datagram (s.owner ch) (payloadOf buf) = buf := by
      rw [(hledger.owned _ ch hfound).2]
      exact datagram_channelId (h.long buf (.inl hworker))
    refine h.of_sublist rfl rfl rfl rfl ?_ ?_
    · rintro buf' (hload | hhanding)
      · cases hload
      · exact h.long buf' (.inr hhanding)
    · rw [Sys.inHand, Sys.inHand, hworker]
      show (datagram (s.owner ch) (payloadOf buf) :: s.receiver.inHand).Sublist _
      rw [hbuf]
      exact List.Sublist.refl _
  | offer ch payload hworker => exact h.offer hledger hworker
  | delete leaving id ch hworker hfound => exact h.drop rfl rfl rfl rfl rfl rfl
  | close leaving ch hworker =>
    exact h.drop rfl rfl rfl rfl rfl (Worker.inHand_idle (Worker.after_idle leaving) _)
  | closeAll hworker hclosed => exact h.drop rfl rfl rfl rfl rfl rfl
  | range chs ch hworker hmem => exact h.drop rfl rfl rfl rfl rfl rfl
  | finish hworker => exact h.drop rfl rfl rfl rfl rfl rfl
  | consume ch payload rest hqueue =>
    refine h.of_sublist rfl rfl ?_ rfl h.long (List.Sublist.refl _)
    funext ch'
    show Function.update s.taken ch _ ch' ++ Function.update s.queue ch rest ch' = _
    by_cases hch : ch' = ch
    · subst hch
      rw [Function.update_self, Function.update_self, Sys.appeared, hqueue, List.append_assoc]
      rfl
    · rw [Function.update_of_ne hch, Function.update_of_ne hch]
      rfl

/-! ## Whole runs -/

structure Inv (s : Sys) : Prop where
  ledger : Ledger s
  routing : Routing s

theorem Inv.step (h : Inv s) (hstep : Step s s') : Inv s' :=
  ⟨h.ledger.step hstep, h.routing.step h.ledger hstep⟩

theorem inv_init : Inv {} := by
  refine ⟨⟨.refl _, ?_, fun h => absurd h Bool.false_ne_true, ?_, rfl⟩, ⟨fun _ _ => rfl, ?_, ?_⟩⟩
  · intro id ch hfound
    rw [AList.lookup_empty] at hfound
    cases hfound
  · rintro _ _ ⟨⟩
  · rintro buf (hload | hhanding)
    · cases hload
    · cases hhanding
  · intro ch
    exact List.Sublist.refl _

theorem inv_reachable (hs : machine.ReachableVia Fresh s) : Inv s := by
  refine TSys.ReachableVia.invariant ?_ ?_ hs
  · rintro s rfl
    exact inv_init
  · intro s a s' h hok hnext
    obtain ⟨mid, hfirst, hsecond⟩ := step_cases hok hnext
    exact (h.step hfirst).step hsecond

/-- Once the worker has finished, all channels are closed. -/
theorem Ledger.finished (h : Ledger s) (hworker : s.worker = .finished) :
    ∀ ch < s.made, ch ∈ s.closedChs := by
  intro ch hch
  have hall := h.all
  rw [hworker] at hall
  exact hall.mem_iff.mpr (List.mem_range.mpr hch)

/-- **The forwarder routes and closes.** What `sendDatagram` sends is routed to
its id. What was ever put on a channel came in as datagrams for its id, each of
them once and in this order. Nothing is sent on a closed channel and no channel
is closed twice; and when the worker has finished after `Close`, every channel
is closed. -/
theorem forwarder_routes_and_closes (hs : machine.ReachableVia Fresh s) :
    (∀ closed maxSize id buf sent, sendDatagram closed maxSize id buf = some sent →
      sent = datagram id buf ∧ channelId sent = id ∧ payloadOf sent = buf) ∧
    (∀ ch, ((s.appeared ch).map (datagram (s.owner ch))).Sublist s.arrived) ∧
    s.panicked = false ∧ s.closedChs.Nodup ∧
    (s.closed = true → s.worker = .finished → ∀ ch < s.made, ch ∈ s.closedChs) := by
  obtain ⟨hledger, hrouting⟩ := inv_reachable hs
  refine ⟨?_, ?_, hledger.sound, hledger.closed_nodup, fun _ => hledger.finished⟩
  · intro closed maxSize id buf sent hsend
    unfold sendDatagram at hsend
    split at hsend
    · cases hsend
    · split at hsend
      · cases hsend
      · cases hsend
        exact ⟨rfl, channelId_datagram id buf, payloadOf_datagram id buf⟩
  · intro ch
    exact (List.sublist_append_left _ _).trans (hrouting.order ch)

/-- Two channels, one payload for each and one for nobody; the first channel is
removed while a datagram for it is in hand, and `Close` ends the rest. -/
def twoChannels : List Act :=
  [Act.addChannel 7, .addChannel 8, .receive (datagram 7 [1]), .hand, .work, .work,
    .receive (datagram 9 [2]), .hand, .work, .receive [3], .receive (datagram 8 [4]), .hand, .work,
    .work, .removeChannel 7, .receive (datagram 7 [5]), .takeClosing, .work, .work, .hand, .work,
    .consume 0, .removeChannel 7, .close, .takeClosing, .work, .closingEnds, .closingEnds,
    .range 1, .work]

theorem forwarder_routes_and_closes_twoChannels :
    ∃ s, machine.ReachableVia Fresh s ∧ s.appeared 0 = [[1]] ∧ s.appeared 1 = [[4]] ∧
      s.panicked = false ∧ ∀ ch < 2, ch ∈ s.closedChs := by
  have hrun : (machine.execWhile (fun s a => decide (Fresh s a)) {} twoChannels).any (fun s =>
      decide (s.made = 2 ∧ s.appeared 0 = [[1]] ∧ s.appeared 1 = [[4]] ∧ s.closed = true ∧
        s.worker = .finished)) = true := by
    decide
  obtain ⟨s, hs, hend⟩ := (Option.any_eq_true _ _).mp hrun
  obtain ⟨hmade, hfirst, hsecond, hclosed, hfinished⟩ := of_decide_eq_true hend
  have hreach : machine.ReachableVia Fresh s :=
    TSys.ReachableVia.execWhile (fun _ _ h => of_decide_eq_true h) (.init rfl) hs
  obtain ⟨-, -, hsound, -, hall⟩ := forwarder_routes_and_closes hreach
  exact ⟨s, hreach, hfirst, hsecond, hsound, hmade ▸ hall hclosed hfinished⟩

end Tsshd.Forward

import Tsshd.Forward.Channels

/-!
# Setting up UDP forwarding

A UDP connection is set up between the two sides in several messages, and every
message can fail. `handleDialUdpEvent` and the client's `dialUDP` make one on
behalf of the client; `handleListenUdpEvent` makes a session for every new peer
of a listener and announces it, the client's `AcceptUDP` asks for it, and
`handleAcceptUdpEvent` serves it (datagram.go, client.go).

On the way a procedure takes on *duties*: a channel that it added to its
forwarder is to be removed, a session that it took is to be served, and the
session's connection is to be closed. A duty ends when what it is about is gone
or is somebody else's: a session in `udpFwdPendingMap` waits there for the next
procedure. The invariant `Inv` says that whatever stands in a map is somebody's
duty or waits; a procedure that returns with duties left abandons them, which
the history variable `abandoned` records.

Both forwarders are those of `Tsshd.Forward.Channels`, with all their steps.
What a procedure receives and which of its calls fail is free.
-/

namespace Tsshd.Forward

/-! ## What a forwarder does with a channel -/

/-- The removal the worker is at. -/
def Worker.removal : Worker → Option UInt64
  | .delete _ id => some id
  | _ => none

/-- The removal of `id` was asked for and is not done yet. -/
def Sys.Removing (f : Sys) (id : UInt64) : Prop :=
  id ∈ f.closingCh ∨ f.worker.removal = some id

instance (f : Sys) (id : UInt64) : Decidable (f.Removing id) := inferInstanceAs (Decidable (_ ∨ _))

section

variable {f f' : Sys} {id : UInt64} {a : Act}

@[simp] theorem start_channelMap (f : Sys) : f.start.channelMap = f.channelMap := by
  unfold Sys.start
  split <;> rfl

@[simp] theorem start_closingCh (f : Sys) : f.start.closingCh = f.closingCh := by
  unfold Sys.start
  split <;> rfl

theorem Sys.Removing.start (h : f.Removing id) : f.start.Removing id := by
  refine h.imp (fun hmem => (start_closingCh f).symm ▸ hmem) ?_
  intro hworker
  unfold Sys.start
  split
  case isTrue habsent =>
    rw [habsent] at hworker
    cases hworker
  case isFalse => exact hworker

/-- While the worker is elsewhere, what is to be removed is in the queue. -/
theorem Sys.Removing.queued (h : f.Removing id) {w : Worker} (hworker : f.worker = w)
    (hw : w.removal = none) : id ∈ f.closingCh := by
  rcases h with hmem | hremoval
  · exact hmem
  · rw [hworker, hw] at hremoval
    cases hremoval

theorem offer_frame (f : Sys) (ch : Nat) (payload : List UInt8) :
    (f.offer ch payload).channelMap = f.channelMap ∧
      (f.offer ch payload).closingCh = f.closingCh ∧ (f.offer ch payload).closed = f.closed := by
  unfold Sys.offer
  split
  · exact ⟨rfl, rfl, rfl⟩
  · split <;> exact ⟨rfl, rfl, rfl⟩

/-- A turn of the worker adds no channel and forgets no removal. -/
theorem workStep_keeps (h : workStep f = some f') (hmem : id ∈ f'.channelMap) :
    f.closed = f'.closed ∧ id ∈ f.channelMap ∧ (f.Removing id → f'.Removing id) := by
  unfold workStep at h
  cases hworker : f.worker <;> rw [hworker] at h
  case load buf =>
    simp only at h
    split at h <;> cases h <;>
      exact ⟨rfl, hmem, fun hr => .inl (hr.queued hworker rfl)⟩
  case send ch payload =>
    cases h
    obtain ⟨hmap, hqueue, hclosed⟩ := offer_frame f ch payload
    rw [hmap] at hmem
    refine ⟨hclosed.symm, hmem, fun hr => .inl ?_⟩
    rw [hqueue]
    exact hr.queued hworker rfl
  case delete leaving removed =>
    -- The channel that is removed is not in the map any more.
    have hkeep : id ≠ removed → f.Removing id → id ∈ f.closingCh := by
      rintro hne (hqueued | hremoval)
      · exact hqueued
      · rw [hworker] at hremoval
        exact absurd (Option.some.inj hremoval).symm hne
    simp only at h
    split at h
    case h_1 hnone =>
      cases h
      have hne : id ≠ removed := by
        rintro rfl
        exact absurd hmem (AList.lookup_eq_none.mp hnone)
      exact ⟨rfl, hmem, fun hr => .inl (hkeep hne hr)⟩
    case h_2 ch hfound =>
      cases h
      obtain ⟨hne, hmem⟩ := AList.mem_erase.mp hmem
      exact ⟨rfl, hmem, fun hr => .inl (hkeep hne hr)⟩
  case close leaving ch =>
    cases h
    exact ⟨rfl, hmem, fun hr => .inl (hr.queued hworker rfl)⟩
  case closeAll chs =>
    cases chs with
    | nil =>
      cases h
      exact ⟨rfl, hmem, fun hr => .inl (hr.queued hworker rfl)⟩
    | cons ch rest => cases h
  all_goals cases h

/-- A channel in the map of an open forwarder was just added or was there
before, and no removal that was asked for is forgotten. -/
theorem next_keeps (h : next f a = some f') (hopen : f'.closed = false)
    (hmem : id ∈ f'.channelMap) :
    f.closed = false ∧
      (a = .addChannel id ∨ id ∈ f.channelMap ∧ (f.Removing id → f'.Removing id)) := by
  cases a with
  | addChannel added =>
    simp only [next] at h
    split at h
    · cases h
      exact ⟨hopen, .inr ⟨hmem, fun hr => hr⟩⟩
    · cases h
      refine ⟨by simpa using ‹¬f.closed = true›, ?_⟩
      have hinsert : id ∈ f.start.channelMap.insert added f.start.made := hmem
      rcases (AList.mem_insert _).mp hinsert with rfl | hold
      · exact .inl rfl
      · exact .inr ⟨start_channelMap f ▸ hold, fun hr => hr.start⟩
  | removeChannel removed =>
    simp only [next] at h
    split at h
    · cases h
      exact ⟨hopen, .inr ⟨hmem, fun hr => hr⟩⟩
    · split at h
      · cases h
        refine ⟨by simpa using ‹¬f.closed = true›, .inr ⟨start_channelMap f ▸ hmem, ?_⟩⟩
        intro hr
        exact hr.start.imp (fun h => List.mem_append_left _ h) fun h => h
      · cases h
  | close =>
    cases h
    exact absurd hopen.symm Bool.false_ne_true
  | receive buf =>
    simp only [next] at h
    split at h
    · cases h
      exact ⟨hopen, .inr ⟨hmem, fun hr => hr⟩⟩
    · cases h
  | receiveFails =>
    simp only [next] at h
    split at h
    · cases h
      exact ⟨hopen, .inr ⟨hmem, fun hr => hr⟩⟩
    · cases h
  | hand =>
    simp only [next] at h
    split at h
    case h_1 buf _ hworker =>
      cases h
      exact ⟨hopen, .inr ⟨hmem, fun hr =>
        .inl (hr.queued hworker rfl)⟩⟩
    case h_2 => cases h
  | noMore =>
    simp only [next] at h
    split at h
    case isTrue hends =>
      cases h
      exact ⟨hopen, .inr ⟨hmem, fun hr =>
        .inl (hr.queued hends.2 rfl)⟩⟩
    case isFalse => cases h
  | takeClosing =>
    -- The removal goes from the queue to the worker.
    have hmove : ∀ {removed rest leaving}, f.closingCh = removed :: rest →
        id ∈ f.closingCh →
        ({ f with closingCh := rest, worker := .delete leaving removed } : Sys).Removing id := by
      intro removed rest leaving hqueue hqueued
      rw [hqueue] at hqueued
      rcases List.mem_cons.mp hqueued with rfl | hrest
      · exact .inr rfl
      · exact .inl hrest
    simp only [next] at h
    split at h
    case h_1 removed rest hqueue hworker =>
      cases h
      exact ⟨hopen, .inr ⟨hmem, fun hr => hmove hqueue (hr.queued hworker rfl)⟩⟩
    case h_2 removed rest hqueue hworker =>
      cases h
      exact ⟨hopen, .inr ⟨hmem, fun hr => hmove hqueue (hr.queued hworker rfl)⟩⟩
    case h_3 => cases h
  | closingEnds =>
    simp only [next] at h
    split at h
    case isTrue hends =>
      split at h <;> cases h <;> exact absurd (hopen.symm.trans hends.2) Bool.false_ne_true
    case isFalse => cases h
  | range ch =>
    simp only [next] at h
    split at h
    case h_1 chs hworker =>
      split at h
      · cases h
        exact ⟨hopen, .inr ⟨hmem, fun hr =>
          .inl (hr.queued hworker rfl)⟩⟩
      · cases h
    case h_2 => cases h
  | work =>
    obtain ⟨hclosed, hold, hkeep⟩ := workStep_keeps h hmem
    exact ⟨hclosed.trans hopen, .inr ⟨hold, hkeep⟩⟩
  | consume ch =>
    simp only [next] at h
    split at h
    · cases h
    · cases h
      exact ⟨hopen, .inr ⟨hmem, fun hr => hr⟩⟩

theorem next_removeChannel (h : next f (.removeChannel id) = some f') :
    f'.closed = true ∨ f'.Removing id := by
  simp only [next] at h
  split at h
  · cases h
    exact .inl ‹_›
  · split at h
    · cases h
      exact .inr (.inl (List.mem_append_right _ List.mem_cons_self))
    · cases h

end

end Tsshd.Forward

namespace Tsshd.Forward.Setup

/-! ## Procedures and their duties -/

inductive Side
  | server
  | client
deriving DecidableEq, Repr

/-- `sessionKey`: the listener and the address of the peer, which may be nil. -/
structure Key where
  listener : UInt64
  peer : Option Nat
deriving DecidableEq, Repr

/-- `udpForwardSession`. Sessions are numbered in the order of creation. -/
structure Session where
  key : Key := ⟨0, none⟩
  /-- `forwardConn.channelID`. -/
  id : UInt64 := 0
  /-- `forwardConn.closed`. -/
  closed : Bool := false
  pendingFlag : Bool := true
  pendingBuf : List (List UInt8) := []
deriving DecidableEq, Repr

/-- What a procedure has taken on. -/
inductive Duty
  /-- A session is to be served, or to be taken out of `udpFwdSessionMap`. -/
  | serve (ref : Nat)
  /-- The connection of a session is to be closed. -/
  | conn (ref : Nat)
  /-- A channel is to be removed from the forwarder. -/
  | channel (side : Side) (id : UInt64)
deriving DecidableEq, Repr

/-- Where a procedure is. `back` is the listener to go on with, if any. -/
inductive Proc
  | absent
  | returned
  -- handleDialUdpEvent
  | dialing
  | responding (id : UInt64)
  | awaitingReady (id : UInt64)
  | forwarding (id : UInt64)
  -- handleListenUdpEvent
  | opening
  | listening (listener : UInt64)
  | writing (listener : UInt64) (ref : Nat) (data : List UInt8) (found : Bool)
  | storing (listener : UInt64) (ref : Nat)
  | announcing (listener : UInt64) (ref : Nat)
  | withdrawing (ref : Nat) (back : Option UInt64)
  -- handleAcceptUdpEvent
  | accepting
  | acking (ref : Nat)
  | serving (ref : Nat)
  -- releaseUdpForwardSession and the Close of a connection
  | releasing (ref : Nat) (back : Option UInt64)
  | closing (ref : Nat) (back : Option UInt64)
  | removing (side : Side) (id : UInt64) (back : Option UInt64)
  -- the client's dialUDP
  | clientDialing
  | sendingReady (id : UInt64)
  -- AcceptUDP
  | clientAccepting
  | requesting (id : UInt64)
  | awaitingAck (id : UInt64)
  /-- The caller of `dialUDP` or `AcceptUDP` has its connection. -/
  | connected (id : UInt64)
deriving DecidableEq, Repr

def Proc.duties : Proc → List Duty
  | .responding id | .awaitingReady id | .forwarding id => [.channel .server id]
  | .writing _ ref _ false | .storing _ ref => [.serve ref, .conn ref]
  | .acking ref | .serving ref | .releasing ref _ => [.serve ref, .conn ref]
  | .closing ref _ => [.conn ref]
  | .removing side id _ => [.channel side id]
  | .sendingReady id | .requesting id | .awaitingAck id | .connected id => [.channel .client id]
  | _ => []

/-- The session a procedure is at. -/
def Proc.ref : Proc → Option Nat
  | .writing _ ref _ _ | .storing _ ref | .announcing _ ref | .withdrawing ref _ | .acking ref
  | .serving ref | .releasing ref _ | .closing ref _ => some ref
  | _ => none

/-- Back to the listener's loop, or out. -/
def Proc.after : Option UInt64 → Proc
  | none => .returned
  | some listener => .listening listener

/-! ## The machine -/

structure Sys where
  fwd : Side → Forward.Sys := fun _ => {}
  nextUdpFwdChannelID : UInt64 := 0
  nextUdpFwdListenerID : UInt64 := 0
  udpFwdSessionMap : AList (fun _ : Key => Nat) := ∅
  udpFwdPendingMap : AList (fun _ : UInt64 => Nat) := ∅
  sessions : Nat → Session := fun _ => {}
  made : Nat := 0
  procs : Nat → Proc := fun _ => .absent
  /-- History: the duties of procedures that returned with them. -/
  abandoned : List Duty := []

/-- How the next call of a procedure ends. -/
inductive Event
  | ok
  | fails
  /-- Fails with an error of a closed connection. -/
  | failsClosed
  /-- A packet of a peer comes in. -/
  | packet (peer : Option Nat) (data : List UInt8)
  /-- A message with an id comes in. -/
  | message (id : UInt64)
deriving DecidableEq, Repr

inductive Act
  | call (p : Nat) (proc : Proc)
  | step (p : Nat) (ev : Event)
  /-- A step of a forwarder. -/
  | forwarder (side : Side) (a : Forward.Act)
deriving DecidableEq, Repr

def Sys.goto (s : Sys) (p : Nat) (proc : Proc) : Sys :=
  { s with procs := Function.update s.procs p proc }

/-- A return. -/
def Sys.leave (s : Sys) (p : Nat) : Sys :=
  { s with
    procs := Function.update s.procs p .returned
    abandoned := (s.procs p).duties ++ s.abandoned }

/-- A call of the forwarder, or a step of its own. -/
def Sys.forward (s : Sys) (side : Side) (a : Forward.Act) : Option Sys :=
  (Forward.next (s.fwd side) a).map fun f => { s with fwd := Function.update s.fwd side f }

/-- `udpForwardSession.writePacket`. -/
def Session.writePacket (x : Session) (data : List UInt8) : Session :=
  if x.pendingFlag then
    if 1024 ≤ x.pendingBuf.length then x else { x with pendingBuf := x.pendingBuf ++ [data] }
  else x

/-- `udpForwardSession.attachStream`. -/
def Session.attachStream (x : Session) : Session := { x with pendingFlag := false, pendingBuf := [] }

theorem Session.writePacket_frame (x : Session) (data : List UInt8) :
    (x.writePacket data).key = x.key ∧ (x.writePacket data).id = x.id ∧
      (x.writePacket data).closed = x.closed := by
  unfold Session.writePacket
  split
  · split <;> exact ⟨rfl, rfl, rfl⟩
  · exact ⟨rfl, rfl, rfl⟩

/-- The new session of `acquireUdpForwardSession`. -/
def Sys.make (s : Sys) (key : Key) : Sys :=
  { s with
    nextUdpFwdChannelID := s.nextUdpFwdChannelID + 1
    sessions := Function.update s.sessions s.made { key, id := s.nextUdpFwdChannelID + 1 }
    made := s.made + 1 }

/-- `acquireUdpForwardSession`: the session, and whether it was there. -/
def acquireUdpForwardSession (s : Sys) (key : Key) : Option (Sys × Nat × Bool) :=
  match s.udpFwdSessionMap.lookup key with
  | some ref => some (s, ref, true)
  | none =>
    ((s.make key).forward .server (.addChannel (s.nextUdpFwdChannelID + 1))).map fun t =>
      ({ t with udpFwdSessionMap := t.udpFwdSessionMap.insert key s.made }, s.made, false)

/-- `addUdpFwdPendingSession`. -/
def Sys.addUdpFwdPendingSession (s : Sys) (ref : Nat) : Sys :=
  { s with udpFwdPendingMap := s.udpFwdPendingMap.insert (s.sessions ref).id ref }

/-- What `takeUdpFwdPendingSession` leaves. -/
def Sys.takeUdpFwdPendingSession (s : Sys) (id : UInt64) : Sys :=
  { s with udpFwdPendingMap := s.udpFwdPendingMap.erase id }

def Sys.setSession (s : Sys) (ref : Nat) (x : Session) : Sys :=
  { s with sessions := Function.update s.sessions ref x }

/-- One step of procedure `p`. -/
def stepProc (s : Sys) (p : Nat) (ev : Event) : Option Sys :=
  match s.procs p, ev with
  -- Everything in front of newPacketConn: the message, the configuration, the dial.
  | .dialing, .fails => some (s.leave p)
  | .dialing, .ok =>
    let id := s.nextUdpFwdChannelID + 1
    (s.forward .server (.addChannel id)).map fun t =>
      ({ t with nextUdpFwdChannelID := id } : Sys).goto p (.responding id)
  | .responding _, .fails => some (s.leave p)
  | .responding id, .ok => some (s.goto p (.awaitingReady id))
  | .awaitingReady _, .fails => some (s.leave p)
  | .awaitingReady id, .ok => some (s.goto p (.forwarding id))
  | .forwarding id, .ok => some (s.goto p (.removing .server id none))
  -- The listener.
  | .opening, .fails => some (s.leave p)
  | .opening, .ok =>
    let listener := s.nextUdpFwdListenerID + 1
    some (({ s with nextUdpFwdListenerID := listener } : Sys).goto p (.listening listener))
  | .listening _, .fails => some (s.leave p)
  | .listening listener, .packet peer data =>
    (acquireUdpForwardSession s ⟨listener, peer⟩).map fun (t, ref, found) =>
      t.goto p (.writing listener ref data found)
  | .writing listener ref data found, .ok =>
    some ((s.setSession ref ((s.sessions ref).writePacket data)).goto p
      (if found then .listening listener else .storing listener ref))
  | .storing listener ref, .ok =>
    some ((s.addUdpFwdPendingSession ref).goto p (.announcing listener ref))
  | .announcing listener _, .ok => some (s.goto p (.listening listener))
  | .announcing listener ref, .fails => some (s.goto p (.withdrawing ref (some listener)))
  | .announcing _ ref, .failsClosed => some (s.goto p (.withdrawing ref none))
  | .withdrawing ref back, .ok =>
    some ((s.takeUdpFwdPendingSession (s.sessions ref).id).goto p (.releasing ref back))
  -- The handler of an accepted session.
  | .accepting, .fails => some (s.leave p)
  | .accepting, .message id =>
    match s.udpFwdPendingMap.lookup id with
    | none => some (s.leave p)
    | some ref => some ((s.takeUdpFwdPendingSession id).goto p (.acking ref))
  | .acking _, .fails => some (s.leave p)
  | .acking ref, .ok =>
    some ((s.setSession ref (s.sessions ref).attachStream).goto p (.serving ref))
  | .serving ref, .ok => some (s.goto p (.releasing ref none))
  -- releaseUdpForwardSession: out of the map, and then Close.
  | .releasing ref back, .ok =>
    some (({ s with udpFwdSessionMap := s.udpFwdSessionMap.erase (s.sessions ref).key } : Sys).goto
      p (.closing ref back))
  | .closing ref back, .ok =>
    if (s.sessions ref).closed then some (s.goto p (.after back))
    else
      some ((s.setSession ref { s.sessions ref with closed := true }).goto p
        (.removing .server (s.sessions ref).id back))
  | .removing side id back, .ok =>
    (s.forward side (.removeChannel id)).map fun t => t.goto p (.after back)
  -- The client.
  | .clientDialing, .fails => some (s.leave p)
  | .clientDialing, .message id =>
    (s.forward .client (.addChannel id)).map fun t => t.goto p (.sendingReady id)
  | .sendingReady id, .fails => some (s.goto p (.removing .client id none))
  | .sendingReady id, .ok => some (s.goto p (.connected id))
  | .clientAccepting, .fails => some (s.leave p)
  | .clientAccepting, .message id =>
    (s.forward .client (.addChannel id)).map fun t => t.goto p (.requesting id)
  | .requesting _, .fails => some (s.leave p)
  | .requesting id, .ok => some (s.goto p (.awaitingAck id))
  | .awaitingAck _, .fails => some (s.leave p)
  | .awaitingAck id, .ok => some (s.goto p (.connected id))
  | .connected id, .ok => some (s.goto p (.removing .client id none))
  | _, _ => none

/-- Where a procedure can start. -/
def Proc.entry : Proc → Bool
  | .dialing | .opening | .accepting | .clientDialing | .clientAccepting => true
  | _ => false

theorem Proc.ref_entry {proc : Proc} (h : proc.entry = true) : proc.ref = none := by
  cases proc <;> first | rfl | exact absurd h Bool.false_ne_true

/-- The exits that return without undoing what was done: the failed response or
ready message in `handleDialUdpEvent`, the failed acknowledgement in
`handleAcceptUdpEvent`, and the failed request or reply in `AcceptUDP`. -/
def Proc.careless : Proc → Bool
  | .responding _ | .awaitingReady _ | .acking _ | .requesting _ | .awaitingAck _ => true
  | _ => false

/-- The forwarder's channels are added and removed by the procedures only. -/
def ownStep : Forward.Act → Bool
  | .addChannel _ | .removeChannel _ => false
  | _ => true

def next (s : Sys) : Act → Option Sys
  | .call p proc => if s.procs p = .absent ∧ proc.entry = true then some (s.goto p proc) else none
  | .step p ev => stepProc s p ev
  | .forwarder side a => if ownStep a then s.forward side a else none

def machine : TSys Sys Act where
  init s := s = {}
  next := next

/-- The counter of ids has not come round. -/
def Unwrapped (s : Sys) : Act → Prop := fun _ => s.nextUdpFwdChannelID.toNat + 1 < UInt64.size

/-! ## What stands in the maps is somebody's duty -/

variable {s : Sys}

/-- The session waits for `AcceptUDP`. -/
def Sys.Pending (s : Sys) (ref : Nat) : Prop :=
  s.udpFwdPendingMap.lookup (s.sessions ref).id = some ref

/-- A procedure has the duty, or had it when it returned. -/
def Sys.Claimed (s : Sys) (d : Duty) : Prop :=
  (∃ p, d ∈ (s.procs p).duties) ∨ d ∈ s.abandoned

/-- There is a reason for the channel: it is somebody's duty itself, or it is the
channel of a session that waits or whose connection is somebody's duty. -/
def Sys.Backed (s : Sys) (side : Side) (id : UInt64) : Prop :=
  s.Claimed (.channel side id) ∨
    (side = .server ∧ ∃ ref < s.made, (s.sessions ref).id = id ∧ (s.sessions ref).closed = false ∧
      (s.Pending ref ∨ s.Claimed (.conn ref)))

/-- There is nothing left to do. -/
def Sys.Done (s : Sys) : Duty → Prop
  | .serve ref => s.Pending ref ∨ ∀ key, s.udpFwdSessionMap.lookup key ≠ some ref
  | .conn ref => s.Pending ref ∨ (s.sessions ref).closed = true
  | .channel side id => (s.fwd side).closed = true ∨ (s.fwd side).Removing id

structure Inv (s : Sys) : Prop where
  counted : ∀ ref < s.made, (s.sessions ref).id.toNat ≤ s.nextUdpFwdChannelID.toNat
  unique : ∀ ref < s.made, ∀ ref' < s.made, (s.sessions ref).id = (s.sessions ref').id → ref = ref'
  pending : ∀ id ref, s.udpFwdPendingMap.lookup id = some ref →
    ref < s.made ∧ (s.sessions ref).id = id
  entered : ∀ key ref, s.udpFwdSessionMap.lookup key = some ref →
    ref < s.made ∧ (s.sessions ref).key = key
  known : ∀ p ref, (s.procs p).ref = some ref → ref < s.made
  served : ∀ key ref, s.udpFwdSessionMap.lookup key = some ref →
    s.Pending ref ∨ s.Claimed (.serve ref)
  held : ∀ side id, (s.fwd side).closed = false → id ∈ (s.fwd side).channelMap →
    s.Backed side id ∨ (s.fwd side).Removing id

theorem Sys.Backed.imp {t : Sys} {side : Side} {id : UInt64} (h : s.Backed side id)
    (hchannel : s.Claimed (.channel side id) → t.Backed side id)
    (hsession : ∀ ref < s.made, (s.sessions ref).id = id → (s.sessions ref).closed = false →
      s.Pending ref ∨ s.Claimed (.conn ref) → side = .server → t.Backed side id) :
    t.Backed side id := by
  rcases h with hclaimed | ⟨hside, ref, hlt, hid, hclosed, hwait⟩
  · exact hchannel hclaimed
  · exact hsession ref hlt hid hclosed hwait hside

/-- A procedure goes on. What it gives up is done, or is the connection of a
session whose channel it is going to remove. -/
theorem Inv.goto (h : Inv s) {p : Nat} {proc : Proc}
    (hdone : ∀ d ∈ (s.procs p).duties, d ∈ proc.duties ∨ s.Done d ∨
      ∃ ref, d = .conn ref ∧ .channel .server (s.sessions ref).id ∈ proc.duties)
    (href : ∀ ref, proc.ref = some ref → ref < s.made) : Inv (s.goto p proc) := by
  have hhas : ∀ d ∈ proc.duties, (s.goto p proc).Claimed d := by
    intro d hd
    refine .inl ⟨p, ?_⟩
    show d ∈ (Function.update s.procs p proc p).duties
    rw [Function.update_self]
    exact hd
  have hclaimed : ∀ d, s.Claimed d → (s.goto p proc).Claimed d ∨ s.Done d ∨
      ∃ ref, d = .conn ref ∧ .channel .server (s.sessions ref).id ∈ proc.duties := by
    rintro d (⟨q, hd⟩ | hd)
    · by_cases hq : q = p
      · subst hq
        exact (hdone d hd).imp (hhas d) fun h => h
      · refine .inl (.inl ⟨q, ?_⟩)
        show d ∈ (Function.update s.procs p proc q).duties
        rw [Function.update_of_ne hq]
        exact hd
    · exact .inl (.inr hd)
  refine ⟨h.counted, h.unique, h.pending, h.entered, ?_, ?_, ?_⟩
  · intro q ref hq
    have hq' : (Function.update s.procs p proc q).ref = some ref := hq
    by_cases hp : q = p
    · subst hp
      rw [Function.update_self] at hq'
      exact href ref hq'
    · rw [Function.update_of_ne hp] at hq'
      exact h.known q ref hq'
  · intro key ref hkey
    rcases h.served key ref hkey with hpending | hserve
    · exact .inl hpending
    · rcases hclaimed _ hserve with hserve | (hpending | hgone) | ⟨_, hconn, _⟩
      · exact .inr hserve
      · exact .inl hpending
      · exact absurd hkey (hgone key)
      · cases hconn
  · intro side id hopen hmem
    rcases h.held side id hopen hmem with (hchannel | ⟨hside, ref, hlt, hid, hfresh, hwait⟩) | hremoving
    · rcases hclaimed _ hchannel with hchannel | (hclosed | hremoving) | ⟨_, hconn, _⟩
      · exact .inl (.inl hchannel)
      · exact absurd (hopen.symm.trans hclosed) Bool.false_ne_true
      · exact .inr hremoving
      · cases hconn
    · rcases hwait with hpending | hconn
      · exact .inl (.inr ⟨hside, ref, hlt, hid, hfresh, .inl hpending⟩)
      · rcases hclaimed _ hconn with hconn | (hpending | hclosed) | ⟨_, hconn, hchannel⟩
        · exact .inl (.inr ⟨hside, ref, hlt, hid, hfresh, .inr hconn⟩)
        · exact .inl (.inr ⟨hside, ref, hlt, hid, hfresh, .inl hpending⟩)
        · exact absurd (hfresh.symm.trans hclosed) Bool.false_ne_true
        · cases hconn
          subst hside hid
          exact .inl (.inl (hhas _ hchannel))
    · exact .inr hremoving

/-- A procedure returns, and what it had is abandoned. -/
theorem Inv.leave (h : Inv s) (p : Nat) : Inv (s.leave p) := by
  have hclaimed : ∀ d, s.Claimed d → (s.leave p).Claimed d := by
    rintro d (⟨q, hd⟩ | hd)
    · by_cases hq : q = p
      · subst hq
        exact .inr (List.mem_append_left _ hd)
      · refine .inl ⟨q, ?_⟩
        show d ∈ (Function.update s.procs p .returned q).duties
        rw [Function.update_of_ne hq]
        exact hd
    · exact .inr (List.mem_append_right _ hd)
  refine ⟨h.counted, h.unique, h.pending, h.entered, ?_, ?_, ?_⟩
  · intro q ref hq
    have hq' : (Function.update s.procs p .returned q).ref = some ref := hq
    by_cases hp : q = p
    · subst hp
      rw [Function.update_self] at hq'
      cases hq'
    · rw [Function.update_of_ne hp] at hq'
      exact h.known q ref hq'
  · intro key ref hkey
    exact (h.served key ref hkey).imp (fun h => h) (hclaimed _)
  · intro side id hopen hmem
    refine (h.held side id hopen hmem).imp (fun hbacked => ?_) fun h => h
    refine hbacked.imp (fun h => .inl (hclaimed _ h)) fun ref hlt hid hfresh hwait hside => ?_
    exact .inr ⟨hside, ref, hlt, hid, hfresh, hwait.imp (fun h => h) (hclaimed _)⟩

/-- A forwarder takes a step. A channel that is added has its reason. -/
theorem Inv.forward (h : Inv s) {side : Side} {a : Forward.Act} {t : Sys}
    (hadd : ∀ id, a = .addChannel id → s.Backed side id) (hstep : s.forward side a = some t) :
    Inv t := by
  obtain ⟨f, hnext, rfl⟩ := Option.map_eq_some_iff.mp hstep
  refine ⟨h.counted, h.unique, h.pending, h.entered, h.known, h.served, ?_⟩
  intro side' id hopen hmem
  show s.Backed side' id ∨ (Function.update s.fwd side f side').Removing id
  have hopen' : (Function.update s.fwd side f side').closed = false := hopen
  have hmem' : id ∈ (Function.update s.fwd side f side').channelMap := hmem
  by_cases hside : side' = side
  · subst hside
    rw [Function.update_self] at hopen' hmem' ⊢
    obtain ⟨hwas, hadded | ⟨hold, hkeep⟩⟩ := next_keeps hnext hopen' hmem'
    · exact .inl (hadd id hadded)
    · exact (h.held side' id hwas hold).imp (fun h => h) hkeep
  · rw [Function.update_of_ne hside] at hopen' hmem' ⊢
    exact h.held side' id hopen' hmem'

/-- An id is drawn. -/
theorem Inv.count (h : Inv s) {n : UInt64} (hn : s.nextUdpFwdChannelID.toNat ≤ n.toNat) :
    Inv { s with nextUdpFwdChannelID := n } :=
  ⟨fun ref hlt => Nat.le_trans (h.counted ref hlt) hn, h.unique, h.pending, h.entered, h.known,
    h.served, h.held⟩

/-- A session's packets, or its `closed` with the channel being somebody's duty. -/
theorem Inv.setSession (h : Inv s) (ref : Nat) {x : Session} (hkey : x.key = (s.sessions ref).key)
    (hid : x.id = (s.sessions ref).id)
    (hclosed : x.closed = (s.sessions ref).closed ∨
      s.Claimed (.channel .server (s.sessions ref).id)) : Inv (s.setSession ref x) := by
  have hkeys : ∀ r, (Function.update s.sessions ref x r).key = (s.sessions r).key := by
    intro r
    by_cases hr : r = ref
    · subst hr
      rw [Function.update_self, hkey]
    · rw [Function.update_of_ne hr]
  have hids : ∀ r, (Function.update s.sessions ref x r).id = (s.sessions r).id := by
    intro r
    by_cases hr : r = ref
    · subst hr
      rw [Function.update_self, hid]
    · rw [Function.update_of_ne hr]
  have hpending : ∀ r, (s.setSession ref x).Pending r ↔ s.Pending r := by
    intro r
    show s.udpFwdPendingMap.lookup (Function.update s.sessions ref x r).id = _ ↔ _
    rw [hids]
    rfl
  refine ⟨?_, ?_, ?_, ?_, h.known, ?_, ?_⟩
  · intro r hlt
    show (Function.update s.sessions ref x r).id.toNat ≤ _
    rw [hids]
    exact h.counted r hlt
  · intro r hr r' hr' heq
    have heq' : (Function.update s.sessions ref x r).id = (Function.update s.sessions ref x r').id :=
      heq
    rw [hids, hids] at heq'
    exact h.unique r hr r' hr' heq'
  · intro id r hlookup
    show _ ∧ (Function.update s.sessions ref x r).id = id
    rw [hids]
    exact h.pending id r hlookup
  · intro key r hlookup
    show _ ∧ (Function.update s.sessions ref x r).key = key
    rw [hkeys]
    exact h.entered key r hlookup
  · intro key r hlookup
    rw [hpending]
    exact h.served key r hlookup
  · intro side id hopen hmem
    refine (h.held side id hopen hmem).imp (fun hbacked => ?_) fun h => h
    refine hbacked.imp (fun h => .inl h) fun r hlt hr hfresh hwait hside => ?_
    by_cases hcase : (Function.update s.sessions ref x r).closed = false
    · exact .inr ⟨hside, r, hlt, (hids r).trans hr, hcase, hwait.imp (hpending r).mpr fun h => h⟩
    · -- Only `ref` can have been closed by this, and then its channel is a duty.
      by_cases hrr : r = ref
      · subst hrr
        rw [Function.update_self] at hcase
        rcases hclosed with hsame | hchannel
        · exact absurd (hsame.trans hfresh) hcase
        · subst hside hr
          exact .inl hchannel
      · rw [Function.update_of_ne hrr] at hcase
        exact absurd hfresh hcase

/-- A new session, in no map yet. -/
theorem Inv.make (h : Inv s) (key : Key)
    (hwrap : s.nextUdpFwdChannelID.toNat + 1 < UInt64.size) : Inv (s.make key) := by
  have hnew : (s.nextUdpFwdChannelID + 1).toNat = s.nextUdpFwdChannelID.toNat + 1 := by
    rw [UInt64.toNat_add]
    exact Nat.mod_eq_of_lt hwrap
  have hold : ∀ ref < s.made, (s.make key).sessions ref = s.sessions ref :=
    fun ref hlt => Function.update_of_ne (Nat.ne_of_lt hlt) _ _
  have hmade : (s.make key).sessions s.made = { key, id := s.nextUdpFwdChannelID + 1 } :=
    Function.update_self ..
  have hpending : ∀ ref < s.made, s.Pending ref → (s.make key).Pending ref := by
    intro ref hlt hp
    show s.udpFwdPendingMap.lookup ((s.make key).sessions ref).id = some ref
    rw [hold ref hlt]
    exact hp
  have hcases : ∀ ref, ref < s.made + 1 → ref < s.made ∨ ref = s.made := by
    intro ref hlt
    omega
  have hfresh : ∀ ref < s.made, (s.sessions ref).id ≠ s.nextUdpFwdChannelID + 1 := by
    intro ref hlt heq
    have hle := h.counted ref hlt
    rw [heq, hnew] at hle
    omega
  refine ⟨?_, ?_, ?_, ?_, ?_, ?_, ?_⟩
  · intro ref hlt
    show _ ≤ (s.nextUdpFwdChannelID + 1).toNat
    rcases hcases ref hlt with hlt | rfl
    · rw [hold ref hlt, hnew]
      exact Nat.le_succ_of_le (h.counted ref hlt)
    · rw [hmade]
  · intro ref hlt ref' hlt' heq
    rcases hcases ref hlt with hlt | rfl <;> rcases hcases ref' hlt' with hlt' | rfl
    · rw [hold ref hlt, hold ref' hlt'] at heq
      exact h.unique ref hlt ref' hlt' heq
    · rw [hold ref hlt, hmade] at heq
      exact absurd heq (hfresh ref hlt)
    · rw [hold ref' hlt', hmade] at heq
      exact absurd heq.symm (hfresh ref' hlt')
    · rfl
  · intro id ref hlookup
    obtain ⟨hlt, hid⟩ := h.pending id ref hlookup
    rw [hold ref hlt]
    exact ⟨Nat.lt_succ_of_lt hlt, hid⟩
  · intro key' ref hlookup
    obtain ⟨hlt, hkey⟩ := h.entered key' ref hlookup
    rw [hold ref hlt]
    exact ⟨Nat.lt_succ_of_lt hlt, hkey⟩
  · intro p ref hp
    exact Nat.lt_succ_of_lt (h.known p ref hp)
  · intro key' ref hlookup
    have hlt := (h.entered key' ref hlookup).1
    exact (h.served key' ref hlookup).imp (hpending ref hlt) fun h => h
  · intro side id hopen hmem
    refine (h.held side id hopen hmem).imp (fun hbacked => ?_) fun h => h
    refine hbacked.imp (fun h => .inl h) fun ref hlt hid hclosed hwait hside => ?_
    refine .inr ⟨hside, ref, Nat.lt_succ_of_lt hlt, ?_, ?_, hwait.imp (hpending ref hlt) fun h => h⟩
    · rw [hold ref hlt]
      exact hid
    · rw [hold ref hlt]
      exact hclosed

/-- A session that is somebody's duty comes into the map. -/
theorem Inv.enter (h : Inv s) {ref : Nat} {key : Key} (hlt : ref < s.made)
    (hkey : (s.sessions ref).key = key) (hserve : s.Claimed (.serve ref)) :
    Inv { s with udpFwdSessionMap := s.udpFwdSessionMap.insert key ref } := by
  subst hkey
  have hcases : ∀ key r, (s.udpFwdSessionMap.insert (s.sessions ref).key ref).lookup key = some r →
      key = (s.sessions ref).key ∧ r = ref ∨ s.udpFwdSessionMap.lookup key = some r := by
    intro key r hlookup
    by_cases hkey : key = (s.sessions ref).key
    · subst hkey
      rw [AList.lookup_insert] at hlookup
      exact .inl ⟨rfl, (Option.some.inj hlookup).symm⟩
    · rw [AList.lookup_insert_ne hkey] at hlookup
      exact .inr hlookup
  refine ⟨h.counted, h.unique, h.pending, ?_, h.known, ?_, h.held⟩
  · intro key r hlookup
    rcases hcases key r hlookup with ⟨rfl, rfl⟩ | hlookup
    · exact ⟨hlt, rfl⟩
    · exact h.entered key r hlookup
  · intro key r hlookup
    rcases hcases key r hlookup with ⟨rfl, rfl⟩ | hlookup
    · exact .inr hserve
    · exact h.served key r hlookup

/-- A session goes out of the map. -/
theorem Inv.release (h : Inv s) (key : Key) :
    Inv { s with udpFwdSessionMap := s.udpFwdSessionMap.erase key } := by
  have hold : ∀ key' r, (s.udpFwdSessionMap.erase key).lookup key' = some r →
      s.udpFwdSessionMap.lookup key' = some r := by
    intro key' r hlookup
    by_cases hkey : key' = key
    · subst hkey
      rw [AList.lookup_erase] at hlookup
      cases hlookup
    · rw [AList.lookup_erase_ne hkey] at hlookup
      exact hlookup
  exact ⟨h.counted, h.unique, h.pending, fun key' r hl => h.entered key' r (hold key' r hl), h.known,
    fun key' r hl => h.served key' r (hold key' r hl), h.held⟩

/-- A session starts to wait. No other session waits under its id. -/
theorem Inv.addUdpFwdPendingSession (h : Inv s) {ref : Nat} (hlt : ref < s.made) :
    Inv (s.addUdpFwdPendingSession ref) := by
  have hpending : ∀ r, s.Pending r → (s.addUdpFwdPendingSession ref).Pending r := by
    intro r hp
    obtain ⟨hr, -⟩ := h.pending _ r hp
    show (s.udpFwdPendingMap.insert (s.sessions ref).id ref).lookup (s.sessions r).id = some r
    by_cases hid : (s.sessions r).id = (s.sessions ref).id
    · rw [hid, AList.lookup_insert, h.unique r hr ref hlt hid]
    · rw [AList.lookup_insert_ne hid]
      exact hp
  refine ⟨h.counted, h.unique, ?_, h.entered, h.known, ?_, ?_⟩
  · intro id r hlookup
    have hlookup' : (s.udpFwdPendingMap.insert (s.sessions ref).id ref).lookup id = some r := hlookup
    by_cases hid : id = (s.sessions ref).id
    · subst hid
      rw [AList.lookup_insert] at hlookup'
      cases hlookup'
      exact ⟨hlt, rfl⟩
    · rw [AList.lookup_insert_ne hid] at hlookup'
      exact h.pending id r hlookup'
  · intro key r hlookup
    exact (h.served key r hlookup).imp (hpending r) fun h => h
  · intro side id hopen hmem
    refine (h.held side id hopen hmem).imp (fun hbacked => ?_) fun h => h
    refine hbacked.imp (fun h => .inl h) fun r hr hid hclosed hwait hside => ?_
    exact .inr ⟨hside, r, hr, hid, hclosed, hwait.imp (hpending r) fun h => h⟩

/-- A session stops to wait, and is somebody's duty already. -/
theorem Inv.takeUdpFwdPendingSession (h : Inv s) (id : UInt64)
    (hclaimed : ∀ ref, s.udpFwdPendingMap.lookup id = some ref →
      s.Claimed (.serve ref) ∧ s.Claimed (.conn ref)) : Inv (s.takeUdpFwdPendingSession id) := by
  have hpending : ∀ r, s.Pending r →
      (s.takeUdpFwdPendingSession id).Pending r ∨ s.Claimed (.serve r) ∧ s.Claimed (.conn r) := by
    intro r hp
    by_cases hid : (s.sessions r).id = id
    · subst hid
      exact .inr (hclaimed r hp)
    · exact .inl ((AList.lookup_erase_ne hid).trans hp)
  refine ⟨h.counted, h.unique, ?_, h.entered, h.known, ?_, ?_⟩
  · intro id' r hlookup
    have hlookup' : (s.udpFwdPendingMap.erase id).lookup id' = some r := hlookup
    by_cases hid : id' = id
    · subst hid
      rw [AList.lookup_erase] at hlookup'
      cases hlookup'
    · rw [AList.lookup_erase_ne hid] at hlookup'
      exact h.pending id' r hlookup'
  · intro key r hlookup
    rcases h.served key r hlookup with hp | hserve
    · exact (hpending r hp).imp (fun h => h) And.left
    · exact .inr hserve
  · intro side id' hopen hmem
    refine (h.held side id' hopen hmem).imp (fun hbacked => ?_) fun h => h
    refine hbacked.imp (fun h => .inl h) fun r hr hid hclosed hwait hside => ?_
    refine .inr ⟨hside, r, hr, hid, hclosed, ?_⟩
    rcases hwait with hp | hconn
    · exact (hpending r hp).imp (fun h => h) And.right
    · exact .inr hconn

/-! ## The procedures keep the invariant -/

variable {s' : Sys} {p : Nat} {ev : Event}

theorem forward_goto {side : Side} {a : Forward.Act} {t : Sys} (h : s.forward side a = some t)
    (p : Nat) (proc : Proc) : (s.goto p proc).forward side a = some (t.goto p proc) := by
  obtain ⟨f, hnext, rfl⟩ := Option.map_eq_some_iff.mp h
  exact Option.map_eq_some_iff.mpr ⟨f, hnext, rfl⟩

theorem claimed_goto (s : Sys) (p : Nat) {proc : Proc} {d : Duty} (hd : d ∈ proc.duties) :
    (s.goto p proc).Claimed d := by
  refine .inl ⟨p, ?_⟩
  show d ∈ (Function.update s.procs p proc p).duties
  rw [Function.update_self]
  exact hd

/-- A procedure that gives up nothing. -/
theorem Inv.goto_keep (h : Inv s) {proc : Proc} (hkeep : (s.procs p).duties ⊆ proc.duties)
    (href : ∀ ref, proc.ref = some ref → ref < s.made) : Inv (s.goto p proc) :=
  h.goto (fun _ hd => .inl (hkeep hd)) href

/-- A procedure whose duties stay the same. -/
theorem Inv.goto_same (h : Inv s) {old proc : Proc} (hproc : s.procs p = old)
    (hduties : proc.duties = old.duties) (href : ∀ ref, proc.ref = some ref → old.ref = some ref) :
    Inv (s.goto p proc) := by
  subst hproc
  refine h.goto_keep ?_ fun ref hr => h.known p ref (href ref hr)
  rw [hduties]
  exact List.Subset.refl _

/-- A channel is added and is the duty of the procedure that adds it. -/
theorem Inv.addChannel (h : Inv s) {side : Side} {id : UInt64} {proc : Proc} {t : Sys}
    (hnone : (s.procs p).duties = []) (hduty : .channel side id ∈ proc.duties)
    (href : proc.ref = none) (hstep : s.forward side (.addChannel id) = some t) :
    Inv (t.goto p proc) := by
  have hgoto : Inv (s.goto p proc) := by
    refine h.goto_keep ?_ ?_
    · rw [hnone]
      exact List.nil_subset _
    · rw [href]
      rintro ref ⟨⟩
  refine hgoto.forward ?_ (forward_goto hstep p proc)
  rintro _ ⟨⟩
  exact .inl (claimed_goto s p hduty)

theorem Inv.acquire (h : Inv s) {listener : UInt64} {peer : Option Nat} {data : List UInt8}
    {t : Sys} {ref : Nat} {found : Bool} (hwrap : s.nextUdpFwdChannelID.toNat + 1 < UInt64.size)
    (hnone : (s.procs p).duties = [])
    (hstep : acquireUdpForwardSession s ⟨listener, peer⟩ = some (t, ref, found)) :
    Inv (t.goto p (.writing listener ref data found)) := by
  unfold acquireUdpForwardSession at hstep
  split at hstep
  case h_1 old hlookup =>
    cases hstep
    refine h.goto_keep ?_ ?_
    · rw [hnone]
      exact List.nil_subset _
    · rintro _ ⟨⟩
      exact (h.entered _ _ hlookup).1
  case h_2 hlookup =>
    obtain ⟨u, hadd, heq⟩ := Option.map_eq_some_iff.mp hstep
    cases heq
    -- In the order in which everything has an owner: the session, the duties,
    -- the channel and the entry in the map.
    have hduties : Inv ((s.make ⟨listener, peer⟩).goto p (.writing listener s.made data false)) := by
      refine (h.make ⟨listener, peer⟩ hwrap).goto_keep ?_ ?_
      · show (s.procs p).duties ⊆ _
        rw [hnone]
        exact List.nil_subset _
      · rintro _ ⟨⟩
        exact Nat.lt_succ_self _
    obtain ⟨f, hnext, rfl⟩ := Option.map_eq_some_iff.mp hadd
    have hsession : (s.make ⟨listener, peer⟩).sessions s.made =
        { key := ⟨listener, peer⟩, id := s.nextUdpFwdChannelID + 1 } := Function.update_self ..
    have hchannel := hduties.forward ?_ (forward_goto hadd p (.writing listener s.made data false))
    · exact hchannel.enter (Nat.lt_succ_self _) (congrArg Session.key hsession)
        (claimed_goto _ p List.mem_cons_self)
    · rintro _ ⟨⟩
      refine .inr ⟨rfl, s.made, Nat.lt_succ_self _, congrArg Session.id hsession,
        congrArg Session.closed hsession, .inr (claimed_goto _ p ?_)⟩
      exact List.mem_cons_of_mem _ List.mem_cons_self

/-- The listener takes back a session that it could not announce. -/
theorem Inv.withdraw (h : Inv s) {ref : Nat} {back : Option UInt64}
    (hproc : s.procs p = .withdrawing ref back) :
    Inv ((s.takeUdpFwdPendingSession (s.sessions ref).id).goto p (.releasing ref back)) := by
  have hlt : ref < s.made := h.known p ref (by rw [hproc]; rfl)
  have hduties : Inv (s.goto p (.releasing ref back)) := by
    refine h.goto_keep ?_ ?_
    · rw [hproc]
      exact List.nil_subset _
    · rintro _ ⟨⟩
      exact hlt
  refine hduties.takeUdpFwdPendingSession (s.sessions ref).id ?_
  intro ref' hlookup
  obtain ⟨hlt', hid⟩ := h.pending _ ref' hlookup
  have href : ref' = ref := h.unique ref' hlt' ref hlt hid
  subst href
  exact ⟨claimed_goto s p List.mem_cons_self,
    claimed_goto s p (List.mem_cons_of_mem _ List.mem_cons_self)⟩

/-- The handler takes the session that waits under an id. -/
theorem Inv.accept (h : Inv s) {id : UInt64} {ref : Nat} (hproc : s.procs p = .accepting)
    (hlookup : s.udpFwdPendingMap.lookup id = some ref) :
    Inv ((s.takeUdpFwdPendingSession id).goto p (.acking ref)) := by
  have hduties : Inv (s.goto p (.acking ref)) := by
    refine h.goto_keep ?_ ?_
    · rw [hproc]
      exact List.nil_subset _
    · rintro _ ⟨⟩
      exact (h.pending id ref hlookup).1
  refine hduties.takeUdpFwdPendingSession id ?_
  intro ref' hlookup'
  have href : ref = ref' := Option.some.inj (hlookup.symm.trans hlookup')
  subst href
  exact ⟨claimed_goto s p List.mem_cons_self,
    claimed_goto s p (List.mem_cons_of_mem _ List.mem_cons_self)⟩

/-- The new session waits for its handler. -/
theorem Inv.store (h : Inv s) {listener : UInt64} {ref : Nat}
    (hproc : s.procs p = .storing listener ref) :
    Inv ((s.addUdpFwdPendingSession ref).goto p (.announcing listener ref)) := by
  have hlt : ref < s.made := h.known p ref (by rw [hproc]; rfl)
  have hpending : (s.addUdpFwdPendingSession ref).Pending ref := AList.lookup_insert _
  refine (h.addUdpFwdPendingSession hlt).goto ?_ ?_
  · intro d hd
    have hd' : d ∈ (s.procs p).duties := hd
    rw [hproc] at hd'
    simp only [Proc.duties, List.mem_cons, List.not_mem_nil, or_false] at hd'
    rcases hd' with rfl | rfl
    · exact .inr (.inl (.inl hpending))
    · exact .inr (.inl (.inl hpending))
  · rintro _ ⟨⟩
    exact hlt

/-- The session is in no map any more, and its connection remains. -/
theorem Inv.releaseUdpForwardSession (h : Inv s) {ref : Nat} {back : Option UInt64}
    (hproc : s.procs p = .releasing ref back) :
    Inv (({ s with udpFwdSessionMap := s.udpFwdSessionMap.erase (s.sessions ref).key } : Sys).goto p
      (.closing ref back)) := by
  have hgone : ∀ key, (s.udpFwdSessionMap.erase (s.sessions ref).key).lookup key ≠ some ref := by
    intro key hlookup
    by_cases hkey : key = (s.sessions ref).key
    · subst hkey
      rw [AList.lookup_erase] at hlookup
      cases hlookup
    · rw [AList.lookup_erase_ne hkey] at hlookup
      exact hkey (h.entered key ref hlookup).2.symm
  refine (h.release (s.sessions ref).key).goto ?_ ?_
  · intro d hd
    have hd' : d ∈ (s.procs p).duties := hd
    rw [hproc] at hd'
    simp only [Proc.duties, List.mem_cons, List.not_mem_nil, or_false] at hd'
    rcases hd' with rfl | rfl
    · exact .inr (.inl (.inr hgone))
    · exact .inl List.mem_cons_self
  · rintro _ ⟨⟩
    exact h.known p ref (by rw [hproc]; rfl)

@[simp] theorem ref_after (back : Option UInt64) : (Proc.after back).ref = none := by
  cases back <;> rfl

/-- `Close` of a session's connection, the first one and the others. -/
theorem Inv.close (h : Inv s) {ref : Nat} {back : Option UInt64}
    (hproc : s.procs p = .closing ref back) :
    ((s.sessions ref).closed = true → Inv (s.goto p (.after back))) ∧
    Inv ((s.setSession ref { s.sessions ref with closed := true }).goto p
      (.removing .server (s.sessions ref).id back)) := by
  have hduty : ∀ d ∈ (s.procs p).duties, d = .conn ref := by
    intro d hd
    rw [hproc] at hd
    exact List.mem_singleton.mp hd
  refine ⟨fun hclosed => h.goto ?_ (by simp), ?_⟩
  · intro d hd
    rw [hduty d hd]
    exact .inr (.inl (.inr hclosed))
  · have hduties : Inv (s.goto p (.removing .server (s.sessions ref).id back)) := by
      refine h.goto ?_ (by rintro _ ⟨⟩)
      intro d hd
      exact .inr (.inr ⟨ref, hduty d hd, List.mem_cons_self⟩)
    exact hduties.setSession ref rfl rfl (.inr (claimed_goto s p List.mem_cons_self))

/-- The channel is removed, or the forwarder is closed. -/
theorem Inv.removeChannel (h : Inv s) {side : Side} {id : UInt64} {back : Option UInt64} {t : Sys}
    (hproc : s.procs p = .removing side id back)
    (hstep : s.forward side (.removeChannel id) = some t) : Inv (t.goto p (.after back)) := by
  have ht : Inv t := h.forward (by rintro _ ⟨⟩) hstep
  obtain ⟨f, hnext, rfl⟩ := Option.map_eq_some_iff.mp hstep
  refine ht.goto ?_ (by simp)
  intro d hd
  have hd' : d ∈ (s.procs p).duties := hd
  rw [hproc] at hd'
  rw [List.mem_singleton.mp hd']
  refine .inr (.inl ?_)
  show (Function.update s.fwd side f side).closed = true ∨
    (Function.update s.fwd side f side).Removing id
  rw [Function.update_self]
  exact next_removeChannel hnext

/-- The drawn id is the next number. -/
theorem le_toNat_succ {n : UInt64} (hwrap : n.toNat + 1 < UInt64.size) :
    n.toNat ≤ (n + 1).toNat := by
  rw [UInt64.toNat_add, UInt64.toNat_one, Nat.mod_eq_of_lt hwrap]
  exact Nat.le_succ _

/-- What a step of procedure `p` can do. -/
inductive Turn (s : Sys) (p : Nat) (ev : Event) : Sys → Prop
  | leave (hduty : (s.procs p).duties = [] ∨ ev = .fails ∧ (s.procs p).careless = true) :
      Turn s p ev (s.leave p)
  /-- It goes on with the duties it has. -/
  | goOn (old proc : Proc) (hproc : s.procs p = old) (hduties : proc.duties = old.duties)
      (href : ∀ ref, proc.ref = some ref → old.ref = some ref) : Turn s p ev (s.goto p proc)
  | dial (t : Sys) (hnone : (s.procs p).duties = [])
      (hadd : s.forward .server (.addChannel (s.nextUdpFwdChannelID + 1)) = some t) :
      Turn s p ev (({ t with nextUdpFwdChannelID := s.nextUdpFwdChannelID + 1 } : Sys).goto p
        (.responding (s.nextUdpFwdChannelID + 1)))
  /-- The client adds a channel with the id it was told. -/
  | connect (id : UInt64) (proc : Proc) (t : Sys) (hnone : (s.procs p).duties = [])
      (hduty : .channel .client id ∈ proc.duties) (href : proc.ref = none)
      (hadd : s.forward .client (.addChannel id) = some t) : Turn s p ev (t.goto p proc)
  | listen (hproc : s.procs p = .opening) :
      Turn s p ev (({ s with nextUdpFwdListenerID := s.nextUdpFwdListenerID + 1 } : Sys).goto p
        (.listening (s.nextUdpFwdListenerID + 1)))
  | acquire (listener : UInt64) (peer : Option Nat) (data : List UInt8) (t : Sys) (ref : Nat)
      (found : Bool) (hproc : s.procs p = .listening listener)
      (hacquire : acquireUdpForwardSession s ⟨listener, peer⟩ = some (t, ref, found)) :
      Turn s p ev (t.goto p (.writing listener ref data found))
  | write (listener : UInt64) (ref : Nat) (data : List UInt8) (found : Bool)
      (hproc : s.procs p = .writing listener ref data found) :
      Turn s p ev ((s.setSession ref ((s.sessions ref).writePacket data)).goto p
        (if found then .listening listener else .storing listener ref))
  | store (listener : UInt64) (ref : Nat) (hproc : s.procs p = .storing listener ref) :
      Turn s p ev ((s.addUdpFwdPendingSession ref).goto p (.announcing listener ref))
  | withdraw (ref : Nat) (back : Option UInt64) (hproc : s.procs p = .withdrawing ref back) :
      Turn s p ev ((s.takeUdpFwdPendingSession (s.sessions ref).id).goto p (.releasing ref back))
  | accept (id : UInt64) (ref : Nat) (hproc : s.procs p = .accepting)
      (hlookup : s.udpFwdPendingMap.lookup id = some ref) :
      Turn s p ev ((s.takeUdpFwdPendingSession id).goto p (.acking ref))
  | attach (ref : Nat) (hproc : s.procs p = .acking ref) :
      Turn s p ev ((s.setSession ref (s.sessions ref).attachStream).goto p (.serving ref))
  | release (ref : Nat) (back : Option UInt64) (hproc : s.procs p = .releasing ref back) :
      Turn s p ev (({ s with
        udpFwdSessionMap := s.udpFwdSessionMap.erase (s.sessions ref).key } : Sys).goto p
          (.closing ref back))
  | closeAgain (ref : Nat) (back : Option UInt64) (hproc : s.procs p = .closing ref back)
      (hclosed : (s.sessions ref).closed = true) : Turn s p ev (s.goto p (.after back))
  | close (ref : Nat) (back : Option UInt64) (hproc : s.procs p = .closing ref back) :
      Turn s p ev ((s.setSession ref { s.sessions ref with closed := true }).goto p
        (.removing .server (s.sessions ref).id back))
  | remove (side : Side) (id : UInt64) (back : Option UInt64) (t : Sys)
      (hproc : s.procs p = .removing side id back)
      (hremove : s.forward side (.removeChannel id) = some t) : Turn s p ev (t.goto p (.after back))

section Turn

variable {ev : Event}

/-- A failure of a procedure that has nothing to undo. -/
theorem Turn.quit {old : Proc} (hproc : s.procs p = old) (hnone : old.duties = []) :
    Turn s p ev (s.leave p) := by
  subst hproc
  exact .leave (.inl hnone)

/-- A failure at one of the careless exits. -/
theorem Turn.drop {old : Proc} (hproc : s.procs p = old) (hcareless : old.careless = true) :
    Turn s p .fails (s.leave p) := by
  subst hproc
  exact .leave (.inr ⟨rfl, hcareless⟩)

theorem Turn.move {old proc : Proc} (hproc : s.procs p = old) (hduties : proc.duties = old.duties)
    (hnone : proc.ref = none) : Turn s p ev (s.goto p proc) := by
  refine .goOn old proc hproc hduties ?_
  intro ref href
  exact absurd (hnone.symm.trans href) (by simp)

theorem stepProc_turn (hstep : stepProc s p ev = some s') : Turn s p ev s' := by
  unfold stepProc at hstep
  cases hproc : s.procs p <;> rw [hproc] at hstep
  case absent => cases hstep
  case returned => cases hstep
  case dialing =>
    cases ev with
    | fails =>
      cases hstep
      exact .quit hproc rfl
    | ok =>
      obtain ⟨t, hadd, rfl⟩ := Option.map_eq_some_iff.mp hstep
      exact .dial t (by rw [hproc]; rfl) hadd
    | _ => cases hstep
  case responding id | awaitingReady id | requesting id | awaitingAck id =>
    cases ev with
    | fails =>
      cases hstep
      exact .drop hproc rfl
    | ok =>
      cases hstep
      exact .move hproc rfl rfl
    | _ => cases hstep
  case forwarding id | connected id =>
    cases ev with
    | ok =>
      cases hstep
      exact .move hproc rfl rfl
    | _ => cases hstep
  case opening =>
    cases ev with
    | fails =>
      cases hstep
      exact .quit hproc rfl
    | ok =>
      cases hstep
      exact .listen hproc
    | _ => cases hstep
  case listening listener =>
    cases ev with
    | fails =>
      cases hstep
      exact .quit hproc rfl
    | packet peer data =>
      obtain ⟨⟨t, ref, found⟩, hacquire, rfl⟩ := Option.map_eq_some_iff.mp hstep
      exact .acquire listener peer data t ref found hproc hacquire
    | _ => cases hstep
  case writing listener ref data found =>
    cases ev with
    | ok =>
      cases hstep
      exact .write listener ref data found hproc
    | _ => cases hstep
  case storing listener ref =>
    cases ev with
    | ok =>
      cases hstep
      exact .store listener ref hproc
    | _ => cases hstep
  case announcing listener ref =>
    cases ev with
    | ok =>
      cases hstep
      exact .move hproc rfl rfl
    | fails =>
      cases hstep
      exact .goOn _ _ hproc rfl fun _ href => href
    | failsClosed =>
      cases hstep
      exact .goOn _ _ hproc rfl fun _ href => href
    | _ => cases hstep
  case withdrawing ref back =>
    cases ev with
    | ok =>
      cases hstep
      exact .withdraw ref back hproc
    | _ => cases hstep
  case accepting =>
    cases ev with
    | fails =>
      cases hstep
      exact .quit hproc rfl
    | message id =>
      cases hlookup : s.udpFwdPendingMap.lookup id with
      | none =>
        simp only [hlookup] at hstep
        cases hstep
        exact .quit hproc rfl
      | some ref =>
        simp only [hlookup] at hstep
        cases hstep
        exact .accept id ref hproc hlookup
    | _ => cases hstep
  case acking ref =>
    cases ev with
    | fails =>
      cases hstep
      exact .drop hproc rfl
    | ok =>
      cases hstep
      exact .attach ref hproc
    | _ => cases hstep
  case serving ref =>
    cases ev with
    | ok =>
      cases hstep
      exact .goOn _ _ hproc rfl fun _ href => href
    | _ => cases hstep
  case releasing ref back =>
    cases ev with
    | ok =>
      cases hstep
      exact .release ref back hproc
    | _ => cases hstep
  case closing ref back =>
    cases ev with
    | ok =>
      by_cases hclosed : (s.sessions ref).closed = true
      · simp only [if_pos hclosed] at hstep
        cases hstep
        exact .closeAgain ref back hproc hclosed
      · simp only [if_neg hclosed] at hstep
        cases hstep
        exact .close ref back hproc
    | _ => cases hstep
  case removing side id back =>
    cases ev with
    | ok =>
      obtain ⟨t, hremove, rfl⟩ := Option.map_eq_some_iff.mp hstep
      exact .remove side id back t hproc hremove
    | _ => cases hstep
  case clientDialing | clientAccepting =>
    cases ev with
    | fails =>
      cases hstep
      exact .quit hproc rfl
    | message id =>
      obtain ⟨t, hadd, rfl⟩ := Option.map_eq_some_iff.mp hstep
      exact .connect id _ t (by rw [hproc]; rfl) List.mem_cons_self rfl hadd
    | _ => cases hstep
  case sendingReady id =>
    cases ev with
    | fails | ok =>
      cases hstep
      exact .move hproc rfl rfl
    | _ => cases hstep

end Turn

theorem Inv.turn {ev : Event} (h : Inv s) (hwrap : s.nextUdpFwdChannelID.toNat + 1 < UInt64.size)
    (hturn : Turn s p ev s') : Inv s' := by
  cases hturn with
  | leave _ => exact h.leave p
  | goOn old proc hproc hduties href => exact h.goto_same hproc hduties href
  | dial t hnone hadd =>
    have hcount : s.nextUdpFwdChannelID.toNat ≤ (s.nextUdpFwdChannelID + 1).toNat :=
      le_toNat_succ hwrap
    have ht : Inv (t.goto p (.responding (s.nextUdpFwdChannelID + 1))) :=
      h.addChannel hnone List.mem_cons_self rfl hadd
    obtain ⟨f, -, rfl⟩ := Option.map_eq_some_iff.mp hadd
    exact ht.count hcount
  | connect id proc t hnone hduty href hadd => exact h.addChannel hnone hduty href hadd
  | listen hproc =>
    have ht : Inv (s.goto p (.listening (s.nextUdpFwdListenerID + 1))) :=
      h.goto_same hproc rfl fun _ hr => by cases hr
    exact ⟨ht.counted, ht.unique, ht.pending, ht.entered, ht.known, ht.served, ht.held⟩
  | acquire listener peer data t ref found hproc hacquire =>
    exact h.acquire hwrap (by rw [hproc]; rfl) hacquire
  | write listener ref data found hproc =>
    have hwrite : Inv (s.setSession ref ((s.sessions ref).writePacket data)) := by
      obtain ⟨hkey, hid, hclosed⟩ := (s.sessions ref).writePacket_frame data
      exact h.setSession ref hkey hid (.inl hclosed)
    cases found with
    | true => exact hwrite.goto_same hproc rfl fun _ hr => by cases hr
    | false => exact hwrite.goto_same hproc rfl fun _ hr => hr
  | store listener ref hproc => exact h.store hproc
  | withdraw ref back hproc => exact h.withdraw hproc
  | accept id ref hproc hlookup => exact h.accept hproc hlookup
  | attach ref hproc =>
    have hattach : Inv (s.setSession ref (s.sessions ref).attachStream) :=
      h.setSession ref rfl rfl (.inl rfl)
    exact hattach.goto_same hproc rfl fun _ hr => hr
  | release ref back hproc => exact h.releaseUdpForwardSession hproc
  | closeAgain ref back hproc hclosed => exact (h.close hproc).1 hclosed
  | close ref back hproc => exact (h.close hproc).2
  | remove side id back t hproc hremove => exact h.removeChannel hproc hremove

theorem Inv.next {a : Act} (h : Inv s) (hok : Unwrapped s a) (hnext : Setup.next s a = some s') :
    Inv s' := by
  cases a with
  | call p proc =>
    simp only [Setup.next] at hnext
    split at hnext
    case isTrue hentry =>
      cases hnext
      refine h.goto_keep ?_ ?_
      · rw [hentry.1]
        exact List.nil_subset _
      · rw [Proc.ref_entry hentry.2]
        rintro ref ⟨⟩
    case isFalse => cases hnext
  | step p ev => exact h.turn hok (stepProc_turn hnext)
  | forwarder side a =>
    simp only [Setup.next] at hnext
    split at hnext
    case isTrue hown =>
      refine h.forward ?_ hnext
      rintro id rfl
      cases hown
    case isFalse => cases hnext

theorem inv_init : Inv {} := by
  refine ⟨?_, ?_, ?_, ?_, ?_, ?_, ?_⟩
  · intro ref hlt
    exact absurd hlt (Nat.not_lt_zero _)
  · intro ref hlt
    exact absurd hlt (Nat.not_lt_zero _)
  · rintro id ref ⟨⟩
  · rintro key ref ⟨⟩
  · rintro p ref ⟨⟩
  · rintro key ref ⟨⟩
  · intro side id hopen hmem
    exact absurd hmem (AList.notMem_empty id)

theorem inv_reachable (hs : machine.ReachableVia Unwrapped s) : Inv s := by
  refine TSys.ReachableVia.invariant ?_ ?_ hs
  · rintro s rfl
    exact inv_init
  · intro s a s' h hok hnext
    exact h.next hok hnext

/-! ## Failing exits -/

theorem abandoned_leave (hnone : (s.procs p).duties = []) :
    (s.leave p).abandoned = s.abandoned := by
  show (s.procs p).duties ++ s.abandoned = s.abandoned
  rw [hnone]
  rfl

theorem abandoned_acquire {key : Key} {t : Sys} {ref : Nat} {found : Bool}
    (hacquire : acquireUdpForwardSession s key = some (t, ref, found)) :
    t.abandoned = s.abandoned := by
  unfold acquireUdpForwardSession at hacquire
  split at hacquire
  · cases hacquire
    rfl
  · obtain ⟨u, hadd, heq⟩ := Option.map_eq_some_iff.mp hacquire
    cases heq
    obtain ⟨f, -, rfl⟩ := Option.map_eq_some_iff.mp hadd
    rfl

/-- A procedure that fails anywhere else leaves nothing behind. -/
theorem abandoned_turn {ev : Event} (hturn : Turn s p ev s') :
    s'.abandoned = s.abandoned ∨ ev = .fails ∧ (s.procs p).careless = true := by
  cases hturn with
  | leave hduty =>
    rcases hduty with hnone | hcareless
    · exact .inl (abandoned_leave hnone)
    · exact .inr hcareless
  | acquire listener peer data t ref found hproc hacquire =>
    have hkept : t.abandoned = s.abandoned := abandoned_acquire hacquire
    exact .inl hkept
  | dial t _ hcall | connect id proc t _ _ _ hcall | remove side id back t _ hcall =>
    obtain ⟨f, -, rfl⟩ := Option.map_eq_some_iff.mp hcall
    exact .inl rfl
  | _ => exact .inl rfl

/-! ## All or nothing -/

/-- A procedure is at work on the session. -/
def Sys.Served (s : Sys) (ref : Nat) : Prop := ∃ p, .serve ref ∈ (s.procs p).duties

/-- A procedure or a connection uses the channel, or the channel's session waits. -/
def Sys.InUse (s : Sys) (side : Side) (id : UInt64) : Prop :=
  (∃ p, .channel side id ∈ (s.procs p).duties) ∨
    (side = .server ∧ ∃ ref < s.made, (s.sessions ref).id = id ∧
      (s.Pending ref ∨ ∃ p, .conn ref ∈ (s.procs p).duties))

/-- The procedure that should remove the channel has returned. -/
def Sys.LeftBehind (s : Sys) (side : Side) (id : UInt64) : Prop :=
  .channel side id ∈ s.abandoned ∨
    (side = .server ∧ ∃ ref < s.made, (s.sessions ref).id = id ∧ .conn ref ∈ s.abandoned)

/-- No procedure fails at one of the careless exits. -/
def Careful (s : Sys) (a : Act) : Prop :=
  Unwrapped s a ∧ ∀ p, a = .step p .fails → (s.procs p).careless = false

theorem Inv.waits_or_served (h : Inv s) {key : Key} {ref : Nat}
    (hlookup : s.udpFwdSessionMap.lookup key = some ref) (hkept : .serve ref ∉ s.abandoned) :
    s.Pending ref ∨ s.Served ref := by
  rcases h.served key ref hlookup with hpending | hserved | hleft
  · exact .inl hpending
  · exact .inr hserved
  · exact absurd hleft hkept

theorem Inv.used_or_removed (h : Inv s) {side : Side} {id : UInt64}
    (hopen : (s.fwd side).closed = false) (hmem : id ∈ (s.fwd side).channelMap)
    (hkept : ¬ s.LeftBehind side id) : s.InUse side id ∨ (s.fwd side).Removing id := by
  rcases h.held side id hopen hmem with hbacked | hremoving
  · refine .inl ?_
    rcases hbacked with (hused | hleft) | ⟨hside, ref, hlt, hid, -, hpending | hconn | hleft⟩
    · exact .inl hused
    · exact absurd (.inl hleft) hkept
    · exact .inr ⟨hside, ref, hlt, hid, .inl hpending⟩
    · exact .inr ⟨hside, ref, hlt, hid, .inr hconn⟩
    · exact absurd (.inr ⟨hside, ref, hlt, hid, hleft⟩) hkept
  · exact .inr hremoving

/-- Nothing is left behind in a run without a careless exit. -/
theorem abandoned_careful (hs : machine.ReachableVia Careful s) : s.abandoned = [] := by
  induction hs with
  | init h0 =>
    cases h0
    rfl
  | @step s a s' _ hok hnext ih =>
    cases a with
    | call p proc =>
      obtain ⟨-, heq⟩ := Option.ite_none_right_eq_some.mp hnext
      cases heq
      exact ih
    | step p ev =>
      rcases abandoned_turn (stepProc_turn hnext) with hsame | ⟨rfl, hcareless⟩
      · exact hsame.trans ih
      · exact absurd hcareless (by simp [hok.2 p rfl])
    | forwarder side a =>
      obtain ⟨-, hforward⟩ := Option.ite_none_right_eq_some.mp hnext
      obtain ⟨f, -, rfl⟩ := Option.map_eq_some_iff.mp hforward
      exact ih

/-- **Set-up is all or nothing, the careless exits apart.** A session in
`udpFwdSessionMap` that was not left behind waits or is being served. A channel
of an open forwarder that was not left behind is in use or is being removed.
And only the five careless exits leave anything behind: in a run without them that
goes for every session and every channel. -/
theorem setup_all_or_nothing (hs : machine.ReachableVia Unwrapped s) :
    (∀ key ref, s.udpFwdSessionMap.lookup key = some ref → .serve ref ∉ s.abandoned →
      s.Pending ref ∨ s.Served ref) ∧
    (∀ side id, (s.fwd side).closed = false → id ∈ (s.fwd side).channelMap →
      ¬s.LeftBehind side id → s.InUse side id ∨ (s.fwd side).Removing id) ∧
    (∀ p ev s', machine.next s (.step p ev) = some s' → s'.abandoned ≠ s.abandoned →
      ev = .fails ∧ (s.procs p).careless = true) ∧
    (machine.ReachableVia Careful s →
      (∀ key ref, s.udpFwdSessionMap.lookup key = some ref → s.Pending ref ∨ s.Served ref) ∧
      ∀ side id, (s.fwd side).closed = false → id ∈ (s.fwd side).channelMap →
        s.InUse side id ∨ (s.fwd side).Removing id) := by
  have h := inv_reachable hs
  refine ⟨fun key ref hlookup hkept => h.waits_or_served hlookup hkept,
    fun side id hopen hmem hkept => h.used_or_removed hopen hmem hkept, ?_, ?_⟩
  · intro p ev s' hnext hne
    exact (abandoned_turn (stepProc_turn hnext)).resolve_left hne
  · intro hcareful
    have hnone := abandoned_careful hcareful
    refine ⟨fun key ref hlookup => h.waits_or_served hlookup ?_,
      fun side id hopen hmem => h.used_or_removed hopen hmem ?_⟩
    · simp [hnone]
    · simp [Sys.LeftBehind, hnone]

/-- A session that cannot be announced, one that is served, and a dial of the
client whose ready message fails. -/
def failuresUndone : List Act :=
  [Act.call 0 .opening, .step 0 .ok, .step 0 (.packet (some 1) [1]), .step 0 .ok, .step 0 .ok,
    .step 0 .fails, .step 0 .ok, .step 0 .ok, .step 0 .ok, .step 0 .ok,
    .forwarder .server .takeClosing, .forwarder .server .work, .forwarder .server .work,
    .step 0 (.packet (some 2) [2]), .step 0 .ok, .step 0 .ok, .step 0 .ok,
    .call 1 .accepting, .step 1 (.message 2), .step 1 .ok,
    .call 2 .clientDialing, .step 2 (.message 7), .step 2 .fails, .step 2 .ok,
    .forwarder .client .takeClosing, .forwarder .client .work, .forwarder .client .work]

instance (s : Sys) (a : Act) : Decidable (Unwrapped s a) := inferInstanceAs (Decidable (_ < _))

theorem setup_all_or_nothing_failuresUndone :
    ∃ s, machine.ReachableVia Unwrapped s ∧ (s.Pending 1 ∨ s.Served 1) ∧
      s.udpFwdSessionMap.keys = [⟨1, some 2⟩] ∧ (s.fwd .server).channelMap.keys = [2] ∧
      (s.fwd .client).channelMap.keys = [] := by
  have hrun : (machine.execWhile (fun s a => decide (Unwrapped s a)) {} failuresUndone).any
      (fun s => decide (s.abandoned = [] ∧ s.udpFwdSessionMap.lookup ⟨1, some 2⟩ = some 1 ∧
        s.udpFwdSessionMap.keys = [⟨1, some 2⟩] ∧ (s.fwd .server).channelMap.keys = [2] ∧
        (s.fwd .client).channelMap.keys = [])) = true := by
    decide
  obtain ⟨s, hs, hend⟩ := (Option.any_eq_true _ _).mp hrun
  obtain ⟨hnone, hlookup, hkeys, hserver, hclient⟩ := of_decide_eq_true hend
  have hreach : machine.ReachableVia Unwrapped s :=
    TSys.ReachableVia.execWhile (fun _ _ h => of_decide_eq_true h) (.init rfl) hs
  obtain ⟨hserved, -⟩ := setup_all_or_nothing hreach
  refine ⟨s, hreach, hserved _ 1 hlookup ?_, hkeys, hserver, hclient⟩
  rw [hnone]
  exact List.not_mem_nil

/-- The acknowledgement of `handleAcceptUdpEvent` fails, and the peer sends again. -/
def lostAcknowledgement : List Act :=
  [Act.call 0 .opening, .step 0 .ok, .step 0 (.packet (some 1) [1]), .step 0 .ok, .step 0 .ok,
    .step 0 .ok, .call 1 .accepting, .step 1 (.message 1), .step 1 .fails,
    .step 0 (.packet (some 1) [2]), .step 0 .ok]

theorem unserved_session :
    ∃ s, machine.Reachable s ∧ s.udpFwdSessionMap.lookup ⟨1, some 1⟩ = some 0 ∧
      ¬(s.Pending 0 ∨ s.Served 0) ∧ (s.sessions 0).pendingBuf = [[1], [2]] ∧
      (s.fwd .server).closed = false ∧ 1 ∈ (s.fwd .server).channelMap ∧
      ¬(s.InUse .server 1 ∨ (s.fwd .server).Removing 1) := by
  have hidle : ∀ p, (machine.exec {} lostAcknowledgement).any
      (fun s => decide ((s.procs p).duties = [])) = true := by
    intro p
    match p with
    | 0 => decide
    | 1 => decide
    | p + 2 => rfl
  have hrun : (machine.exec {} lostAcknowledgement).any (fun s => decide (s.made = 1 ∧
      s.udpFwdSessionMap.lookup ⟨1, some 1⟩ = some 0 ∧
      s.udpFwdPendingMap.lookup (s.sessions 0).id = none ∧
      (s.sessions 0).pendingBuf = [[1], [2]] ∧ (s.fwd .server).closed = false ∧
      1 ∈ (s.fwd .server).channelMap.keys ∧ ¬(s.fwd .server).Removing 1)) = true := by
    decide
  obtain ⟨s, hs, hend⟩ := (Option.any_eq_true _ _).mp hrun
  obtain ⟨hmade, hlookup, hgone, hbuf, hopen, hmem, hremoving⟩ := of_decide_eq_true hend
  have hduties : ∀ p, (s.procs p).duties = [] := by
    intro p
    have hp := hidle p
    rw [hs] at hp
    exact of_decide_eq_true hp
  have hpending : ¬s.Pending 0 := by
    intro hp
    exact absurd (hgone.symm.trans hp) (by simp)
  refine ⟨s, TSys.Reachable.exec (.init rfl) hs, hlookup, ?_, hbuf, hopen, hmem, ?_⟩
  · rintro (hp | ⟨p, hserve⟩)
    · exact hpending hp
    · rw [hduties p] at hserve
      exact List.not_mem_nil hserve
  · rintro ((⟨p, hchannel⟩ | ⟨-, ref, hlt, -, hp | ⟨p, hconn⟩⟩) | hr)
    · rw [hduties p] at hchannel
      exact List.not_mem_nil hchannel
    · rw [hmade] at hlt
      obtain rfl : ref = 0 := by omega
      exact hpending hp
    · rw [hduties p] at hconn
      exact List.not_mem_nil hconn
    · exact hremoving hr

end Tsshd.Forward.Setup

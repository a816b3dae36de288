import Tsshd.Proxy.State

/-!
# The server proxy: code

The goroutines of the proxy, one access of an atomic or of data behind a mutex
per step. Names follow the source; log lines, socket options and what is sent
as an acknowledgement have no step.

* **UDP frontend** — `readFrom` with its three cases, the address lookup
  `getClient`, and `probeAuth` / `initConn` that choose the socket;
* **TCP frontend** — `handshake`, the `readLoop` of a connection, `readFrom`;
* **proxy** — `ReadFrom` and `WriteTo`, which the transport calls;
* **client** — the setters, `Close`, and the time-out callback that clears the
  transport of a silent client.
-/

namespace Tsshd.Proxy

/-- The accesses the theorems single out. -/
inductive Label
  | plain
  /-- An access inside `setClientAddr` or `setAuthedAddr`. -/
  | set
  /-- The first look of `waitConn` at the socket. -/
  | waitConn
  /-- `ReadFrom` loads the crypto of the client of a packet. -/
  | loadCrypto (client : Nat)
deriving DecidableEq, Repr

/-- What the environment chooses: whether a call succeeds, and what arrives. -/
structure Env where
  ok : Bool := true
  datagram : Datagram := {}
  auth : Option (Nat × Nat) := none
  length : Nat := 0
deriving DecidableEq, Repr

/-- The goroutines, by what they run next. -/
inductive Job
  /-- `ReadFrom`, which the transport calls again and again. -/
  | readFrom
  /-- The loop of the UDP frontend's `readFrom`. -/
  | receive
  | probeAuth (socket : Nat)
  | writeTo (clientID : Nat)
  | close (client : Nat)
  | timeout (client : Nat)
  | activate (client server : Nat)
  | handshake
  | readLoop (conn client : Nat)
  /-- A client produces an authentication packet. -/
  | produce (clientID serial : Nat)
deriving DecidableEq, Repr

abbrev Code := Prog Shared Env Label

open Prog

/-- Load a field of a client. -/
def field {α : Type} (c : Nat) (f : Client → α) : Code α := load .plain fun s => f (s.clients c)

/-- Store to a field of a client. -/
def modify (c : Nat) (f : Client → Client) : Code Unit := store .plain fun s => s.update c f

/-- Whether a call outside the proxy succeeds. -/
def succeeds : Code Bool := input .plain Env.ok

def alloc : Code Nat := exchange .plain (fun s => { s with fresh := s.fresh + 1 }) Shared.fresh

/-! ## Client -/

/-- `addClientMap` and `addAuthedMap`. -/
def addMap (args : Args) (slot : Slot) (c : Nat) : Code Unit :=
  if args.attachable then do
    match ← load .set fun s => (s.clients c).get slot with
    | none => pure ()
    | some r => store .set fun s => s.setIndex r.addr.key (some c) slot
  else pure ()

/-- `delClientMap` and `delAuthedMap`. -/
def delMap (args : Args) (slot : Slot) (r : AddrRef) : Code Unit :=
  if args.attachable then store .set fun s => s.setIndex r.addr.key none slot
  else pure ()

/-- The setters of the two address fields, which differ in the field only. -/
def setAddr (args : Args) (slot : Slot) (c : Nat) (old new : Option AddrRef) : Code Unit := do
  let conn ← field c (·.udpFrontConn)
  let out ← exchange .set (fun s => s.update c (·.swapAddr slot old new))
    (fun s => (s.clients c).replacedAddr slot old)
  when (new.isSome && conn) (addMap args slot c)
  match out with
  | some r => when conn (delMap args slot r)
  | none => pure ()

def setClientAddr (args : Args) (c : Nat) (old new : Option AddrRef) : Code Unit :=
  setAddr args .client c old new

def setAuthedAddr (args : Args) (c : Nat) (old new : Option AddrRef) : Code Unit :=
  setAddr args .authed c old new

def closeConn (conn : Nat) : Code Unit :=
  store .plain fun s => { s with closedConns := conn :: s.closedConns }

def setClientConn (c : Nat) (old new : Option Nat) : Code Unit := do
  let out ← exchange .plain (fun s => s.update c (·.swapConn old new))
    (fun s => (s.clients c).replacedConn old)
  match out with
  | some conn => closeConn conn
  | none => pure ()

/-- `clientState.Close`. -/
def close (args : Args) (c : Nat) : Code Unit := do
  let won ← exchange .plain (fun s => s.update c ({ · with closed := true }))
    (fun s => !(s.clients c).closed)
  when won do
    modify c ({ · with clientCond := false })
    modify c ({ · with server := none })
    modify c ({ · with kcpCrypto := false })
    setClientConn c none none
    setClientAddr args c none none
    setAuthedAddr args c none none
    modify c ({ · with udpFrontConn := false })

/-- The callback of the client checker: it looks at the transport, sleeps, and
clears what it saw if the client is still silent. -/
def timeout (args : Args) (c : Nat) : Code Unit := do
  let oldAuthedAddr ← field c (·.authedAddr)
  let oldClientAddr ← field c (·.clientAddr)
  let oldClientConn ← field c (·.clientConn)
  let isTimeout ← succeeds
  when isTimeout do
    setAuthedAddr args c oldAuthedAddr none
    setClientAddr args c oldClientAddr none
    setClientConn c oldClientConn none

/-! ## Proxy -/

/-- `serverProxy.getClient`; making the state of a new client can fail. -/
def getClient (clientID : Nat) : Code (Option Nat) :=
  atomic .plain (fun _ _ => true)
    (fun e s =>
      if clientID ∈ s.created then s
      else if e.ok then { s with created := clientID :: s.created } else s)
    (fun e s => if clientID ∈ s.created ∨ e.ok then some clientID else none)

/-- Without attaching, packets of other clients do not count. -/
def openAuthPacket (args : Args) (auth : Option (Nat × Nat)) : Option (Nat × Nat) :=
  auth.filter fun a => args.attachable || a.1 = args.clientID

def onNewClientConn (c : Nat) : Code Unit :=
  store .plain fun s => { s with notified := s.notified ++ (s.clients c).server.toList }

/-- The end of `ReadFrom`: a packet goes to the transport. -/
def deliver (packet : Packet) (c : Nat) (opened : Bool) : Code (Option Job) := do
  let _server ← exchange .plain
    (fun s => { s with delivered := s.delivered ++ [⟨c, packet, opened⟩] })
    (fun s => (s.clients c).server)
  pure (some .readFrom)

/-- `ReadFrom` behind the frontend's `readFrom`. -/
def openPacket (packet : Packet) (c : Nat) : Code (Option Job) := do
  let kcpCrypto ← exchange (.loadCrypto c)
    (fun s =>
      { s with
        returned := s.returned ++
          [⟨c, packet, (s.clients c).clientAddr, (s.clients c).effective⟩] })
    (fun s => (s.clients c).kcpCrypto)
  if kcpCrypto then do
    let opened ← succeeds
    if opened then deliver packet c true else pure (some .readFrom)
  else deliver packet c false

/-- The frontend's `writeTo`. -/
def frontWriteTo (args : Args) (c : Nat) (frame : Frame) : Code Unit :=
  if args.tcp then do
    let conn ← exchange .plain (fun s => { s with written := s.written ++ [(c, frame)] })
      (fun s => (s.clients c).clientConn)
    match conn with
    | none => pure ()
    | some conn => do
        let sent ← succeeds
        when (!sent) (setClientConn c (some conn) none)
  else do
    let _addr ← exchange .plain (fun s => { s with written := s.written ++ [(c, frame)] })
      (fun s => (s.clients c).clientAddr)
    pure ()

/-- `WriteTo` behind the sealing: `closed` is looked at last. -/
def writeUnlessClosed (args : Args) (c : Nat) (frame : Frame) : Code Unit := do
  let closed ← field c (·.closed)
  when (!closed) (frontWriteTo args c frame)

def writeTo (args : Args) (clientID : Nat) : Code Unit := do
  match ← getClient clientID with
  | none => pure ()
  | some c => do
      let kcpCrypto ← field c (·.kcpCrypto)
      if kcpCrypto then do
        let sealed ← succeeds
        when sealed (writeUnlessClosed args c (.sealed c))
      else writeUnlessClosed args c .plaintext

/-! ## UDP frontend -/

namespace Udp

/-- Where the address of a datagram was found. -/
inductive Found
  | client (c : Nat)
  | authed (c : Nat)
  | unknown
deriving DecidableEq, Repr

/-- Compare an address with those of one client. -/
def probe (c : Nat) (addr : UDPAddr) (otherwise : Code Found) : Code Found := do
  let clientAddr ← field c (·.clientAddr)
  if isSameAddr clientAddr addr then pure (.client c)
  else do
    let authedAddr ← field c (·.authedAddr)
    if isSameAddr authedAddr addr then pure (.authed c) else otherwise

def lookupAuthed (addr : UDPAddr) : Code Found := do
  match ← load .plain fun s => s.authedMap addr.key with
  | none => pure .unknown
  | some c => do
      let authedAddr ← field c (·.authedAddr)
      if isSameAddr authedAddr addr then pure (.authed c) else pure .unknown

def lookup (addr : UDPAddr) : Code Found := do
  match ← load .plain fun s => s.clientMap addr.key with
  | none => lookupAuthed addr
  | some c => do
      let clientAddr ← field c (·.clientAddr)
      if isSameAddr clientAddr addr then do
        store .plain fun s => { s with cacheClient := some c }
        pure (.client c)
      else lookupAuthed addr

/-- `udpFrontendConn.getClient`. -/
def getClient (args : Args) (addr : UDPAddr) : Code Found :=
  if args.attachable then do
    match ← load .plain Shared.cacheClient with
    | some c => probe c addr (lookup addr)
    | none => lookup addr
  else probe args.clientID addr (pure .unknown)

/-- `conn.ReadFromUDP`. -/
def readFromUDP : Code Datagram :=
  atomic .plain (fun e s => s.mayArrive e.datagram.auth)
    (fun e s => { s with arrived := e.datagram :: s.arrived }) (fun e _ => e.datagram)

/-- A closed client is left alone; otherwise a newer serial number makes the
address the authenticated one. Both `initConn` and `readFrom` go through it. -/
def authenticate (args : Args) (c : Nat) (addr : UDPAddr) (serial : Nat) : Code Unit := do
  let closed ← field c (·.closed)
  when (!closed) do
    modify c ({ · with udpFrontConn := true })
    let old ← field c (·.serialNumber)
    when (old < serial) do
      let won ← exchange .plain (fun s => s.update c (·.casSerial old serial))
        (fun s => decide ((s.clients c).serialNumber = old))
      when won do
        let ref ← alloc
        setAuthedAddr args c none (some ⟨ref, addr, serial⟩)

/-- What `readFrom` returns of a packet of the client in effect. -/
def forward (d : Datagram) (c : Nat) : Option (Datagram × Nat) :=
  if d.length ≤ kSafeToDropPacketLen then none else some (d, c)

/-- Case 2 of `readFrom`: the address is authenticated but not yet in effect. -/
def readAuthed (args : Args) (d : Datagram) (c : Nat) : Code (Option (Datagram × Nat)) :=
  match openAuthPacket args d.auth with
  | none => do
      match ← field c (·.authedAddr) with
      | none => pure none
      | some r => do
          setClientAddr args c none (some r)
          setAuthedAddr args c none none
          onNewClientConn c
          pure (forward d c)
  | some (clientID, serial) =>
    if clientID ≠ c then do
      setAuthedAddr args c none none
      pure none
    else do
      let old ← field c (·.serialNumber)
      if serial < old then pure none
      else do
        store .plain fun s => s.update c (·.casSerial old serial)
        pure none

/-- Case 3 of `readFrom`: the address is unknown. -/
def readUnknown (args : Args) (d : Datagram) : Code (Option (Datagram × Nat)) :=
  match openAuthPacket args d.auth with
  | none => pure none
  | some (clientID, serial) => do
      match ← Proxy.getClient clientID with
      | none => pure none
      | some c => do
          authenticate args c d.source serial
          pure none

/-- One turn of the loop of `readFrom`; `none` means another one. -/
def receive (args : Args) : Code (Option (Datagram × Nat)) := do
  let d ← readFromUDP
  match ← getClient args d.source with
  | .client c => pure (forward d c)
  | .authed c => readAuthed args d c
  | .unknown => readUnknown args d

def waitConn : Code Unit := do
  let conn ← load .waitConn Shared.conn
  when conn.isNone <|
    -- under `initMutex`, until `initConn` has stored a socket and left
    atomic .plain (fun _ s => s.initMutex.isNone && s.conn.isSome) (fun _ s => s) (fun _ _ => ())

def unlock : Code Unit := store .plain fun s => { s with initMutex := none }

/-- `initConn` with the packet that chose the socket. -/
def initConn (args : Args) (socket : Nat) (addr : UDPAddr) (clientID serial : Nat) :
    Code Unit := do
  atomic .plain (fun _ s => s.initMutex.isNone) (fun _ s => { s with initMutex := some socket })
    (fun _ _ => ())
  let conn ← load .plain Shared.conn
  if conn.isSome then unlock
  else do
    store .plain fun s => { s with conn := some socket }
    match ← Proxy.getClient clientID with
    | none => unlock
    | some c => do
        authenticate args c addr serial
        unlock

def probeAuth (args : Args) (socket : Nat) : Code (Option Job) := do
  let d ← readFromUDP
  match openAuthPacket args d.auth with
  | none => pure (some (.probeAuth socket))
  | some (clientID, serial) => do
      initConn args socket d.source clientID serial
      pure none

end Udp

/-! ## TCP frontend -/

namespace Tcp

def handshake (args : Args) : Code (Option Job) := do
  let conn ← alloc
  let auth ← atomic .plain (fun e s => s.mayArrive e.auth) (fun _ s => s) (fun e _ => e.auth)
  let fail : Code (Option Job) := do
    closeConn conn
    pure none
  match openAuthPacket args auth with
  | none => fail
  | some (clientID, serial) => do
      match ← getClient clientID with
      | none => fail
      | some c => do
          let closed ← field c (·.closed)
          if closed then fail
          else do
            let old ← field c (·.serialNumber)
            if serial ≤ old then fail
            else do
              let won ← exchange .plain (fun s => s.update c (·.casSerial old serial))
                (fun s => decide ((s.clients c).serialNumber = old))
              if won then do
                let acked ← succeeds
                if acked then do
                  setClientConn c none (some conn)
                  onNewClientConn c
                  pure (if args.attachable then some (.readLoop conn c) else none)
                else fail
              else fail

/-- How many frame headers wait for `readFrom`. -/
def frameSignalCap : Nat := 10

/-- One turn of `readLoop`. -/
def readLoop (conn c : Nat) : Code (Option Job) := do
  let leave : Code (Option Job) := do
    setClientConn c (some conn) none
    pure none
  let cur ← field c (·.clientConn)
  if cur = some conn then do
    let header ← input .plain fun e => if e.ok then some e.length else none
    match header with
    | none => leave
    | some length => do
        atomic .plain (fun _ s => decide (s.frameSignalCh.length < frameSignalCap))
          (fun _ s => { s with frameSignalCh := s.frameSignalCh ++ [⟨conn, c, length⟩] })
          (fun _ _ => ())
        let ack ← atomic .plain (fun _ s => s.ackCh.any (·.1 = conn))
          (fun _ s => { s with ackCh := s.ackCh.eraseP (·.1 = conn) })
          (fun _ s => (s.ackCh.find? (·.1 = conn)).any (·.2))
        if ack then pure (some (.readLoop conn c)) else leave
  else leave

/-- The loop of `readFrom` with attaching: a body that does not fit or cannot
be read ends its connection only. -/
def readFromAttachable : Code (Option Job) := do
  let signal ← atomic .plain (fun _ s => !s.frameSignalCh.isEmpty)
    (fun _ s => { s with frameSignalCh := s.frameSignalCh.tail }) (fun _ s => s.frameSignalCh.head?)
  match signal with
  | none => pure (some .readFrom)
  | some sig => do
      let read ← succeeds
      store .plain fun s => { s with ackCh := s.ackCh ++ [(sig.conn, read)] }
      if read then openPacket (.frame sig.conn sig.length) sig.client else pure (some .readFrom)

/-- `readFrom` of the sole client; without a connection and `clientCond` it
reports the end. -/
def readFromSole (args : Args) : Code (Option Job) := do
  let conn ← atomic .plain
    (fun _ s => (s.clients args.clientID).clientConn.isSome ||
      !(s.clients args.clientID).clientCond)
    (fun _ s => s) (fun _ s => (s.clients args.clientID).clientConn)
  match conn with
  | none => pure none
  | some conn => do
      let frame ← input .plain fun e => if e.ok then some e.length else none
      match frame with
      | some length => openPacket (.frame conn length) args.clientID
      | none => do
          setClientConn args.clientID (some conn) none
          pure (some .readFrom)

end Tcp

/-! ## The system -/

def readFrom (args : Args) : Code (Option Job) :=
  if args.tcp then
    if args.attachable then Tcp.readFromAttachable else Tcp.readFromSole args
  else do
    Udp.waitConn
    pure (some .receive)

def receive (args : Args) : Code (Option Job) := do
  match ← Udp.receive args with
  | none => pure (some .receive)
  | some (d, c) => openPacket (.datagram d) c

def code (args : Args) : Job → Code (Option Job)
  | .readFrom => readFrom args
  | .receive => receive args
  | .probeAuth socket => Udp.probeAuth args socket
  | .writeTo clientID => do
      writeTo args clientID
      pure none
  | .close c => do
      close args c
      pure none
  | .timeout c => do
      timeout args c
      pure none
  | .activate c server => do
      modify c ({ · with server := some server })
      pure none
  | .handshake => Tcp.handshake args
  | .readLoop conn c => Tcp.readLoop conn c
  | .produce clientID serial => do
      store .plain fun s => { s with produced := (clientID, serial) :: s.produced }
      pure none

/-- A single UDP socket is used at once; of several, the first to see an
authentication packet wins. -/
def Args.probing (args : Args) : Bool := !args.tcp && args.sockets ≠ 1

/-- The proxy in front of its first packet. -/
def started (args : Args) : Shared where
  clients _ := newClientState args
  created := if args.attachable then [] else [args.clientID]
  conn := if args.probing then none else some 0

/-- What can be started at any time. -/
def spawns (args : Args) (s : Shared) : Job → Bool
  | .writeTo _ => true
  | .close c => c ∈ s.created
  | .timeout c => c ∈ s.created
  | .activate c _ => c ∈ s.created
  | .handshake => args.tcp
  | .produce _ _ => true
  | _ => false

def system (args : Args) : System Shared Env Label Job where
  init s := s = started args
  start := .readFrom :: if args.probing then (List.range args.sockets).map .probeAuth else []
  spawn := spawns args
  code := code args

/-- A thread makes a number of steps for which nothing from outside matters. -/
def runs (thread n : Nat) : List (Sched Env Job) := List.replicate n (.run thread {})

end Tsshd.Proxy

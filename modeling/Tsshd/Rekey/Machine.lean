import Tsshd.Core.TSys

/-!
# Key rotation between a client and a server

`rotatingCrypto` (rekey.go) on both sides of one connection and everything the
rotation depends on.

* **the record** — `Crypto` with `installKey`, `promoteKey`, `consumeBytes` and
  the checks of `startRekey` as the code has them under its mutex;
* **the client's goroutines** — `ClientSide` with `startRekey`, `doRekey` and
  `handleClientRekey`, which `Tsshd.Rekey.Trigger` uses as well;
* **keys** — a key is the initial one or derived from the private keys of both
  sides of one exchange, so both sides derive the same one;
* **datagrams** — what was sealed stays in the network forever and may be
  opened at any time, any number of times, in any order. A datagram opens under
  the key that sealed it only;
* **the bus** — reliable and ordered, on top of the datagrams: a datagram
  carries at most the bus messages written before it was sealed, and a message
  is handled only after a datagram that carries it was opened. A send that
  fails delivers nothing;
* **goroutines** — `doRekey` runs on its own, the handlers of one side are
  serial, and so are its `Open` calls. `startRekey` is called by a ticker and by
  `consumeBytes`; here it may be called at any time.
-/

namespace Tsshd.Rekey

/-- A traffic key. -/
inductive Key
  | initial
  | derived (clientPri serverPri : Nat)
deriving DecidableEq, Repr

/-- The fields of `rotatingCrypto` behind its mutex, and `clientPriKey`. The counter of
bytes is a `uint64` in the source: no key is taken to see 2^64 bytes. -/
structure Crypto where
  gcmList : List Key := [.initial]
  activeIdx : Nat := 0
  timeThreshold : Nat := 0
  bytesConsumed : Nat := 0
  bytesThreshold : Nat := 0
  bytesTriggered : Bool := false
  rekeyInFlight : Bool := false
  clientPriKey : Option Nat := none
  closed : Bool := false
  /-- History: every key ever installed, and how many were dropped. -/
  installed : List Key := [.initial]
  dropped : Nat := 0
deriving DecidableEq, Repr

namespace Crypto

/-- `r.gcmList[r.activeIdx]`; `none` is an index out of range. -/
def sealingKey (r : Crypto) : Option Key := r.gcmList[r.activeIdx]?

/-- The byte counter; its rekey is one of the calls of `startRekey`. -/
def consumeBytes (r : Crypto) (n : Nat) : Crypto :=
  if r.bytesThreshold = 0 then r
  else
    { r with
      bytesConsumed := r.bytesConsumed + n
      bytesTriggered := r.bytesTriggered || r.bytesThreshold ≤ r.bytesConsumed + n }

def installKey (r : Crypto) (key : Key) (active : Bool) : Crypto :=
  { r with
    gcmList := r.gcmList ++ [key]
    activeIdx := if active then r.gcmList.length else r.activeIdx
    bytesConsumed := 0, bytesTriggered := false, rekeyInFlight := false
    installed := r.installed ++ [key] }

def promoteKey (r : Crypto) (idx : Nat) : Crypto :=
  if r.gcmList.length ≤ idx then r
  else { r with gcmList := r.gcmList.drop idx, activeIdx := 0, dropped := r.dropped + idx }

/-- The checks of `startRekey`; `since` is the time since the last rekey. -/
def rekeyAllowed (r : Crypto) (since : Nat) : Bool :=
  !r.closed && !r.rekeyInFlight &&
    !(since < r.timeThreshold / 2 && r.bytesConsumed < r.bytesThreshold)

/-- `Open` behind the decryption attempts: the index of the key that opened. -/
def opened (r : Crypto) (idx bytes : Nat) : Crypto :=
  if 0 < idx then r.promoteKey idx else r.consumeBytes bytes

end Crypto

/-- The first key of the list under which a datagram opens. -/
def openIdx (gcmList : List Key) (key : Key) : Option Nat := gcmList.findIdx? (· = key)

/-- A sealed datagram and how many bus messages it may carry. -/
structure Datagram where
  key : Key
  carries : Nat
deriving DecidableEq, Repr

/-- A goroutine in `doRekey`, by its next step. -/
inductive DoRekey
  | generate
  | send (pri : Nat)
  | failed
deriving DecidableEq, Repr

/-- `handleServerRekey`, by its next step. -/
inductive ServerPc
  | idle
  | install (clientPub serverPri : Nat)
  | reply (serverPub : Nat)
deriving DecidableEq, Repr

/-- `handleClientRekey`, by its next step. -/
inductive ClientPc
  | idle
  | load (serverPub : Nat)
  | install (pri serverPub : Nat)
  | forget (pri : Nat)
deriving DecidableEq, Repr

/-- An `Open` that has read the key list. -/
structure Opening where
  datagram : Datagram
  gcmList : List Key
deriving DecidableEq, Repr

/-- The client with its goroutines. -/
structure ClientSide where
  client : Crypto
  doRekeys : List DoRekey := []
  clientPc : ClientPc := .idle
  /-- The next unused private key. -/
  fresh : Nat := 0
deriving DecidableEq, Repr

namespace ClientSide

/-- `startRekey`; `since` is the time since the last rekey. -/
def startRekey (c : ClientSide) (since : Nat) : ClientSide :=
  if c.client.rekeyAllowed since then
    { c with
      client := { c.client with rekeyInFlight := true }
      doRekeys := c.doRekeys ++ [.generate] }
  else c

/-- One step of a `doRekey`, and the public key that it sends; `ok` says how its call
ends. -/
def doRekey (c : ClientSide) (k : Nat) (ok : Bool) : Option (ClientSide × Option Nat) :=
  match c.doRekeys[k]? with
  | none => none
  | some .generate =>
    if ok then
      some ({ c with
        client := { c.client with clientPriKey := some c.fresh }
        fresh := c.fresh + 1
        doRekeys := c.doRekeys.set k (.send c.fresh) }, none)
    else some ({ c with doRekeys := c.doRekeys.set k .failed }, none)
  | some (.send a) =>
    if ok then some ({ c with doRekeys := c.doRekeys.eraseIdx k }, some a)
    else some ({ c with doRekeys := c.doRekeys.set k .failed }, none)
  | some .failed =>
    some ({ c with
      client := { c.client with rekeyInFlight := false }
      doRekeys := c.doRekeys.eraseIdx k }, none)

/-- One step of `handleClientRekey`; `ok` says whether the key can be derived and
installed. -/
def handleClientRekey (c : ClientSide) (ok : Bool) : Option ClientSide :=
  match c.clientPc with
  | .idle => none
  | .load b =>
    match c.client.clientPriKey with
    | some a => some { c with clientPc := .install a b }
    | none => some { c with clientPc := .idle }
  | .install a b =>
    if ok then
      some { c with client := c.client.installKey (.derived a b) true, clientPc := .forget a }
    else some { c with clientPc := .idle }
  | .forget a =>
    some { c with
      client := if c.client.clientPriKey = some a then { c.client with clientPriKey := none }
        else c.client
      clientPc := .idle }

end ClientSide

structure Sys extends ClientSide where
  server : Crypto := {}
  serverPc : ServerPc := .idle
  clientOpen : Option Opening := none
  serverOpen : Option Opening := none
  /-- The public keys written to the bus, in both directions. -/
  requests : List Nat := []
  replies : List Nat := []
  /-- Per side: the bus messages that have arrived, and those handled. -/
  requestsArrived : Nat := 0
  requestsRead : Nat := 0
  repliesArrived : Nat := 0
  repliesRead : Nat := 0
  toServer : List Datagram := []
  toClient : List Datagram := []
deriving DecidableEq, Repr

/-- What can happen next. -/
inductive Act
  /-- A side seals a datagram that carries some of the bus messages written. -/
  | clientSeal (carries bytes : Nat)
  | serverSeal (carries bytes : Nat)
  /-- A datagram arrives: `Open` reads the key list, then ends. -/
  | serverOpen (datagram : Nat)
  | serverOpened (bytes : Nat)
  | clientOpen (datagram : Nat)
  | clientOpened (bytes : Nat)
  /-- `startRekey`, and a step of a `doRekey`. -/
  | startRekey (since : Nat)
  | doRekey (goroutine : Nat) (ok : Bool)
  /-- The bus loops handle the next message that has arrived. -/
  | serverRead (ok : Bool)
  | serverRekey (ok : Bool)
  | clientRead (ok : Bool)
  | clientRekey
  | clientClose
deriving DecidableEq, Repr

/-- One step of a `doRekey`; what it sends is on the bus. -/
def doRekeyStep (k : Nat) (ok : Bool) (s : Sys) : Option Sys :=
  (s.toClientSide.doRekey k ok).map fun (c, sent) =>
    { s with toClientSide := c, requests := s.requests ++ sent.toList }

/-- One step of `handleServerRekey` behind the generation of its key. -/
def serverRekeyStep (ok : Bool) (s : Sys) : Option Sys :=
  match s.serverPc with
  | .idle => none
  | .install a b =>
    some { s with server := s.server.installKey (.derived a b) false, serverPc := .reply b }
  | .reply b =>
    some { s with replies := if ok then s.replies ++ [b] else s.replies, serverPc := .idle }

/-- One step of `handleClientRekey`: both public keys are points of the curve, so
nothing fails here. -/
def clientRekeyStep (s : Sys) : Option Sys :=
  (s.toClientSide.handleClientRekey true).map ({ s with toClientSide := · })

def next (s : Sys) : Act → Option Sys
  | .clientSeal carries bytes =>
    match s.client.sealingKey with
    | some key =>
      if carries ≤ s.requests.length then
        some { s with
          client := s.client.consumeBytes bytes
          toServer := s.toServer ++ [⟨key, carries⟩] }
      else none
    | none => none
  | .serverSeal carries bytes =>
    match s.server.sealingKey with
    | some key =>
      if carries ≤ s.replies.length then
        some { s with
          server := s.server.consumeBytes bytes
          toClient := s.toClient ++ [⟨key, carries⟩] }
      else none
    | none => none
  | .serverOpen i =>
    match s.serverOpen, s.toServer[i]? with
    | none, some d => some { s with serverOpen := some ⟨d, s.server.gcmList⟩ }
    | _, _ => none
  | .serverOpened bytes =>
    match s.serverOpen with
    | none => none
    | some o =>
      match openIdx o.gcmList o.datagram.key with
      | none => some { s with serverOpen := none }
      | some idx =>
        some { s with
          server := s.server.opened idx bytes
          requestsArrived := max s.requestsArrived o.datagram.carries
          serverOpen := none }
  | .clientOpen i =>
    match s.clientOpen, s.toClient[i]? with
    | none, some d => some { s with clientOpen := some ⟨d, s.client.gcmList⟩ }
    | _, _ => none
  | .clientOpened bytes =>
    match s.clientOpen with
    | none => none
    | some o =>
      match openIdx o.gcmList o.datagram.key with
      | none => some { s with clientOpen := none }
      | some idx =>
        some { s with
          client := s.client.opened idx bytes
          repliesArrived := max s.repliesArrived o.datagram.carries
          clientOpen := none }
  | .startRekey since => some { s with toClientSide := s.toClientSide.startRekey since }
  | .doRekey k ok => doRekeyStep k ok s
  | .serverRead ok =>
    if s.serverPc = .idle ∧ s.requestsRead < s.requestsArrived then
      match s.requests[s.requestsRead]? with
      | some a =>
        some { s with
          requestsRead := s.requestsRead + 1
          serverPc := if ok then .install a s.fresh else .idle
          fresh := s.fresh + 1 }
      | none => none
    else none
  | .serverRekey ok => serverRekeyStep ok s
  | .clientRead ok =>
    if s.clientPc = .idle ∧ s.repliesRead < s.repliesArrived then
      match s.replies[s.repliesRead]? with
      | some b =>
        some { s with
          repliesRead := s.repliesRead + 1
          clientPc := if ok then .load b else .idle }
      | none => none
    else none
  | .clientRekey => clientRekeyStep s
  | .clientClose => some { s with client := { s.client with closed := true } }

/-- A connection: both sides start with the same key; only the client, with
thresholds of its own, starts rekeys. -/
def machine (timeThreshold bytesThreshold : Nat) : TSys Sys Act where
  init s := s = { client := { timeThreshold, bytesThreshold } }
  next := next

end Tsshd.Rekey

import Tsshd.Core.Threads
import Mathlib.Logic.Function.Basic

/-!
# The server proxy: shared state

The proxy stands between the transport (KCP or QUIC) and the network. It keeps
one `clientState` per client id, and the frontend keeps the socket and the two
maps that lead from an address to a client. All of it is reached by many
goroutines through atomics and mutexes, so the code is given as programs of
single accesses (`Tsshd.Proxy.Server`).

* **clients** — `getClient` makes one `clientState` per id and never drops it,
  so a client is named by its id here; a client that was not asked for yet is in
  the state `newClientState` leaves it in;
* **addresses** — an `AddrRef` is a pointer: `CompareAndSwap` compares `ref`,
  `isSameAddr` what it points to;
* **history** — the fields marked so are written and never read: they keep what
  the theorems speak about.
-/

namespace Tsshd.Proxy

/-- The arguments the proxy reads. `clientID` is that of the sole client. -/
structure Args where
  attachable : Bool
  kcp : Bool
  tcp : Bool := false
  /-- How many UDP sockets or TCP listeners there are. -/
  sockets : Nat := 1
  clientID : Nat := 0
deriving DecidableEq, Repr

/-- Packets this short cannot be valid and are dropped. -/
def kSafeToDropPacketLen : Nat := 16

/-! ## Addresses -/

/-- `net.UDPAddr`; `ip` holds 4 or 16 bytes. -/
structure UDPAddr where
  ip : List UInt8 := []
  port : Nat := 0
  zone : String := ""
deriving DecidableEq, Repr

def v4InV6Prefix : List UInt8 := List.replicate 10 0 ++ [0xff, 0xff]

/-- `net.IP.Equal`: an IPv4 address equals itself in IPv6 form. -/
def ipEqual (a b : List UInt8) : Bool :=
  if a.length = b.length then a = b
  else if a.length = 4 ∧ b.length = 16 then b.take 12 = v4InV6Prefix ∧ a = b.drop 12
  else if a.length = 16 ∧ b.length = 4 then a.take 12 = v4InV6Prefix ∧ a.drop 12 = b
  else false

def ipTo4 (ip : List UInt8) : List UInt8 :=
  if ip.length = 16 ∧ ip.take 12 = v4InV6Prefix then ip.drop 12 else ip

/-- The text of an address, up to its spelling: an IPv4 address in IPv6 form
prints as IPv4. -/
abbrev Key := List UInt8 × Nat × String

def UDPAddr.key (a : UDPAddr) : Key := (ipTo4 a.ip, a.port, a.zone)

structure AddrRef where
  ref : Nat
  addr : UDPAddr
  /-- History: the serial number of the packet the address was taken from. -/
  serial : Nat
deriving DecidableEq, Repr

def isSameAddr (a : Option AddrRef) (b : UDPAddr) : Bool :=
  match a with
  | none => false
  | some a => a.addr.port = b.port && a.addr.zone = b.zone && ipEqual a.addr.ip b.ip

/-- A datagram as it arrives. `auth` is what it decrypts to as an
authentication packet: a client id and a serial number. -/
structure Datagram where
  source : UDPAddr := {}
  length : Nat := 0
  auth : Option (Nat × Nat) := none
deriving DecidableEq, Repr

/-- What the frontend hands to `ReadFrom`. -/
inductive Packet
  | datagram (d : Datagram)
  | frame (conn length : Nat)
deriving DecidableEq, Repr

/-- What is handed to the frontend's `writeTo`: the buffer as it came, or the
output of `sealPacket` under the crypto of a client. -/
inductive Frame
  | plaintext
  | sealed (client : Nat)
deriving DecidableEq, Repr

/-! ## Clients -/

/-- The two address fields of a client. -/
inductive Slot
  | client
  | authed
deriving DecidableEq, Repr

structure Client where
  closed : Bool := false
  server : Option Nat := none
  serialNumber : Nat := 0
  clientConn : Option Nat := none
  clientAddr : Option AddrRef := none
  authedAddr : Option AddrRef := none
  udpFrontConn : Bool := false
  clientCond : Bool
  kcpCrypto : Bool
  /-- History: the serial numbers accepted. -/
  accepted : List Nat := []
  /-- History: the addresses `authedAddr` has held. -/
  authed : List AddrRef := []
  /-- History: the last address `clientAddr` has held. -/
  effective : Option AddrRef := none
deriving DecidableEq, Repr

def newClientState (args : Args) : Client :=
  { clientCond := args.tcp, kcpCrypto := args.kcp && args.attachable }

namespace Client

def get (c : Client) : Slot → Option AddrRef
  | .client => c.clientAddr
  | .authed => c.authedAddr

def put (c : Client) : Slot → Option AddrRef → Client
  | .client, none => { c with clientAddr := none }
  | .client, some r => { c with clientAddr := some r, effective := some r }
  | .authed, none => { c with authedAddr := none }
  | .authed, some r => { c with authedAddr := some r, authed := c.authed ++ [r] }

/-- `Swap` when no old value is given, `CompareAndSwap` otherwise. -/
def swapAddr (c : Client) (slot : Slot) (old new : Option AddrRef) : Client :=
  if old = none ∨ c.get slot = old then c.put slot new else c

/-- The value a `swapAddr` takes out. -/
def replacedAddr (c : Client) (slot : Slot) (old : Option AddrRef) : Option AddrRef :=
  if old = none then c.get slot else if c.get slot = old then old else none

def swapConn (c : Client) (old new : Option Nat) : Client :=
  if old = none ∨ c.clientConn = old then { c with clientConn := new } else c

def replacedConn (c : Client) (old : Option Nat) : Option Nat :=
  if old = none then c.clientConn else if c.clientConn = old then old else none

/-- `serialNumber.CompareAndSwap`. -/
def casSerial (c : Client) (old new : Nat) : Client :=
  if c.serialNumber = old then
    { c with serialNumber := new, accepted := c.accepted ++ [new] }
  else c

/-! Only `Close` writes the fields that guard the crypto. -/

@[simp] theorem put_closed (c : Client) (slot : Slot) (r : Option AddrRef) :
    (c.put slot r).closed = c.closed := by
  cases slot <;> cases r <;> rfl

@[simp] theorem put_kcpCrypto (c : Client) (slot : Slot) (r : Option AddrRef) :
    (c.put slot r).kcpCrypto = c.kcpCrypto := by
  cases slot <;> cases r <;> rfl

@[simp] theorem swapAddr_closed (c : Client) (slot : Slot) (old new : Option AddrRef) :
    (c.swapAddr slot old new).closed = c.closed := by
  unfold swapAddr
  split <;> simp

@[simp] theorem swapAddr_kcpCrypto (c : Client) (slot : Slot) (old new : Option AddrRef) :
    (c.swapAddr slot old new).kcpCrypto = c.kcpCrypto := by
  unfold swapAddr
  split <;> simp

@[simp] theorem swapConn_closed (c : Client) (old new : Option Nat) :
    (c.swapConn old new).closed = c.closed := by
  unfold swapConn
  split <;> rfl

@[simp] theorem swapConn_kcpCrypto (c : Client) (old new : Option Nat) :
    (c.swapConn old new).kcpCrypto = c.kcpCrypto := by
  unfold swapConn
  split <;> rfl

@[simp] theorem casSerial_closed (c : Client) (old new : Nat) :
    (c.casSerial old new).closed = c.closed := by
  unfold casSerial
  split <;> rfl

@[simp] theorem casSerial_kcpCrypto (c : Client) (old new : Nat) :
    (c.casSerial old new).kcpCrypto = c.kcpCrypto := by
  unfold casSerial
  split <;> rfl

end Client

/-! ## The proxy -/

/-- A frame header read by the loop of a TCP connection. -/
structure Signal where
  conn : Nat
  client : Nat
  length : Nat
deriving DecidableEq, Repr

/-- History: a packet `readFrom` returned, with the addresses of its client at
that time. -/
structure Return where
  client : Nat
  packet : Packet
  clientAddr : Option AddrRef
  effective : Option AddrRef
deriving DecidableEq, Repr

/-- History: a packet `ReadFrom` handed to the transport. -/
structure Delivery where
  client : Nat
  packet : Packet
  opened : Bool
deriving DecidableEq, Repr

structure Shared where
  clients : Nat → Client
  /-- The client ids `getClient` has a state for. -/
  created : List Nat := []
  /-- The socket in use, and the one whose `initConn` holds `initMutex`. -/
  conn : Option Nat := none
  initMutex : Option Nat := none
  cacheClient : Option Nat := none
  clientMap : Key → Option Nat := fun _ => none
  authedMap : Key → Option Nat := fun _ => none
  frameSignalCh : List Signal := []
  /-- What `readFrom` answered the loops of the TCP connections. -/
  ackCh : List (Nat × Bool) := []
  closedConns : List Nat := []
  /-- The next unused pointer or connection. -/
  fresh : Nat := 0
  /-- The authentication packets clients have produced. -/
  produced : List (Nat × Nat) := []
  /-- History: the datagrams that have arrived. -/
  arrived : List Datagram := []
  /-- Servers told that their client has a new connection. -/
  notified : List Nat := []
  returned : List Return := []
  delivered : List Delivery := []
  written : List (Nat × Frame) := []

namespace Shared

def update (s : Shared) (c : Nat) (f : Client → Client) : Shared :=
  { s with clients := Function.update s.clients c (f (s.clients c)) }

@[simp] theorem update_self (s : Shared) (c : Nat) (f : Client → Client) :
    (s.update c f).clients c = f (s.clients c) :=
  Function.update_self c _ s.clients

theorem update_of_ne (s : Shared) {c d : Nat} (f : Client → Client) (h : d ≠ c) :
    (s.update c f).clients d = s.clients d :=
  Function.update_of_ne h _ s.clients

/-- What holds of every client before an update and of the client updated
after it holds of every client after it. -/
theorem update_forall {P : Nat → Client → Prop} {s : Shared} {c : Nat} {f : Client → Client}
    (hc : P c (f (s.clients c))) (hrest : ∀ d, d ≠ c → P d (s.clients d)) (d : Nat) :
    P d ((s.update c f).clients d) := by
  by_cases hd : d = c
  · subst hd
    rw [update_self]
    exact hc
  · rw [update_of_ne s f hd]
    exact hrest d hd

def setIndex (s : Shared) (key : Key) (value : Option Nat) : Slot → Shared
  | .client => { s with clientMap := Function.update s.clientMap key value }
  | .authed => { s with authedMap := Function.update s.authedMap key value }

/-- An authentication packet arrives only if its client produced it, from any
address and any number of times. -/
def mayArrive (s : Shared) (auth : Option (Nat × Nat)) : Bool := auth.all (· ∈ s.produced)

end Shared

end Tsshd.Proxy

import Mathlib.Data.List.Nodup
import Tsshd.Core.Routines

/-!
# The path of the client

`clientProxy` (proxy_client.go) is the socket that QUIC or KCP reads and writes on
the client, and that never fails for them: behind it `renewTransportPath` puts one
connection to the server after the other into `backendConn`. Any number of calls
meet there, one atomic access at a time:

* **`renewTransportPath`** — takes the old connection out, dials and authenticates
  a new one, stores it under `backendMutex` and waits for an answer of the server;
* **`ReadFrom`** — reads from the connection it finds, takes out one that fails,
  and sleeps on `backendCond` while there is none;
* **`WriteTo`** and **`Close`**.

Results: every connection ever dialled is in exactly one place
(`connections_accounted`), no reader sleeps through a renewal or a `Close`
(`reader_wakes`), and no call stays on a connection that was there when `Close`
looked (`close_ends_calls`).
-/

namespace Tsshd.Proxy.ClientPath

/-! ## Goroutines -/

inductive RenewPc
  /-- `clearBackendConn(nil)` of `tryToReconnect`, which resets its statistics
  before it calls `renewTransportPath` (debugging only). -/
  | reset
  | resetting (c : Nat)
  | lock
  /-- `clearBackendConn(nil)`. -/
  | swap
  | closing (c : Nat)
  | dial
  /-- `renewTcpPath` or `renewUdpPath` behind the dial. -/
  | auth (c : Nat)
  | lockBackend (c : Nat)
  | store (c : Nat)
  | broadcast (c : Nat)
  | unlockBackend (c : Nat)
  /-- `serverChecker.waitReconnect`. -/
  | wait (c : Nat)
  /-- `clearBackendConn(conn)`. -/
  | clear (c : Nat)
  /-- The connection that was not authenticated, or did not answer. -/
  | discard (c : Nat)
  | unlock
  | done
deriving DecidableEq, Repr

inductive ReadPc
  | lock
  | checkClosed
  | load
  | reading (c : Nat)
  | clear (c : Nat)
  | closing (c : Nat)
  | lockBackend
  /-- The loop around `backendCond.Wait`, with `backendMutex`. -/
  | testConn
  | testClosed
  /-- `Wait`, until it has registered and released the mutex. -/
  | sleep
  /-- Asleep behind the first `n` broadcasts. -/
  | asleep (n : Nat)
  | unlockBackend
  | unlock
  | done
deriving DecidableEq, Repr

inductive WritePc
  | checkClosed
  | load
  | writing (c : Nat)
  | clear (c : Nat)
  | closing (c : Nat)
  | done
deriving DecidableEq, Repr

inductive ClosePc
  /-- `closed.CompareAndSwap(false, true)`. -/
  | swapClosed
  | lock
  | broadcast
  | unlock
  | swap
  | closing (c : Nat)
  | done
deriving DecidableEq, Repr

/-- The goroutine that `doWithTimeout` leaves behind when it gives up on a dial. -/
inductive DialPc
  | dialing
  | done
deriving DecidableEq, Repr

inductive Pc
  | renew (pc : RenewPc)
  | read (pc : ReadPc)
  | write (pc : WritePc)
  | close (pc : ClosePc)
  | dial (pc : DialPc)
deriving DecidableEq, Repr

/-- Connections are numbered in the order they are dialled. -/
structure Shared where
  backendConn : Option Nat := none
  closed : Bool := false
  renewMutex : Bool := false
  readMutex : Bool := false
  backendMutex : Bool := false
  /-- `backendCond`: the broadcasts so far. Whoever sleeps behind fewer is woken. -/
  broadcasts : Nat := 0
  dialed : Nat := 0
  /-- History: the connections that somebody has to close, in order. -/
  dropped : List Nat := []
  /-- History: the connections in the order of their `Close`. -/
  closedConns : List Nat := []
  /-- History: `renewUdpPath` gives a connection back together with the error of
  its authentication, and nobody closes it. -/
  lost : List Nat := []
  /-- History: the connections that a dial returned behind its timeout, which nobody
  closes either. -/
  overdue : List Nat := []
  /-- History: the connections stored so far, and those that were announced. -/
  stored : Nat := 0
  announced : Nat := 0
  /-- History: the broadcasts of `Close`. -/
  told : Nat := 0
  /-- History: `Close` has taken out the connection it found. -/
  swept : Bool := false
  /-- History: the connections stored behind that. -/
  late : List Nat := []
deriving DecidableEq, Repr

/-- What the network or the server checker answers. -/
inductive Reply
  | ok
  | failed
  /-- The authentication packet could not be read (UDP). -/
  | readFailed
  /-- `connectTimeout` is over. -/
  | timedOut
deriving DecidableEq, Repr

/-! ## Steps -/

/-- `c` is taken out of `backendConn`. -/
def Shared.take (s : Shared) (c : Nat) : Shared :=
  { s with backendConn := none, dropped := s.dropped ++ [c] }

/-- `conn.Close`. -/
def Shared.closeConn (s : Shared) (c : Nat) : Shared :=
  { s with closedConns := s.closedConns ++ [c] }

/-- `backendConn.Store`. -/
def Shared.store (s : Shared) (c : Nat) : Shared :=
  { s with
    backendConn := some c
    stored := s.stored + 1
    late := if s.swept then s.late ++ [c] else s.late }

/-- One atomic access; `tcp` is the proxy mode. -/
def step (tcp : Bool) (s : Shared) (pc : Pc) (reply : Reply) :
    Option (Shared × Pc × List Pc) :=
  match pc with
  | .renew .reset =>
    match s.backendConn with
    | none => some (s, .renew .lock, [])
    | some c => some (s.take c, .renew (.resetting c), [])
  | .renew (.resetting c) => some (s.closeConn c, .renew .lock, [])
  | .renew .lock =>
    if s.renewMutex then none else some ({ s with renewMutex := true }, .renew .swap, [])
  | .renew .swap =>
    match s.backendConn with
    | none => some (s, .renew .dial, [])
    | some c => some (s.take c, .renew (.closing c), [])
  | .renew (.closing c) => some (s.closeConn c, .renew .dial, [])
  | .renew .dial =>
    match reply with
    | .ok => some ({ s with dialed := s.dialed + 1 }, .renew (.auth s.dialed), [])
    -- `renewTcpPath` dials with `doWithTimeout`, `renewUdpPath` does not
    | .timedOut => some (s, .renew .unlock, if tcp then [.dial .dialing] else [])
    | _ => some (s, .renew .unlock, [])
  | .renew (.auth c) =>
    match reply with
    | .ok => some (s, .renew (.lockBackend c), [])
    | .failed | .timedOut =>
      some ({ s with dropped := s.dropped ++ [c] }, .renew (.discard c), [])
    | .readFailed =>
      if tcp then none else some ({ s with lost := s.lost ++ [c] }, .renew .unlock, [])
  | .renew (.lockBackend c) =>
    if s.backendMutex then none
    else some ({ s with backendMutex := true }, .renew (.store c), [])
  | .renew (.store c) => some (s.store c, .renew (.broadcast c), [])
  | .renew (.broadcast c) =>
    some ({ s with broadcasts := s.broadcasts + 1, announced := s.announced + 1 },
      .renew (.unlockBackend c), [])
  | .renew (.unlockBackend c) => some ({ s with backendMutex := false }, .renew (.wait c), [])
  | .renew (.wait c) =>
    match reply with
    | .ok => some (s, .renew .unlock, [])
    | _ => some (s, .renew (.clear c), [])
  | .renew (.clear c) =>
    if s.backendConn = some c then some (s.take c, .renew (.discard c), [])
    else some (s, .renew .unlock, [])
  | .renew (.discard c) => some (s.closeConn c, .renew .unlock, [])
  | .renew .unlock => some ({ s with renewMutex := false }, .renew .done, [])
  | .read .lock =>
    if s.readMutex then none else some ({ s with readMutex := true }, .read .checkClosed, [])
  | .read .checkClosed => some (s, .read (if s.closed then .unlock else .load), [])
  | .read .load =>
    match s.backendConn with
    | some c => some (s, .read (.reading c), [])
    | none => some (s, .read .lockBackend, [])
  | .read (.reading c) =>
    -- a read of a closed connection fails
    match reply with
    | .ok => if c ∈ s.closedConns then none else some (s, .read .unlock, [])
    | _ => some (s, .read (.clear c), [])
  | .read (.clear c) =>
    if s.backendConn = some c then some (s.take c, .read (.closing c), [])
    else some (s, .read .checkClosed, [])
  | .read (.closing c) => some (s.closeConn c, .read .checkClosed, [])
  | .read .lockBackend =>
    if s.backendMutex then none else some ({ s with backendMutex := true }, .read .testConn, [])
  | .read .testConn =>
    match s.backendConn with
    | none => some (s, .read .testClosed, [])
    | some _ => some (s, .read .unlockBackend, [])
  | .read .testClosed => some (s, .read (if s.closed then .unlockBackend else .sleep), [])
  | .read .sleep => some ({ s with backendMutex := false }, .read (.asleep s.broadcasts), [])
  | .read (.asleep n) =>
    -- woken, `Wait` takes the mutex again before the loop looks once more
    if n < s.broadcasts ∧ s.backendMutex = false then
      some ({ s with backendMutex := true }, .read .testConn, [])
    else none
  | .read .unlockBackend => some ({ s with backendMutex := false }, .read .checkClosed, [])
  | .read .unlock => some ({ s with readMutex := false }, .read .done, [])
  | .write .checkClosed => some (s, .write (if s.closed then .done else .load), [])
  | .write .load =>
    match s.backendConn with
    | some c => some (s, .write (.writing c), [])
    | none => some (s, .write .done, [])
  | .write (.writing c) =>
    match reply with
    | .ok => some (s, .write .done, [])
    | _ => some (s, .write (.clear c), [])
  | .write (.clear c) =>
    if s.backendConn = some c then some (s.take c, .write (.closing c), [])
    else some (s, .write .done, [])
  | .write (.closing c) => some (s.closeConn c, .write .done, [])
  | .close .swapClosed =>
    if s.closed then some (s, .close .done, [])
    else some ({ s with closed := true }, .close .lock, [])
  | .close .lock =>
    if s.backendMutex then none else some ({ s with backendMutex := true }, .close .broadcast, [])
  | .close .broadcast =>
    some ({ s with broadcasts := s.broadcasts + 1, told := s.told + 1 }, .close .unlock, [])
  | .close .unlock => some ({ s with backendMutex := false }, .close .swap, [])
  | .close .swap =>
    match s.backendConn with
    | none => some ({ s with swept := true }, .close .done, [])
    | some c => some ({ s.take c with swept := true }, .close (.closing c), [])
  | .close (.closing c) => some (s.closeConn c, .close .done, [])
  | .dial .dialing =>
    match reply with
    | .ok =>
      some ({ s with dialed := s.dialed + 1, overdue := s.overdue ++ [s.dialed] }, .dial .done,
        [])
    | _ => some (s, .dial .done, [])
  | .renew .done | .read .done | .write .done | .close .done | .dial .done => none

/-- The calls. -/
def start (_ : Shared) (pc : Pc) : Bool :=
  pc = .renew .reset ∨ pc = .renew .lock ∨ pc = .read .lock ∨ pc = .write .checkClosed ∨
    pc = .close .swapClosed

def routines (tcp : Bool) : Routines Shared Pc Reply where
  init s := s = {}
  start := start
  step := step tcp

variable {tcp : Bool} {s s' : Shared} {pc pc' : Pc} {reply : Reply} {forks : List Pc}

/-! ## Mutexes -/

inductive Mutex
  | renew
  | read
  | backend
deriving DecidableEq, Repr

def Pc.inside : Mutex → Pc → Bool
  | .renew, .renew .reset | .renew, .renew (.resetting _) | .renew, .renew .lock
  | .renew, .renew .done => false
  | .renew, .renew _ => true
  | .read, .read .lock | .read, .read .done => false
  | .read, .read _ => true
  | .backend, .renew (.store _) | .backend, .renew (.broadcast _)
  | .backend, .renew (.unlockBackend _) | .backend, .read .testConn | .backend, .read .testClosed
  | .backend, .read .sleep | .backend, .read .unlockBackend | .backend, .close .broadcast
  | .backend, .close .unlock => true
  | _, _ => false

def Shared.taken (s : Shared) : Mutex → Bool
  | .renew => s.renewMutex
  | .read => s.readMutex
  | .backend => s.backendMutex

def locks (tcp : Bool) : Routines.Locks (routines tcp) Mutex where
  inside := Pc.inside
  taken k s := s.taken k
  init k s h := by
    obtain rfl : s = {} := h
    cases k <;> rfl
  start k s pc h := by
    rcases of_decide_eq_true h with rfl | rfl | rfl | rfl | rfl <;> cases k <;> rfl
  step k s pc reply s' pc' forks h := by
    rcases pc with pc | pc | pc | pc | pc <;> cases pc <;> simp only [routines, step] at h
    all_goals repeat' split at h
    all_goals cases h
    all_goals cases k <;>
      simp_all [Pc.inside, Shared.taken, Shared.take, Shared.closeConn, Shared.store]

/-- Two calls are never inside one mutex. -/
def Beside (pc q : Pc) : Prop := ∀ k, pc.inside k = true → q.inside k = false

/-! ## What each call knows -/

/-- The connection a call works on is the current one, or somebody closes it. -/
def Follows (s : Shared) (c : Nat) : Prop := s.backendConn = some c ∨ c ∈ s.dropped

def Pc.Holds (tcp : Bool) (s : Shared) : Pc → Prop
  -- the renewal has cleared `backendConn` and not stored yet
  | .renew (.closing _) | .renew .dial | .renew (.auth _) | .renew (.lockBackend _)
  | .renew (.store _) | .read .testClosed => s.backendConn = none
  | .renew (.broadcast _) => s.announced < s.stored
  | .read (.reading c) | .read (.clear c) | .write (.writing c) | .write (.clear c) => Follows s c
  | .read .sleep => s.backendConn = none ∧ (s.closed = true → s.told = 0)
  | .read (.asleep n) =>
    -- a broadcast that is due has not come yet
    n ≤ s.broadcasts ∧ (n = s.broadcasts →
      (s.backendConn ≠ none → s.announced < s.stored) ∧ (s.closed = true → s.told = 0))
  | .close .lock | .close .broadcast => s.closed = true
  | .dial .dialing => tcp = true
  | _ => True

structure Inv (tcp : Bool) (s : Shared) : Prop where
  told : 0 < s.told → s.closed = true
  announced : s.announced ≤ s.stored
  late : s.swept = true → ∀ c, s.backendConn = some c → c ∈ s.late
  /-- Only `renewUdpPath` loses a connection. -/
  lost : tcp = true → s.lost = []
  /-- Only `renewTcpPath` leaves a dial behind. -/
  overdue : tcp = false → s.overdue = []

/-- What one call does, as the others see it. -/
structure Guar (s s' : Shared) (pc : Pc) : Prop where
  closed : s.closed = true → s'.closed = true
  dropped : s.dropped ⊆ s'.dropped
  /-- A connection leaves its place only to be closed. -/
  kept : ∀ c, s.backendConn = some c → s'.backendConn = some c ∨ c ∈ s'.dropped
  /-- Only a renewal fills the place, and has to announce it. -/
  filled : s.backendConn = none → s'.backendConn = none ∨
    (pc.inside .renew = true ∧ pc.inside .backend = true ∧ s'.announced < s'.stored)
  /-- A broadcast is made inside `backendMutex`. -/
  quiet : (s'.broadcasts = s.broadcasts ∧ s'.announced = s.announced ∧ s.stored ≤ s'.stored ∧
      s'.told = s.told) ∨
    (s'.broadcasts = s.broadcasts + 1 ∧ pc.inside .backend = true)

theorem step_guar (hinv : Inv tcp s) (hpc : pc.Holds tcp s)
    (h : step tcp s pc reply = some (s', pc', forks)) : Guar s s' pc := by
  have hann : s.announced < s.stored + 1 := Nat.lt_succ_of_le hinv.announced
  rcases pc with pc | pc | pc | pc | pc <;> cases pc <;> simp only [step] at h
  all_goals repeat' split at h
  all_goals cases h
  all_goals constructor <;>
    simp_all [Pc.Holds, Pc.inside, Shared.take, Shared.closeConn, Shared.store]

/-- No other call takes away what one knows. -/
theorem Guar.stable {q : Pc} (g : Guar s s' pc) (hinv : Inv tcp s) (hbeside : Beside pc q)
    (hq : q.Holds tcp s) : q.Holds tcp s' := by
  -- a goroutine inside `backendMutex` sees no broadcast
  have hquiet : q.inside .backend = true →
      s'.broadcasts = s.broadcasts ∧ s'.announced = s.announced ∧ s.stored ≤ s'.stored ∧
        s'.told = s.told := fun hin => by
    rcases g.quiet with h | ⟨_, hpc⟩
    · exact h
    · rw [hbeside _ hpc] at hin
      exact absurd hin (by simp)
  -- and inside either mutex the place stays empty
  have hempty : ∀ k, k ≠ .read → q.inside k = true → s.backendConn = none →
      s'.backendConn = none := fun k hk hin hnone => by
    rcases g.filled hnone with h | ⟨hrenew, hbackend, _⟩
    · exact h
    · cases k with
      | read => exact absurd rfl hk
      | renew => rw [hbeside _ hrenew] at hin; exact absurd hin (by simp)
      | backend => rw [hbeside _ hbackend] at hin; exact absurd hin (by simp)
  have hfollows : ∀ c, Follows s c → Follows s' c := fun c hc =>
    hc.elim (fun hconn => g.kept c hconn) fun hdropped => .inr (g.dropped hdropped)
  have huntold : s'.told = s.told → (s.closed = true → s.told = 0) → s'.told = 0 := fun heq h => by
    rw [heq]
    by_contra hpos
    exact hpos (h (hinv.told (Nat.pos_of_ne_zero hpos)))
  rcases q with q | q | q | q | q <;> cases q <;> simp only [Pc.Holds] at hq ⊢
  case renew.broadcast => obtain ⟨_, hann, hstored, _⟩ := hquiet rfl; omega
  case renew.closing | renew.dial | renew.auth | renew.lockBackend | renew.store =>
    exact hempty .renew (by simp) rfl hq
  case read.testClosed => exact hempty .backend (by simp) rfl hq
  case read.reading c | read.clear c | write.writing c | write.clear c => exact hfollows c hq
  case read.sleep =>
    obtain ⟨_, _, _, htold⟩ := hquiet rfl
    exact ⟨hempty .backend (by simp) rfl hq.1, fun _ => huntold htold hq.2⟩
  case read.asleep n =>
    rcases g.quiet with ⟨hb, hann, hstored, htold⟩ | ⟨hb, _⟩
    · refine ⟨hb ▸ hq.1, fun hn => ?_⟩
      obtain ⟨hdue, hclosed⟩ := hq.2 (hn.trans hb)
      refine ⟨fun hsome => ?_, fun _ => huntold htold hclosed⟩
      by_cases hnone : s.backendConn = none
      · rcases g.filled hnone with h | ⟨_, _, h⟩
        · exact absurd h hsome
        · exact h
      · have := hdue hnone
        omega
    · have hle := hq.1
      exact ⟨by omega, fun hn => absurd hn (by omega)⟩
  case close.lock | close.broadcast => exact g.closed hq
  case dial.dialing => exact hq

theorem step_own (hinv : Inv tcp s) (hpc : pc.Holds tcp s)
    (h : step tcp s pc reply = some (s', pc', forks)) : Inv tcp s' ∧ pc'.Holds tcp s' := by
  obtain ⟨htold, hann, hlate, hlost, hoverdue⟩ := hinv
  rcases pc with pc | pc | pc | pc | pc <;> cases pc <;> simp only [step] at h
  all_goals repeat' split at h
  all_goals cases h
  all_goals refine ⟨⟨?_, ?_, ?_, ?_, ?_⟩, ?_⟩ <;>
    simp_all [Pc.Holds, Follows, Shared.take, Shared.closeConn, Shared.store]
  all_goals omega

/-- The connections a call alone can close. -/
def Pc.closing : Pc → List Nat
  | .renew (.resetting c) | .renew (.closing c) | .renew (.discard c) | .read (.closing c)
  | .write (.closing c) | .close (.closing c) => [c]
  | _ => []

/-- The connection that a call has in hand: it alone will store or close it. -/
def Pc.hand : Pc → List Nat
  | .renew (.auth c) | .renew (.lockBackend c) | .renew (.store c) => [c]
  | pc => pc.closing

def Shared.places (s : Shared) : List Nat :=
  s.backendConn.toList ++ s.closedConns ++ s.lost ++ s.overdue

/-- A renewal that has stored a connection has to announce it. -/
def Pc.announcing : Pc → Nat
  | .renew (.broadcast _) => 1
  | _ => 0

/-- The `Close` that has set `closed` has to announce that. -/
def Pc.telling : Pc → Nat
  | .close .lock | .close .broadcast => 1
  | _ => 0

/-- What one step hands on. -/
structure Balanced (s s' : Shared) (pc pc' : Pc) : Prop where
  places : (s'.dialed = s.dialed ∧ (pc'.hand ++ s'.places).Perm (pc.hand ++ s.places)) ∨
    (s'.dialed = s.dialed + 1 ∧ (pc'.hand ++ s'.places).Perm (s.dialed :: (pc.hand ++ s.places)))
  closing : ∀ a, pc'.closing.count a + s'.closedConns.count a + s.dropped.count a =
    pc.closing.count a + s.closedConns.count a + s'.dropped.count a
  announcing : pc'.announcing + s'.announced + s.stored = pc.announcing + s.announced + s'.stored
  telling : pc'.telling + s'.told + s.closed.toNat = pc.telling + s.told + s'.closed.toNat

/-- Only a dial that timed out goes on in a goroutine of its own. -/
theorem forks_dialing (h : step tcp s pc reply = some (s', pc', forks)) :
    ∀ q ∈ forks, q = .dial .dialing ∧ tcp = true := by
  rcases pc with pc | pc | pc | pc | pc <;> cases pc <;> simp only [step] at h
  all_goals repeat' split at h
  all_goals cases h
  all_goals simp_all

/-- Such a goroutine has nothing in hand. -/
theorem hand_forks (h : step tcp s pc reply = some (s', pc', forks)) :
    forks.flatMap Pc.hand = [] :=
  List.flatMap_eq_nil_iff.mpr fun q hq => by rw [(forks_dialing h q hq).1]; rfl

theorem total_forks {weight : Pc → Nat} (hzero : weight (.dial .dialing) = 0)
    (h : step tcp s pc reply = some (s', pc', forks)) : Routines.total weight forks = 0 :=
  List.sum_eq_zero fun n hn => by
    obtain ⟨q, hq, rfl⟩ := List.mem_map.mp hn
    rw [(forks_dialing h q hq).1, hzero]

theorem step_balanced (hpc : pc.Holds tcp s) (h : step tcp s pc reply = some (s', pc', forks)) :
    Balanced s s' pc pc' := by
  rcases pc with pc | pc | pc | pc | pc <;> cases pc <;> simp only [step] at h
  all_goals repeat' split at h
  all_goals cases h
  all_goals refine ⟨?_, ?_, ?_, ?_⟩ <;>
    simp_all [List.perm_iff_count, List.count_cons, Pc.hand, Pc.closing, Pc.announcing,
      Pc.telling, Shared.places, Shared.take, Shared.closeConn, Shared.store, Pc.Holds]
  all_goals omega

def outline (tcp : Bool) : Routines.Outline (routines tcp) Beside where
  inv := Inv tcp
  holds s pc := pc.Holds tcp s
  init s h := by
    obtain rfl : s = {} := h
    constructor <;> simp
  start s pc _ h := by
    rcases of_decide_eq_true h with rfl | rfl | rfl | rfl | rfl <;> trivial
  own s pc reply s' pc' forks hinv hpc h := by
    rw [← and_assoc]
    refine ⟨step_own hinv hpc h, fun q hq => ?_⟩
    obtain ⟨rfl, htcp⟩ := forks_dialing h q hq
    exact htcp
  others s pc reply s' pc' forks q hinv hpc hq hbeside h :=
    (step_guar hinv hpc h).stable hinv hbeside hq

variable {p : Routines.Pool Shared Pc}

theorem within_reachable (hp : (routines tcp).machine.Reachable p) : (outline tcp).Within p :=
  (outline tcp).sound
    (fun _ hrun _ _ _ _ hij hpc hq k hin => (locks tcp).excl k hrun hij hpc hq hin) hp

/-- Nobody starts with anything. -/
theorem start_free (s : Shared) (h : start s pc = true) :
    pc.hand = [] ∧ pc.closing = [] ∧ pc.announcing = 0 ∧ pc.telling = 0 := by
  rcases of_decide_eq_true h with rfl | rfl | rfl | rfl | rfl <;> simp [Pc.hand, Pc.closing,
    Pc.announcing, Pc.telling]

def custody (tcp : Bool) : Routines.Custody (routines tcp) fun s pc => pc.Holds tcp s where
  hand := Pc.hand
  stored := Shared.places
  made := Shared.dialed
  init s h := by
    obtain rfl : s = {} := h
    rfl
  start s pc h := (start_free s h).1
  step s pc reply s' pc' forks hpc h := by
    rw [hand_forks h, List.append_nil]
    exact (step_balanced hpc h).places

def closing (tcp : Bool) (a : Nat) : Routines.Balance (routines tcp) fun s pc => pc.Holds tcp s where
  weight pc := pc.closing.count a
  stock s := s.closedConns.count a
  due s := s.dropped.count a
  init s h := by
    obtain rfl : s = {} := h
    rfl
  start s pc h := by simp [(start_free s h).2.1]
  step s pc reply s' pc' forks hpc h := by
    rw [total_forks rfl h, Nat.add_zero]
    exact (step_balanced hpc h).closing a

def announcing (tcp : Bool) : Routines.Balance (routines tcp) fun s pc => pc.Holds tcp s where
  weight := Pc.announcing
  stock := Shared.announced
  due := Shared.stored
  init s h := by
    obtain rfl : s = {} := h
    rfl
  start s pc h := (start_free s h).2.2.1
  step s pc reply s' pc' forks hpc h := by
    rw [total_forks rfl h, Nat.add_zero]
    exact (step_balanced hpc h).announcing

def telling (tcp : Bool) : Routines.Balance (routines tcp) fun s pc => pc.Holds tcp s where
  weight := Pc.telling
  stock := Shared.told
  due s := s.closed.toNat
  init s h := by
    obtain rfl : s = {} := h
    rfl
  start s pc h := (start_free s h).2.2.2
  step s pc reply s' pc' forks hpc h := by
    rw [total_forks rfl h, Nat.add_zero]
    exact (step_balanced hpc h).telling

theorem holds_reachable (p : Routines.Pool Shared Pc) (hp : (routines tcp).machine.Reachable p) :
    ∀ pc ∈ p.threads, pc.Holds tcp p.shared :=
  (within_reachable hp).threads

/-- A connection somebody has to close is closed, or in hand. -/
theorem dropped_closing (hp : (routines tcp).machine.Reachable p) {c : Nat}
    (hc : c ∈ p.shared.dropped) :
    c ∈ p.shared.closedConns ∨ ∃ pc ∈ p.threads, c ∈ pc.closing := by
  by_cases hclosed : c ∈ p.shared.closedConns
  · exact .inl hclosed
  · have hbalance := (closing tcp c).holds holds_reachable hp
    simp only [closing, List.count_eq_zero.mpr hclosed, Nat.add_zero] at hbalance
    obtain ⟨pc, hpc, hpos⟩ :=
      Routines.exists_of_total_pos (hbalance ▸ List.count_pos_iff.mpr hc)
    exact .inr ⟨pc, hpc, List.count_pos_iff.mp hpos⟩

/-- **Each connection has one place.** Every connection ever dialled is in the hand of
one call, the current one, closed, lost by `renewUdpPath`, or came when
`renewTcpPath` had given up on it; none is closed twice. -/
theorem connections_accounted (hp : (routines tcp).machine.Reachable p) :
    (p.threads.flatMap Pc.hand ++ p.shared.backendConn.toList ++ p.shared.closedConns ++
        p.shared.lost ++ p.shared.overdue).Perm (List.range p.shared.dialed) ∧
      p.shared.closedConns.Nodup ∧ (tcp = true → p.shared.lost = []) ∧
      (tcp = false → p.shared.overdue = []) := by
  have hperm : (p.threads.flatMap Pc.hand ++ p.shared.places).Perm
      (List.range p.shared.dialed) := (custody tcp).accounted holds_reachable hp
  have hnodup : p.shared.places.Nodup :=
    List.Nodup.of_append_right (hperm.nodup_iff.mpr List.nodup_range)
  refine ⟨by simpa [Shared.places] using hperm, ?_, (within_reachable hp).inv.lost,
    (within_reachable hp).inv.overdue⟩
  exact List.Nodup.of_append_right (List.Nodup.of_append_left (List.Nodup.of_append_left hnodup))

/-- A datagram path is lost when its authentication cannot be read. -/
theorem connections_accounted_lost : ∃ p, (routines false).machine.Reachable p ∧
    p.shared.lost = [0] ∧ (p.threads.flatMap Pc.hand ++ p.shared.backendConn.toList ++
      p.shared.closedConns ++ p.shared.lost ++ p.shared.overdue).Perm
        (List.range p.shared.dialed) := by
  obtain ⟨p, hp, hlost⟩ := Routines.exists_of_exec (m := routines false)
    [.start (.renew .lock), .run 0 .ok, .run 0 .ok, .run 0 .ok, .run 0 .readFailed]
    (fun p => p.shared.lost = [0]) rfl (by decide)
  exact ⟨p, hp, of_decide_eq_true hlost, (connections_accounted hp).1⟩

/-- A connection that comes too late stays open in TCP mode as well. -/
example : ∃ p, (routines true).machine.Reachable p ∧ p.shared.overdue = [0] ∧
    p.threads = [.renew .done, .dial .done] :=
  let ⟨p, hp, hlate⟩ := Routines.exists_of_exec (m := routines true)
    [.start (.renew .lock), .run 0 .ok, .run 0 .ok, .run 0 .timedOut, .run 0 .ok, .run 1 .ok]
    (fun p => p.shared.overdue = [0] ∧ p.threads = [.renew .done, .dial .done]) rfl
    (by decide)
  ⟨p, hp, of_decide_eq_true hlate⟩

/-- **No reader sleeps through a renewal or a `Close`.** A reader asleep on
`backendCond` has been woken; or whoever stored the current connection, and whoever
closed the proxy, has its broadcast still to make. -/
theorem reader_wakes (hp : (routines tcp).machine.Reachable p) {n : Nat}
    (hreader : .read (.asleep n) ∈ p.threads) :
    n < p.shared.broadcasts ∨
      ((p.shared.backendConn = none ∨ ∃ c, .renew (.broadcast c) ∈ p.threads) ∧
        (p.shared.closed = false ∨
          .close .lock ∈ p.threads ∨ .close .broadcast ∈ p.threads)) := by
  obtain ⟨hle, hdue⟩ := holds_reachable p hp _ hreader
  rcases Nat.lt_or_eq_of_le hle with hwoken | hasleep
  · exact .inl hwoken
  obtain ⟨hstored, huntold⟩ := hdue hasleep
  refine .inr ⟨?_, ?_⟩
  · by_cases hnone : p.shared.backendConn = none
    · exact .inl hnone
    · have hbalance := (announcing tcp).holds holds_reachable hp
      have hlt := hstored hnone
      simp only [announcing] at hbalance
      have hsomebody : 0 < Routines.total Pc.announcing p.threads := by omega
      obtain ⟨pc, hpc, hpos⟩ := Routines.exists_of_total_pos hsomebody
      unfold Pc.announcing at hpos
      split at hpos
      · exact .inr ⟨_, hpc⟩
      · exact absurd hpos (by simp)
  · cases hclosed : p.shared.closed with
    | false => exact .inl rfl
    | true =>
      have hbalance := (telling tcp).holds holds_reachable hp
      simp only [telling, huntold hclosed, hclosed, Bool.toNat_true] at hbalance
      have hsomebody : 0 < Routines.total Pc.telling p.threads := by omega
      obtain ⟨pc, hpc, hpos⟩ := Routines.exists_of_total_pos hsomebody
      unfold Pc.telling at hpos
      split at hpos
      · exact .inr (.inl hpc)
      · exact .inr (.inr hpc)
      · exact absurd hpos (by simp)

/-- A renewal has just stored a connection, and a reader still sleeps. -/
theorem reader_wakes_stored : ∃ p, (routines true).machine.Reachable p ∧
    .read (.asleep 0) ∈ p.threads ∧ p.shared.backendConn = some 0 ∧
    p.shared.broadcasts = 0 ∧ ∃ c, .renew (.broadcast c) ∈ p.threads := by
  obtain ⟨p, hp, htest⟩ := Routines.exists_of_exec (m := routines true)
    [.start (.read .lock), .run 0 .ok, .run 0 .ok, .run 0 .ok, .run 0 .ok, .run 0 .ok,
      .run 0 .ok, .run 0 .ok, .start (.renew .lock), .run 1 .ok, .run 1 .ok, .run 1 .ok,
      .run 1 .ok, .run 1 .ok, .run 1 .ok]
    (fun p => .read (.asleep 0) ∈ p.threads ∧ p.shared.backendConn = some 0 ∧
      p.shared.broadcasts = 0) rfl (by decide)
  obtain ⟨hreader, hconn, hnone⟩ := of_decide_eq_true htest
  refine ⟨p, hp, hreader, hconn, hnone, ?_⟩
  rcases reader_wakes hp hreader with hwoken | ⟨hempty | hdue, _⟩
  · omega
  · rw [hconn] at hempty
    exact absurd hempty (by simp)
  · exact hdue

/-- **`Close` ends the calls.** Once it has looked for the current connection, a call
still at work on a connection has it closed under it, unless a renewal stored that
connection behind `Close`. -/
theorem close_ends_calls (hp : (routines tcp).machine.Reachable p)
    (hswept : p.shared.swept = true) {c : Nat}
    (hcall : .read (.reading c) ∈ p.threads ∨ .write (.writing c) ∈ p.threads) :
    c ∈ p.shared.late ∨ c ∈ p.shared.closedConns ∨ ∃ pc ∈ p.threads, c ∈ pc.closing := by
  have hfollows : Follows p.shared c :=
    hcall.elim (fun h => holds_reachable p hp _ h) fun h => holds_reachable p hp _ h
  rcases hfollows with hconn | hdropped
  · exact .inl ((within_reachable hp).inv.late hswept c hconn)
  · exact .inr (dropped_closing hp hdropped)

/-- A reader is at work on the connection that `Close` has just taken out. -/
theorem close_ends_calls_reading : ∃ p, (routines true).machine.Reachable p ∧
    p.shared.late = [] ∧ p.shared.closedConns = [] ∧ .read (.reading 0) ∈ p.threads ∧
    ∃ pc ∈ p.threads, 0 ∈ pc.closing := by
  obtain ⟨p, hp, htest⟩ := Routines.exists_of_exec (m := routines true)
    [.start (.renew .lock), .run 0 .ok, .run 0 .ok, .run 0 .ok, .run 0 .ok, .run 0 .ok,
      .run 0 .ok, .start (.read .lock), .run 1 .ok, .run 1 .ok, .run 1 .ok, .run 0 .ok,
      .run 0 .ok, .start (.close .swapClosed), .run 2 .ok, .run 2 .ok, .run 2 .ok, .run 2 .ok,
      .run 2 .ok]
    (fun p => p.shared.late = [] ∧ p.shared.closedConns = [] ∧ p.shared.swept = true ∧
      .read (.reading 0) ∈ p.threads) rfl (by decide)
  obtain ⟨hlate, hclosed, hswept, hreading⟩ := of_decide_eq_true htest
  refine ⟨p, hp, hlate, hclosed, hreading, ?_⟩
  rcases close_ends_calls hp hswept (.inl hreading) with h | h | h
  · rw [hlate] at h
    exact absurd h (by simp)
  · rw [hclosed] at h
    exact absurd h (by simp)
  · exact h

end Tsshd.Proxy.ClientPath

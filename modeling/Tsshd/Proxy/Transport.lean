import Tsshd.Core.TSys
import Tsshd.Proxy.State

/-!
# The transports of one client

The three fields of a `clientState` that say how its client is reached:
`authedAddr`, `clientAddr` and `clientConn`. They are written by

* **UDP** — an authentication, a promotion and a client id mismatch in
  `readFrom`, and the authentication of `initConn`;
* **TCP** — `handshake`, and whoever finds a connection broken;
* **both** — `Close`, and the time-out callback of the client checker, which
  looks at all three, sleeps, and clears what it saw.

`Tsshd.Proxy.Server` has the same goroutines as programs, where what a
goroutine holds is hidden in the rest of its program. Here it is part of the
state: a `Routine` is a goroutine by its next access. What makes a goroutine
turn to the client is left open, so every arrival of packets is covered.
`Tsshd.Proxy.Follow` proves that every run of the programs is, for each client,
a run of this machine; the maps from addresses to clients are in
`Tsshd.Proxy.Index`.

`fresh` numbers the addresses `cloneNetAddr` makes and the connections that are
accepted. The history says when each field last got a value, when the callback
looked, and which handshakes won their serial number.
-/

namespace Tsshd.Proxy.Transport

/-- A field of the client that holds a transport. -/
inductive Part
  | authed
  | client
  | conn
deriving DecidableEq, Repr

/-! ## Routines -/

/-- `authenticate`: case 3 of `readFrom`, and `initConn`. -/
inductive AuthPc
  | closed
  | front
  | load
  | swap (old : Nat)
  /-- `cloneNetAddr`. -/
  | copy
  /-- `setAuthedAddr(nil, addr)` with the new copy of the address. -/
  | install (ref : Nat)
deriving DecidableEq, Repr

/-- The promotion in case 2 of `readFrom`. -/
inductive PromotePc
  | load
  | install (r : AddrRef)
  | clear
deriving DecidableEq, Repr

inductive HandshakePc
  | closed
  | load
  | swap (old : Nat)
  | ack
  | install
deriving DecidableEq, Repr

inductive TimeoutPc
  | authed
  | client
  | conn
  | sleep
  | clearAuthed
  | clearClient
  | clearConn
deriving DecidableEq, Repr

inductive ClosePc
  | closed
  | release
  | conn
  | client
  | authed
  | front
deriving DecidableEq, Repr

/-- What a load of the time-out callback returned; `time` is history. -/
structure Look (α : Type) where
  value : Option α
  time : Nat
deriving DecidableEq, Repr

/-- What the callback has loaded so far. -/
structure Seen where
  authed : Option (Look AddrRef) := none
  client : Option (Look AddrRef) := none
  conn : Option (Look Nat) := none
deriving DecidableEq, Repr

/-- A goroutine by its next access to the client. -/
inductive Routine
  | auth (pc : AuthPc) (addr : UDPAddr) (serial : Nat)
  /-- A repeated authentication packet; `old` once the number was loaded. -/
  | refresh (serial : Nat) (old : Option Nat)
  | promote (pc : PromotePc)
  | mismatch
  | handshake (pc : HandshakePc) (conn serial : Nat)
  | timeout (pc : TimeoutPc) (seen : Seen)
  | close (pc : ClosePc)
  /-- The end of a `readLoop`, a failed read or a failed write. -/
  | drop (conn : Nat)
  /-- Idle; the last number it drew is that of a connection it has accepted, or
  belongs to another client. -/
  | drawn (n : Nat)
  | done
deriving DecidableEq, Repr

/-! ## The system -/

structure Sys where
  client : Client
  /-- The next unused pointer or connection. -/
  fresh : Nat := 0
  closedConns : List Nat := []
  /-- The goroutines; the first is the reader, which handles one packet at a
  time. -/
  routines : List Routine := [.done]
  /-- History: the number of accesses so far. -/
  clock : Nat := 0
  /-- History: when a field last got a value. -/
  installedAt : Part → Nat := fun _ => 0
  /-- History: the handshakes that won their serial number, as connection and
  serial number, in that order. -/
  winners : List (Nat × Nat) := []

namespace Sys

/-- The goroutine at a position. -/
def At (s : Sys) (i : Nat) (r : Routine) : Prop := s.routines[i]? = some r

def stamp (s : Sys) (part : Part) (took : Bool) : Part → Nat :=
  if took then Function.update s.installedAt part s.clock else s.installedAt

/-- `setAuthedAddr`. -/
def setAuthedAddr (s : Sys) (old new : Option AddrRef) : Sys :=
  { s with
    client := s.client.swapAddr .authed old new
    installedAt := s.stamp .authed (new.isSome && (old = none || s.client.authedAddr = old)) }

/-- `setClientAddr`. -/
def setClientAddr (s : Sys) (old new : Option AddrRef) : Sys :=
  { s with
    client := s.client.swapAddr .client old new
    installedAt := s.stamp .client (new.isSome && (old = none || s.client.clientAddr = old)) }

def closeConn (s : Sys) (conn : Nat) : Sys := { s with closedConns := conn :: s.closedConns }

/-- `setClientConn` closes the connection it takes out. -/
def setClientConn (s : Sys) (old new : Option Nat) : Sys :=
  { s with
    client := s.client.swapConn old new
    closedConns := (s.client.replacedConn old).toList ++ s.closedConns
    installedAt := s.stamp .conn (new.isSome && (old = none || s.client.clientConn = old)) }

def modify (s : Sys) (f : Client → Client) : Sys := { s with client := f s.client }

end Sys

/-- The next access of a goroutine. `ok` is whether the acknowledgement went
out, and whether the client is still silent after the sleep. -/
def Routine.step (s : Sys) (ok : Bool) : Routine → Sys × Routine
  | .auth .closed addr serial =>
    (s, if s.client.closed then .done else .auth .front addr serial)
  | .auth .front addr serial =>
    (s.modify ({ · with udpFrontConn := true }), .auth .load addr serial)
  | .auth .load addr serial =>
    (s, if s.client.serialNumber < serial then
        .auth (.swap s.client.serialNumber) addr serial else .done)
  | .auth (.swap old) addr serial =>
    if s.client.serialNumber = old then
      (s.modify (·.casSerial old serial), .auth .copy addr serial)
    else (s, .done)
  | .auth .copy addr serial =>
    ({ s with fresh := s.fresh + 1 }, .auth (.install s.fresh) addr serial)
  | .auth (.install ref) addr serial =>
    (s.setAuthedAddr none (some ⟨ref, addr, serial⟩), .done)
  | .refresh serial none =>
    (s, if serial < s.client.serialNumber then .done
      else .refresh serial (some s.client.serialNumber))
  | .refresh serial (some old) => (s.modify (·.casSerial old serial), .done)
  | .promote .load =>
    (s, match s.client.authedAddr with
      | none => .done
      | some r => .promote (.install r))
  | .promote (.install r) => (s.setClientAddr none (some r), .promote .clear)
  | .promote .clear => (s.setAuthedAddr none none, .done)
  | .mismatch => (s.setAuthedAddr none none, .done)
  | .handshake .closed conn serial =>
    if s.client.closed then (s.closeConn conn, .done)
    else (s, .handshake .load conn serial)
  | .handshake .load conn serial =>
    if s.client.serialNumber < serial then
      (s, .handshake (.swap s.client.serialNumber) conn serial)
    else (s.closeConn conn, .done)
  | .handshake (.swap old) conn serial =>
    if s.client.serialNumber = old then
      ({ s.modify (·.casSerial old serial) with winners := s.winners ++ [(conn, serial)] },
        .handshake .ack conn serial)
    else (s.closeConn conn, .done)
  | .handshake .ack conn serial =>
    if ok then (s, .handshake .install conn serial) else (s.closeConn conn, .done)
  | .handshake .install conn _ => (s.setClientConn none (some conn), .done)
  | .timeout .authed seen =>
    (s, .timeout .client { seen with authed := some ⟨s.client.authedAddr, s.clock⟩ })
  | .timeout .client seen =>
    (s, .timeout .conn { seen with client := some ⟨s.client.clientAddr, s.clock⟩ })
  | .timeout .conn seen =>
    (s, .timeout .sleep { seen with conn := some ⟨s.client.clientConn, s.clock⟩ })
  | .timeout .sleep seen => (s, if ok then .timeout .clearAuthed seen else .done)
  | .timeout .clearAuthed seen =>
    (s.setAuthedAddr (seen.authed.bind (·.value)) none, .timeout .clearClient seen)
  | .timeout .clearClient seen =>
    (s.setClientAddr (seen.client.bind (·.value)) none, .timeout .clearConn seen)
  | .timeout .clearConn seen => (s.setClientConn (seen.conn.bind (·.value)) none, .done)
  | .close .closed =>
    if s.client.closed then (s, .done)
    else (s.modify ({ · with closed := true }), .close .release)
  | .close .release =>
    -- fields no transport depends on
    (s.modify ({ · with clientCond := false, server := none, kcpCrypto := false }),
      .close .conn)
  | .close .conn => (s.setClientConn none none, .close .client)
  | .close .client => (s.setClientAddr none none, .close .authed)
  | .close .authed => (s.setAuthedAddr none none, .close .front)
  | .close .front => (s.modify ({ · with udpFrontConn := false }), .done)
  | .drop conn => (s.setClientConn (some conn) none, .done)
  | .drawn n => (s, .drawn n)
  | .done => (s, .done)

/-- What a goroutine can turn to: the authentication of a packet, the callback,
`Close`, a connection it finds broken. The packets of an authenticated address
are the reader's. -/
def Routine.starts (reader : Bool) : Routine → Bool
  | .auth .closed _ _ | .close .closed | .drop _ => true
  | .timeout .authed seen => seen = {}
  | .refresh _ none | .promote .load | .mismatch => reader
  | _ => false

/-- The goroutine has nothing to do with the client. -/
def Routine.idle : Routine → Bool
  | .drawn _ | .done => true
  | _ => false

/-- An idle goroutine turns to the client. A connection becomes the client's
with its serial number. -/
def Routine.turns (reader : Bool) : Routine → Routine → Bool
  | .drawn conn, .handshake .closed conn' _ => conn = conn'
  | q, r => q.idle && r.starts reader

inductive Act
  | spawn
  | draw (i : Nat)
  | start (i : Nat) (r : Routine)
  | run (i : Nat) (ok : Bool)
deriving DecidableEq, Repr

def next (s : Sys) : Act → Option Sys
  | .spawn => some { s with routines := s.routines ++ [.done] }
  | .draw i =>
    if s.routines[i]?.any (·.idle) then
      some { s with routines := s.routines.set i (.drawn s.fresh), fresh := s.fresh + 1 }
    else none
  | .start i r =>
    if s.routines[i]?.any (·.turns (i = 0) r) then
      some { s with routines := s.routines.set i r }
    else none
  | .run i ok =>
    match s.routines[i]? with
    | none => none
    | some r =>
      let (t, r') := r.step s ok
      some { t with routines := t.routines.set i r', clock := t.clock + 1 }

def machine : TSys Sys Act where
  init s := ∃ args, s = { client := newClientState args }
  next := next

/-- A goroutine makes a number of accesses that all succeed. -/
def runs (i n : Nat) : List Act := List.replicate n (.run i true)

/-- A new goroutine accepts a connection and reads this serial number from it. -/
def accepts (i conn serial : Nat) : List Act :=
  [.spawn, .draw i, .start i (.handshake .closed conn serial)]

/-! ## Steps -/

/-- An access leaves the list of goroutines and the clock to `next`. -/
theorem Routine.step_frame (s : Sys) (ok : Bool) (r : Routine) :
    (r.step s ok).1.routines = s.routines ∧ (r.step s ok).1.clock = s.clock := by
  fun_cases Routine.step s ok r <;> exact ⟨rfl, rfl⟩

/-- What a step of a goroutine does: its access, and its new position in its
code. -/
theorem next_run {s t : Sys} {i : Nat} {ok : Bool} (h : next s (.run i ok) = some t) :
    ∃ r, s.At i r ∧
      t = { (r.step s ok).1 with
            routines := s.routines.set i (r.step s ok).2, clock := s.clock + 1 } := by
  simp only [next] at h
  split at h
  · cases h
  · rename_i r hr
    obtain ⟨hroutines, hclock⟩ := r.step_frame s ok
    cases h
    exact ⟨r, hr, by simp only [hroutines, hclock]⟩

/-- Who is where after one goroutine has moved. -/
theorem at_set {l : List Routine} {i j : Nat} {r' q : Routine}
    (h : (l.set i r')[j]? = some q) : j = i ∧ q = r' ∨ j ≠ i ∧ l[j]? = some q := by
  by_cases hij : j = i
  · subst hij
    have hlt : j < l.length := by
      have := (List.getElem?_eq_some_iff.mp h).1
      simpa using this
    rw [List.getElem?_set_self hlt, Option.some.injEq] at h
    exact .inl ⟨rfl, h.symm⟩
  · rw [List.getElem?_set_ne (Ne.symm hij)] at h
    exact .inr ⟨hij, h⟩

theorem at_set_self {l : List Routine} {i : Nat} {r r' : Routine} (h : l[i]? = some r) :
    (l.set i r')[i]? = some r' :=
  List.getElem?_set_self (List.getElem?_eq_some_iff.mp h).1

/-- Who is where after a goroutine has started. -/
theorem at_append {l : List Routine} {j : Nat} {r q : Routine} (h : (l ++ [r])[j]? = some q) :
    l[j]? = some q ∨ j = l.length ∧ q = r := by
  rcases Nat.lt_trichotomy j l.length with hj | hj | hj
  · rw [List.getElem?_append_left hj] at h
    exact .inl h
  · subst hj
    simp only [List.getElem?_concat_length, Option.some.injEq] at h
    exact .inr ⟨rfl, h.symm⟩
  · have : (l ++ [r]).length ≤ j := by
      rw [List.length_append]
      exact hj
    rw [List.getElem?_eq_none this] at h
    cases h

/-- The goroutine has not made its first access, or is idle. -/
def Routine.blank : Routine → Bool
  | .auth .closed _ _ | .close .closed | .drop _ | .refresh _ none | .promote .load | .mismatch
  | .handshake .closed _ _ | .drawn _ | .done => true
  | .timeout .authed seen => seen = {}
  | _ => false

/-- The pointer or connection a goroutine has made and not yet installed. -/
def Routine.owns : Routine → Option Nat
  | .auth (.install ref) _ _ => some ref
  | .handshake _ conn _ => some conn
  | .drawn n => some n
  | _ => none

/-- Position `k`, which was idle or is new, is now `r`. -/
structure Began (s t : Sys) (k : Nat) (r : Routine) : Prop where
  frame : t = { s with routines := t.routines, fresh := t.fresh }
  bound : s.fresh ≤ t.fresh
  blank : r.blank = true
  reader : r = .promote .load → k = 0
  owns : ∀ {n}, r.owns = some n → s.At k (.drawn n) ∨ n = s.fresh ∧ s.fresh < t.fresh
  others : ∀ {j q}, t.At j q → s.At j q ∨ j = k ∧ q = r
  still : ∀ {j q}, s.At j q → q.idle = false → t.At j q

theorem Routine.blank_of_starts {reader : Bool} {r : Routine} (h : r.starts reader = true) :
    r.blank = true ∧ r.owns = none ∧ (r = .promote .load → reader = true) := by
  fun_cases Routine.starts reader r <;> simp_all [Routine.starts, Routine.blank, Routine.owns]

theorem Routine.turns_cases {reader : Bool} {q r : Routine} (h : q.turns reader r = true) :
    q.idle = true ∧
      ((∃ conn serial, q = .drawn conn ∧ r = .handshake .closed conn serial) ∨
        r.starts reader = true) := by
  unfold Routine.turns at h
  split at h
  · rename_i conn conn' serial
    obtain rfl : conn = conn' := of_decide_eq_true h
    exact ⟨rfl, .inl ⟨conn, serial, rfl, rfl⟩⟩
  · obtain ⟨hidle, hstarts⟩ := (Bool.and_eq_true _ _).mp h
    exact ⟨hidle, .inr hstarts⟩

/-- An idle position is taken by a routine in front of its first access. -/
theorem began_set {s : Sys} {i n : Nat} {q r : Routine} (hq : s.At i q) (hidle : q.idle = true)
    (hn : s.fresh ≤ n) (hblank : r.blank = true) (hreader : r = .promote .load → i = 0)
    (howns : ∀ {m}, r.owns = some m → s.At i (.drawn m) ∨ m = s.fresh ∧ s.fresh < n) :
    Began s { s with routines := s.routines.set i r, fresh := n } i r where
  frame := rfl
  bound := hn
  blank := hblank
  reader := hreader
  owns := howns
  others h := (at_set h).symm.imp And.right id
  still {j p} hp hbusy := by
    have hij : i ≠ j := by
      rintro rfl
      cases Option.some.inj (hq.symm.trans hp)
      exact absurd (hidle.symm.trans hbusy) (by simp)
    exact (List.getElem?_set_ne hij).trans hp

/-- A step is an access of a goroutine, or one begins. -/
theorem next_cases {s t : Sys} {a : Act} (h : next s a = some t) :
    (∃ i ok, a = .run i ok) ∨ ∃ k r, Began s t k r := by
  cases a with
  | run i ok => exact .inl ⟨i, ok, rfl⟩
  | spawn =>
    cases h
    exact .inr ⟨_, .done, rfl, Nat.le_refl _, rfl, by simp, by simp [Routine.owns], at_append,
      fun hq _ => (List.getElem?_append_left (List.getElem?_eq_some_iff.mp hq).1).trans hq⟩
  | draw i =>
    simp only [next, Option.ite_none_right_eq_some, Option.any_eq_true] at h
    obtain ⟨⟨q, hq, hidle⟩, ht⟩ := h
    cases ht
    exact .inr ⟨i, _, began_set hq hidle (Nat.le_succ _) rfl (by simp)
      fun hm => .inr ⟨(Option.some.inj hm).symm, Nat.lt_succ_self _⟩⟩
  | start i r =>
    simp only [next, Option.ite_none_right_eq_some, Option.any_eq_true] at h
    obtain ⟨⟨q, hq, hturns⟩, ht⟩ := h
    cases ht
    obtain ⟨hidle, ⟨conn, serial, rfl, rfl⟩ | hstarts⟩ := Routine.turns_cases hturns
    · exact .inr ⟨i, _, began_set hq hidle (Nat.le_refl _) rfl (by simp)
        fun hm => .inl (Option.some.inj hm ▸ hq)⟩
    · obtain ⟨hblank, howns, hreader⟩ := Routine.blank_of_starts hstarts
      exact .inr ⟨i, r, began_set hq hidle (Nat.le_refl _) hblank
        (fun hr => of_decide_eq_true (hreader hr))
        fun hm => absurd (howns.symm.trans hm) (by simp)⟩

/-! ## What the fields hold -/

/-- The pointer or connection in a field. -/
def Sys.holds (s : Sys) : Part → Option Nat
  | .authed => s.client.authedAddr.map (·.ref)
  | .client => s.client.clientAddr.map (·.ref)
  | .conn => s.client.clientConn

/-- Each field is as before or nil. -/
def Shrinks (s t : Sys) : Prop := ∀ part, t.holds part = s.holds part ∨ t.holds part = none

theorem Shrinks.holds {s t : Sys} (h : Shrinks s t) {part : Part} {n : Nat}
    (hn : t.holds part = some n) : s.holds part = some n := by
  rcases h part with h | h
  · exact h ▸ hn
  · rw [h] at hn
    cases hn

section
variable (s : Sys)

theorem shrinks_refl {t : Sys} (h : t.client = s.client) : Shrinks s t := by
  intro part
  refine .inl ?_
  cases part <;> simp only [Sys.holds, h]

theorem shrinks_setAuthedAddr (old : Option AddrRef) : Shrinks s (s.setAuthedAddr old none) := by
  by_cases h : old = none ∨ s.client.get .authed = old
  · intro part
    cases part <;> simp [Sys.holds, Sys.setAuthedAddr, Client.swapAddr, h, Client.put]
  · exact shrinks_refl s (by simp only [Sys.setAuthedAddr, Client.swapAddr, h, if_false])

theorem shrinks_setClientAddr (old : Option AddrRef) : Shrinks s (s.setClientAddr old none) := by
  by_cases h : old = none ∨ s.client.get .client = old
  · intro part
    cases part <;> simp [Sys.holds, Sys.setClientAddr, Client.swapAddr, h, Client.put]
  · exact shrinks_refl s (by simp only [Sys.setClientAddr, Client.swapAddr, h, if_false])

theorem shrinks_setClientConn (old : Option Nat) : Shrinks s (s.setClientConn old none) := by
  by_cases h : old = none ∨ s.client.clientConn = old
  · intro part
    cases part <;> simp [Sys.holds, Sys.setClientConn, Client.swapConn, h]
  · exact shrinks_refl s (by simp only [Sys.setClientConn, Client.swapConn, h, if_false])

theorem shrinks_casSerial {t : Sys} {old new : Nat} (h : t.client = s.client.casSerial old new) :
    Shrinks s t := by
  intro part
  refine .inl ?_
  cases part <;> simp only [Sys.holds, h, Client.casSerial] <;> split <;> rfl

/-- The goroutine is about to put something into a field. -/
def Routine.installs : Routine → Bool
  | .auth (.install _) _ _ | .promote (.install _) | .handshake .install _ _ => true
  | _ => false

variable (ok : Bool) {r : Routine}

/-- A goroutine that installs nothing leaves every field alone or clears it. -/
theorem Routine.step_slots (h : r.installs = false) :
    Shrinks s (r.step s ok).1 ∧ (r.step s ok).1.installedAt = s.installedAt := by
  fun_cases Routine.step s ok r <;>
    first
      | cases h; done
      | exact ⟨shrinks_refl s rfl, rfl⟩
      | exact ⟨shrinks_casSerial s rfl, rfl⟩
      | exact ⟨shrinks_setAuthedAddr s _, rfl⟩
      | exact ⟨shrinks_setClientAddr s _, rfl⟩
      | exact ⟨shrinks_setClientConn s _, rfl⟩
      | exact ⟨fun part => .inl (by cases part <;> rfl), rfl⟩

end

/-! ## Numbers that are not installed yet -/

/-- A number belongs to one goroutine. -/
structure Owned (s : Sys) : Prop where
  lt : ∀ {i r n}, s.At i r → r.owns = some n → n < s.fresh
  once : ∀ {i j r q n}, s.At i r → s.At j q → r.owns = some n → q.owns = some n → i = j

/-- An access makes the next number or none. -/
theorem Routine.step_owns (s : Sys) (ok : Bool) (r : Routine) {n : Nat}
    (h : (r.step s ok).2.owns = some n) :
    r.owns = some n ∧ (r.step s ok).1.fresh = s.fresh ∨
      n = s.fresh ∧ (r.step s ok).1.fresh = s.fresh + 1 := by
  fun_cases Routine.step s ok r <;>
    simp_all [Routine.step, Routine.owns, Sys.modify] <;> grind [Routine.owns]

theorem Routine.step_draws (s : Sys) (ok : Bool) (r : Routine) :
    (r.step s ok).1.fresh = s.fresh ∨ (r.step s ok).1.fresh = s.fresh + 1 := by
  fun_cases Routine.step s ok r <;> first | exact .inl rfl | exact .inr rfl

theorem Routine.step_fresh (s : Sys) (ok : Bool) (r : Routine) :
    s.fresh ≤ (r.step s ok).1.fresh := by
  have := r.step_draws s ok
  omega

/-- Ownership survives when at most one goroutine, at position `k`, gets a
number, and that is the next one. -/
theorem Owned.extend {s t : Sys} (h : Owned s) (k : Nat) (hfresh : s.fresh ≤ t.fresh)
    (howns : ∀ {j q n}, t.At j q → q.owns = some n →
      (∃ r, s.At j r ∧ r.owns = some n) ∨ j = k ∧ n = s.fresh ∧ s.fresh < t.fresh) :
    Owned t := by
  constructor
  · intro j q n hq hn
    rcases howns hq hn with ⟨r, hr, hrn⟩ | ⟨-, rfl, hlt⟩
    · exact Nat.lt_of_lt_of_le (h.lt hr hrn) hfresh
    · exact hlt
  · intro i j q p n hq hp hqn hpn
    rcases howns hq hqn with ⟨r, hr, hrn⟩ | ⟨rfl, rfl, -⟩ <;>
      rcases howns hp hpn with ⟨r', hr', hrn'⟩ | ⟨rfl, hn, -⟩
    · exact h.once hr hr' hrn hrn'
    · exact absurd (h.lt hr hrn) (by omega)
    · exact absurd (h.lt hr' hrn') (by omega)
    · rfl

theorem Owned.next {s t : Sys} {a : Act} (h : Owned s) (hn : next s a = some t) : Owned t := by
  rcases next_cases hn with ⟨i, ok, rfl⟩ | ⟨k, r, hb⟩
  · obtain ⟨r, hr, rfl⟩ := next_run hn
    refine h.extend i (r.step_fresh s ok) ?_
    intro j q n hq hqn
    rcases at_set hq with ⟨rfl, rfl⟩ | ⟨-, hq⟩
    · rcases Routine.step_owns s ok r hqn with ⟨hown, -⟩ | ⟨rfl, hfresh⟩
      · exact .inl ⟨r, hr, hown⟩
      · refine .inr ⟨rfl, rfl, ?_⟩
        show s.fresh < (r.step s ok).1.fresh
        omega
    · exact .inl ⟨q, hq, hqn⟩
  · refine h.extend k hb.bound ?_
    intro j q n hq hqn
    rcases hb.others hq with hq | ⟨rfl, rfl⟩
    · exact .inl ⟨q, hq, hqn⟩
    · rcases hb.owns hqn with hdrawn | ⟨rfl, hlt⟩
      · exact .inl ⟨_, hdrawn, rfl⟩
      · exact .inr ⟨rfl, rfl, hlt⟩

/-- At first there is only a goroutine that has ended. -/
theorem done_of_init {args : Args} {i : Nat} {r : Routine}
    (h : Sys.At { client := newClientState args } i r) : r = .done := by
  rcases i with _ | i
  · exact (Option.some.inj h).symm
  · cases h

theorem owned_init {s : Sys} (h : machine.init s) : Owned s := by
  obtain ⟨args, rfl⟩ := h
  constructor
  · intro i r n hr hn
    rw [done_of_init hr] at hn
    cases hn
  · intro i j r q n hr _ hn _
    rw [done_of_init hr] at hn
    cases hn

end Tsshd.Proxy.Transport

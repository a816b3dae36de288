import Tsshd.Proxy.Contracts
import Mathlib.Data.List.Pairwise

/-!
# Replays do not move a client

An authentication packet can be caught and sent again by anyone, from any
address. The serial number in it is what makes a packet good for one address
only: an address becomes the authenticated one of a client on a packet newer
than all that were accepted before, and takes effect only from there.

The reader of the UDP frontend is the one goroutine that accepts packets, but
for one moment: `initConn` stores the socket before it has dealt with the packet
that chose it, so a reader that looks at the socket just then runs beside it.

* **the race** — `returned_from_stale_address`: both accept a packet, and the
  older one is installed last;
* **replay safety** — `replay_safe`: in every run in which the reader does not
  start in that moment, serial numbers grow, one packet installs one address
  once, and what is returned came from the address in effect.
-/

namespace Tsshd.Proxy

open Assertion

/-! ## What holds of a client -/

/-- A packet with this serial number has arrived from this address. -/
def Arrived (s : Shared) (c serial : Nat) (addr : UDPAddr) : Prop :=
  ∃ d ∈ s.arrived, d.auth = some (c, serial) ∧ d.source = addr

/-- The address `r` comes from a packet of client `c` that is newer than every
packet accepted before, and than every one that gave an address. -/
structure Newest (s : Shared) (c : Nat) (r : AddrRef) : Prop where
  accepted : ∃ earlier, (s.clients c).accepted = earlier ++ [r.serial] ∧
    ∀ n ∈ earlier, n < r.serial
  authed : ∀ q ∈ (s.clients c).authed, q.serial < r.serial
  arrived : Arrived s c r.serial r.addr

/-- The address in effect, or last in effect if a clean-up took it away, is
this one. -/
def InEffect (clientAddr effective : Option AddrRef) (addr : UDPAddr) : Prop :=
  ∃ r, effective = some r ∧ isSameAddr (some r) addr = true ∧
    (clientAddr = some r ∨ clientAddr = none)

structure ClientInv (s : Shared) (c : Nat) : Prop where
  bounded : ∀ n ∈ (s.clients c).accepted, n ≤ (s.clients c).serialNumber
  increasing : ((s.clients c).authed.map (·.serial)).Pairwise (· < ·)
  authed : ∀ r ∈ (s.clients c).authed,
    r.serial ∈ (s.clients c).accepted ∧ Arrived s c r.serial r.addr
  authedAddr : ∀ r, (s.clients c).authedAddr = some r → r ∈ (s.clients c).authed
  clientAddr : ∀ r, (s.clients c).clientAddr = some r →
    r ∈ (s.clients c).authed ∧ (s.clients c).effective = some r

/-- Authentication packets come from clients, however they got here. -/
def Genuine (s : Shared) : Prop := ∀ d ∈ s.arrived, ∀ a, d.auth = some a → a ∈ s.produced

structure AuthInv (s : Shared) : Prop where
  clients : ∀ c, ClientInv s c
  genuine : Genuine s
  returned : ∀ e ∈ s.returned, ∀ d, e.packet = .datagram d →
    InEffect e.clientAddr e.effective d.source

/-! ## What a step does -/

/-- A step that accepts and installs nothing; it may clear addresses. -/
structure Client.Quiet (c d : Client) : Prop where
  serialNumber : d.serialNumber = c.serialNumber
  accepted : d.accepted = c.accepted
  authed : d.authed = c.authed
  effective : d.effective = c.effective
  clientAddr : d.clientAddr = c.clientAddr ∨ d.clientAddr = none
  authedAddr : d.authedAddr = c.authedAddr ∨ d.authedAddr = none

structure Quiet (s t : Shared) : Prop where
  clients : ∀ c, (s.clients c).Quiet (t.clients c)
  arrived : ∀ d ∈ s.arrived, d ∈ t.arrived
  genuine : Genuine s → Genuine t
  returned : t.returned = s.returned

/-- What every step does: it keeps the invariant, takes no serial number back,
and makes an address the authenticated one only from the newest packet. -/
structure StepSafe (s t : Shared) : Prop where
  inv : AuthInv s → AuthInv t
  serial : ∀ c, (s.clients c).serialNumber ≤ (t.clients c).serialNumber
  installs : ∀ c r, (t.clients c).authedAddr = some r → (s.clients c).authedAddr ≠ some r →
    Newest s c r
  arrived : ∀ d ∈ s.arrived, d ∈ t.arrived

theorem Client.Quiet.refl (c : Client) : c.Quiet c := ⟨rfl, rfl, rfl, rfl, .inl rfl, .inl rfl⟩

theorem Client.Quiet.trans {c d e : Client} (h : c.Quiet d) (h' : d.Quiet e) : c.Quiet e where
  serialNumber := h'.serialNumber.trans h.serialNumber
  accepted := h'.accepted.trans h.accepted
  authed := h'.authed.trans h.authed
  effective := h'.effective.trans h.effective
  clientAddr := by
    rcases h'.clientAddr with h' | h'
    · exact h'.symm ▸ h.clientAddr
    · exact .inr h'
  authedAddr := by
    rcases h'.authedAddr with h' | h'
    · exact h'.symm ▸ h.authedAddr
    · exact .inr h'

section

variable {s t u : Shared}

theorem Arrived.mono {c serial : Nat} {addr : UDPAddr} (h : Arrived s c serial addr)
    (hst : ∀ d ∈ s.arrived, d ∈ t.arrived) : Arrived t c serial addr := by
  obtain ⟨d, hd, hauth, hsource⟩ := h
  exact ⟨d, hst d hd, hauth, hsource⟩

theorem Arrived.quiet {c serial : Nat} {addr : UDPAddr} (h : Arrived s c serial addr)
    (hq : Quiet s t) : Arrived t c serial addr := h.mono hq.arrived

theorem Newest.quiet {c : Nat} {r : AddrRef} (h : Newest s c r) (hq : Quiet s t) :
    Newest t c r where
  accepted := by
    rw [(hq.clients c).accepted]
    exact h.accepted
  authed := by
    rw [(hq.clients c).authed]
    exact h.authed
  arrived := h.arrived.quiet hq

theorem InEffect.quiet {c : Nat} {addr : UDPAddr} (hq : Quiet s t)
    (h : InEffect (s.clients c).clientAddr (s.clients c).effective addr) :
    InEffect (t.clients c).clientAddr (t.clients c).effective addr := by
  obtain ⟨r, heff, hsame, haddr⟩ := h
  refine ⟨r, (hq.clients c).effective.trans heff, hsame, ?_⟩
  rcases (hq.clients c).clientAddr with h' | h'
  · exact h'.symm ▸ haddr
  · exact .inr h'

theorem ClientInv.quiet {c : Nat} (h : ClientInv s c) (hq : Quiet s t) : ClientInv t c := by
  have hc := hq.clients c
  refine ⟨?_, ?_, fun r hr => ?_, fun r hr => ?_, fun r hr => ?_⟩
  · rw [hc.accepted, hc.serialNumber]
    exact h.bounded
  · rw [hc.authed]
    exact h.increasing
  · rw [hc.authed] at hr
    rw [hc.accepted]
    exact ⟨(h.authed r hr).1, (h.authed r hr).2.quiet hq⟩
  · rcases hc.authedAddr with h' | h'
    · rw [hc.authed]
      exact h.authedAddr r (h'.symm.trans hr)
    · exact absurd (h'.symm.trans hr) (by simp)
  · rcases hc.clientAddr with h' | h'
    · rw [hc.authed, hc.effective]
      exact h.clientAddr r (h'.symm.trans hr)
    · exact absurd (h'.symm.trans hr) (by simp)

theorem Quiet.stepSafe (hq : Quiet s t) : StepSafe s t where
  inv h := ⟨fun c => (h.clients c).quiet hq, hq.genuine h.genuine, by
    rw [hq.returned]
    exact h.returned⟩
  serial c := Nat.le_of_eq (hq.clients c).serialNumber.symm
  installs c r hr hne := by
    rcases (hq.clients c).authedAddr with h' | h'
    · exact absurd (h'.symm.trans hr) hne
    · exact absurd (h'.symm.trans hr) (by simp)
  arrived := hq.arrived

theorem Quiet.refl (s : Shared) : Quiet s s :=
  ⟨fun _ => .refl _, fun _ => id, id, rfl⟩

theorem Quiet.trans (h : Quiet s t) (h' : Quiet t u) : Quiet s u where
  clients c := (h.clients c).trans (h'.clients c)
  arrived d hd := h'.arrived d (h.arrived d hd)
  genuine hg := h'.genuine (h.genuine hg)
  returned := h'.returned.trans h.returned

theorem Quiet.update_at {c : Nat} {f : Client → Client}
    (hf : (s.clients c).Quiet (f (s.clients c))) : Quiet s (s.update c f) where
  clients := Shared.update_forall (P := fun d x => (s.clients d).Quiet x) hf
    fun _ _ => .refl _
  arrived _ := id
  genuine := id
  returned := rfl

theorem Client.Quiet.swapConn (c : Client) (old new : Option Nat) : c.Quiet (c.swapConn old new) := by
  unfold Client.swapConn
  split
  · exact ⟨rfl, rfl, rfl, rfl, .inl rfl, .inl rfl⟩
  · exact .refl c

theorem Client.Quiet.clear (c : Client) (slot : Slot) (old : Option AddrRef) :
    c.Quiet (c.swapAddr slot old none) := by
  unfold Client.swapAddr
  split
  · cases slot with
    | client => exact ⟨rfl, rfl, rfl, rfl, .inr rfl, .inl rfl⟩
    | authed => exact ⟨rfl, rfl, rfl, rfl, .inl rfl, .inr rfl⟩
  · exact .refl c

/-! ## Contracts -/

/-- The socket is there and the `initConn` that stored it has left. -/
def Open (s : Shared) : Prop := ∃ k, s.conn = some k ∧ s.initMutex ≠ some k

/-- The `initConn` of socket `k` has stored it and not left. -/
def Owned (k : Nat) (s : Shared) : Prop := s.conn = some k ∧ s.initMutex = some k

/-- Once the socket is open, the reader is the only one who accepts. -/
def readerContract : Contract Shared where
  rely s t := Open s → Open t ∧ Quiet s t
  guar s t := t.conn = s.conn ∧ t.initMutex = s.initMutex ∧ StepSafe s t ∧
    (¬ Open s → Quiet s t)
  rely_refl s h := ⟨h, .refl s⟩
  rely_trans h h' hs := ⟨(h' (h hs).1).1, (h hs).2.trans (h' (h hs).1).2⟩
  guar_refl s := ⟨rfl, rfl, (Quiet.refl s).stepSafe, fun _ => .refl s⟩

structure ProbeRely (k : Nat) (s t : Shared) : Prop where
  mutex : s.initMutex = some k ↔ t.initMutex = some k
  conn : s.conn = some k ↔ t.conn = some k
  held : s.initMutex = some k → t.conn = s.conn
  arrived : ∀ d ∈ s.arrived, d ∈ t.arrived
  quiet : Owned k s → Quiet s t

structure ProbeGuar (k : Nat) (s t : Shared) : Prop where
  mutex : ∀ j, j ≠ k → (s.initMutex = some j ↔ t.initMutex = some j)
  conn : ∀ j, j ≠ k → (s.conn = some j ↔ t.conn = some j)
  held : ∀ j, j ≠ k → s.initMutex = some j → t.conn = s.conn
  isOpen : Open s → Open t
  step : StepSafe s t
  quiet : ¬ Owned k s → Quiet s t

theorem ProbeRely.owned {k : Nat} (h : ProbeRely k s t) (hs : Owned k s) : Owned k t :=
  ⟨h.conn.mp hs.1, h.mutex.mp hs.2⟩

/-- Under `initMutex`, with its own socket stored, `initConn` is the only one
who accepts. Goroutines that never do keep the same contract. -/
def probeContract (k : Nat) : Contract Shared where
  rely := ProbeRely k
  guar := ProbeGuar k
  rely_refl s := ⟨.rfl, .rfl, fun _ => rfl, fun _ => id, fun _ => .refl s⟩
  rely_trans h h' := ⟨h.mutex.trans h'.mutex, h.conn.trans h'.conn,
    fun hs => (h'.held (h.mutex.mp hs)).trans (h.held hs),
    fun d hd => h'.arrived d (h.arrived d hd),
    fun hs => (h.quiet hs).trans (h'.quiet (h.owned hs))⟩
  guar_refl s := ⟨fun _ _ => .rfl, fun _ _ => .rfl, fun _ _ _ => rfl, id,
    (Quiet.refl s).stepSafe, fun _ => .refl s⟩

/-- A goroutine that is the only one to accept as long as `Mine` holds. -/
structure Active (C : Contract Shared) (Mine : Shared → Prop) : Prop where
  keep : ∀ {s t}, Mine s → C.rely s t → Mine t ∧ Quiet s t
  frame : ∀ {s t}, t.conn = s.conn → t.initMutex = s.initMutex → Mine s → Mine t
  step : ∀ {s t}, t.conn = s.conn → t.initMutex = s.initMutex → Mine s → StepSafe s t →
    C.guar s t

theorem reader_active : Active readerContract Open where
  keep hs hst := hst hs
  frame hconn hmutex := fun ⟨k, hk, hne⟩ => ⟨k, hconn.trans hk, hmutex.symm ▸ hne⟩
  step hconn hmutex hs hstep := ⟨hconn, hmutex, hstep, fun hn => absurd hs hn⟩

/-- A step that leaves the socket and the mutex alone. -/
theorem ProbeGuar.of_same {k : Nat} (hconn : t.conn = s.conn) (hmutex : t.initMutex = s.initMutex)
    (hstep : StepSafe s t) (hquiet : ¬ Owned k s → Quiet s t) : ProbeGuar k s t where
  mutex _ _ := by rw [hmutex]
  conn _ _ := by rw [hconn]
  held _ _ _ := hconn
  isOpen := reader_active.frame hconn hmutex
  step := hstep
  quiet := hquiet

theorem probe_active (k : Nat) : Active (probeContract k) (Owned k) where
  keep hs hst := ⟨hst.owned hs, hst.quiet hs⟩
  frame hconn hmutex hs := ⟨hconn.trans hs.1, hmutex.trans hs.2⟩
  step hconn hmutex hs hstep := .of_same hconn hmutex hstep fun hn => absurd hs hn

theorem reader_quiet (hq : Quiet s t) (hconn : t.conn = s.conn)
    (hmutex : t.initMutex = s.initMutex) : readerContract.guar s t :=
  ⟨hconn, hmutex, hq.stepSafe, fun _ => hq⟩

theorem probe_quiet {k : Nat} (hq : Quiet s t) (hconn : t.conn = s.conn)
    (hmutex : t.initMutex = s.initMutex) : (probeContract k).guar s t :=
  .of_same hconn hmutex hq.stepSafe fun _ => hq

end

/-- Bookkeeping is quiet. -/
theorem housekeeping_of_quiet {C : Contract Shared} {J : Assertion C}
    (h : ∀ s t, Quiet s t → t.conn = s.conn → t.initMutex = s.initMutex → J.Admits s t) :
    Housekeeping J := by
  have hsame : ∀ s t : Shared, t.clients = s.clients → t.arrived = s.arrived →
      t.produced = s.produced → t.returned = s.returned → t.conn = s.conn →
      t.initMutex = s.initMutex → J.Admits s t := fun s t hc ha hp hr =>
    h s t ⟨fun c => hc ▸ .refl _, fun d hd => ha ▸ hd, fun hg d hd a => by
      rw [hp]
      exact hg d (ha ▸ hd) a, hr⟩
  have hupdate : ∀ s c (f : Client → Client), (∀ x : Client, x.Quiet (f x)) →
      J.Admits s (s.update c f) := fun s c f hf => h _ _ (.update_at (hf _)) rfl rfl
  exact {
    index := fun s _ _ slot => by
      cases slot <;> exact hsame s _ rfl rfl rfl rfl rfl rfl
    created := fun s _ => hsame s _ rfl rfl rfl rfl rfl rfl
    cache := fun s _ => hsame s _ rfl rfl rfl rfl rfl rfl
    signals := fun s _ => hsame s _ rfl rfl rfl rfl rfl rfl
    acks := fun s _ => hsame s _ rfl rfl rfl rfl rfl rfl
    conns := fun s _ => hsame s _ rfl rfl rfl rfl rfl rfl
    fresh := fun s _ => hsame s _ rfl rfl rfl rfl rfl rfl
    notified := fun s _ => hsame s _ rfl rfl rfl rfl rfl rfl
    swapConn := fun s c old new => hupdate s c _ fun x => .swapConn x old new
    clear := fun s c slot old => hupdate s c _ fun x => .clear x slot old
    cond := fun s c _ => hupdate s c _ fun _ => ⟨rfl, rfl, rfl, rfl, .inl rfl, .inl rfl⟩
    server := fun s c _ => hupdate s c _ fun _ => ⟨rfl, rfl, rfl, rfl, .inl rfl, .inl rfl⟩
    front := fun s c _ => hupdate s c _ fun _ => ⟨rfl, rfl, rfl, rfl, .inl rfl, .inl rfl⟩ }

namespace Active

variable {C : Contract Shared} {Mine : Shared → Prop}

theorem update (h : Active C Mine) {s : Shared} (c : Nat) (f : Client → Client) (hs : Mine s) :
    Mine (s.update c f) :=
  h.frame (s := s) rfl rfl hs

/-- What an active goroutine knows: facts no quiet step takes away. -/
def knows (h : Active C Mine) (F : Shared → Prop) (hF : ∀ s t, F s → Quiet s t → F t) :
    Assertion C where
  holds s := Mine s ∧ F s
  stable hs hst := ⟨(h.keep hs.1 hst).1, hF _ _ hs.2 (h.keep hs.1 hst).2⟩

theorem housekeeping (h : Active C Mine) {F : Shared → Prop}
    (hF : ∀ s t, F s → Quiet s t → F t) : Housekeeping (h.knows F hF) :=
  housekeeping_of_quiet fun s t hq hconn hmutex hs =>
    ⟨h.step hconn hmutex hs.1 hq.stepSafe, h.frame hconn hmutex hs.1, hF s t hs.2 hq⟩

end Active

/-! ## The accesses that accept -/

section Steps

variable {s t : Shared} {c : Nat} {r : AddrRef}

theorem AuthInv.update {f : Client → Client} (h : AuthInv s)
    (hc : ClientInv (s.update c f) c) : AuthInv (s.update c f) where
  clients d := by
    by_cases hd : d = c
    · exact hd ▸ hc
    · have := h.clients d
      constructor <;> rw [s.update_of_ne f hd]
      · exact this.bounded
      · exact this.increasing
      · exact this.authed
      · exact this.authedAddr
      · exact this.clientAddr
  genuine := h.genuine
  returned := h.returned

theorem update_serial_le {f : Client → Client}
    (hf : (s.clients c).serialNumber ≤ (f (s.clients c)).serialNumber) (d : Nat) :
    (s.clients d).serialNumber ≤ ((s.update c f).clients d).serialNumber :=
  Shared.update_forall (P := fun d x => (s.clients d).serialNumber ≤ x.serialNumber) hf
    (fun _ _ => Nat.le_refl _) d

/-- An update of one client that makes no other address the authenticated one
than `r`. -/
theorem update_installs {f : Client → Client}
    (hf : ∀ q, (f (s.clients c)).authedAddr = some q → (s.clients c).authedAddr ≠ some q →
      Newest s c q) (d : Nat) (q : AddrRef) :
    ((s.update c f).clients d).authedAddr = some q → (s.clients d).authedAddr ≠ some q →
      Newest s d q :=
  Shared.update_forall (P := fun d x => x.authedAddr = some q →
    (s.clients d).authedAddr ≠ some q → Newest s d q) (hf q) (fun _ _ h hn => absurd h hn) d

theorem casSerial_safe {old new : Nat} (hle : old ≤ new) :
    StepSafe s (s.update c (·.casSerial old new)) := by
  by_cases hold : (s.clients c).serialNumber = old
  · have hcas : (s.clients c).casSerial old new =
        { s.clients c with
          serialNumber := new, accepted := (s.clients c).accepted ++ [new] } := if_pos hold
    refine ⟨fun h => h.update ?_, update_serial_le ?_, update_installs fun q hq hn => ?_,
      fun _ => id⟩
    · obtain ⟨hbounded, hincreasing, hauthed, hauthedAddr, hclientAddr⟩ := h.clients c
      constructor <;> simp only [Shared.update_self, hcas]
      · intro n hn
        rcases List.mem_append.mp hn with hn | hn
        · exact Nat.le_trans (hbounded n hn) (hold ▸ hle)
        · exact Nat.le_of_eq (List.mem_singleton.mp hn)
      · exact hincreasing
      · exact fun q hq => ⟨List.mem_append_left _ (hauthed q hq).1, (hauthed q hq).2⟩
      · exact hauthedAddr
      · exact hclientAddr
    · rw [hcas, hold]
      exact hle
    · rw [hcas] at hq
      exact absurd hq hn
  · refine (Quiet.update_at ?_).stepSafe
    rw [show (s.clients c).casSerial old new = s.clients c from if_neg hold]
    exact .refl _

theorem install_safe (h : Newest s c r) :
    StepSafe s (s.update c (·.swapAddr .authed none (some r))) := by
  have hswap : (s.clients c).swapAddr .authed none (some r) =
      { s.clients c with
        authedAddr := some r, authed := (s.clients c).authed ++ [r] } := if_pos (.inl rfl)
  refine ⟨fun hs => hs.update ?_, update_serial_le ?_, update_installs fun q hq _ => ?_,
    fun _ => id⟩
  · obtain ⟨hbounded, hincreasing, hauthed, hauthedAddr, hclientAddr⟩ := hs.clients c
    obtain ⟨earlier, haccepted, _⟩ := h.accepted
    constructor <;> simp only [Shared.update_self, hswap]
    · exact hbounded
    · rw [List.map_append, List.pairwise_append]
      refine ⟨hincreasing, List.pairwise_singleton _ _, fun a ha b hb => ?_⟩
      obtain ⟨q, hq, rfl⟩ := List.mem_map.mp ha
      rw [List.mem_singleton.mp hb]
      exact h.authed q hq
    · intro q hq
      rcases List.mem_append.mp hq with hq | hq
      · exact hauthed q hq
      · rw [List.mem_singleton.mp hq, haccepted]
        exact ⟨List.mem_append_right _ (List.mem_singleton_self _), h.arrived⟩
    · intro q hq
      rw [← Option.some.inj hq]
      exact List.mem_append_right _ (List.mem_singleton_self _)
    · exact fun q hq => ⟨List.mem_append_left _ (hclientAddr q hq).1, (hclientAddr q hq).2⟩
  · refine Nat.le_of_eq ?_
    rw [hswap]
  · rw [hswap] at hq
    exact Option.some.inj hq ▸ h

theorem activate_safe (h : r ∈ (s.clients c).authed) :
    StepSafe s (s.update c (·.swapAddr .client none (some r))) := by
  have hswap : (s.clients c).swapAddr .client none (some r) =
      { s.clients c with clientAddr := some r, effective := some r } := if_pos (.inl rfl)
  refine ⟨fun hs => hs.update ?_, update_serial_le ?_, update_installs fun q hq hn => ?_,
    fun _ => id⟩
  · obtain ⟨hbounded, hincreasing, hauthed, hauthedAddr, _⟩ := hs.clients c
    constructor <;> simp only [Shared.update_self, hswap]
    · exact hbounded
    · exact hincreasing
    · exact hauthed
    · exact hauthedAddr
    · exact fun q hq => ⟨Option.some.inj hq ▸ h, hq⟩
  · refine Nat.le_of_eq ?_
    rw [hswap]
  · rw [hswap] at hq
    exact absurd hq hn

end Steps

/-! ## Authentication -/

section Programs

variable {asm : Label → Shared → Prop} {args : Args} {s : Shared}

theorem quiet_arrived {d : Datagram} (hd : s.mayArrive d.auth = true) :
    Quiet s { s with arrived := d :: s.arrived } where
  clients _ := .refl _
  arrived _ := List.mem_cons_of_mem d
  genuine hg e he a ha := by
    rcases List.mem_cons.mp he with rfl | he
    · rw [Shared.mayArrive, ha, Option.all_some] at hd
      exact of_decide_eq_true hd
    · exact hg e he a ha
  returned := rfl

/-- A serial number that won the compare-and-swap is the newest one. -/
theorem newest_of_won {c old serial : Nat} {addr : UDPAddr} (hs : AuthInv s)
    (harr : Arrived s c serial addr) (hlt : old < serial)
    (hwon : (s.clients c).serialNumber = old) (ref : Nat) :
    Newest (s.update c (·.casSerial old serial)) c ⟨ref, addr, serial⟩ := by
  have hcas : (s.clients c).casSerial old serial =
      { s.clients c with
        serialNumber := serial, accepted := (s.clients c).accepted ++ [serial] } := if_pos hwon
  have hbefore : ∀ n ∈ (s.clients c).accepted, n < serial := fun n hn =>
    Nat.lt_of_le_of_lt ((hs.clients c).bounded n hn) (hwon ▸ hlt)
  refine ⟨⟨(s.clients c).accepted, ?_, hbefore⟩, fun q hq => ?_, harr⟩
  · rw [Shared.update_self, hcas]
  · rw [Shared.update_self, hcas] at hq
    exact hbefore _ ((hs.clients c).authed q hq).1

variable {C : Contract Shared} {Mine : Shared → Prop}

theorem authenticate_safe (hA : Active C Mine) (hasm : ∀ l s, asm l s → AuthInv s)
    {c serial : Nat} {addr : UDPAddr} (hs : Mine s) (harr : Arrived s c serial addr) :
    C.Safe asm (fun _ t => Mine t) (Udp.authenticate args c addr serial) s := by
  let known := hA.knows (fun s => Arrived s c serial addr) fun _ _ h hq => h.quiet hq
  have hk : Housekeeping known := hA.housekeeping _
  have hskip : ∀ t, Mine t → ∀ u, C.rely t u → Mine u := fun t ht u hu => (hA.keep ht hu).1
  have h0 : known.holds s := ⟨hs, harr⟩
  refine .load fun t ht _ => .when (fun _ => ?_) fun _ => hskip t (known.stable h0 ht).1
  refine .store fun u hu _ => ?_
  obtain ⟨hguar, h1⟩ := hk.front u c true (known.stable (known.stable h0 ht) hu)
  refine ⟨hguar, .load fun v hv _ => ?_⟩
  have h2 := known.stable h1 hv
  refine .when (fun hlt => ?_) fun _ => hskip v h2.1
  replace hlt : (v.clients c).serialNumber < serial := of_decide_eq_true hlt
  refine .exchange fun w hw hinv => ?_
  have h3 := known.stable h2 hw
  have hmine : Mine (w.update c (·.casSerial (v.clients c).serialNumber serial)) :=
    hA.update c _ h3.1
  refine ⟨hA.step rfl rfl h3.1 (casSerial_safe (Nat.le_of_lt hlt)), ?_⟩
  refine .when (fun hwon => ?_) fun _ => hskip _ hmine
  -- accepted: nothing newer can be accepted before the address is stored
  let newest := hA.knows (fun s => ∀ ref, Newest s c ⟨ref, addr, serial⟩)
    fun _ _ h hq ref => (h ref).quiet hq
  have h4 : newest.holds (w.update c (·.casSerial (v.clients c).serialNumber serial)) :=
    ⟨hmine, newest_of_won (hasm _ _ hinv) h3.2 hlt (of_decide_eq_true hwon)⟩
  refine .bind (((hA.housekeeping _).alloc (J := newest) _ h4).weaken fun ref x hx => ?_)
  have hset : Housekeeping (hA.knows (fun _ => True) fun _ _ h _ => h) := hA.housekeeping _
  refine (hset.setAddr fun y hy _ => ?_).weaken fun _ z hz => hz.1
  have h5 := newest.stable hx hy
  exact ⟨hA.step rfl rfl h5.1 (install_safe (h5.2 ref)), hA.update c _ h5.1, trivial⟩

/-! ## The reader -/

/-- The authenticated address of a client is this one, if it still has one. -/
def AuthedFrom (s : Shared) (c : Nat) (addr : UDPAddr) : Prop :=
  ∃ r, isSameAddr (some r) addr = true ∧
    ((s.clients c).authedAddr = some r ∨ (s.clients c).authedAddr = none)

theorem AuthedFrom.quiet {t : Shared} {c : Nat} {addr : UDPAddr} (h : AuthedFrom s c addr)
    (hq : Quiet s t) : AuthedFrom t c addr := by
  obtain ⟨r, hsame, haddr⟩ := h
  refine ⟨r, hsame, ?_⟩
  rcases (hq.clients c).authedAddr with h' | h'
  · exact h'.symm ▸ haddr
  · exact .inr h'

/-- The source of `d` is the address in effect of `c`. -/
def Current (d : Datagram) (c : Nat) (s : Shared) : Prop :=
  InEffect (s.clients c).clientAddr (s.clients c).effective d.source

/-- What the reader knows with each answer of the lookup. -/
def Knows (d : Datagram) : Udp.Found → Shared → Prop
  | .client c, s => d ∈ s.arrived ∧ Current d c s
  | .authed c, s => d ∈ s.arrived ∧ AuthedFrom s c d.source
  | .unknown, s => d ∈ s.arrived

theorem Knows.quiet {d : Datagram} {f : Udp.Found} {s t : Shared} (h : Knows d f s)
    (hq : Quiet s t) : Knows d f t := by
  cases f with
  | client c => exact ⟨hq.arrived d h.1, .quiet hq h.2⟩
  | authed c => exact ⟨hq.arrived d h.1, h.2.quiet hq⟩
  | unknown => exact hq.arrived d h

theorem isSameAddr_some {a : Option AddrRef} {addr : UDPAddr} (h : isSameAddr a addr = true) :
    ∃ r, a = some r ∧ isSameAddr (some r) addr = true := by
  cases a with
  | none => exact absurd h (by simp [isSameAddr])
  | some r => exact ⟨r, rfl, h⟩

/-- What the reader returns comes from the address in effect. -/
def returns : Option (Datagram × Nat) → Assertion readerContract
  | none => reader_active.knows (fun _ => True) fun _ _ h _ => h
  | some (d, c) => reader_active.knows (Current d c) fun _ _ h hq => .quiet hq h

theorem returns_open {o : Option (Datagram × Nat)} (h : (returns o).holds s) : Open s := by
  cases o with
  | none => exact h.1
  | some dc => exact h.1

theorem returns_forward {d : Datagram} {c : Nat} (hopen : Open s) (h : Current d c s) :
    (returns (Udp.forward d c)).holds s := by
  unfold Udp.forward
  split
  · exact ⟨hopen, trivial⟩
  · exact ⟨hopen, h⟩

theorem readAuthed_safe (hasm : ∀ l s, asm l s → AuthInv s) {d : Datagram} {c : Nat}
    (hs : Open s) (hfrom : AuthedFrom s c d.source) :
    readerContract.Safe asm (fun o t => (returns o).holds t) (Udp.readAuthed args d c) s := by
  have hplain : Housekeeping (returns none) := reader_active.housekeeping fun _ _ h _ => h
  have hnone : ∀ t, Open t → readerContract.Safe asm (fun o t => (returns o).holds t)
      (pure none : Code (Option (Datagram × Nat))) t := fun t ht u hu =>
    (returns none).stable ⟨ht, trivial⟩ hu
  unfold Udp.readAuthed
  split
  · -- the handshake is over: the authenticated address takes effect
    let match_ := reader_active.knows (fun s => AuthedFrom s c d.source) fun _ _ h hq => h.quiet hq
    have h0 : match_.holds s := ⟨hs, hfrom⟩
    refine .load fun t ht hat => ?_
    have h1 := match_.stable h0 ht
    split
    · exact hnone t h1.1
    · rename_i r hr
      obtain ⟨q, hsame, hq⟩ := h1.2
      have hrq : r = q := by
        rcases hq with hq | hq
        · exact Option.some.inj (hr.symm.trans hq)
        · exact absurd (hr.symm.trans hq) (by simp)
      subst hrq
      have hauthed := ((hasm _ _ hat).clients c).authedAddr r hr
      let known := reader_active.knows (fun s => r ∈ (s.clients c).authed)
        fun _ _ h hq => (hq.clients c).authed ▸ h
      let current := reader_active.knows (Current d c) fun _ _ h hq => .quiet hq h
      have hk : Housekeeping current := reader_active.housekeeping _
      have h2 : known.holds t := ⟨h1.1, hauthed⟩
      refine .bind ((hk.setAddr fun u hu _ => ?_).weaken fun _ v hv => ?_)
      · have h3 := known.stable h2 hu
        refine ⟨reader_active.step rfl rfl h3.1 (activate_safe h3.2),
          reader_active.update c _ h3.1, r, ?_, hsame, ?_⟩
        · simp [Client.swapAddr, Client.put]
        · simp [Client.swapAddr, Client.put]
      · refine .bind ((hk.clearAddr .authed c none v hv).weaken fun _ w hw => ?_)
        refine .bind ((hk.onNewClientConn c w hw).weaken fun _ x hx => ?_)
        exact fun y hy => returns_forward (current.stable hx hy).1 (current.stable hx hy).2
  · refine .ite (fun _ => ?_) fun _ => ?_
    · exact .bind ((hplain.clearAddr .authed c none s ⟨hs, trivial⟩).weaken fun _ t ht =>
        hnone t ht.1)
    · refine .load fun t ht _ => ?_
      have h1 := (reader_active.keep hs ht).1
      refine .ite (fun _ => hnone t h1) fun hle => ?_
      refine .store fun u hu _ => ?_
      have h2 := (reader_active.keep h1 hu).1
      exact ⟨reader_active.step rfl rfl h2 (casSerial_safe (Nat.le_of_not_lt hle)),
        hnone _ (reader_active.update c _ h2)⟩

theorem readUnknown_safe (hasm : ∀ l s, asm l s → AuthInv s) {d : Datagram} (hs : Open s)
    (harr : d ∈ s.arrived) :
    readerContract.Safe asm (fun o t => (returns o).holds t) (Udp.readUnknown args d) s := by
  have hnone : ∀ t, Open t → readerContract.Safe asm (fun o t => (returns o).holds t)
      (pure none : Code (Option (Datagram × Nat))) t := fun t ht u hu =>
    (returns none).stable ⟨ht, trivial⟩ hu
  unfold Udp.readUnknown
  split
  · exact hnone s hs
  · rename_i clientID serial hauth
    let known := reader_active.knows (fun s => Arrived s clientID serial d.source)
      fun _ _ h hq => h.quiet hq
    have h0 : known.holds s := ⟨hs, d, harr, (Option.filter_eq_some_iff.mp hauth).1, rfl⟩
    refine .bind (((reader_active.housekeeping _).getClient clientID h0).weaken fun o t ht => ?_)
    obtain ⟨hc, h1⟩ := ht
    split
    · exact hnone t h1.1
    · rename_i c
      obtain rfl := hc c rfl
      exact .bind ((authenticate_safe reader_active hasm h1.1 h1.2).weaken fun _ u hu => hnone u hu)

theorem receive_safe (hasm : ∀ l s, asm l s → AuthInv s) (hs : Open s) :
    readerContract.Safe asm (fun o t => (returns o).holds t) (Udp.receive args) s := by
  refine .atomic fun t e ht _ hmay => ?_
  have h1 := (reader_active.keep hs ht).1
  refine ⟨reader_quiet (quiet_arrived hmay) rfl rfl, ?_⟩
  generalize e.datagram = d
  let known := reader_active.knows (fun s => d ∈ s.arrived) fun _ _ h hq => hq.arrived d h
  have h2 : known.holds { t with arrived := d :: t.arrived } :=
    ⟨reader_active.frame (s := t) rfl rfl h1, List.mem_cons_self⟩
  refine .bind ((getClient_found (J := known)
    (K := fun f => reader_active.knows (Knows d f) fun _ _ h hq => h.quiet hq)
    (fun u c hau hu hsame => ?_) (fun u c _ hu hsame => ?_) (fun u hu => hu)
    (fun _ => (reader_active.housekeeping _).toBookkeeping) h2).weaken fun f u hu => ?_)
  · obtain ⟨r, hr, hsame⟩ := isSameAddr_some hsame
    exact ⟨hu.1, hu.2, r, (((hasm _ _ hau).clients c).clientAddr r hr).2, hsame, .inl hr⟩
  · obtain ⟨r, hr, hsame⟩ := isSameAddr_some hsame
    exact ⟨hu.1, hu.2, r, hsame, .inl hr⟩
  · cases f with
    | client c =>
      exact fun v hv => (returns _).stable (returns_forward hu.1 hu.2.2) hv
    | authed c => exact readAuthed_safe hasm hu.1 hu.2.2
    | unknown => exact readUnknown_safe hasm hu.1 hu.2

/-! ## Jobs -/

/-- What holds when thread `i` starts a job: thread 0 reads, thread `k + 1`
probes socket `k` as long as it has not chosen it. -/
def authPre (i : Nat) : Job → Shared → Prop
  | .readFrom, _ => i = 0
  | .receive, s => i = 0 ∧ Open s
  | .probeAuth k, s => i = k + 1 ∧ s.conn ≠ some k ∧ s.initMutex ≠ some k
  | .handshake, _ => False
  | .readLoop _ _, _ => False
  | _, _ => i ≠ 0

/-- The reader does not look at the socket between the store of `initConn` and
its return. -/
def startsAfterInit : Label → Shared → Bool
  | .waitConn, s => s.conn.isNone || decide (s.initMutex ≠ s.conn)
  | _, _ => true

theorem readFrom_safe (htcp : args.tcp = false)
    (hwait : ∀ s, asm .waitConn s → startsAfterInit .waitConn s = true) (s : Shared) :
    readerContract.Safe asm (fun o t => ∀ job ∈ o, authPre 0 job t) (readFrom args) s := by
  have hgo : ∀ t, Open t → readerContract.Safe asm (fun o t => ∀ job ∈ o, authPre 0 job t)
      (pure (some .receive) : Code (Option Job)) t := fun t ht u hu job hjob =>
    Option.some.inj hjob ▸ ⟨rfl, (reader_active.keep ht hu).1⟩
  rw [readFrom, if_neg (by simp [htcp])]
  refine .bind (.load fun t _ ht => .when (fun _ => ?_) fun hsome u hu => ?_)
  · intro u e _ _ hen
    obtain ⟨hmutex, hconn⟩ := Bool.and_eq_true_iff.mp hen
    obtain ⟨k, hk⟩ := Option.isSome_iff_exists.mp hconn
    have hopen : Open u := ⟨k, hk, by simp [Option.isNone_iff_eq_none.mp hmutex]⟩
    exact ⟨readerContract.guar_refl u, fun v hv => hgo v (reader_active.keep hopen hv).1⟩
  · obtain ⟨k, hk⟩ := Option.ne_none_iff_exists'.mp (Option.isNone_eq_false_iff.mp hsome |>
      Option.isSome_iff_ne_none.mp)
    have hopen : Open t := by
      refine ⟨k, hk, ?_⟩
      simpa [startsAfterInit, hk] using hwait t ht
    exact hgo u (reader_active.keep hopen hu).1

theorem returned_safe {d : Datagram} {c : Nat} (h : Current d c s) :
    StepSafe s
      { s with
        returned := s.returned ++
          [⟨c, .datagram d, (s.clients c).clientAddr, (s.clients c).effective⟩] } where
  inv hs := by
    refine ⟨fun d => ?_, hs.genuine, fun e he q hq => ?_⟩
    · obtain ⟨h1, h2, h3, h4, h5⟩ := hs.clients d
      exact ⟨h1, h2, h3, h4, h5⟩
    · rcases List.mem_append.mp he with he | he
      · exact hs.returned e he q hq
      · rw [List.mem_singleton.mp he] at hq ⊢
        cases hq
        exact h
  serial _ := Nat.le_refl _
  installs _ _ hr hn := absurd hr hn
  arrived _ := id

theorem receiveJob_safe (hasm : ∀ l s, asm l s → AuthInv s) (hs : Open s) :
    readerContract.Safe asm (fun o t => ∀ job ∈ o, authPre 0 job t) (receive args) s := by
  refine .bind ((receive_safe hasm hs).weaken fun o t ht => ?_)
  cases o with
  | none =>
    exact fun u hu job hjob =>
      Option.some.inj hjob ▸ ⟨rfl, (reader_active.keep (returns_open ht) hu).1⟩
  | some dc =>
    obtain ⟨d, c⟩ := dc
    refine .exchange fun u hu _ => ?_
    have h1 := (returns (some (d, c))).stable ht hu
    refine ⟨reader_active.step rfl rfl h1.1 (returned_safe h1.2), ?_⟩
    -- the rest only hands the packet on and comes back to `readFrom`
    have hdeliver : ∀ b v, readerContract.Safe asm (fun o t => ∀ job ∈ o, authPre 0 job t)
        (deliver (.datagram d) c b) v := fun b v =>
      .exchange fun w _ _ => ⟨reader_quiet ⟨fun _ => .refl _, fun _ => id, id, rfl⟩ rfl rfl,
        fun _ _ job hjob => Option.some.inj hjob ▸ rfl⟩
    refine .ite (fun _ => .input fun v e _ _ => .ite (fun _ => hdeliver true v) fun _ => ?_)
      fun _ => hdeliver false _
    exact fun _ _ job hjob => Option.some.inj hjob ▸ rfl

/-! A probing goroutine takes the mutex, and accepts only behind its own store
of the socket. -/

theorem probe_lock {k : Nat} (hmutex : s.initMutex = none) (hconn : s.conn ≠ some k) :
    ProbeGuar k s { s with initMutex := some k } where
  mutex j hj := by simp [hmutex, hj.symm]
  conn _ _ := .rfl
  held _ _ _ := rfl
  isOpen := fun ⟨j, hj, _⟩ => ⟨j, hj, fun h => hconn (Option.some.inj h ▸ hj)⟩
  step := Quiet.stepSafe ⟨fun _ => .refl _, fun _ => id, id, rfl⟩
  quiet _ := ⟨fun _ => .refl _, fun _ => id, id, rfl⟩

theorem probe_store {k : Nat} (hmutex : s.initMutex = some k) (hconn : s.conn = none) :
    ProbeGuar k s { s with conn := some k } where
  mutex _ _ := .rfl
  conn j hj := by simp [hconn, hj.symm]
  held j hj h := absurd (Option.some.inj (hmutex.symm.trans h)).symm hj
  isOpen := fun ⟨j, hj, _⟩ => absurd (hconn.symm.trans hj) (by simp)
  step := Quiet.stepSafe ⟨fun _ => .refl _, fun _ => id, id, rfl⟩
  quiet _ := ⟨fun _ => .refl _, fun _ => id, id, rfl⟩

theorem probe_unlock {k : Nat} (hmutex : s.initMutex = some k) :
    ProbeGuar k s { s with initMutex := none } where
  mutex j hj := by simp [hmutex, hj.symm]
  conn _ _ := .rfl
  held _ _ _ := rfl
  isOpen := fun ⟨j, hj, _⟩ => ⟨j, hj, by simp⟩
  step := Quiet.stepSafe ⟨fun _ => .refl _, fun _ => id, id, rfl⟩
  quiet _ := ⟨fun _ => .refl _, fun _ => id, id, rfl⟩

theorem unlock_safe {k : Nat} (hs : s.initMutex = some k) :
    (probeContract k).Safe asm (fun _ _ => True) Udp.unlock s :=
  fun _ _ ht _ _ => ⟨probe_unlock (ht.mutex.mp hs), fun _ _ => trivial⟩

theorem initConn_safe (hasm : ∀ l s, asm l s → AuthInv s) {k clientID serial : Nat}
    {addr : UDPAddr} (hconn : s.conn ≠ some k) (harr : Arrived s clientID serial addr) :
    (probeContract k).Safe asm (fun _ _ => True)
      (Udp.initConn args k addr clientID serial) s := by
  refine .atomic fun t e ht _ hfree => ?_
  have hmutex : t.initMutex = none := Option.isNone_iff_eq_none.mp hfree
  refine ⟨probe_lock hmutex (mt ht.conn.mpr hconn), .load fun u hu _ => ?_⟩
  have hheld : u.initMutex = some k := hu.mutex.mp rfl
  refine .ite (fun _ => unlock_safe hheld) fun hnone => ?_
  have hnone : u.conn = none := by simpa using hnone
  refine .store fun v hv _ => ?_
  have hheld' := hv.mutex.mp hheld
  refine ⟨probe_store hheld' ((hv.held hheld).trans hnone), ?_⟩
  let known := (probe_active k).knows (fun s => Arrived s clientID serial addr)
    fun _ _ h hq => h.quiet hq
  have h1 : known.holds { v with conn := some k } :=
    ⟨⟨rfl, hheld'⟩, ((harr.mono ht.arrived).mono hu.arrived).mono hv.arrived⟩
  refine .bind ((((probe_active k).housekeeping _).getClient clientID h1).weaken fun o w hw => ?_)
  obtain ⟨hc, hw⟩ := hw
  split
  · exact unlock_safe hw.1.2
  · rename_i c
    obtain rfl := hc c rfl
    exact .bind ((authenticate_safe (probe_active k) hasm hw.1 hw.2).weaken fun _ x hx =>
      unlock_safe hx.2)

theorem probeAuth_safe (hasm : ∀ l s, asm l s → AuthInv s) {k : Nat}
    (hs : authPre (k + 1) (.probeAuth k) s) :
    (probeContract k).Safe asm (fun o t => ∀ job ∈ o, authPre (k + 1) job t)
      (Udp.probeAuth args k) s := by
  refine .atomic fun t e ht _ hmay => ?_
  refine ⟨probe_quiet (quiet_arrived hmay) rfl rfl, ?_⟩
  generalize e.datagram = d
  split
  · refine fun u hu job hjob => Option.some.inj hjob ▸ ⟨rfl, ?_, ?_⟩
    · exact mt (fun h => ht.conn.mpr (hu.conn.mpr h)) hs.2.1
    · exact mt (fun h => ht.mutex.mpr (hu.mutex.mpr h)) hs.2.2
  · rename_i clientID serial hauth
    have harr : Arrived { t with arrived := d :: t.arrived } clientID serial d.source :=
      ⟨d, List.mem_cons_self, (Option.filter_eq_some_iff.mp hauth).1, rfl⟩
    refine .bind ((initConn_safe (s := { t with arrived := d :: t.arrived }) hasm
      (mt ht.conn.mpr hs.2.1) harr).weaken fun _ u _ => ?_)
    exact fun _ _ job hjob => absurd hjob (by simp)

/-! The others accept nothing. -/

theorem bystander_housekeeping (k : Nat) : Housekeeping (unknown (probeContract k)) :=
  housekeeping_of_quiet fun _ _ hq hconn hmutex _ => ⟨probe_quiet hq hconn hmutex, trivial⟩

theorem bystander_update {k c : Nat} {f : Client → Client} (hf : ∀ x : Client, x.Quiet (f x)) :
    (unknown (probeContract k)).Admits s (s.update c f) :=
  fun _ => ⟨probe_quiet (.update_at (hf _)) rfl rfl, trivial⟩

theorem close_quiet (k c : Nat) : (unknown (probeContract k)).Keeps asm (close args c) := by
  have hk := bystander_housekeeping k
  exact .bind (.exchange fun _ _ => bystander_update fun _ =>
      ⟨rfl, rfl, rfl, rfl, .inl rfl, .inl rfl⟩) fun _ => .when <|
    .bind (.store fun s _ => hk.cond s c false) fun _ =>
    .bind (.store fun s _ => hk.server s c none) fun _ =>
    .bind (.store fun _ _ => bystander_update fun _ =>
      ⟨rfl, rfl, rfl, rfl, .inl rfl, .inl rfl⟩) fun _ =>
    .bind (hk.setClientConn c none none) fun _ =>
    .bind (hk.clearAddr .client c none) fun _ =>
    .bind (hk.clearAddr .authed c none) fun _ => .store fun s _ => hk.front s c false

theorem writeTo_quiet (k clientID : Nat) :
    (unknown (probeContract k)).Keeps asm (writeTo args clientID) := by
  have hk := bystander_housekeeping k
  have hfront : ∀ c frame, (unknown (probeContract k)).Keeps asm (frontWriteTo args c frame) := by
    intro c frame
    have hnote : ∀ s, asm .plain s → (unknown (probeContract k)).Admits s
        { s with written := s.written ++ [(c, frame)] } := fun _ _ _ =>
      ⟨probe_quiet ⟨fun _ => .refl _, fun _ => id, id, rfl⟩ rfl rfl, trivial⟩
    refine .ite (.bind (.exchange hnote) fun o => ?_) (.bind (.exchange hnote) fun _ => .pure _)
    cases o with
    | none => exact .pure _
    | some conn =>
      exact .bind succeeds_keeps fun _ => .when (hk.setClientConn c (some conn) none)
  have hwrite : ∀ c frame, (unknown (probeContract k)).Keeps asm (writeUnlessClosed args c frame) :=
    fun c frame => .bind (field_keeps c _) fun _ => .when (hfront c frame)
  refine .bind (hk.getClient_keeps clientID) fun o => ?_
  cases o with
  | none => exact .pure _
  | some c =>
    exact .bind (field_keeps c _) fun _ =>
      .ite (.bind succeeds_keeps fun _ => .when (hwrite c _)) (hwrite c _)

end Programs

/-! ## Whole runs -/

def authContract : Nat → Contract Shared
  | 0 => readerContract
  | k + 1 => probeContract k

/-- What one thread guarantees is what every other one relies on. -/
theorem authContract_compat {i j : Nat} {s t : Shared} (hij : i ≠ j)
    (h : (authContract i).guar s t) : (authContract j).rely s t := by
  match i, j with
  | 0, 0 => exact absurd rfl hij
  | 0, k + 1 =>
    obtain ⟨hconn, hmutex, hstep, hquiet⟩ := h
    refine ⟨by rw [hmutex], by rw [hconn], fun _ => hconn, hstep.arrived, fun hs => ?_⟩
    refine hquiet fun ⟨j, hj, hne⟩ => hne ?_
    rw [← Option.some.inj (hs.1.symm.trans hj)]
    exact hs.2
  | k + 1, 0 =>
    refine fun ⟨j, hj, hne⟩ => ⟨h.isOpen ⟨j, hj, hne⟩, h.quiet fun hs => hne ?_⟩
    rw [← Option.some.inj (hs.1.symm.trans hj)]
    exact hs.2
  | k + 1, j + 1 =>
    have hjk : j ≠ k := fun h => hij (by rw [h])
    refine ⟨h.mutex j hjk, h.conn j hjk, h.held j hjk, h.step.arrived, fun hs => ?_⟩
    exact h.quiet fun hk => hjk (Option.some.inj (hs.1.symm.trans hk.1))

theorem authContract_step {i : Nat} {s t : Shared} (h : (authContract i).guar s t) :
    StepSafe s t := by
  match i with
  | 0 => exact h.2.2.1
  | k + 1 => exact h.step

theorem authInv_started (args : Args) : AuthInv (started args) where
  clients c := by
    refine ⟨?_, ?_, ?_, ?_, ?_⟩ <;> simp [started, newClientState]
  genuine := by simp [Genuine, started]
  returned := by simp [started]

theorem code_safe {asm : Label → Shared → Prop} {args : Args} (htcp : args.tcp = false)
    (hasm : ∀ l s, asm l s → AuthInv s)
    (hwait : ∀ s, asm .waitConn s → startsAfterInit .waitConn s = true) {i : Nat} {job : Job}
    {s : Shared} (hs : authPre i job s) :
    (authContract i).Safe asm (fun o t => ∀ job ∈ o, authPre i job t) (code args job) s := by
  have hend : ∀ {k : Nat} {p : Code Unit}, (unknown (probeContract k)).Keeps asm p →
      (probeContract k).Safe asm (fun o t => ∀ job ∈ o, authPre (k + 1) job t)
        (p >>= fun _ => pure none : Code (Option Job)) s := fun hp =>
    .bind ((hp s trivial).weaken fun _ _ _ _ _ job hjob => absurd hjob (by simp))
  match i, job with
  | 0, .readFrom => exact readFrom_safe htcp hwait s
  | 0, .receive => exact receiveJob_safe hasm hs.2
  | k + 1, .probeAuth j =>
    obtain rfl : k = j := Nat.succ.inj hs.1
    exact probeAuth_safe hasm hs
  | k + 1, .writeTo clientID => exact hend (writeTo_quiet k clientID)
  | k + 1, .close c => exact hend (close_quiet k c)
  | k + 1, .timeout c => exact hend ((bystander_housekeeping k).timeout c)
  | k + 1, .activate c server =>
    exact hend (.store fun s _ => (bystander_housekeeping k).server s c (some server))
  | k + 1, .produce clientID serial =>
    refine hend (.store fun s _ _ => ⟨probe_quiet ⟨fun _ => .refl _, fun _ => id,
      fun hg d hd a ha => List.mem_cons_of_mem _ (hg d hd a ha), rfl⟩ rfl rfl, trivial⟩)

theorem authInv_init (args : Args) (s : Shared) (hs : (system args).init s) : AuthInv s := by
  rw [show s = started args from hs]
  exact authInv_started args

theorem authPre_start (args : Args) (s : Shared) (i : Nat) (job : Job)
    (hs : (system args).init s) (hjob : (system args).start[i]? = some job) : authPre i job s := by
  rw [show s = started args from hs]
  cases i with
  | zero =>
    simp only [system, List.getElem?_cons_zero, Option.some.injEq] at hjob
    exact hjob ▸ rfl
  | succ i =>
    simp only [system, List.getElem?_cons_succ] at hjob
    split at hjob
    · rename_i hprobing
      rw [List.getElem?_map, Option.map_eq_some_iff] at hjob
      obtain ⟨k, hk, rfl⟩ := hjob
      obtain ⟨hlt, hik⟩ := List.getElem?_eq_some_iff.mp hk
      rw [List.getElem_range] at hik
      exact ⟨by rw [hik], by simp [started, hprobing], by simp [started]⟩
    · exact absurd hjob (by simp)

theorem authPre_spawn {args : Args} (htcp : args.tcp = false) (s : Shared) (i : Nat) (job : Job)
    (hi : (system args).start.length ≤ i) (_ : AuthInv s)
    (hspawn : (system args).spawn s job = true) : authPre i job s := by
  have hi : i ≠ 0 := by
    simp only [system, List.length_cons] at hi
    omega
  cases job with
  | writeTo _ => exact hi
  | close _ => exact hi
  | timeout _ => exact hi
  | activate _ _ => exact hi
  | produce _ _ => exact hi
  | _ => exact absurd hspawn (by simp [system, spawns, htcp])

theorem authCode {args : Args} (htcp : args.tcp = false) (s : Shared) (i : Nat) (job : Job)
    (hs : authPre i job s) :
    (authContract i).Safe (fun l t => AuthInv t ∧ startsAfterInit l t = true)
      (fun o t => ∀ job' ∈ o, authPre i job' t) ((system args).code job) s :=
  code_safe htcp (fun _ _ h => h.1) (fun _ h => h.2) hs

theorem authInv_keep (i : Nat) (s t : Shared) (hinv : AuthInv s)
    (hguar : (authContract i).guar s t) : AuthInv t :=
  (authContract_step hguar).inv hinv

theorem auth_compat (i j : Nat) (s t : Shared) (hij : i ≠ j) (_ : AuthInv s)
    (hguar : (authContract i).guar s t) : (authContract j).rely s t :=
  authContract_compat hij hguar

def authOutline (args : Args) (htcp : args.tcp = false) :
    Outline (system args) (fun l s => startsAfterInit l s = true) where
  inv := AuthInv
  contract := authContract
  pre := authPre
  init := authInv_init args
  start := authPre_start args
  spawn := authPre_spawn htcp
  code := authCode htcp
  keep := authInv_keep
  compat := auth_compat

/-- What no replay changes: an address in effect was authenticated for that
client, on a packet the client produced, no two of them on the same packet, and
what is returned came from the address in effect. -/
structure ReplaySafe (s : Shared) : Prop where
  once : ∀ c, ((s.clients c).authed.map (·.serial)).Pairwise (· < ·)
  produced : ∀ c, ∀ r ∈ (s.clients c).authed, (c, r.serial) ∈ s.produced
  clientAddr : ∀ c r, (s.clients c).clientAddr = some r → r ∈ (s.clients c).authed
  returned : ∀ e ∈ s.returned, ∀ d, e.packet = .datagram d →
    InEffect e.clientAddr e.effective d.source

theorem AuthInv.replaySafe {s : Shared} (h : AuthInv s) : ReplaySafe s where
  once c := (h.clients c).increasing
  produced c r hr := by
    obtain ⟨_, d, hd, hauth, _⟩ := (h.clients c).authed r hr
    exact h.genuine d hd _ hauth
  clientAddr c r hr := ((h.clients c).clientAddr r hr).1
  returned := h.returned

/-- **Replay safety.** Take any run of the UDP frontend in which the reader does
not look at the socket between the store of `initConn` and its return. In every
state of it `ReplaySafe` holds. No step of it takes a serial number back, and an
address becomes the authenticated one of a client only on a packet of that
client with a serial number above all that were accepted before. -/
theorem replay_safe (args : Args) (htcp : args.tcp = false) {p : Pool Shared Env Label Job}
    (h : (system args).machine.ReachableVia
      (System.Meets fun l s => startsAfterInit l s = true) p) :
    ReplaySafe p.shared ∧ ∀ a q, System.Meets (fun l s => startsAfterInit l s = true) p a →
      (system args).machine.next p a = some q → ∀ c,
        (p.shared.clients c).serialNumber ≤ (q.shared.clients c).serialNumber ∧
        ∀ r, (q.shared.clients c).authedAddr = some r →
          (p.shared.clients c).authedAddr ≠ some r → Newest p.shared c r := by
  have hp := (authOutline args htcp).sound h
  refine ⟨hp.inv.replaySafe, fun a q hok hnext c => ?_⟩
  rcases (hp.next _ hok hnext).2 with hsame | ⟨i, hguar⟩
  · rw [hsame]
    exact ⟨Nat.le_refl _, fun r hr hn => absurd hr hn⟩
  · have hstep := authContract_step hguar
    exact ⟨hstep.serial c, hstep.installs c⟩

section Schedules

def probingArgs : Args := { attachable := true, kcp := true, sockets := 2 }

def host (n : UInt8) : UDPAddr := { ip := [10, 0, 0, n], port := 4000 }

/-- An authentication packet of client 7 arrives at a thread. -/
def authPacket (thread : Nat) (source : UDPAddr) (serial : Nat) : Sched Env Job :=
  .run thread { datagram := { source, length := 60, auth := some (7, serial) } }

def dataPacket (source : UDPAddr) : Sched Env Job :=
  .run 0 { datagram := { source, length := 40 } }

def produceTwo : List (Sched Env Job) :=
  [.spawn (.produce 7 1), .spawn (.produce 7 2)] ++ runs 3 1 ++ runs 4 1

/-- The client connects, moves to another host, and its first packet is sent
again from a third one. -/
def moveAndReplay : List (Sched Env Job) :=
  produceTwo ++ [authPacket 1 (host 1) 1] ++ runs 1 14 ++ runs 0 2 ++ [dataPacket (host 1)] ++
    runs 0 14 ++ runs 0 5 ++ [authPacket 0 (host 2) 2] ++ runs 0 14 ++ [dataPacket (host 2)] ++
    runs 0 14 ++ runs 0 5 ++ [authPacket 0 (host 3) 1] ++ runs 0 8

theorem replay_safe_moved :
    ∃ p, (system probingArgs).machine.ReachableVia
      (System.Meets fun l s => startsAfterInit l s = true) p ∧
      (p.shared.clients 7).authed.map (·.addr) = [host 1, host 2] ∧
      p.shared.returned.length = 2 ∧ ReplaySafe p.shared := by
  have hrun : ((system probingArgs).machine.execWhile (System.meets startsAfterInit)
      ((system probingArgs).pool (started probingArgs)) moveAndReplay).any
        (fun p => decide ((p.shared.clients 7).authed.map (·.addr) = [host 1, host 2] ∧
          p.shared.returned.length = 2)) = true := by
    decide
  obtain ⟨p, hp, hend⟩ := (Option.any_eq_true _ _).mp hrun
  have hreach := System.reachableVia_execWhile (m := system probingArgs) (fun _ _ h => h) rfl hp
  obtain ⟨haddrs, htwo⟩ := of_decide_eq_true hend
  exact ⟨p, hreach, haddrs, htwo, (replay_safe probingArgs rfl hreach).1⟩

/-- `initConn` accepts packet 1 and is held up. The reader, which finds the
socket stored, accepts packet 2 from another host, and its first datagram is
being handled when packet 1 is installed after all. -/
def staleInstall : List (Sched Env Job) :=
  produceTwo ++ [authPacket 1 (host 1) 1] ++ runs 1 9 ++ runs 0 2 ++ [authPacket 0 (host 2) 2] ++
    runs 0 14 ++ [dataPacket (host 2)] ++ runs 0 4 ++ runs 1 2 ++ runs 0 10

/-- **A datagram from one address, another address in effect.** What the reader
returns came from host 2, while the address in effect is host 1, from the older
packet. -/
theorem returned_from_stale_address :
    ∃ p, (system probingArgs).machine.Reachable p ∧ ∃ e ∈ p.shared.returned,
      e.packet = .datagram { source := host 2, length := 40 } ∧
      e.clientAddr.map (·.addr) = some (host 1) ∧
      isSameAddr e.clientAddr (host 2) = false := by
  have hrun : ((system probingArgs).machine.exec ((system probingArgs).pool (started probingArgs))
      staleInstall).any (fun p => decide (∃ e ∈ p.shared.returned,
        e.packet = .datagram { source := host 2, length := 40 } ∧
        e.clientAddr.map (·.addr) = some (host 1) ∧
        isSameAddr e.clientAddr (host 2) = false)) = true := by
    decide
  obtain ⟨p, hp, hend⟩ := (Option.any_eq_true _ _).mp hrun
  exact ⟨p, System.reachable_exec (m := system probingArgs) rfl hp, of_decide_eq_true hend⟩

end Schedules

end Tsshd.Proxy

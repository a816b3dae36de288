import Tsshd.Proxy.Server

/-!
# The address index

With attaching, the UDP frontend finds the client of a datagram through two
maps from addresses to clients. The setters of the two address fields keep the
maps: a new address is put into the map first, the one it replaces is taken out
then, and both only if the client is registered with the frontend
(`udpFrontConn`).

* **keys** — `isSameAddr_iff`: the comparison of addresses and their text agree;
* **the invariant** — `Indexed`: the maps list exactly the addresses the clients
  hold, and no address is in effect for one client and authenticated for
  another;
* **setters** — `IndexInv.clear` and `IndexInv.install`: a whole call keeps it,
  if the client is registered and a new address is held by nobody else.

`Tsshd.Proxy.Attached` has the runs.
-/

namespace Tsshd.Proxy

/-! ## Keys -/

/-- An IPv4 address in IPv6 form. -/
def Mapped (ip : List UInt8) : Prop := ip.length = 16 ∧ ip.take 12 = v4InV6Prefix

namespace Mapped

variable {a b : List UInt8}

theorem ipTo4 (h : Mapped a) : ipTo4 a = a.drop 12 := if_pos h

theorem ipTo4_of_not (h : ¬ Mapped a) : Proxy.ipTo4 a = a := if_neg h

theorem length_drop (h : Mapped a) : (a.drop 12).length = 4 := by
  rw [List.length_drop, h.1]

theorem eq (ha : Mapped a) (hb : Mapped b) (h : a.drop 12 = b.drop 12) : a = b := by
  rw [← List.take_append_drop 12 a, ← List.take_append_drop 12 b, ha.2, hb.2, h]

theorem ipEqual_iff (ha : Mapped a) (hb : ¬ Mapped b) :
    ipEqual a b = true ↔ a.drop 12 = b := by
  have hdrop := ha.length_drop
  unfold ipEqual
  split_ifs with hsame h4 h16
  · refine iff_of_false (fun h => hb (of_decide_eq_true h ▸ ha)) fun h => ?_
    rw [← h, hdrop, ha.1] at hsame
    exact absurd hsame (by decide)
  · exact absurd (ha.1.symm.trans h4.1) (by decide)
  · simp [ha.2]
  · exact iff_of_false (by simp) fun h => h16 ⟨ha.1, h ▸ hdrop⟩

theorem ipEqual_iff_of_not (ha : ¬ Mapped a) (hb : ¬ Mapped b) :
    ipEqual a b = true ↔ a = b := by
  unfold ipEqual
  split_ifs with hsame h4 h16
  · exact decide_eq_true_iff
  · exact iff_of_false (fun h => hb ⟨h4.2, (of_decide_eq_true h).1⟩) fun h => hsame (h ▸ rfl)
  · exact iff_of_false (fun h => ha ⟨h16.1, (of_decide_eq_true h).1⟩) fun h => hsame (h ▸ rfl)
  · exact iff_of_false (by simp) fun h => hsame (h ▸ rfl)

end Mapped

theorem ipEqual_comm (a b : List UInt8) : ipEqual a b = ipEqual b a := by
  unfold ipEqual
  by_cases hsame : a.length = b.length
  · rw [if_pos hsame, if_pos hsame.symm]
    exact decide_eq_decide.mpr eq_comm
  rw [if_neg hsame, if_neg (Ne.symm hsame)]
  -- The two mixed branches change places.
  by_cases h4 : a.length = 4 ∧ b.length = 16
  · rw [if_pos h4, if_neg (by omega), if_pos h4.symm]
    exact decide_eq_decide.mpr (and_congr_right fun _ => eq_comm)
  rw [if_neg h4]
  by_cases h16 : a.length = 16 ∧ b.length = 4
  · rw [if_pos h16, if_pos h16.symm]
    exact decide_eq_decide.mpr (and_congr_right fun _ => eq_comm)
  · rw [if_neg h16, if_neg (by omega), if_neg (by omega)]

theorem ipEqual_iff (a b : List UInt8) : ipEqual a b = true ↔ ipTo4 a = ipTo4 b := by
  by_cases ha : Mapped a
  · by_cases hb : Mapped b
    · rw [ha.ipTo4, hb.ipTo4, ipEqual, if_pos (ha.1.trans hb.1.symm), decide_eq_true_eq]
      exact ⟨fun h => by rw [h], ha.eq hb⟩
    · rw [ha.ipTo4, Mapped.ipTo4_of_not hb, ha.ipEqual_iff hb]
  · by_cases hb : Mapped b
    · rw [Mapped.ipTo4_of_not ha, hb.ipTo4, ipEqual_comm, hb.ipEqual_iff ha, eq_comm]
    · rw [Mapped.ipTo4_of_not ha, Mapped.ipTo4_of_not hb, Mapped.ipEqual_iff_of_not ha hb]

/-- The comparison of addresses and their text agree on what one address is. -/
theorem isSameAddr_iff {a : Option AddrRef} {addr : UDPAddr} :
    isSameAddr a addr = true ↔ ∃ r, a = some r ∧ r.addr.key = addr.key := by
  cases a with
  | none => simp [isSameAddr]
  | some r =>
    simp only [isSameAddr, Bool.and_eq_true, decide_eq_true_eq, ipEqual_iff, UDPAddr.key,
      Prod.mk.injEq, Option.some.injEq, exists_eq_left']
    tauto

/-! ## What holds of the index -/

/-- The map that goes with an address field. -/
def Shared.index (s : Shared) : Slot → Key → Option Nat
  | .client => s.clientMap
  | .authed => s.authedMap

/-- The maps list the addresses that are held, and no address is in effect for
one client and authenticated for another. -/
structure Indexed (s : Shared) : Prop where
  exact : ∀ slot k c, s.index slot k = some c ↔
    ∃ r, (s.clients c).get slot = some r ∧ r.addr.key = k
  apart : ∀ c d r q, (s.clients c).clientAddr = some r → (s.clients d).authedAddr = some q →
    r.addr.key = q.addr.key → c = d

/-- What holds between any two blocks. -/
structure IndexInv (s : Shared) : Prop where
  indexed : Indexed s
  created : ∀ c slot r, (s.clients c).get slot = some r → c ∈ s.created
  conn : s.conn.isSome = true

/-- No address of a client changes while the client is not registered with the
frontend. -/
def Registers (s t : Shared) : Prop :=
  ∀ c ∈ t.created, (s.clients c).udpFrontConn = true ∨
    (t.clients c).clientAddr = (s.clients c).clientAddr ∧
    (t.clients c).authedAddr = (s.clients c).authedAddr

instance (s t : Shared) : Decidable (Registers s t) :=
  inferInstanceAs (Decidable (∀ c ∈ t.created, _))

/-! ## What a step does -/

/-- A step that adds no address and forgets no client. -/
structure Removes (s t : Shared) : Prop where
  addrs : ∀ c slot, (t.clients c).get slot = (s.clients c).get slot ∨ (t.clients c).get slot = none
  created : ∀ c ∈ s.created, c ∈ t.created

/-- A step that leaves the addresses and the maps alone. -/
structure SameAddrs (s t : Shared) : Prop where
  addrs : ∀ c slot, (t.clients c).get slot = (s.clients c).get slot
  index : ∀ slot, t.index slot = s.index slot
  created : ∀ c ∈ s.created, c ∈ t.created
  conn : s.conn.isSome = true → t.conn.isSome = true

section

variable {s t u : Shared}

theorem Removes.refl (s : Shared) : Removes s s := ⟨fun _ _ => .inl rfl, fun _ => id⟩

theorem Removes.trans (h : Removes s t) (h' : Removes t u) : Removes s u where
  addrs c slot := by
    rcases h'.addrs c slot with h' | h'
    · exact h' ▸ h.addrs c slot
    · exact .inr h'
  created c hc := h'.created c (h.created c hc)

/-- An address that is held was held before. -/
theorem Removes.held (h : Removes s t) {c : Nat} {slot : Slot} {r : AddrRef}
    (hr : (t.clients c).get slot = some r) : (s.clients c).get slot = some r := by
  rcases h.addrs c slot with h | h
  · exact h.symm.trans hr
  · exact absurd (h.symm.trans hr) (by simp)

theorem SameAddrs.removes (h : SameAddrs s t) : Removes s t :=
  ⟨fun c slot => .inl (h.addrs c slot), h.created⟩

theorem SameAddrs.trans (h : SameAddrs s t) (h' : SameAddrs t u) : SameAddrs s u where
  addrs c slot := (h'.addrs c slot).trans (h.addrs c slot)
  index slot := (h'.index slot).trans (h.index slot)
  created c hc := h'.created c (h.created c hc)
  conn hc := h'.conn (h.conn hc)

/-- Only records change that have nothing to do with addresses. -/
theorem SameAddrs.records
    (h : (t.clients, t.clientMap, t.authedMap, t.created, t.conn) =
      (s.clients, s.clientMap, s.authedMap, s.created, s.conn)) : SameAddrs s t := by
  simp only [Prod.mk.injEq] at h
  obtain ⟨hclients, hclientMap, hauthedMap, hcreated, hconn⟩ := h
  exact {
    addrs := fun _ _ => by rw [hclients]
    index := fun slot => by cases slot <;> simp only [Shared.index, hclientMap, hauthedMap]
    created := fun _ => hcreated ▸ id
    conn := hconn ▸ id }

theorem IndexInv.same (hs : IndexInv s) (h : SameAddrs s t) : IndexInv t where
  indexed := by
    refine ⟨fun slot k c => ?_, fun c d r q hr hq => ?_⟩
    · rw [h.index, h.addrs]
      exact hs.indexed.exact slot k c
    · exact hs.indexed.apart c d r q ((h.addrs c .client).symm.trans hr)
        ((h.addrs d .authed).symm.trans hq)
  created c slot r hr := h.created c (hs.created c slot r (h.addrs c slot ▸ hr))
  conn := h.conn hs.conn

theorem SameAddrs.update {c : Nat} {f : Client → Client}
    (hf : ∀ slot, (f (s.clients c)).get slot = (s.clients c).get slot) :
    SameAddrs s (s.update c f) where
  addrs d slot := Shared.update_forall (P := fun d x => x.get slot = (s.clients d).get slot)
    (hf slot) (fun _ _ => rfl) d
  index _ := rfl
  created _ := id
  conn := id

end

/-! ## What a setter does -/

@[simp] theorem Client.get_put_self (x : Client) (slot : Slot) (r : Option AddrRef) :
    (x.put slot r).get slot = r := by
  cases slot <;> cases r <;> rfl

theorem Client.get_put_of_ne (x : Client) {slot slot' : Slot} (r : Option AddrRef)
    (h : slot' ≠ slot) : (x.put slot r).get slot' = x.get slot' := by
  cases slot <;> cases slot' <;> cases r <;> first | rfl | exact absurd rfl h

theorem Client.get_swapConn (x : Client) (old new : Option Nat) (slot : Slot) :
    (x.swapConn old new).get slot = x.get slot := by
  unfold swapConn
  split <;> cases slot <;> rfl

theorem Client.get_casSerial (x : Client) (old new : Nat) (slot : Slot) :
    (x.casSerial old new).get slot = x.get slot := by
  unfold casSerial
  split <;> cases slot <;> rfl

namespace Shared

@[simp] theorem setIndex_clients (s : Shared) (k : Key) (v : Option Nat) (slot : Slot) :
    (s.setIndex k v slot).clients = s.clients := by
  cases slot <;> rfl

@[simp] theorem setIndex_created (s : Shared) (k : Key) (v : Option Nat) (slot : Slot) :
    (s.setIndex k v slot).created = s.created := by
  cases slot <;> rfl

@[simp] theorem setIndex_conn (s : Shared) (k : Key) (v : Option Nat) (slot : Slot) :
    (s.setIndex k v slot).conn = s.conn := by
  cases slot <;> rfl

@[simp] theorem index_setIndex_self (s : Shared) (k : Key) (v : Option Nat) (slot : Slot) :
    (s.setIndex k v slot).index slot = Function.update (s.index slot) k v := by
  cases slot <;> rfl

theorem index_setIndex_of_ne (s : Shared) (k : Key) (v : Option Nat) {slot slot' : Slot}
    (h : slot' ≠ slot) : (s.setIndex k v slot).index slot' = s.index slot' := by
  cases slot <;> cases slot' <;> first | rfl | exact absurd rfl h

/-- A setter that takes an address away. -/
def clear (s : Shared) (slot : Slot) (c : Nat) (old : Option AddrRef) : Shared :=
  match (s.clients c).replacedAddr slot old with
  | some r =>
    if (s.clients c).udpFrontConn then
      (s.update c (·.swapAddr slot old none)).setIndex r.addr.key none slot
    else s.update c (·.swapAddr slot old none)
  | none => s.update c (·.swapAddr slot old none)

/-- A setter that stores an address. -/
def install (s : Shared) (slot : Slot) (c : Nat) (r : AddrRef) : Shared :=
  let t := s.update c (·.swapAddr slot none (some r))
  if (s.clients c).udpFrontConn then
    match (s.clients c).get slot with
    | some q => (t.setIndex r.addr.key (some c) slot).setIndex q.addr.key none slot
    | none => t.setIndex r.addr.key (some c) slot
  else t

end Shared

/-- One address field of a client got a new value, and its map followed. -/
structure Moved (s t : Shared) (slot : Slot) (c : Nat) (new : Option AddrRef) : Prop where
  self : (t.clients c).get slot = new
  rest : ∀ d slot', d ≠ c ∨ slot' ≠ slot → (t.clients d).get slot' = (s.clients d).get slot'
  index : ∀ k, t.index slot k =
    if new.map (·.addr.key) = some k then some c
    else if ((s.clients c).get slot).map (·.addr.key) = some k then none
    else s.index slot k
  others : ∀ slot', slot' ≠ slot → t.index slot' = s.index slot'
  created : t.created = s.created
  conn : t.conn = s.conn

/-- No other client than `c` holds the address. -/
def FreeFor (s : Shared) (c : Nat) (key : Key) : Prop :=
  ∀ d slot q, d ≠ c → (s.clients d).get slot = some q → q.addr.key ≠ key

section

variable {s t : Shared} {slot : Slot} {c : Nat} {new old : Option AddrRef}

/-- Two clients do not hold one address in the same field. -/
theorem Indexed.unique (hs : Indexed s) {c d : Nat} {r q : AddrRef}
    (hr : (s.clients c).get slot = some r) (hq : (s.clients d).get slot = some q)
    (h : r.addr.key = q.addr.key) : c = d := by
  have hc := (hs.exact slot r.addr.key c).mpr ⟨r, hr, rfl⟩
  have hd := (hs.exact slot r.addr.key d).mpr ⟨q, hq, h.symm⟩
  exact Option.some.inj (hc.symm.trans hd)

theorem IndexInv.exact_moved (hs : IndexInv s) (h : Moved s t slot c new)
    (hfree : ∀ r, new = some r → FreeFor s c r.addr.key) (k : Key) (d : Nat) :
    t.index slot k = some d ↔ ∃ r, (t.clients d).get slot = some r ∧ r.addr.key = k := by
  rw [h.index]
  by_cases hd : d = c
  · subst hd
    rw [h.self]
    split_ifs with hnew hold
    · simpa [Option.map_eq_some_iff] using hnew
    · simpa [Option.map_eq_some_iff] using hnew
    · rw [hs.indexed.exact]
      simp only [Option.map_eq_some_iff] at hnew hold
      exact iff_of_false hold hnew
  · rw [h.rest d slot (.inl hd)]
    split_ifs with hnew hold
    · obtain ⟨r, hr, hk⟩ := Option.map_eq_some_iff.mp hnew
      refine iff_of_false (fun h => hd (Option.some.inj h).symm) fun ⟨q, hq, hqk⟩ => ?_
      exact hfree r hr d slot q hd hq (hqk.trans hk.symm)
    · obtain ⟨r, hr, hk⟩ := Option.map_eq_some_iff.mp hold
      refine iff_of_false (by simp) fun ⟨q, hq, hqk⟩ => ?_
      exact hd (hs.indexed.unique hq hr (hqk.trans hk.symm))
    · exact hs.indexed.exact slot k d

theorem IndexInv.apart_moved (hs : IndexInv s) (h : Moved s t slot c new)
    (hfree : ∀ r, new = some r → FreeFor s c r.addr.key) {a b : Nat} {r q : AddrRef}
    (hr : (t.clients a).clientAddr = some r) (hq : (t.clients b).authedAddr = some q)
    (hkey : r.addr.key = q.addr.key) : a = b := by
  by_cases hab : a = b
  · exact hab
  · cases slot with
    | client =>
      replace hq := (h.rest b .authed (.inr (by simp))).symm.trans hq
      by_cases ha : a = c
      · subst ha
        exact absurd hkey.symm (hfree r (h.self.symm.trans hr) b .authed q (Ne.symm hab) hq)
      · exact hs.indexed.apart a b r q ((h.rest a .client (.inl ha)).symm.trans hr) hq hkey
    | authed =>
      replace hr := (h.rest a .client (.inr (by simp))).symm.trans hr
      by_cases hb : b = c
      · subst hb
        exact absurd hkey (hfree q (h.self.symm.trans hq) a .client r hab hr)
      · exact hs.indexed.apart a b r q hr ((h.rest b .authed (.inl hb)).symm.trans hq) hkey

theorem IndexInv.moved (hs : IndexInv s) (h : Moved s t slot c new) (hc : c ∈ s.created)
    (hfree : ∀ r, new = some r → FreeFor s c r.addr.key) : IndexInv t where
  indexed := by
    refine ⟨fun slot' k d => ?_, fun _ _ _ _ => hs.apart_moved h hfree⟩
    by_cases hslot : slot' = slot
    · subst hslot
      exact hs.exact_moved h hfree k d
    · rw [h.others slot' hslot, h.rest d slot' (.inr hslot)]
      exact hs.indexed.exact slot' k d
  created d slot' r hr := by
    rw [h.created]
    by_cases hd : d = c
    · exact hd ▸ hc
    · exact hs.created d slot' r ((h.rest d slot' (.inl hd)).symm.trans hr)
  conn := h.conn ▸ hs.conn

/-- An address of a client that there is only changes while the client is
registered. -/
theorem Registers.front (h : Registers s t) (hc : c ∈ t.created) (slot : Slot)
    (hne : (t.clients c).get slot ≠ (s.clients c).get slot) :
    (s.clients c).udpFrontConn = true := by
  rcases h c hc with h | ⟨hclient, hauthed⟩
  · exact h
  · cases slot with
    | client => exact absurd hclient hne
    | authed => exact absurd hauthed hne

theorem Moved.of_put (hclients : t.clients = (s.update c (·.put slot new)).clients)
    (hindex : ∀ k, t.index slot k =
      if new.map (·.addr.key) = some k then some c
      else if ((s.clients c).get slot).map (·.addr.key) = some k then none
      else s.index slot k)
    (hothers : ∀ slot', slot' ≠ slot → t.index slot' = s.index slot')
    (hcreated : t.created = s.created) (hconn : t.conn = s.conn) : Moved s t slot c new where
  self := by rw [hclients, Shared.update_self, Client.get_put_self]
  rest d slot' h := by
    rw [hclients]
    by_cases hd : d = c
    · subst hd
      rw [Shared.update_self, Client.get_put_of_ne _ _ (h.resolve_left fun hne => hne rfl)]
    · rw [Shared.update_of_ne _ _ hd]
  index := hindex
  others := hothers
  created := hcreated
  conn := hconn

theorem Client.replacedAddr_eq_some {x : Client} {r : AddrRef}
    (h : x.replacedAddr slot old = some r) :
    x.get slot = some r ∧ x.swapAddr slot old none = x.put slot none := by
  unfold replacedAddr at h
  unfold swapAddr
  split_ifs at h with hold hget
  · exact ⟨h, if_pos (.inl hold)⟩
  · exact ⟨hget.trans h, if_pos (.inr hget)⟩

theorem Client.replacedAddr_eq_none {x : Client} (h : x.replacedAddr slot old = none)
    (slot' : Slot) : (x.swapAddr slot old none).get slot' = x.get slot' := by
  unfold replacedAddr at h
  unfold swapAddr
  split_ifs at h with hold hget
  · rw [if_pos (.inl hold)]
    by_cases hslot : slot' = slot
    · rw [hslot, get_put_self, h]
    · exact get_put_of_ne x none hslot
  · exact absurd h hold
  · rw [if_neg (by simp [hold, hget])]

theorem clear_moved {r : AddrRef} (hout : (s.clients c).replacedAddr slot old = some r)
    (hfront : (s.clients c).udpFrontConn = true) : Moved s (s.clear slot c old) slot c none := by
  obtain ⟨hget, hswap⟩ := Client.replacedAddr_eq_some hout
  have hclear : s.clear slot c old =
      (s.update c (·.put slot none)).setIndex r.addr.key none slot := by
    simp only [Shared.clear, hout, hfront, if_true, Shared.update, hswap]
  rw [hclear]
  refine .of_put (by simp) (fun k => ?_) (fun slot' h => ?_) (by simp; rfl) (by simp; rfl)
  · rw [Shared.index_setIndex_self, hget, Option.map_none, Option.map_some, if_neg (by simp),
      Function.update_apply]
    simp only [Option.some.injEq, eq_comm]
    rfl
  · exact Shared.index_setIndex_of_ne _ _ _ h

/-- A setter that takes an address away keeps the index. -/
theorem IndexInv.clear (hs : IndexInv s) (hc : c ∈ s.created)
    (hreg : Registers s (s.clear slot c old)) :
    Removes s (s.clear slot c old) ∧ IndexInv (s.clear slot c old) := by
  cases hout : (s.clients c).replacedAddr slot old with
  | none =>
    have hsame : SameAddrs s (s.clear slot c old) := by
      simp only [Shared.clear, hout]
      exact .update (Client.replacedAddr_eq_none hout)
    exact ⟨hsame.removes, hs.same hsame⟩
  | some r =>
    obtain ⟨hget, hswap⟩ := Client.replacedAddr_eq_some hout
    have hfront : (s.clients c).udpFrontConn = true := by
      by_contra hno
      have hclear : s.clear slot c old = s.update c (·.swapAddr slot old none) := by
        simp only [Shared.clear, hout, hno, if_false]
      refine hno (hreg.front (hclear ▸ hc) slot ?_)
      rw [hclear, Shared.update_self, hswap, Client.get_put_self, hget]
      simp
    have hmoved := clear_moved hout hfront
    refine ⟨⟨fun d slot' => ?_, fun d hd => hmoved.created ▸ hd⟩, hs.moved hmoved hc (by simp)⟩
    by_cases h : d = c ∧ slot' = slot
    · obtain ⟨rfl, rfl⟩ := h
      exact .inr hmoved.self
    · exact .inl (hmoved.rest d slot' (not_and_or.mp h))

/-- The new address goes in before the old one comes out; they differ. -/
theorem install_moved {r : AddrRef} (hfront : (s.clients c).udpFrontConn = true)
    (hown : ∀ q, (s.clients c).get slot = some q → q.addr.key ≠ r.addr.key) :
    Moved s (s.install slot c r) slot c (some r) := by
  have hswap : (s.clients c).swapAddr slot none (some r) = (s.clients c).put slot (some r) :=
    if_pos (.inl rfl)
  cases hget : (s.clients c).get slot with
  | none =>
    have hinstall : s.install slot c r =
        (s.update c (·.put slot (some r))).setIndex r.addr.key (some c) slot := by
      simp only [Shared.install, hget, hfront, if_true, Shared.update, hswap]
    rw [hinstall]
    refine .of_put (by simp) (fun k => ?_) (fun slot' h => ?_) (by simp; rfl) (by simp; rfl)
    · rw [Shared.index_setIndex_self, hget, Function.update_apply]
      simp only [Option.map_some, Option.map_none, Option.some.injEq, eq_comm (a := k)]
      rfl
    · exact Shared.index_setIndex_of_ne _ _ _ h
  | some q =>
    have hinstall : s.install slot c r =
        ((s.update c (·.put slot (some r))).setIndex r.addr.key (some c) slot).setIndex
          q.addr.key none slot := by
      simp only [Shared.install, hget, hfront, if_true, Shared.update, hswap]
    rw [hinstall]
    refine .of_put (by simp) (fun k => ?_) (fun slot' h => ?_) (by simp; rfl) (by simp; rfl)
    · have hne := hown q hget
      rw [Shared.index_setIndex_self, Shared.index_setIndex_self, hget, Function.update_apply,
        Function.update_apply]
      simp only [Option.map_some, Option.some.injEq, eq_comm (a := k)]
      split_ifs with hq hr
      · exact absurd (hq.trans hr.symm) hne
      · rfl
      · rfl
      · rfl
    · rw [Shared.index_setIndex_of_ne _ _ _ h]
      exact Shared.index_setIndex_of_ne _ _ _ h

/-- A setter that stores an address nobody else holds keeps the index. -/
theorem IndexInv.install {r : AddrRef} (hs : IndexInv s) (hc : c ∈ s.created)
    (hreg : Registers s (s.install slot c r))
    (hown : ∀ q, (s.clients c).get slot = some q → q.addr.key ≠ r.addr.key)
    (hfree : FreeFor s c r.addr.key) :
    IndexInv (s.install slot c r) ∧ (s.install slot c r).created = s.created := by
  have hfront : (s.clients c).udpFrontConn = true := by
    by_contra hno
    have hinstall : s.install slot c r = s.update c (·.swapAddr slot none (some r)) := by
      simp only [Shared.install, hno, if_false]
    refine hno (hreg.front (hinstall ▸ hc) slot fun h => ?_)
    rw [hinstall, Shared.update_self, Client.swapAddr, if_pos (.inl rfl), Client.get_put_self] at h
    exact hown r h.symm rfl
  have hmoved := install_moved hfront hown
  exact ⟨hs.moved hmoved hc fun q hq => Option.some.inj hq ▸ hfree, hmoved.created⟩

end

end Tsshd.Proxy

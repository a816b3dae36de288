import Tsshd.Core.Blocks
import Tsshd.Proxy.Index

/-!
# The address index in every run

Here the setters run in one go (`inSetter`), and the packet that chose the
socket has been dealt with before the reader starts (`attached`). Everything
else interleaves as in `Tsshd.Proxy.Server`: the reader with the clean-ups, the
`Close`s and the writers.

Only the reader adds addresses, and it looks an address up before it does, so
what the lookup has shown it stays true: the others only take addresses away.

* **the index** — `index_consistent`: as long as no setter changes an address of
  a client that is not registered, the maps list exactly the addresses the
  clients hold, no address has two clients, and `getClient` finds the right one;
* **the race** — `promoted_after_close`: `Close` takes the registration back
  while the reader is about to make the client's address the one in effect. The
  address is stored and no lookup finds it.
-/

namespace Tsshd.Proxy

/-! ## Contracts -/

/-- The accesses of `setClientAddr` and `setAuthedAddr` behind their first. -/
def inSetter : Label → Bool
  | .set => true
  | _ => false

/-- What is assumed of a block. -/
def Admitted (s t : Shared) : Prop := IndexInv s ∧ Registers s t

/-- The reader is the only one who adds addresses. -/
def indexReader : Contract Shared where
  rely := Removes
  guar s t := (∀ c ∈ s.created, c ∈ t.created) ∧ (IndexInv s → IndexInv t)
  rely_refl := .refl
  rely_trans h h' := h.trans h'
  guar_refl _ := ⟨fun _ => id, id⟩

/-- Everybody else. -/
def indexBystander : Contract Shared where
  rely s t := ∀ c ∈ s.created, c ∈ t.created
  guar s t := Removes s t ∧ (IndexInv s → IndexInv t)
  rely_refl _ _ := id
  rely_trans h h' c hc := h' c (h c hc)
  guar_refl s := ⟨.refl s, id⟩

/-- A contract that leaves room for steps that add no address. -/
structure Tame (C : Contract Shared) : Prop where
  guar : ∀ {s t}, Removes s t → (IndexInv s → IndexInv t) → C.guar s t
  rely : ∀ {s t}, Removes s t → C.rely s t
  created : ∀ {s t}, C.rely s t → ∀ c ∈ s.created, c ∈ t.created

theorem tame_reader : Tame indexReader :=
  ⟨fun h hinv => ⟨h.created, hinv⟩, id, Removes.created⟩

theorem tame_bystander : Tame indexBystander :=
  ⟨fun h hinv => ⟨h, hinv⟩, Removes.created, id⟩

/-- The client is one that `getClient` has a state for. -/
def Tame.there {C : Contract Shared} (hC : Tame C) (c : Nat) : Assertion C :=
  ⟨fun s => c ∈ s.created, fun h hst => hC.created hst c h⟩

def Tame.thereIf {C : Contract Shared} (hC : Tame C) (o : Option Nat) : Assertion C :=
  ⟨fun s => ∀ c ∈ o, c ∈ s.created, fun h hst c hc => hC.created hst c (h c hc)⟩

/-! ## Programs that add no address -/

section Programs

variable {args : Args} {C : Contract Shared} {J : Assertion C}

namespace Tame

theorem same (hC : Tame C) {s t : Shared} (h : SameAddrs s t) (hs : J.holds s) :
    C.guar s t ∧ J.holds t :=
  ⟨hC.guar h.removes fun hinv => hinv.same h, J.stable hs (hC.rely h.removes)⟩

theorem atomic (hC : Tame C) {α : Type} {l : Label} {en : Env → Shared → Bool}
    {up : Env → Shared → Shared} {value : Env → Shared → α} (hl : inSetter l = false)
    (h : ∀ e s, SameAddrs s (up e s)) :
    Triple inSetter Admitted J (Prog.atomic l en up value) fun _ => J :=
  .atomic hl fun e t ht _ _ => hC.same (h e t) ht

theorem modify (hC : Tame C) {c : Nat} {f : Client → Client}
    (hf : ∀ x slot, (f x).get slot = x.get slot) :
    Triple inSetter Admitted J (modify c f) fun _ => J :=
  hC.atomic rfl fun _ _ => .update (hf _)

theorem field {α : Type} (c : Nat) (f : Client → α) :
    Triple inSetter Admitted J (field c f) fun _ => J := .load rfl fun _ ht _ => ht

theorem succeeds : Triple inSetter Admitted J succeeds fun _ => J := .input rfl fun _ _ ht => ht

/-- A setter that takes an address away. -/
theorem clearAddr (hC : Tame C) (hatt : args.attachable = true) {c : Nat}
    (hc : ∀ s, J.holds s → c ∈ s.created) (slot : Slot) (old : Option AddrRef) :
    Triple inSetter Admitted J (setAddr args slot c old none) fun _ => J := by
  intro s₀ s hs
  refine .begins rfl fun ha => ⟨(hs ha).1, fun t _ ht _ => .goesOn rfl ?_⟩
  have hj := J.stable (hs ha).2 ht
  have hend : C.Owes Admitted J.holds t (t.clear slot c old) := fun hat => by
    obtain ⟨hremoves, hinv⟩ := hat.1.clear (hc t hj) hat.2
    exact ⟨hC.guar hremoves fun _ => hinv, J.stable hj (hC.rely hremoves)⟩
  unfold Shared.clear at hend
  beta_reduce
  cases hout : (t.clients c).replacedAddr slot old with
  | none =>
    rw [hout] at hend
    exact hend
  | some r =>
    rw [hout] at hend
    cases hfront : (t.clients c).udpFrontConn with
    | false =>
      rw [hfront] at hend
      exact hend
    | true =>
      rw [hfront] at hend
      show C.Through _ _ _ (delMap args slot r) _ _
      rw [delMap, if_pos hatt]
      exact .goesOn (f := pure) rfl hend

theorem closeConn (hC : Tame C) (conn : Nat) :
    Triple inSetter Admitted J (closeConn conn) fun _ => J :=
  hC.atomic rfl fun _ _ => .records rfl

theorem setClientConn (hC : Tame C) (c : Nat) (old new : Option Nat) :
    Triple inSetter Admitted J (setClientConn c old new) fun _ => J := by
  refine .bind (hC.atomic rfl fun _ _ => .update (Client.get_swapConn _ old new)) fun out => ?_
  cases out with
  | none => exact .pure _ fun _ => id
  | some conn => exact hC.closeConn conn

theorem close (hC : Tame C) (hatt : args.attachable = true) (c : Nat) :
    Triple inSetter Admitted (hC.there c) (close args c) fun _ => hC.there c := by
  have hthere : ∀ s, (hC.there c).holds s → c ∈ s.created := fun _ => id
  have hfield : ∀ (f : Client → Client), (∀ x slot, (f x).get slot = x.get slot) →
      Triple inSetter Admitted (hC.there c) (Proxy.modify c f) fun _ => hC.there c :=
    fun _ hf => hC.modify hf
  refine .bind (hC.atomic rfl fun _ _ => .update fun slot => by cases slot <;> rfl) fun won => ?_
  refine .when (fun _ => ?_) fun _ => id
  refine .bind (hfield _ fun _ slot => by cases slot <;> rfl) fun _ => ?_
  refine .bind (hfield _ fun _ slot => by cases slot <;> rfl) fun _ => ?_
  refine .bind (hfield _ fun _ slot => by cases slot <;> rfl) fun _ => ?_
  refine .bind (hC.setClientConn c none none) fun _ => ?_
  refine .bind (hC.clearAddr hatt hthere .client none) fun _ => ?_
  refine .bind (hC.clearAddr hatt hthere .authed none) fun _ => ?_
  exact hfield _ fun _ slot => by cases slot <;> rfl

theorem timeout (hC : Tame C) (hatt : args.attachable = true) (c : Nat) :
    Triple inSetter Admitted (hC.there c) (timeout args c) fun _ => hC.there c := by
  have hthere : ∀ s, (hC.there c).holds s → c ∈ s.created := fun _ => id
  refine .bind (field c _) fun oldAuthedAddr => .bind (field c _) fun oldClientAddr => ?_
  refine .bind (field c _) fun oldClientConn => .bind succeeds fun _ => ?_
  refine .when (fun _ => ?_) fun _ => id
  refine .bind (hC.clearAddr hatt hthere .authed oldAuthedAddr) fun _ => ?_
  refine .bind (hC.clearAddr hatt hthere .client oldClientAddr) fun _ => ?_
  exact hC.setClientConn c oldClientConn none

/-- A client that `getClient` returns is there. -/
theorem getClient (hC : Tame C) (clientID : Nat) :
    Triple inSetter Admitted J (getClient clientID) fun o => J.and (hC.thereIf o) := by
  refine .atomic rfl fun e t ht _ _ => ?_
  by_cases hold : clientID ∈ t.created
  · simp only [hold, if_true, true_or]
    exact ⟨C.guar_refl t, ht, fun c hc => Option.some.inj hc ▸ hold⟩
  · by_cases hok : e.ok = true
    · simp only [hold, hok, if_true, if_false, or_true]
      have hsame : SameAddrs t { t with created := clientID :: t.created } :=
        ⟨fun _ _ => rfl, fun _ => rfl, fun _ => List.mem_cons_of_mem _, id⟩
      obtain ⟨hguar, hj⟩ := hC.same hsame ht
      exact ⟨hguar, hj, fun c hc => Option.some.inj hc ▸ List.mem_cons_self⟩
    · simp only [hold, hok, if_false]
      exact ⟨C.guar_refl t, ht, fun _ hc => absurd hc (by simp)⟩

theorem alloc (hC : Tame C) : Triple inSetter Admitted J alloc fun _ => J :=
  hC.atomic rfl fun _ _ => .records rfl

theorem onNewClientConn (hC : Tame C) (c : Nat) :
    Triple inSetter Admitted J (onNewClientConn c) fun _ => J :=
  hC.atomic rfl fun _ _ => .records rfl

theorem frontWriteTo (hC : Tame C) (c : Nat) (frame : Frame) :
    Triple inSetter Admitted J (frontWriteTo args c frame) fun _ => J := by
  refine .ite (fun _ => ?_) fun _ => ?_
  · refine .bind (hC.atomic rfl fun _ _ => .records rfl) fun conn => ?_
    cases conn with
    | none => exact .pure _ fun _ => id
    | some conn =>
      exact .bind succeeds fun _ => .when (fun _ => hC.setClientConn c _ _) fun _ => id
  · exact .bind (hC.atomic rfl fun _ _ => .records rfl) fun _ => .pure _ fun _ => id

theorem writeTo (hC : Tame C) (clientID : Nat) :
    Triple inSetter Admitted J (writeTo args clientID) fun _ => J := by
  have hwrite : ∀ c frame,
      Triple inSetter Admitted J (writeUnlessClosed args c frame) fun _ => J := fun c frame =>
    .bind (field c _) fun _ => .when (fun _ => hC.frontWriteTo c frame) fun _ => id
  refine .bind (hC.getClient clientID) fun o => .weaken_pre ?_ fun _ => And.left
  cases o with
  | none => exact .pure _ fun _ => id
  | some c =>
    refine .bind (field c _) fun kcpCrypto => .ite (fun _ => ?_) fun _ => hwrite c _
    exact .bind succeeds fun _ => .when (fun _ => hwrite c _) fun _ => id

theorem openPacket (hC : Tame C) (packet : Packet) (c : Nat) {K : Option Job → Assertion C}
    (hK : ∀ s, J.holds s → (K (some .readFrom)).holds s) :
    Triple inSetter Admitted J (openPacket packet c) K := by
  have hdeliver : ∀ opened, Triple inSetter Admitted J (deliver packet c opened) K := fun _ =>
    .bind (hC.atomic rfl fun _ _ => .records rfl) fun _ => .pure _ hK
  refine .bind (hC.atomic rfl fun _ _ => .records rfl) fun kcpCrypto => ?_
  refine .ite (fun _ => .bind succeeds fun opened => ?_) fun _ => hdeliver false
  exact .ite (fun _ => hdeliver true) fun _ => .pure _ hK

theorem readFromUDP (hC : Tame C) : Triple inSetter Admitted J Udp.readFromUDP fun _ => J :=
  hC.atomic rfl fun _ _ => .records rfl

theorem waitConn (hC : Tame C) : Triple inSetter Admitted J Udp.waitConn fun _ => J :=
  .bind (.load rfl fun _ ht _ => ht) fun _ =>
    .when (fun _ => hC.atomic rfl fun _ _ => .records rfl)
      fun _ => id

theorem unlock (hC : Tame C) : Triple inSetter Admitted J Udp.unlock fun _ => J :=
  hC.atomic rfl fun _ _ => .records rfl

/-- A socket is in use already, so `initConn` goes away. -/
theorem initConn (hC : Tame C) (socket : Nat) (addr : UDPAddr) (clientID serial : Nat) :
    Triple inSetter Admitted J (Udp.initConn args socket addr clientID serial) fun _ => J := by
  let inUse (conn : Option Nat) : Assertion C :=
    ⟨fun s => J.holds s ∧ conn.isSome = true, fun h hst => ⟨J.stable h.1 hst, h.2⟩⟩
  refine .bind (hC.atomic rfl fun _ _ => .records rfl) fun _ => ?_
  refine .bind (.load (K := inUse) rfl fun t ht ha => ⟨ht, ha.1.conn⟩) fun conn => ?_
  refine .ite (fun _ => hC.unlock.weaken_pre fun _ => And.left) fun hnone => ?_
  exact .absurd (fun _ _ h => Option.some.inj h ▸ rfl) fun _ h => hnone h.2

theorem probeAuth (hC : Tame C) (socket : Nat) {K : Option Job → Assertion C}
    (hK : ∀ s, J.holds s → (K (some (.probeAuth socket))).holds s)
    (hnone : ∀ s, J.holds s → (K none).holds s) :
    Triple inSetter Admitted J (Udp.probeAuth args socket) K := by
  refine .bind hC.readFromUDP fun d => ?_
  cases openAuthPacket args d.auth with
  | none => exact .pure _ hK
  | some a => exact .bind (hC.initConn socket d.source a.1 a.2) fun _ => .pure _ hnone

end Tame

end Programs

/-! ## The reader -/

namespace Index

variable {args : Args} {addr : UDPAddr} {c : Nat}

/-- Facts that the reader keeps, as nobody else adds an address. -/
def knows (F : Shared → Prop) (hF : ∀ {s t}, Removes s t → F s → F t) : Assertion indexReader :=
  ⟨F, fun h hst => hF hst h⟩

/-- No client but those in `except` holds the address in this field. -/
def freeBut (except : Option Nat) (slot : Slot) (key : Key) : Assertion indexReader :=
  knows (fun s => ∀ d q, (s.clients d).get slot = some q → q.addr.key = key → except = some d)
    fun hst h d q hq => h d q (hst.held hq)

/-- What the client holds in this field, if anything, is (not) the address. -/
def holdsOnly (slot : Slot) (c : Nat) (key : Key) : Assertion indexReader :=
  knows (fun s => c ∈ s.created ∧ ∀ q, (s.clients c).get slot = some q → q.addr.key = key)
    fun hst h => ⟨hst.created c h.1, fun q hq => h.2 q (hst.held hq)⟩

def holdsNot (slot : Slot) (c : Nat) (key : Key) : Assertion indexReader :=
  knows (fun s => ∀ q, (s.clients c).get slot = some q → q.addr.key ≠ key)
    fun hst h q hq => h q (hst.held hq)

/-- What the load of an address field shows. -/
def seen (slot : Slot) (c : Nat) (addr : UDPAddr) (v : Option AddrRef) : Assertion indexReader :=
  if isSameAddr v addr then holdsOnly slot c addr.key else holdsNot slot c addr.key

theorem loadAddr {J : Assertion indexReader} (addr : UDPAddr) (slot : Slot) :
    Triple inSetter Admitted J (field c (·.get slot)) fun v => J.and (seen slot c addr v) := by
  refine .load rfl fun t ht ha => ⟨ht, ?_⟩
  unfold seen
  split
  · rename_i hsame
    obtain ⟨r, hr, hkey⟩ := isSameAddr_iff.mp hsame
    exact ⟨ha.1.created c slot r hr, fun q hq => Option.some.inj (hr.symm.trans hq) ▸ hkey⟩
  · exact fun q hq hkey => absurd (isSameAddr_iff.mpr ⟨q, hq, hkey⟩) ‹_›

/-- What the load of a map shows. -/
theorem loadIndex {J : Assertion indexReader} (slot : Slot) (key : Key) :
    Triple inSetter Admitted J (Prog.load .plain fun s => s.index slot key : Code (Option Nat))
      fun o => J.and (freeBut o slot key) :=
  .load rfl fun _ ht ha => ⟨ht, fun d q hq hkey => (ha.1.indexed.exact slot key d).mpr ⟨q, hq, hkey⟩⟩

/-- Nobody but `except` holds the address, and `except` does not either. -/
theorem freeBut_none {slot : Slot} {key : Key} {s : Shared}
    (h : (freeBut (some c) slot key).holds s) (hnot : (holdsNot slot c key).holds s) :
    (freeBut none slot key).holds s := by
  intro d q hq hkey
  obtain rfl := Option.some.inj (h d q hq hkey)
  exact absurd hkey (hnot q hq)

/-- What the reader knows with each answer of the lookup. -/
def found (addr : UDPAddr) : Udp.Found → Assertion indexReader
  | .client _ => .unknown _
  | .authed c => (holdsNot .client c addr.key).and (holdsOnly .authed c addr.key)
  | .unknown => (freeBut none .client addr.key).and (freeBut none .authed addr.key)

theorem lookupAuthed_found :
    Triple inSetter Admitted (freeBut none .client addr.key) (Udp.lookupAuthed addr)
      (found addr) := by
  refine .bind (loadIndex .authed addr.key) fun o => ?_
  cases o with
  | none => exact .pure _ fun _ => id
  | some d =>
    refine .bind (loadAddr addr .authed) fun v => .ite (fun hsame => ?_) fun hdiff => ?_
    · refine .pure _ fun s h => ⟨fun q hq hkey => ?_, ?_⟩
      · exact absurd (h.1.1 d q hq hkey) (by simp)
      · simpa [seen, hsame] using h.2
    · refine .pure _ fun s h => ⟨h.1.1, freeBut_none h.1.2 ?_⟩
      simpa [seen, hdiff] using h.2

theorem lookup_found :
    Triple inSetter Admitted (.unknown _) (Udp.lookup addr) (found addr) := by
  refine .bind (loadIndex .client addr.key) fun o => ?_
  cases o with
  | none => exact lookupAuthed_found.weaken_pre fun _ h => h.2
  | some d =>
    refine .bind (loadAddr addr .client) fun v => .ite (fun hsame => ?_) fun hdiff => ?_
    · exact .bind (tame_reader.atomic rfl fun _ _ => .records rfl) fun _ => .pure _ fun _ _ => trivial
    · refine lookupAuthed_found.weaken_pre fun s h => freeBut_none h.1.2 ?_
      simpa [seen, hdiff] using h.2

theorem probe_found :
    Triple inSetter Admitted (.unknown _) (Udp.probe c addr (Udp.lookup addr)) (found addr) := by
  refine .bind (loadAddr addr .client) fun v =>
    .ite (fun _ => .pure _ fun _ _ => trivial) fun hdiff => ?_
  refine .bind (loadAddr addr .authed) fun w => .ite (fun hsame => ?_) fun _ => ?_
  · refine .pure _ fun s h => ⟨?_, ?_⟩
    · simpa [seen, hdiff] using h.1.2
    · simpa [seen, hsame] using h.2
  · exact lookup_found.weaken_pre fun _ _ => trivial

theorem getClient_found (hatt : args.attachable = true) :
    Triple inSetter Admitted (.unknown _) (Udp.getClient args addr) (found addr) := by
  refine .ite (fun _ => ?_) fun hno => absurd hatt hno
  refine .bind (.load (K := fun _ => .unknown _) rfl fun _ ht _ => ht) fun o => ?_
  cases o with
  | none => exact lookup_found
  | some d => exact probe_found

/-- A setter that stores an address nobody else holds. -/
theorem installAddr (hatt : args.attachable = true) {J : Assertion indexReader} {r : AddrRef}
    {slot : Slot} (hc : ∀ s, J.holds s → c ∈ s.created)
    (hown : ∀ s, J.holds s → (holdsNot slot c r.addr.key).holds s)
    (hfree : ∀ s, J.holds s → FreeFor s c r.addr.key) :
    Triple inSetter Admitted J (setAddr args slot c none (some r)) fun _ => tame_reader.there c := by
  intro s₀ s hs
  refine .begins rfl fun ha => ⟨(hs ha).1, fun t _ ht _ => .goesOn rfl ?_⟩
  have hj := J.stable (hs ha).2 ht
  have hend : indexReader.Owes Admitted (tame_reader.there c).holds t (t.install slot c r) :=
    fun hat => by
      obtain ⟨hinv, hcreated⟩ := hat.1.install (hc t hj) hat.2 (hown t hj) (hfree t hj)
      have hthere : c ∈ (t.install slot c r).created := hcreated ▸ hc t hj
      exact ⟨⟨fun d hd => hcreated ▸ hd, fun _ => hinv⟩, hthere⟩
  unfold Shared.install at hend
  beta_reduce
  have hout : (t.clients c).replacedAddr slot none = (t.clients c).get slot := if_pos rfl
  have hget : ((t.update c (·.swapAddr slot none (some r))).clients c).get slot = some r := by
    rw [Shared.update_self, Client.swapAddr, if_pos (.inl rfl), Client.get_put_self]
  rw [hout]
  cases hfront : (t.clients c).udpFrontConn with
  | false =>
    rw [hfront] at hend
    cases hget' : (t.clients c).get slot with
    | none => exact hend
    | some q => exact hend
  | true =>
    rw [hfront, if_pos rfl] at hend
    show indexReader.Through _ _ _ (addMap args slot c >>= _) _ _
    rw [addMap, if_pos hatt]
    refine .bind (.goesOn rfl ?_)
    beta_reduce
    rw [hget]
    refine .goesOn (f := pure) rfl ?_
    cases hold : (t.clients c).get slot with
    | none =>
      rw [hold] at hend
      exact hend
    | some q =>
      rw [hold] at hend
      show indexReader.Through _ _ _ (delMap args slot q) _ _
      rw [delMap, if_pos hatt]
      exact .goesOn (f := pure) rfl hend

/-- Nobody holds the address. -/
def free (key : Key) : Assertion indexReader :=
  (freeBut none .client key).and (freeBut none .authed key)

theorem free_holds {key : Key} {s : Shared} (h : (free key).holds s) (slot : Slot) (d : Nat)
    (q : AddrRef) (hq : (s.clients d).get slot = some q) : q.addr.key ≠ key := by
  intro hkey
  cases slot with
  | client => exact absurd (h.1 d q hq hkey) (by simp)
  | authed => exact absurd (h.2 d q hq hkey) (by simp)

theorem authenticate_spec (hatt : args.attachable = true) (serial : Nat) :
    Triple inSetter Admitted ((free addr.key).and (tame_reader.there c))
      (Udp.authenticate args c addr serial) fun _ => .unknown _ := by
  have hskip : ∀ s, ((free addr.key).and (tame_reader.there c)).holds s →
      (Assertion.unknown indexReader).holds s := fun _ _ => trivial
  refine .bind (Tame.field c _) fun _ => .when (fun _ => ?_) hskip
  refine .bind (tame_reader.modify fun _ slot => by cases slot <;> rfl) fun _ => ?_
  refine .bind (Tame.field c _) fun _ => .when (fun _ => ?_) hskip
  refine .bind (tame_reader.atomic rfl fun _ _ => .update (Client.get_casSerial _ _ _)) fun _ => ?_
  refine .when (fun _ => ?_) hskip
  refine .bind tame_reader.alloc fun ref => ?_
  refine (installAddr hatt (r := ⟨ref, addr, serial⟩) (fun _ => And.right) (fun s h q => ?_)
    fun s h d slot q _ => ?_).weaken_post fun _ _ _ => trivial
  · exact free_holds h.1 .authed c q
  · exact free_holds h.1 slot d q

/-- An address taken out of `authedAddr` is good for its client only. -/
def promotable (c : Nat) (key : Key) : Assertion indexReader :=
  (tame_reader.there c).and ((holdsNot .client c key).and
    (knows (FreeFor · c key) fun hst h d slot q hd hq => h d slot q hd (hst.held hq)))

theorem promotable_of_authed {r : AddrRef} {s : Shared} (hs : IndexInv s)
    (h : (found addr (.authed c)).holds s) (hr : (s.clients c).authedAddr = some r) :
    (promotable c r.addr.key).holds s := by
  have hkey : r.addr.key = addr.key := h.2.2 r hr
  refine ⟨h.2.1, hkey ▸ h.1, fun d slot q hd hq hsame => hd ?_⟩
  cases slot with
  | client => exact hs.indexed.apart d c q r hq hr hsame
  | authed => exact hs.indexed.unique hq hr hsame

/-- What is known of the authenticated address that was read. -/
def loaded (c : Nat) : Option AddrRef → Assertion indexReader
  | none => .unknown _
  | some r => promotable c r.addr.key

theorem readAuthed_spec (hatt : args.attachable = true) {d : Datagram} :
    Triple inSetter Admitted (found d.source (.authed c)) (Udp.readAuthed args d c)
      fun _ => .unknown _ := by
  have hthere : ∀ s, (tame_reader.there c).holds s → c ∈ s.created := fun _ => id
  unfold Udp.readAuthed
  split
  · -- a promotion
    refine .bind (.load (K := loaded c) rfl fun t ht ha => ?_) fun v => ?_
    · show (loaded c (t.clients c).authedAddr).holds t
      cases hr : (t.clients c).authedAddr with
      | none => trivial
      | some r => exact promotable_of_authed ha.1 ht hr
    · cases v with
      | none => exact .pure _ fun _ => id
      | some r =>
        refine .bind (installAddr hatt (fun _ h => h.1) (fun _ h => h.2.1) fun _ h => h.2.2)
          fun _ => ?_
        refine .bind (tame_reader.clearAddr hatt hthere .authed none) fun _ => ?_
        exact .bind (tame_reader.onNewClientConn c) fun _ => .pure _ fun _ _ => trivial
  · refine .ite (fun _ => ?_) fun _ => ?_
    · have hclear := tame_reader.clearAddr (J := found d.source (.authed c)) hatt
        (fun _ h => h.2.1) .authed none
      exact .bind hclear fun _ => .pure _ fun _ _ => trivial
    · refine .bind (Tame.field c _) fun _ => .ite (fun _ => .pure _ fun _ _ => trivial) fun _ => ?_
      exact .bind (tame_reader.atomic rfl fun _ _ => .update (Client.get_casSerial _ _ _))
        fun _ => .pure _ fun _ _ => trivial

theorem readUnknown_spec (hatt : args.attachable = true) {d : Datagram} :
    Triple inSetter Admitted (found d.source .unknown) (Udp.readUnknown args d)
      fun _ => .unknown _ := by
  unfold Udp.readUnknown
  split
  · exact .pure _ fun _ _ => trivial
  · refine .bind (tame_reader.getClient _) fun o => ?_
    cases o with
    | none => exact .pure _ fun _ _ => trivial
    | some c =>
      refine .bind ((authenticate_spec hatt _).weaken_pre fun s h => ⟨h.1, h.2 c rfl⟩)
        fun _ => .pure _ fun _ _ => trivial

theorem receive_spec (hatt : args.attachable = true) :
    Triple inSetter Admitted (.unknown indexReader) (Udp.receive args) fun _ => .unknown _ := by
  refine .bind tame_reader.readFromUDP fun d => .bind (getClient_found hatt) fun f => ?_
  cases f with
  | client c => exact .pure _ fun _ => id
  | authed c => exact readAuthed_spec hatt
  | unknown => exact readUnknown_spec hatt

end Index

/-! ## The system -/

/-- The state the reader finds: a socket is in use, and the packet that chose
it, if there are several, has been dealt with. -/
def afterInit (args : Args) (s : Shared) : Prop :=
  if args.probing then
    ∃ e socket addr clientID serial,
      s = ((Udp.initConn args socket addr clientID serial).alone e (started args)).2
  else s = started args

/-- The proxy once its socket is chosen. -/
def attached (args : Args) : System Shared Env Label Job :=
  { system args with init := afterInit args }

section Init

variable {args : Args}

@[simp] theorem alone_field {α : Type} (e : Env) (c : Nat) (f : Client → α) (s : Shared) :
    (field c f).alone e s = (f (s.clients c), s) := rfl

@[simp] theorem alone_modify (e : Env) (c : Nat) (f : Client → Client) (s : Shared) :
    (modify c f).alone e s = ((), s.update c f) := rfl

@[simp] theorem alone_alloc (e : Env) (s : Shared) :
    alloc.alone e s = (s.fresh, { s with fresh := s.fresh + 1 }) := rfl

theorem setAddr_alone (hatt : args.attachable = true) (e : Env) (s : Shared) (slot : Slot)
    (c : Nat) (r : AddrRef) :
    ((setAddr args slot c none (some r)).alone e s).2 = s.install slot c r := by
  have hout : (s.clients c).replacedAddr slot none = (s.clients c).get slot := if_pos rfl
  have hget : ((s.update c (·.swapAddr slot none (some r))).clients c).get slot = some r := by
    rw [Shared.update_self, Client.swapAddr, if_pos (.inl rfl), Client.get_put_self]
  simp only [setAddr, Shared.install, alone_field, Prog.exchange, Prog.alone_bind,
    Prog.alone_atomic, hout, Option.isSome_some, Bool.true_and]
  cases hfront : (s.clients c).udpFrontConn with
  | false => cases (s.clients c).get slot <;> rfl
  | true =>
    simp only [Prog.alone_when, if_true, addMap, hatt, Prog.load, Prog.store, Prog.alone_bind,
      Prog.alone_atomic, hget]
    cases (s.clients c).get slot with
    | none => rfl
    | some q => simp only [delMap, hatt, if_true, Prog.store, Prog.alone_when, Prog.alone_atomic]

/-- The first address of all. -/
theorem IndexInv.install_first {s t : Shared} {c : Nat} (hs : IndexInv s) (hc : c ∈ s.created)
    (hnone : ∀ d slot, (s.clients d).get slot = none) (h : SameAddrs s t)
    (hfront : (t.clients c).udpFrontConn = true) (r : AddrRef) :
    IndexInv (t.install .authed c r) := by
  have hblank : ∀ d slot, (t.clients d).get slot = none := fun d slot =>
    (h.addrs d slot).trans (hnone d slot)
  refine (hs.same h).moved (install_moved hfront ?_) (h.created c hc) fun _ _ d slot q _ hq => ?_
  · simp [hblank]
  · simp [hblank] at hq

theorem authenticate_alone {s : Shared} (hatt : args.attachable = true) (hs : IndexInv s) {c : Nat}
    (hc : c ∈ s.created) (hnone : ∀ d slot, (s.clients d).get slot = none) (e : Env)
    (addr : UDPAddr) (serial : Nat) :
    IndexInv ((Udp.authenticate args c addr serial).alone e s).2 := by
  have hfront : SameAddrs s (s.update c ({ · with udpFrontConn := true })) :=
    .update fun slot => by cases slot <;> rfl
  have hserial : ∀ old, SameAddrs s
      ((s.update c ({ · with udpFrontConn := true })).update c (·.casSerial old serial)) :=
    fun old => hfront.trans (.update (Client.get_casSerial _ old serial))
  simp only [Udp.authenticate, Prog.exchange, Prog.alone_bind, alone_field, Prog.alone_when,
    alone_modify, Prog.alone_atomic, alone_alloc, setAuthedAddr]
  split_ifs
  · rw [setAddr_alone hatt]
    have hwon := hserial ((s.update c ({ · with udpFrontConn := true })).clients c).serialNumber
    refine hs.install_first hc hnone (hwon.trans (.records ?_)) ?_ _
    · rfl
    · simp [Client.casSerial]
  · exact hs.same (hserial _)
  · exact hs.same hfront
  · exact hs

theorem started_get (args : Args) (c : Nat) (slot : Slot) :
    ((started args).clients c).get slot = none := by
  cases slot <;> rfl

/-- No address is held, and a socket is in use. -/
theorem indexInv_blank (args : Args) {s : Shared} (hclients : s.clients = (started args).clients)
    (hindex : ∀ slot, s.index slot = fun _ => none) (hconn : s.conn.isSome = true) : IndexInv s := by
  have hget : ∀ c slot, (s.clients c).get slot = none := fun c slot =>
    hclients ▸ started_get args c slot
  refine ⟨⟨fun slot k c => ?_, fun c d r q hr => ?_⟩, fun c slot r hr => ?_, hconn⟩
  · simp [hindex, hget]
  · exact absurd ((hget c .client).symm.trans hr) (by simp)
  · simp [hget] at hr

theorem indexInv_afterInit (hatt : args.attachable = true) {s : Shared} (h : afterInit args s) :
    IndexInv s := by
  unfold afterInit at h
  split at h
  · rename_i hprobing
    obtain ⟨e, socket, addr, clientID, serial, rfl⟩ := h
    have hconn : (started args).conn = none := if_pos hprobing
    have hcreated : (started args).created = [] := if_pos hatt
    simp only [Udp.initConn, Udp.unlock, getClient, Prog.load, Prog.store, Prog.alone_bind,
      Prog.alone_atomic, hconn, hcreated, Option.isSome_none, Bool.false_eq_true, if_false,
      List.not_mem_nil, false_or]
    have hindex : ∀ slot, (started args).index slot = fun _ => none := fun slot => by
      cases slot <;> rfl
    by_cases hok : e.ok = true
    · simp only [hok, if_true, Prog.alone_bind, Prog.alone_atomic]
      refine IndexInv.same (authenticate_alone hatt ?_ ?_ ?_ e addr serial) (.records rfl)
      · exact indexInv_blank args rfl hindex rfl
      · exact List.mem_singleton_self _
      · exact started_get args
    · simp only [hok]
      exact indexInv_blank args rfl hindex rfl
  · subst h
    rename_i hsingle
    refine indexInv_blank args rfl (fun slot => by cases slot <;> rfl) ?_
    rw [started, if_neg hsingle]
    rfl

end Init

/-! ## The lookup -/

section Lookup

variable {args : Args} {s : Shared} {addr : UDPAddr}

/-- What an answer of the lookup says. -/
def Located (s : Shared) (addr : UDPAddr) : Udp.Found → Prop
  | .client c => isSameAddr (s.clients c).clientAddr addr = true
  | .authed c => isSameAddr (s.clients c).authedAddr addr = true ∧
      ∀ d, isSameAddr (s.clients d).clientAddr addr = false
  | .unknown => ∀ d, isSameAddr (s.clients d).clientAddr addr = false ∧
      isSameAddr (s.clients d).authedAddr addr = false

theorem Indexed.held_iff (hs : Indexed s) (slot : Slot) (c : Nat) :
    isSameAddr ((s.clients c).get slot) addr = true ↔ s.index slot addr.key = some c := by
  rw [isSameAddr_iff, hs.exact]

theorem Indexed.not_held (hs : Indexed s) (slot : Slot) (ho : s.index slot addr.key = none)
    (d : Nat) : isSameAddr ((s.clients d).get slot) addr = false := by
  rw [Bool.eq_false_iff, Ne, hs.held_iff, ho]
  simp

theorem lookupAuthed_located (hs : Indexed s)
    (hno : ∀ d, isSameAddr (s.clients d).clientAddr addr = false) (e : Env) :
    Located s addr ((Udp.lookupAuthed addr).alone e s).1 := by
  simp only [Udp.lookupAuthed, Prog.load, Prog.alone_bind, Prog.alone_atomic]
  cases ho : s.authedMap addr.key with
  | none => exact fun d => ⟨hno d, hs.not_held .authed ho d⟩
  | some c =>
    have hsame : isSameAddr (s.clients c).authedAddr addr = true :=
      (hs.held_iff .authed c).mpr ho
    simp only [Prog.alone_bind, alone_field, hsame, if_true]
    exact ⟨hsame, hno⟩

theorem lookup_located (hs : Indexed s) (e : Env) :
    Located s addr ((Udp.lookup addr).alone e s).1 := by
  simp only [Udp.lookup, Prog.load, Prog.alone_bind, Prog.alone_atomic]
  cases ho : s.clientMap addr.key with
  | none => exact lookupAuthed_located hs (hs.not_held .client ho) e
  | some c =>
    have hsame : isSameAddr (s.clients c).clientAddr addr = true :=
      (hs.held_iff .client c).mpr ho
    simp only [Prog.store, Prog.alone_bind, Prog.alone_atomic, alone_field, hsame, if_true]
    exact hsame

theorem probe_located (hs : Indexed s) (c : Nat) (e : Env) :
    Located s addr ((Udp.probe c addr (Udp.lookup addr)).alone e s).1 := by
  simp only [Udp.probe, Prog.alone_bind, alone_field]
  by_cases hclient : isSameAddr (s.clients c).clientAddr addr = true
  · simp only [hclient, if_true]
    exact hclient
  · simp only [hclient, Bool.false_eq_true, if_false, Prog.alone_bind, alone_field]
    by_cases hauthed : isSameAddr (s.clients c).authedAddr addr = true
    · simp only [hauthed, if_true]
      refine ⟨hauthed, fun d => Bool.eq_false_iff.mpr fun hd => ?_⟩
      -- the address would be in effect for one client and authenticated for another
      obtain ⟨r, hr, hrk⟩ := isSameAddr_iff.mp hd
      obtain ⟨q, hq, hqk⟩ := isSameAddr_iff.mp hauthed
      obtain rfl := hs.apart d c r q hr hq (hrk.trans hqk.symm)
      exact absurd hd hclient
    · simp only [hauthed, Bool.false_eq_true, if_false]
      exact lookup_located hs e

/-- The lookup goes through the cache if there is one, and is right. -/
theorem getClient_located (hatt : args.attachable = true) (hs : Indexed s) (e : Env) :
    Located s addr ((Udp.getClient args addr).alone e s).1 := by
  simp only [Udp.getClient, hatt, if_true, Prog.load, Prog.alone_bind, Prog.alone_atomic]
  cases s.cacheClient with
  | none => exact lookup_located hs e
  | some c => exact probe_located hs c e

theorem Located.client_iff (hs : Indexed s) {f : Udp.Found} (h : Located s addr f) (c : Nat) :
    f = .client c ↔ isSameAddr (s.clients c).clientAddr addr = true := by
  refine ⟨fun hf => by subst hf; exact h, fun hc => ?_⟩
  cases f with
  | client d =>
    have hd := (hs.held_iff .client d).mp h
    rw [Option.some.inj (hd.symm.trans ((hs.held_iff .client c).mp hc))]
  | authed d => exact absurd hc (Bool.eq_false_iff.mp (h.2 c))
  | unknown => exact absurd hc (Bool.eq_false_iff.mp (h c).1)

theorem Located.authed_iff (hs : Indexed s) {f : Udp.Found} (h : Located s addr f) (c : Nat) :
    f = .authed c ↔ isSameAddr (s.clients c).authedAddr addr = true ∧
      ∀ d, isSameAddr (s.clients d).clientAddr addr = false := by
  refine ⟨fun hf => by subst hf; exact h, fun ⟨hc, hno⟩ => ?_⟩
  cases f with
  | client d => exact absurd h (Bool.eq_false_iff.mp (hno d))
  | authed d =>
    have hd := (hs.held_iff .authed d).mp h.1
    rw [Option.some.inj (hd.symm.trans ((hs.held_iff .authed c).mp hc))]
  | unknown => exact absurd hc (Bool.eq_false_iff.mp (h c).2)

end Lookup

/-! ## Every run -/

/-- What a thread may run. -/
def indexPre : Nat → Job → Shared → Prop
  | 0, .readFrom, _ => True
  | 0, .receive, _ => True
  | _ + 1, .probeAuth _, _ => True
  | _ + 1, .writeTo _, _ => True
  | _ + 1, .close c, s => c ∈ s.created
  | _ + 1, .timeout c, s => c ∈ s.created
  | _ + 1, .activate _ _, _ => True
  | _ + 1, .produce _ _, _ => True
  | _, _, _ => False

def indexContract : Nat → Contract Shared
  | 0 => indexReader
  | _ + 1 => indexBystander

theorem code_outside (args : Args) (job : Job) (e : Env) (l : Label)
    (h : (code args job).label? e = some l) : inSetter l = false := by
  cases job with
  | readFrom =>
    rw [code, readFrom] at h
    split at h
    · split at h
      · exact Option.some.inj h ▸ rfl
      · exact Option.some.inj h ▸ rfl
    · exact Option.some.inj h ▸ rfl
  | receive => exact Option.some.inj h ▸ rfl
  | probeAuth socket => exact Option.some.inj h ▸ rfl
  | writeTo clientID => exact Option.some.inj h ▸ rfl
  | close c => exact Option.some.inj h ▸ rfl
  | timeout c => exact Option.some.inj h ▸ rfl
  | activate c server => exact Option.some.inj h ▸ rfl
  | handshake => exact Option.some.inj h ▸ rfl
  | readLoop conn c => exact Option.some.inj h ▸ rfl
  | produce clientID serial => exact Option.some.inj h ▸ rfl

theorem Registers.refl (s : Shared) : Registers s s := fun _ _ => .inr ⟨rfl, rfl⟩

/-- What a thread goes on with. -/
def goesOnWith (C : Contract Shared) (P : Job → Prop) (o : Option Job) : Assertion C :=
  ⟨fun _ => ∀ job ∈ o, P job, fun h _ => h⟩

/-- A thread with a triple for its code is parked within the outline. -/
theorem parked_of_triple {args : Args} {i : Nat} {job : Job} {s : Shared} {P : Job → Prop}
    {J : Assertion (indexContract i)}
    (h : Triple inSetter Admitted J (code args job) (goesOnWith (indexContract i) P))
    (hs : IndexInv s) (hj : J.holds s) (hP : ∀ job t, P job → indexPre i job t) :
    (indexContract i).Parked inSetter (fun s t => IndexInv s ∧ Registers s t)
      (fun o t => ∀ job' ∈ o, indexPre i job' t) (code args job) s := by
  show (indexContract i).Parked inSetter Admitted _ _ s
  exact h.parked (code_outside args job) hj ⟨hs, .refl s⟩ fun o t ho job hjob =>
    hP job t (ho job hjob)

/-- A bystander that does something once. -/
theorem Triple.once {C : Contract Shared} {J : Assertion C} {p : Code Unit}
    (h : Triple inSetter Admitted J p fun _ => J) :
    Triple inSetter Admitted J (p >>= fun _ => pure none) (goesOnWith C fun _ => False) :=
  .bind h fun _ => .pure _ fun _ _ _ hjob => absurd hjob (by simp)

theorem code_parked {args : Args} (htcp : args.tcp = false) (hatt : args.attachable = true)
    {i : Nat} {job : Job} {s : Shared} (hs : IndexInv s) (hpre : indexPre i job s) :
    (indexContract i).Parked inSetter (fun s t => IndexInv s ∧ Registers s t)
      (fun o t => ∀ job' ∈ o, indexPre i job' t) (code args job) s := by
  have hT := tame_bystander
  have honce : ∀ {i : Nat} {job : Job} {p : Code Unit} {J : Assertion indexBystander},
      code args job = (p >>= fun _ => pure none) → J.holds s →
      Triple inSetter Admitted J p (fun _ => J) →
      (indexContract (i + 1)).Parked inSetter (fun s t => IndexInv s ∧ Registers s t)
        (fun o t => ∀ job' ∈ o, indexPre (i + 1) job' t) (code args job) s :=
    fun hcode hj hp => parked_of_triple (J := _) (hcode ▸ Triple.once hp) hs hj
      fun _ _ => False.elim
  match i, job with
  | 0, .readFrom =>
    refine parked_of_triple (J := .unknown indexReader) (P := (· = .receive)) ?_ hs trivial
      fun job t h => h ▸ trivial
    rw [code, readFrom, if_neg (by simp [htcp])]
    exact .bind tame_reader.waitConn fun _ => .pure _ fun _ _ job hjob =>
      (Option.some.inj hjob).symm
  | 0, .receive =>
    refine parked_of_triple (J := .unknown indexReader)
      (P := fun job => job = .readFrom ∨ job = .receive) ?_ hs trivial fun job t h => ?_
    · refine .bind (Index.receive_spec hatt) fun o => ?_
      cases o with
      | none => exact .pure _ fun _ _ job hjob => .inr (Option.some.inj hjob).symm
      | some dc =>
        exact tame_reader.openPacket _ _ fun _ _ job hjob => .inl (Option.some.inj hjob).symm
    · rcases h with rfl | rfl <;> trivial
  | i + 1, .probeAuth socket =>
    refine parked_of_triple (J := .unknown indexBystander) (P := (· = .probeAuth socket)) ?_ hs
      trivial fun job t h => h ▸ trivial
    exact hT.probeAuth socket (fun _ _ job hjob => (Option.some.inj hjob).symm)
      fun _ _ job hjob => absurd hjob (by simp)
  | i + 1, .writeTo clientID => exact honce rfl trivial (hT.writeTo clientID (J := .unknown _))
  | i + 1, .close c => exact honce rfl hpre (hT.close hatt c)
  | i + 1, .timeout c => exact honce rfl hpre (hT.timeout hatt c)
  | i + 1, .activate c server =>
    exact honce rfl trivial (hT.modify (J := .unknown _) fun _ slot => by cases slot <;> rfl)
  | i + 1, .produce clientID serial =>
    exact honce rfl trivial (hT.atomic (J := .unknown _) rfl fun _ _ => .records rfl)

def indexOutline {args : Args} (htcp : args.tcp = false) (hatt : args.attachable = true) :
    BlockOutline (attached args) inSetter Registers where
  inv := IndexInv
  contract := indexContract
  pre := indexPre
  init _ h := indexInv_afterInit hatt h
  start s i job _ hjob := by
    cases i with
    | zero =>
      simp only [attached, system, List.getElem?_cons_zero, Option.some.injEq] at hjob
      exact hjob ▸ trivial
    | succ i =>
      simp only [attached, system, List.getElem?_cons_succ] at hjob
      split at hjob
      · rw [List.getElem?_map, Option.map_eq_some_iff] at hjob
        obtain ⟨k, _, rfl⟩ := hjob
        trivial
      · exact absurd hjob (by simp)
  spawn s i job hi _ hspawn := by
    obtain ⟨i, rfl⟩ : ∃ j, i = j + 1 := by
      simp only [attached, system, List.length_cons] at hi
      exact ⟨i - 1, by omega⟩
    cases job with
    | writeTo _ => trivial
    | close c => exact of_decide_eq_true (p := c ∈ s.created) hspawn
    | timeout c => exact of_decide_eq_true (p := c ∈ s.created) hspawn
    | activate _ _ => trivial
    | produce _ _ => trivial
    | _ => exact absurd hspawn (by simp [attached, system, spawns, htcp])
  code _ _ _ hs hpre := code_parked htcp hatt hs hpre
  outside job e l h := code_outside args job e l h
  keep i s t hs hguar := by
    cases i with
    | zero => exact hguar.2 hs
    | succ i => exact hguar.2 hs
  compat i j s t hij _ hguar := by
    cases i with
    | zero =>
      cases j with
      | zero => exact absurd rfl hij
      | succ j => exact hguar.1
    | succ i =>
      cases j with
      | zero => exact hguar.1
      | succ j => exact hguar.1.created

/-- The index is consistent: no address has two clients, the maps list exactly
the addresses that are held, and `getClient` answers with the client that holds
the address, whatever client is in the cache. -/
structure Consistent (args : Args) (s : Shared) : Prop where
  client : ∀ c d r q, (s.clients c).clientAddr = some r → (s.clients d).clientAddr = some q →
    isSameAddr (some r) q.addr = true → c = d
  apart : ∀ c d r q, (s.clients c).clientAddr = some r → (s.clients d).authedAddr = some q →
    isSameAddr (some r) q.addr = true → c = d
  clientMap : ∀ k c, s.clientMap k = some c ↔
    ∃ r, (s.clients c).clientAddr = some r ∧ r.addr.key = k
  authedMap : ∀ k c, s.authedMap k = some c ↔
    ∃ r, (s.clients c).authedAddr = some r ∧ r.addr.key = k
  findsClient : ∀ e cacheClient addr c,
    ((Udp.getClient args addr).alone e { s with cacheClient }).1 = .client c ↔
      isSameAddr (s.clients c).clientAddr addr = true
  findsAuthed : ∀ e cacheClient addr c,
    ((Udp.getClient args addr).alone e { s with cacheClient }).1 = .authed c ↔
      isSameAddr (s.clients c).authedAddr addr = true ∧
        ∀ d, isSameAddr (s.clients d).clientAddr addr = false

theorem Indexed.consistent {args : Args} (hatt : args.attachable = true) {s : Shared}
    (hs : Indexed s) : Consistent args s := by
  have hkey : ∀ {r q : AddrRef}, isSameAddr (some r) q.addr = true → r.addr.key = q.addr.key := by
    intro r q h
    obtain ⟨r', hr', hk⟩ := isSameAddr_iff.mp h
    exact Option.some.inj hr' ▸ hk
  have hcached : ∀ cacheClient, Indexed { s with cacheClient } := fun _ =>
    ⟨fun
      | .client => hs.exact .client
      | .authed => hs.exact .authed, hs.apart⟩
  exact {
    client := fun c d r q hr hq h =>
      hs.unique (show (s.clients c).get .client = some r from hr) hq (hkey h)
    apart := fun c d r q hr hq h => hs.apart c d r q hr hq (hkey h)
    clientMap := hs.exact .client
    authedMap := hs.exact .authed
    findsClient := fun e cache addr c =>
      (getClient_located hatt (hcached cache) e).client_iff (hcached cache) c
    findsAuthed := fun e cache addr c =>
      (getClient_located hatt (hcached cache) e).authed_iff (hcached cache) c }

/-- **Address index consistency.** Take any run of the attachable UDP proxy from
its first packet on in which the setters run in one go and none of them changes
an address of a client that is not registered with the frontend. The index is
consistent in every state of it. -/
theorem index_consistent {args : Args} (htcp : args.tcp = false) (hatt : args.attachable = true)
    {p : Pool Shared Env Label Job}
    (h : ((attached args).blocks inSetter).ReachableVia
      ((attached args).BlocksMeet inSetter Registers) p) : Consistent args p.shared :=
  ((indexOutline htcp hatt).sound h).inv.indexed.consistent hatt

namespace Index

def udpArgs : Args := { attachable := true, kcp := false }

def home : UDPAddr := { ip := [10, 0, 0, 1], port := 4000 }

theorem afterInit_started : afterInit udpArgs (started udpArgs) := by
  rw [afterInit, if_neg (by decide)]

/-- A client sends an authentication packet from `home`, and the reader
accepts it. -/
def authenticates (thread clientID serial : Nat) : List (Sched Env Job) :=
  [Sched.spawn (.produce clientID serial)] ++ runs thread 1 ++
    [Sched.run 0 { datagram := { source := home, length := 60, auth := some (clientID, serial) } }] ++
    runs 0 11

/-- A packet arrives from `home`. -/
def dataPacket : Sched Env Job := .run 0 { datagram := { source := home, length := 40 } }

/-- Client 7 comes and goes, and client 8 uses the address after it. -/
def reused : List (Sched Env Job) :=
  runs 0 2 ++ authenticates 1 7 5 ++ [dataPacket] ++ runs 0 13 ++
    [Sched.spawn (.close 7)] ++ runs 2 8 ++ authenticates 3 8 6 ++ [dataPacket] ++ runs 0 7

theorem index_consistent_reused :
    ∃ p, ((attached udpArgs).blocks inSetter).ReachableVia
      ((attached udpArgs).BlocksMeet inSetter Registers) p ∧
      (p.shared.clients 7).clientAddr = none ∧
      isSameAddr (p.shared.clients 8).clientAddr home = true ∧
      p.shared.clientMap home.key = some 8 ∧ Consistent udpArgs p.shared := by
  have hrun : (((attached udpArgs).blocks inSetter).execWhile
      ((attached udpArgs).blocksMeet inSetter fun s t => decide (Registers s t))
      ((attached udpArgs).pool (started udpArgs)) reused).any
        (fun p => decide ((p.shared.clients 7).clientAddr = none ∧
          isSameAddr (p.shared.clients 8).clientAddr home = true ∧
          p.shared.clientMap home.key = some 8)) = true := by
    decide
  obtain ⟨p, hp, hend⟩ := (Option.any_eq_true _ _).mp hrun
  have hreach := System.reachableVia_blocks (fun _ _ => of_decide_eq_true) afterInit_started hp
  obtain ⟨h7, h8, hmap⟩ := of_decide_eq_true hend
  exact ⟨p, hreach, h7, h8, hmap, index_consistent rfl rfl hreach⟩

/-- The reader has loaded the authenticated address of client 7 when the client
is closed; then it makes the address the one in effect. -/
def closedBetween : List (Sched Env Job) :=
  runs 0 2 ++ authenticates 1 7 5 ++ [dataPacket] ++ runs 0 5 ++
    [Sched.spawn (.close 7)] ++ runs 2 8 ++ runs 0 2

/-- **An address in effect that no lookup finds.** Every setter has run to its
end, the client holds `home` as the address in effect, and neither the map nor
`getClient` knows it. -/
theorem promoted_after_close :
    ∃ p, ((attached udpArgs).blocks inSetter).Reachable p ∧
      (attached udpArgs).machine.Reachable p ∧
      isSameAddr (p.shared.clients 7).clientAddr home = true ∧
      p.shared.clientMap home.key = none ∧
      ((Udp.getClient udpArgs home).alone {} p.shared).1 = .unknown := by
  have hrun : (((attached udpArgs).blocks inSetter).exec
      ((attached udpArgs).pool (started udpArgs)) closedBetween).any
        (fun p => decide (isSameAddr (p.shared.clients 7).clientAddr home = true ∧
          p.shared.clientMap home.key = none ∧
          ((Udp.getClient udpArgs home).alone {} p.shared).1 = .unknown)) = true := by
    decide
  obtain ⟨p, hp, hend⟩ := (Option.any_eq_true _ _).mp hrun
  have hreach : ((attached udpArgs).blocks inSetter).Reachable p :=
    .exec (.init (s := (attached udpArgs).pool (started udpArgs)) ⟨afterInit_started, rfl⟩) hp
  exact ⟨p, hreach, System.blocks_reachable hreach, of_decide_eq_true hend⟩

end Index

end Tsshd.Proxy

import Tsshd.Proxy.Server

/-!
# Accesses every contract admits

Most accesses of the proxy touch nothing a property speaks about. `Bookkeeping`
lists those of the address maps and the frontends, and `Housekeeping` those of a
client that concern no security property. A contract that admits them admits
every function that is made of them, whatever the function is called for.
-/

namespace Tsshd.Proxy

/-- The accesses to no client keep the contract and take nothing away from what
`J` knows. -/
structure Bookkeeping {C : Contract Shared} (J : Assertion C) : Prop where
  index : ∀ s key value slot, J.Admits s (s.setIndex key value slot)
  created : ∀ s ids, J.Admits s { s with created := ids }
  cache : ∀ s c, J.Admits s { s with cacheClient := c }
  signals : ∀ s l, J.Admits s { s with frameSignalCh := l }
  acks : ∀ s l, J.Admits s { s with ackCh := l }
  conns : ∀ s l, J.Admits s { s with closedConns := l }
  notified : ∀ s l, J.Admits s { s with notified := l }

/-- Nor do new numbers, other connections, and the accesses that only clear an
address. -/
structure Housekeeping {C : Contract Shared} (J : Assertion C) : Prop extends Bookkeeping J where
  fresh : ∀ s n, J.Admits s { s with fresh := n }
  swapConn : ∀ s c old new, J.Admits s (s.update c (·.swapConn old new))
  clear : ∀ s c slot old, J.Admits s (s.update c (·.swapAddr slot old none))
  cond : ∀ s c b, J.Admits s (s.update c ({ · with clientCond := b }))
  server : ∀ s c v, J.Admits s (s.update c ({ · with server := v }))
  front : ∀ s c b, J.Admits s (s.update c ({ · with udpFrontConn := b }))

variable {C : Contract Shared} {J : Assertion C} {asm : Label → Shared → Prop} {args : Args}

theorem field_keeps {α : Type} (c : Nat) (f : Client → α) : J.Keeps asm (field c f) := .load

theorem succeeds_keeps : J.Keeps asm succeeds := .input

namespace Bookkeeping

theorem addMap (h : Bookkeeping J) (slot : Slot) (c : Nat) :
    J.Keeps asm (addMap args slot c) := by
  refine .ite (.bind .load fun o => ?_) (.pure _)
  cases o with
  | none => exact .pure _
  | some r => exact .store fun s _ => h.index s _ _ _

theorem delMap (h : Bookkeeping J) (slot : Slot) (r : AddrRef) :
    J.Keeps asm (delMap args slot r) :=
  .ite (.store fun s _ => h.index s _ _ _) (.pure _)

/-- Behind its swap a setter only keeps the maps. -/
theorem maps (h : Bookkeeping J) (slot : Slot) (c : Nat) (new : Bool) (conn : Bool)
    (out : Option AddrRef) :
    J.Keeps asm (do
      Prog.when (new && conn) (Proxy.addMap args slot c)
      match out with
      | some r => Prog.when conn (Proxy.delMap args slot r)
      | none => pure ()) := by
  refine .bind (.when (h.addMap slot c)) fun _ => ?_
  cases out with
  | none => exact .pure _
  | some r => exact .when (h.delMap slot r)

/-- A setter brings about what its swap brings about. -/
theorem setAddr (h : Bookkeeping J) {slot : Slot} {c : Nat} {old new : Option AddrRef}
    {s : Shared}
    (hswap : ∀ t, C.rely s t → asm .set t →
      C.guar t (t.update c (·.swapAddr slot old new)) ∧
        J.holds (t.update c (·.swapAddr slot old new))) :
    C.Safe asm (fun _ t => J.holds t) (setAddr args slot c old new) s := by
  refine .load fun t hst _ => .exchange fun u htu hu => ?_
  obtain ⟨hguar, hj⟩ := hswap u (C.rely_trans hst htu) hu
  exact ⟨hguar, h.maps slot c new.isSome _ _ _ hj⟩

theorem closeConn (h : Bookkeeping J) (conn : Nat) : J.Keeps asm (closeConn conn) :=
  .store fun s _ => h.conns s _

/-- The client a packet names, if there is one. -/
theorem getClient (h : Bookkeeping J) (clientID : Nat) {s : Shared} (hs : J.holds s) :
    C.Safe asm (fun o t => (∀ c ∈ o, c = clientID) ∧ J.holds t) (getClient clientID) s := by
  intro t e hst _ _
  have hj := J.stable hs hst
  have hkeep : J.Admits t (if clientID ∈ t.created then t
      else if e.ok then { t with created := clientID :: t.created } else t) := by
    split
    · exact .refl t
    · split
      · exact h.created t _
      · exact .refl t
  refine ⟨(hkeep hj).1, fun u hu => ⟨fun c hc => ?_, J.stable (hkeep hj).2 hu⟩⟩
  rw [Option.mem_def, Option.ite_none_right_eq_some] at hc
  exact (Option.some.inj hc.2).symm

theorem getClient_keeps (h : Bookkeeping J) (clientID : Nat) :
    J.Keeps asm (Proxy.getClient clientID) :=
  fun _ hs => (h.getClient clientID hs).weaken fun _ _ ht => ht.2

theorem onNewClientConn (h : Bookkeeping J) (c : Nat) : J.Keeps asm (onNewClientConn c) :=
  .store fun s _ => h.notified s _

end Bookkeeping

namespace Housekeeping

theorem clearAddr (h : Housekeeping J) (slot : Slot) (c : Nat) (old : Option AddrRef) :
    J.Keeps asm (Proxy.setAddr args slot c old none) :=
  fun _ hs => h.setAddr fun t hst _ => h.clear t c slot old (J.stable hs hst)

theorem setClientConn (h : Housekeeping J) (c : Nat) (old new : Option Nat) :
    J.Keeps asm (setClientConn c old new) := by
  refine .bind (.exchange fun s _ => h.swapConn s c old new) fun out => ?_
  cases out with
  | none => exact .pure _
  | some conn => exact h.closeConn conn

theorem timeout (h : Housekeeping J) (c : Nat) : J.Keeps asm (timeout args c) :=
  .bind (field_keeps c _) fun oldAuthedAddr => .bind (field_keeps c _) fun oldClientAddr =>
    .bind (field_keeps c _) fun oldClientConn => .bind succeeds_keeps fun _ =>
      .when (.bind (h.clearAddr .authed c oldAuthedAddr) fun _ =>
        .bind (h.clearAddr .client c oldClientAddr) fun _ => h.setClientConn c oldClientConn none)

theorem alloc (h : Housekeeping J) : J.Keeps asm alloc :=
  .exchange fun s _ => h.fresh s _

end Housekeeping

/-! ## The address lookup

`getClient` of the UDP frontend answers with what one load has shown it. `K`
says what the reader knows with each answer. -/

section Lookup

variable {K : Udp.Found → Assertion C} {addr : UDPAddr} {s : Shared}
  (hclient : ∀ t c, asm .plain t → J.holds t →
    isSameAddr (t.clients c).clientAddr addr = true → (K (.client c)).holds t)
  (hauthed : ∀ t c, asm .plain t → J.holds t →
    isSameAddr (t.clients c).authedAddr addr = true → (K (.authed c)).holds t)
  (hunknown : ∀ t, J.holds t → (K .unknown).holds t)

theorem answer (f : Udp.Found) {t : Shared} (h : (K f).holds t) :
    C.Safe asm (fun f u => (K f).holds u) (pure f : Code Udp.Found) t :=
  fun _ hu => (K f).stable h hu

include hclient hauthed in
theorem probe_found {c : Nat} {otherwise : Code Udp.Found}
    (ho : ∀ t, J.holds t → C.Safe asm (fun f u => (K f).holds u) otherwise t)
    (hs : J.holds s) :
    C.Safe asm (fun f u => (K f).holds u) (Udp.probe c addr otherwise) s := by
  refine .load fun t hst hat => .ite (answer _ ∘ hclient t c hat (J.stable hs hst)) fun _ => ?_
  refine .load fun u htu hau => ?_
  have hu := J.stable hs (C.rely_trans hst htu)
  exact .ite (answer _ ∘ hauthed u c hau hu) fun _ => ho u hu

include hauthed hunknown in
theorem lookupAuthed_found (hs : J.holds s) :
    C.Safe asm (fun f u => (K f).holds u) (Udp.lookupAuthed addr) s := by
  refine .load fun t hst _ => ?_
  have ht := J.stable hs hst
  split
  · exact answer _ (hunknown t ht)
  · refine .load fun u htu hau => ?_
    have hu := J.stable ht htu
    exact .ite (answer _ ∘ hauthed u _ hau hu) fun _ => answer _ (hunknown u hu)

include hclient hauthed hunknown in
theorem lookup_found (hK : ∀ f, Bookkeeping (K f)) (hs : J.holds s) :
    C.Safe asm (fun f u => (K f).holds u) (Udp.lookup addr) s := by
  refine .load fun t hst _ => ?_
  have ht := J.stable hs hst
  split
  · exact lookupAuthed_found hauthed hunknown ht
  · refine .load fun u htu hau => ?_
    have hu := J.stable ht htu
    refine .ite (fun hsame => ?_) fun _ => lookupAuthed_found hauthed hunknown hu
    refine .store fun v huv _ => ?_
    have hv := (K _).stable (hclient u _ hau hu hsame) huv
    exact ⟨((hK _).cache v _ hv).1, answer _ ((hK _).cache v _ hv).2⟩

include hclient hauthed hunknown in
theorem getClient_found (hK : ∀ f, Bookkeeping (K f)) (hs : J.holds s) :
    C.Safe asm (fun f u => (K f).holds u) (Udp.getClient args addr) s := by
  have hlookup : ∀ t, J.holds t → C.Safe asm (fun f u => (K f).holds u) (Udp.lookup addr) t :=
    fun t ht => lookup_found hclient hauthed hunknown hK ht
  refine .ite (fun _ => ?_) fun _ => ?_
  · refine .load fun t hst _ => ?_
    have ht := J.stable hs hst
    split
    · exact probe_found hclient hauthed hlookup ht
    · exact hlookup t ht
  · exact probe_found hclient hauthed (fun t ht => answer _ (hunknown t ht)) hs

end Lookup

end Tsshd.Proxy

import Tsshd.Proxy.Contracts

/-!
# What is opened and what is sealed

With KCP and attaching, the transport runs with a crypto that checks nothing:
opening and sealing are the proxy's work, under the crypto of each client. Both
`ReadFrom` and `WriteTo` pass a packet on as it is when they load no crypto, and
`Close` stores none. Everything turns on the order in which `Close` stores and
the others load.

* **writing** — `WriteTo` looks at `closed` last. `Close` stores `closed` first,
  so a missing crypto always shows: `written_sealed`;
* **reading** — `ReadFrom` does not look at `closed` at all:
  `raw_datagram_delivered`. What it delivers is opened as long as the client is
  not closed under its hands: `delivered_opened`.
-/

namespace Tsshd.Proxy

open Assertion

/-- A client without crypto is closed, and what left the proxy is sealed; under
`strict`, what came in is opened. -/
structure SealInv (strict : Prop) (s : Shared) : Prop where
  locked : ∀ c, (s.clients c).kcpCrypto = false → (s.clients c).closed = true
  sealed : ∀ w ∈ s.written, w.2 = .sealed w.1
  opened : strict → ∀ e ∈ s.delivered, e.opened = true

/-- A closed client stays closed. -/
def ClosedStays (s t : Shared) : Prop :=
  ∀ c, (s.clients c).closed = true → (t.clients c).closed = true

/-- The one contract of all goroutines. -/
def sealContract (strict : Prop) : Contract Shared where
  rely := ClosedStays
  guar s t := ClosedStays s t ∧ (SealInv strict s → SealInv strict t)
  rely_refl _ _ h := h
  rely_trans h h' c hc := h' c (h c hc)
  guar_refl _ := ⟨fun _ h => h, id⟩

section

variable {strict : Prop} {asm : Label → Shared → Prop} {args : Args} {s t : Shared}

/-- An access that touches neither the guards of the crypto nor what was
written and delivered. -/
theorem guar_of_same
    (hclients : ∀ c, (t.clients c).closed = (s.clients c).closed ∧
      (t.clients c).kcpCrypto = (s.clients c).kcpCrypto)
    (hwritten : t.written = s.written) (hdelivered : t.delivered = s.delivered) :
    (sealContract strict).guar s t := by
  refine ⟨fun c hc => (hclients c).1.trans hc, fun h => ⟨fun c hc => ?_, ?_, ?_⟩⟩
  · rw [(hclients c).1]
    exact h.locked c ((hclients c).2.symm.trans hc)
  · rw [hwritten]
    exact h.sealed
  · rw [hdelivered]
    exact h.opened

theorem admits_of_same
    (hclients : ∀ c, (t.clients c).closed = (s.clients c).closed ∧
      (t.clients c).kcpCrypto = (s.clients c).kcpCrypto)
    (hwritten : t.written = s.written) (hdelivered : t.delivered = s.delivered) :
    (unknown (sealContract strict)).Admits s t :=
  fun _ => ⟨guar_of_same hclients hwritten hdelivered, trivial⟩

theorem admits_update {c : Nat} {f : Client → Client}
    (hf : ∀ x : Client, (f x).closed = x.closed ∧ (f x).kcpCrypto = x.kcpCrypto) :
    (unknown (sealContract strict)).Admits s (s.update c f) :=
  admits_of_same
    (Shared.update_forall (P := fun d x => x.closed = (s.clients d).closed ∧
      x.kcpCrypto = (s.clients d).kcpCrypto) (hf _) fun _ _ => ⟨rfl, rfl⟩) rfl rfl

theorem seal_housekeeping (strict : Prop) : Housekeeping (unknown (sealContract strict)) where
  index s key value slot := by cases slot <;> exact admits_of_same (fun _ => ⟨rfl, rfl⟩) rfl rfl
  created _ _ := admits_of_same (fun _ => ⟨rfl, rfl⟩) rfl rfl
  cache _ _ := admits_of_same (fun _ => ⟨rfl, rfl⟩) rfl rfl
  signals _ _ := admits_of_same (fun _ => ⟨rfl, rfl⟩) rfl rfl
  acks _ _ := admits_of_same (fun _ => ⟨rfl, rfl⟩) rfl rfl
  conns _ _ := admits_of_same (fun _ => ⟨rfl, rfl⟩) rfl rfl
  fresh _ _ := admits_of_same (fun _ => ⟨rfl, rfl⟩) rfl rfl
  notified _ _ := admits_of_same (fun _ => ⟨rfl, rfl⟩) rfl rfl
  swapConn _ _ _ _ := admits_update (by simp)
  clear _ _ _ _ := admits_update (by simp)
  cond _ _ _ := admits_update (by simp)
  server _ _ _ := admits_update (by simp)
  front _ _ _ := admits_update (by simp)

/-! ## Client -/

theorem close_sealed (c : Nat) : (unknown (sealContract strict)).Keeps asm (close args c) := by
  intro s _
  refine .exchange fun t _ _ => ⟨⟨fun d hd => ?_, fun h => ⟨?_, h.sealed, h.opened⟩⟩, ?_⟩
  · exact Shared.update_forall (P := fun d x => (t.clients d).closed = true → x.closed = true)
      (fun _ => rfl) (fun _ _ => id) d hd
  · exact Shared.update_forall (P := fun _ x => x.kcpCrypto = false → x.closed = true)
      (fun _ => rfl) fun d _ => h.locked d
  have hclosed : ((t.update c ({ · with closed := true })).clients c).closed = true := by simp
  refine .when (fun _ => ?_) fun _ _ _ => trivial
  have hk := seal_housekeeping strict
  refine .store fun u hu _ => ⟨(hk.cond u c false trivial).1, ?_⟩
  refine .store fun v hv _ => ⟨(hk.server v c none trivial).1, ?_⟩
  refine .store fun w hw _ => ⟨⟨fun d hd => ?_, fun h => ⟨?_, h.sealed, h.opened⟩⟩, ?_⟩
  · exact Shared.update_forall (P := fun d x => (w.clients d).closed = true → x.closed = true)
      id (fun _ _ => id) d hd
  · -- the crypto goes when `closed` has long been stored
    have h1 : ((u.update c ({ · with clientCond := false })).clients c).closed = true := by
      simpa using hu c hclosed
    have h2 : ((v.update c ({ · with server := none })).clients c).closed = true := by
      simpa using hv c h1
    exact Shared.update_forall (P := fun _ x => x.kcpCrypto = false → x.closed = true)
      (fun _ => hw c h2) fun d _ => h.locked d
  · exact (Keeps.bind (hk.setClientConn c none none) fun _ =>
      .bind (hk.clearAddr .client c none) fun _ => .bind (hk.clearAddr .authed c none) fun _ =>
        .store fun s _ => hk.front s c false) _ trivial

/-! ## Writing -/

theorem frontWriteTo_sealed (c : Nat) :
    (unknown (sealContract strict)).Keeps asm (frontWriteTo args c (.sealed c)) := by
  have hnote : ∀ s, asm .plain s → (unknown (sealContract strict)).Admits s
      { s with written := s.written ++ [(c, .sealed c)] } := by
    refine fun s _ _ => ⟨⟨fun _ h => h, fun h => ⟨h.locked, fun w hw => ?_, h.opened⟩⟩, trivial⟩
    rcases List.mem_append.mp hw with hw | hw
    · exact h.sealed w hw
    · rw [List.mem_singleton.mp hw]
  refine .ite (.bind (.exchange hnote) fun o => ?_) (.bind (.exchange hnote) fun _ => .pure _)
  cases o with
  | none => exact .pure _
  | some conn =>
    exact .bind succeeds_keeps fun _ =>
      .when ((seal_housekeeping strict).setClientConn c (some conn) none)

theorem writeTo_sealed (hasm : ∀ l s, asm l s → SealInv strict s) (clientID : Nat) :
    (unknown (sealContract strict)).Keeps asm (writeTo args clientID) := by
  refine .bind ((seal_housekeeping strict).getClient_keeps clientID) fun o => ?_
  cases o with
  | none => exact .pure _
  | some c =>
    refine fun s _ => .load fun u _ hu => .ite (fun _ => ?_) fun hcrypto => ?_
    · exact Keeps.bind succeeds_keeps (fun _ => .when (.bind (field_keeps c _) fun _ =>
        .when (frontWriteTo_sealed c))) u trivial
    · -- no crypto: `closed` is there, and stays there until it is looked at
      have hclosed := (hasm _ _ hu).locked c (Bool.not_eq_true _ ▸ hcrypto)
      refine .load fun v hv _ => .when (fun hopen => ?_) fun _ _ _ => trivial
      simp only [hv c hclosed] at hopen
      exact absurd hopen (by simp)

/-! ## Reading -/

theorem deliver_sealed {packet : Packet} {c : Nat} {opened : Bool}
    (h : strict → opened = true) :
    (unknown (sealContract strict)).Keeps asm (deliver packet c opened) := by
  refine .bind (.exchange fun s _ _ =>
    ⟨⟨fun _ h => h, fun hs => ⟨hs.locked, hs.sealed, fun hstrict e he => ?_⟩⟩, trivial⟩)
    fun _ => .pure _
  rcases List.mem_append.mp he with he | he
  · exact hs.opened hstrict e he
  · rw [List.mem_singleton.mp he]
    exact h hstrict

theorem openPacket_sealed (hasm : ∀ l s, asm l s → SealInv strict s)
    (hstrict : strict → ∀ c s, asm (.loadCrypto c) s → (s.clients c).closed = false)
    (packet : Packet) (c : Nat) :
    (unknown (sealContract strict)).Keeps asm (openPacket packet c) := by
  refine fun s _ => .exchange fun t _ ht =>
    ⟨guar_of_same (fun _ => ⟨rfl, rfl⟩) rfl rfl,
      .ite (fun _ => ?_) fun hcrypto => ?_⟩
  · exact Keeps.bind succeeds_keeps (fun _ =>
      .ite (deliver_sealed fun _ => rfl) (.pure _)) _ trivial
  · refine deliver_sealed (fun hs => ?_) _ trivial
    have hclosed := (hasm _ _ ht).locked c (Bool.not_eq_true _ ▸ hcrypto)
    exact absurd hclosed (by simp [hstrict hs c t ht])

theorem setAddr_sealed (slot : Slot) (c : Nat) (old new : Option AddrRef) :
    (unknown (sealContract strict)).Keeps asm (setAddr args slot c old new) :=
  fun _ _ => (seal_housekeeping strict).setAddr fun _ _ _ => admits_update (by simp) trivial

theorem authenticate_sealed (c : Nat) (addr : UDPAddr) (serial : Nat) :
    (unknown (sealContract strict)).Keeps asm (Udp.authenticate args c addr serial) :=
  .bind (field_keeps c _) fun _ => .when <|
    .bind (.store fun s _ => (seal_housekeeping strict).front s c true) fun _ =>
      .bind (field_keeps c _) fun _ => .when <|
        .bind (.exchange fun _ _ => admits_update (by simp)) fun _ => .when <|
          .bind (seal_housekeeping strict).alloc fun _ => setAddr_sealed .authed c none _

theorem readAuthed_sealed (d : Datagram) (c : Nat) :
    (unknown (sealContract strict)).Keeps asm (Udp.readAuthed args d c) := by
  have hk := seal_housekeeping strict
  unfold Udp.readAuthed
  split
  · refine .bind (field_keeps c _) fun o => ?_
    cases o with
    | none => exact .pure _
    | some r =>
      exact .bind (setAddr_sealed .client c none (some r)) fun _ =>
        .bind (hk.clearAddr .authed c none) fun _ => .bind (hk.onNewClientConn c) fun _ => .pure _
  · exact .ite (.bind (hk.clearAddr .authed c none) fun _ => .pure _) <|
      .bind (field_keeps c _) fun _ => .ite (.pure _) <|
        .bind (.store fun _ _ => admits_update (by simp)) fun _ => .pure _

theorem readUnknown_sealed (d : Datagram) :
    (unknown (sealContract strict)).Keeps asm (Udp.readUnknown args d) := by
  unfold Udp.readUnknown
  split
  · exact .pure _
  · refine .bind ((seal_housekeeping strict).getClient_keeps _) fun o => ?_
    cases o with
    | none => exact .pure _
    | some c => exact .bind (authenticate_sealed c _ _) fun _ => .pure _

theorem readFromUDP_sealed : (unknown (sealContract strict)).Keeps asm Udp.readFromUDP :=
  .atomic fun _ _ _ _ => admits_of_same (fun _ => ⟨rfl, rfl⟩) rfl rfl

theorem udpReceive_sealed : (unknown (sealContract strict)).Keeps asm (Udp.receive args) := by
  refine .bind readFromUDP_sealed fun d => .bind (fun s _ => getClient_found
    (K := fun _ => unknown (sealContract strict)) (fun _ _ _ _ _ => trivial)
    (fun _ _ _ _ _ => trivial) (fun _ _ => trivial)
    (fun _ => (seal_housekeeping strict).toBookkeeping) (J := unknown (sealContract strict))
    trivial) fun found => ?_
  cases found with
  | client c => exact .pure _
  | authed c => exact readAuthed_sealed d c
  | unknown => exact readUnknown_sealed d

theorem probeAuth_sealed (socket : Nat) :
    (unknown (sealContract strict)).Keeps asm (Udp.probeAuth args socket) := by
  have hunlock : (unknown (sealContract strict)).Keeps asm Udp.unlock :=
    .store fun _ _ => admits_of_same (fun _ => ⟨rfl, rfl⟩) rfl rfl
  refine .bind readFromUDP_sealed fun d => ?_
  split
  · exact .pure _
  · refine .bind (.bind (.atomic fun _ _ _ _ => admits_of_same (fun _ => ⟨rfl, rfl⟩) rfl rfl)
      fun _ => .bind .load fun _ => .ite hunlock <|
        .bind (.store fun _ _ => admits_of_same (fun _ => ⟨rfl, rfl⟩) rfl rfl) fun _ =>
          .bind ((seal_housekeeping strict).getClient_keeps _) fun o => ?_) fun _ => .pure _
    cases o with
    | none => exact hunlock
    | some c => exact .bind (authenticate_sealed c _ _) fun _ => hunlock

theorem handshake_sealed : (unknown (sealContract strict)).Keeps asm (Tcp.handshake args) := by
  have hk := seal_housekeeping strict
  refine .bind hk.alloc fun conn => .bind .wait fun auth => ?_
  have hfail : (unknown (sealContract strict)).Keeps asm
      (closeConn conn >>= fun _ => pure none : Code (Option Job)) :=
    .bind (hk.closeConn conn) fun _ => .pure _
  dsimp only
  split
  · exact hfail
  · refine .bind (hk.getClient_keeps _) fun o => ?_
    cases o with
    | none => exact hfail
    | some c =>
      exact .bind (field_keeps c _) fun _ => .ite hfail <|
        .bind (field_keeps c _) fun _ => .ite hfail <|
          .bind (.exchange fun _ _ => admits_update (by simp)) fun _ =>
            .ite (.bind succeeds_keeps fun _ =>
              .ite (.bind (hk.setClientConn c none (some conn)) fun _ =>
                .bind (hk.onNewClientConn c) fun _ => .pure _) hfail) hfail

theorem readLoop_sealed (conn c : Nat) :
    (unknown (sealContract strict)).Keeps asm (Tcp.readLoop conn c) := by
  have hk := seal_housekeeping strict
  have hleave : (unknown (sealContract strict)).Keeps asm
      (setClientConn c (some conn) none >>= fun _ => pure none : Code (Option Job)) :=
    .bind (hk.setClientConn c (some conn) none) fun _ => .pure _
  refine .bind (field_keeps c _) fun _ => .ite (.bind .input fun o => ?_) hleave
  cases o with
  | none => exact hleave
  | some length =>
    exact .bind (.atomic fun s _ _ _ => hk.signals s _) fun _ =>
      .bind (.atomic fun s _ _ _ => hk.acks s _) fun _ => .ite (.pure _) hleave

section Reading

variable (hasm : ∀ l s, asm l s → SealInv strict s)
  (hstrict : strict → ∀ c s, asm (.loadCrypto c) s → (s.clients c).closed = false)

include hasm hstrict

theorem receive_sealed : (unknown (sealContract strict)).Keeps asm (receive args) := by
  refine .bind udpReceive_sealed fun o => ?_
  cases o with
  | none => exact .pure _
  | some dc => exact openPacket_sealed hasm hstrict _ _

theorem readFrom_sealed : (unknown (sealContract strict)).Keeps asm (readFrom args) := by
  have hk := seal_housekeeping strict
  refine .ite (.ite ?_ ?_) ?_
  · refine .bind (.atomic fun s _ _ _ => hk.signals s _) fun o => ?_
    cases o with
    | none => exact .pure _
    | some sig =>
      exact .bind succeeds_keeps fun _ => .bind (.store fun s _ => hk.acks s _) fun _ =>
        .ite (openPacket_sealed hasm hstrict _ _) (.pure _)
  · refine .bind .wait fun o => ?_
    cases o with
    | none => exact .pure _
    | some conn =>
      refine .bind .input fun o => ?_
      cases o with
      | none => exact .bind (hk.setClientConn _ _ _) fun _ => .pure _
      | some length => exact openPacket_sealed hasm hstrict _ _
  · exact .bind (.bind .load fun _ => .when .wait) fun _ => .pure _

theorem code_sealed (job : Job) : (unknown (sealContract strict)).Keeps asm (code args job) := by
  have hk := seal_housekeeping strict
  cases job with
  | readFrom => exact readFrom_sealed hasm hstrict
  | receive => exact receive_sealed hasm hstrict
  | probeAuth socket => exact probeAuth_sealed socket
  | writeTo clientID => exact .bind (writeTo_sealed hasm clientID) fun _ => .pure _
  | close c => exact .bind (close_sealed c) fun _ => .pure _
  | timeout c => exact .bind (hk.timeout c) fun _ => .pure _
  | activate c server =>
    exact .bind (.store fun s _ => hk.server s c (some server)) fun _ => .pure _
  | handshake => exact handshake_sealed
  | readLoop conn c => exact readLoop_sealed conn c
  | produce clientID serial =>
    exact .bind (.store fun _ _ => admits_of_same (fun _ => ⟨rfl, rfl⟩) rfl rfl) fun _ => .pure _

end Reading

end

/-! ## Whole runs -/

/-- All goroutines keep the one contract, whatever they run. -/
def sealOutline (args : Args) (hargs : args.kcp = true ∧ args.attachable = true)
    {asm : Label → Shared → Prop} (strict : Prop)
    (hstrict : strict → ∀ c s, asm (.loadCrypto c) s → (s.clients c).closed = false) :
    Outline (system args) asm where
  inv := SealInv strict
  contract _ := sealContract strict
  pre _ _ _ := True
  init s hs := by
    rw [show s = started args from hs]
    exact ⟨fun c hc => by simp [started, newClientState, hargs] at hc,
      fun w hw => by simp [started] at hw, fun _ e he => by simp [started] at he⟩
  start _ _ _ _ _ := trivial
  spawn _ _ _ _ _ _ := trivial
  code s _ job _ := (code_sealed (fun _ _ h => h.1)
    (fun hs c t h => hstrict hs c t h.2) job s trivial).weaken fun _ _ _ _ _ => trivial
  keep _ _ _ hinv hguar := hguar.2 hinv
  compat _ _ _ _ _ _ hguar := hguar.1

/-- **No plaintext leaves the server.** With KCP and attaching, in every run of
the proxy every buffer that is handed to the frontend's `writeTo` is the output
of `sealPacket` under the crypto of its client. -/
theorem written_sealed (args : Args) (hargs : args.kcp = true ∧ args.attachable = true)
    {p : Pool Shared Env Label Job} (h : (system args).machine.Reachable p) :
    ∀ w ∈ p.shared.written, w.2 = .sealed w.1 := by
  exact ((sealOutline args hargs False nofun).sound (System.reachableVia_true h)).inv.sealed

section Schedules

def kcpArgs : Args := { attachable := true, kcp := true }

def clientHost : UDPAddr := { ip := [10, 0, 0, 1], port := 4000 }

/-- `Close` clears the crypto between two writes to one client. -/
def writesAroundClose : List (Sched Env Job) :=
  [.spawn (.writeTo 7)] ++ runs 1 5 ++ [.spawn (.close 7)] ++ runs 2 4 ++
    [.spawn (.writeTo 7)] ++ runs 3 3

theorem written_sealed_around_close :
    ∃ p, (system kcpArgs).machine.Reachable p ∧ (p.shared.clients 7).kcpCrypto = false ∧
      p.shared.written = [(7, .sealed 7)] ∧ ∀ w ∈ p.shared.written, w.2 = .sealed w.1 := by
  have hrun : ((system kcpArgs).machine.exec ((system kcpArgs).pool (started kcpArgs))
      writesAroundClose).any (fun p => decide ((p.shared.clients 7).kcpCrypto = false ∧
        p.shared.written = [(7, .sealed 7)])) = true := by
    decide
  obtain ⟨p, hp, hend⟩ := (Option.any_eq_true _ _).mp hrun
  have hreach := System.reachable_exec (m := system kcpArgs) rfl hp
  obtain ⟨hcrypto, hwritten⟩ := of_decide_eq_true hend
  exact ⟨p, hreach, hcrypto, hwritten, written_sealed kcpArgs ⟨rfl, rfl⟩ hreach⟩

/-- Client 7 authenticates, and its first datagram makes its address effective
and is returned by the frontend. -/
def firstDatagram : List (Sched Env Job) :=
  [.spawn (.produce 7 1)] ++ runs 1 1 ++ runs 0 2 ++
    [.run 0 { datagram := { source := clientHost, length := 60, auth := some (7, 1) } }] ++
    runs 0 14 ++ [.run 0 { datagram := { source := clientHost, length := 40 } }] ++ runs 0 13

/-- **A datagram nobody has opened reaches the transport.** `Close` stores away
the crypto between the frontend's return and the look of `ReadFrom` at it. -/
theorem raw_datagram_delivered :
    ∃ p, (system kcpArgs).machine.Reachable p ∧ ∃ e ∈ p.shared.delivered, e.opened = false := by
  have hrun : ((system kcpArgs).machine.exec ((system kcpArgs).pool (started kcpArgs))
      (firstDatagram ++ [.spawn (.close 7)] ++ runs 2 4 ++ runs 0 2)).any
        (fun p => decide (∃ e ∈ p.shared.delivered, e.opened = false)) = true := by
    decide
  obtain ⟨p, hp, hend⟩ := (Option.any_eq_true _ _).mp hrun
  exact ⟨p, System.reachable_exec (m := system kcpArgs) rfl hp, of_decide_eq_true hend⟩

/-- `ReadFrom` loads the crypto of a client before the client is closed. -/
def loadedBeforeClose : Label → Shared → Bool
  | .loadCrypto c, s => !(s.clients c).closed
  | _, _ => true

/-- **What the transport reads was opened** in every run in which `ReadFrom`
loads the crypto of a client before that client is closed. -/
theorem delivered_opened (args : Args) (hargs : args.kcp = true ∧ args.attachable = true)
    {p : Pool Shared Env Label Job}
    (h : (system args).machine.ReachableVia
      (System.Meets fun l s => loadedBeforeClose l s = true) p) :
    ∀ e ∈ p.shared.delivered, e.opened = true :=
  ((sealOutline args hargs True fun _ _ _ hl => by
    simpa [loadedBeforeClose] using hl).sound h).inv.opened trivial

theorem delivered_opened_first :
    ∃ p, (system kcpArgs).machine.ReachableVia
      (System.Meets fun l s => loadedBeforeClose l s = true) p ∧
      p.shared.delivered.length = 1 ∧ (p.shared.clients 7).closed = true ∧
      ∀ e ∈ p.shared.delivered, e.opened = true := by
  have hrun : ((system kcpArgs).machine.execWhile (System.meets loadedBeforeClose)
      ((system kcpArgs).pool (started kcpArgs))
      (firstDatagram ++ runs 0 3 ++ [.spawn (.close 7)] ++ runs 2 4)).any
        (fun p => decide (p.shared.delivered.length = 1 ∧ (p.shared.clients 7).closed = true)) =
          true := by
    decide
  obtain ⟨p, hp, hend⟩ := (Option.any_eq_true _ _).mp hrun
  have hreach := System.reachableVia_execWhile (m := system kcpArgs) (fun _ _ h => h) rfl hp
  obtain ⟨hone, hclosed⟩ := of_decide_eq_true hend
  exact ⟨p, hreach, hone, hclosed, delivered_opened kcpArgs ⟨rfl, rfl⟩ hreach⟩

end Schedules

end Tsshd.Proxy

import Tsshd.Core.Bytes

/-!
# Packets on a stream

`sendUdpPacket` and `recvUdpPacket` (proxy.go) carry packets over a stream: two
bytes of length, most significant first, and the packet. The TCP transport of
the proxy, its handshake and the stream that UDP forwarding falls back to
(`packetConn` in datagram.go) all use them.

The length is cut to 16 bits without a check. `framing_roundTrip` is the round
trip, for packets whose length fits and no others; `truncated_packet` is what happens
to one of those.
-/

namespace Tsshd.Proxy

inductive PacketError
  | io (e : IoError)
  | shortWrite
  | outOfRange (length buffer : Nat)
deriving DecidableEq, Repr

/-- The buffer of `sendUdpPacket`. -/
def packetBuffer (data : List UInt8) : List UInt8 :=
  let buf := makeBytes (2 + data.length)
  let buf := copyAt buf 0 (putBE 2 (data.length % 65536))
  copyAt buf 2 data

/-- A single `Write`. -/
def sendUdpPacket (w : Writer) (data : List UInt8) : Except PacketError Unit × Writer :=
  match w.write (packetBuffer data) with
  | (.error e, w') => (.error (.io e), w')
  | (.ok n, w') =>
    if n ≠ (packetBuffer data).length then (.error .shortWrite, w') else (.ok (), w')

/-- Receive a packet into a buffer of `size` bytes. -/
def recvUdpPacket (size : Nat) (s : Stream) : Except PacketError (List UInt8) × Stream :=
  match s.readFull 2 with
  | (.error e, s') => (.error (.io e), s')
  | (.ok buf, s') =>
    if size < beNat buf then (.error (.outOfRange (beNat buf) size), s')
    else
      match s'.readFull (beNat buf) with
      | (.error e, s'') => (.error (.io e), s'')
      | (.ok data, s'') => (.ok data, s'')

/-- Send packets one after the other until one is not accepted. -/
def sendPackets : Writer → List (List UInt8) → Except PacketError Unit × Writer
  | w, [] => (.ok (), w)
  | w, data :: rest =>
    match sendUdpPacket w data with
    | (.error e, w') => (.error e, w')
    | (.ok (), w') => sendPackets w' rest

/-- Receive packets one after the other into buffers of the given sizes, up to
the first error. -/
def recvPackets : List Nat → Stream → List (List UInt8) × Option PacketError × Stream
  | [], s => ([], none, s)
  | size :: sizes, s =>
    match recvUdpPacket size s with
    | (.error e, s') => ([], some e, s')
    | (.ok data, s') =>
      match recvPackets sizes s' with
      | (packets, ending) => (data :: packets, ending)

/-! ## Sending -/

theorem packetBuffer_eq (data : List UInt8) : packetBuffer data = putBE 2 data.length ++ data := by
  have htotal : (putBE 2 data.length).length + data.length = 2 + data.length := by
    rw [length_putBE]
  have hmod : putBE 2 (data.length % 65536) = putBE 2 data.length := putBE_mod 2 data.length
  have hlen := copyAt_makeBytes [] (putBE 2 data.length) data.length rfl htotal
  simp only [List.nil_append, List.length_nil] at hlen
  rw [packetBuffer, hmod, hlen]
  exact copyAt_full _ data (length_putBE _ _) rfl

/-- A packet that is accepted is on the wire, whatever its length. -/
theorem sendUdpPacket_ok {w : Writer} {data : List UInt8} (h : (sendUdpPacket w data).1 = .ok ()) :
    (sendUdpPacket w data).2.written = w.written ++ (putBE 2 data.length ++ data) := by
  rw [← packetBuffer_eq]
  unfold sendUdpPacket Writer.write at h ⊢
  by_cases hfails : w.fails w.calls = true
  · simp [hfails] at h
  · simp only [hfails, Bool.false_eq_true, if_false] at h ⊢
    split at h
    · cases h
    · rename_i hall
      have hall : min (w.takes w.calls + 1) (packetBuffer data).length = (packetBuffer data).length :=
        Decidable.not_not.mp hall
      simp only [hall, ne_eq, not_true, if_false, List.take_length]

/-- No length is rejected: it is up to the connection. -/
theorem sendUdpPacket_accepts {w : Writer} {data : List UInt8} (hlive : w.fails w.calls = false)
    (hroom : data.length + 2 ≤ w.takes w.calls + 1) : (sendUdpPacket w data).1 = .ok () := by
  have hlen : (packetBuffer data).length = data.length + 2 := by
    rw [packetBuffer_eq, List.length_append, length_putBE, Nat.add_comm]
  unfold sendUdpPacket Writer.write
  simp only [hlive, Bool.false_eq_true, if_false, hlen, Nat.min_eq_right hroom, ne_eq, not_true]

/-- The bytes of packets sent one after the other. -/
def packetBytes (packets : List (List UInt8)) : List UInt8 :=
  (packets.map fun data => putBE 2 data.length ++ data).flatten

theorem sendPackets_ok {w : Writer} {packets : List (List UInt8)}
    (h : (sendPackets w packets).1 = .ok ()) :
    (sendPackets w packets).2.written = w.written ++ packetBytes packets := by
  induction packets generalizing w with
  | nil => exact (List.append_nil _).symm
  | cons data packets ih =>
    unfold sendPackets at h ⊢
    have hsent : (sendUdpPacket w data).1 = .ok () → _ := sendUdpPacket_ok
    generalize sendUdpPacket w data = r at h hsent ⊢
    obtain ⟨res, w'⟩ := r
    cases res with
    | error e => cases h
    | ok u =>
      dsimp only at h hsent ⊢
      rw [ih h, hsent rfl, List.append_assoc]
      rfl

/-! ## Receiving -/

/-- A packet whose length is the one in front of it is received, and the stream
stands behind it. -/
theorem recvUdpPacket_ok {s : Stream} {buf data rest : List UInt8} (size : Nat)
    (hs : s.bytes = buf ++ data ++ rest) (hbuf : buf.length = 2) (hlen : beNat buf = data.length)
    (hsize : data.length ≤ size) :
    (recvUdpPacket size s).1 = .ok data ∧ (recvUdpPacket size s).2.bytes = rest := by
  have hheader := s.readFull_ok 2 (by rw [hs]; simp [hbuf])
  rw [hs, List.append_assoc, List.take_left' hbuf, List.drop_left' hbuf] at hheader
  unfold recvUdpPacket
  generalize s.readFull 2 = r at hheader ⊢
  obtain ⟨res, s'⟩ := r
  obtain ⟨hok, hbytes, -⟩ := hheader
  dsimp only at hok hbytes
  subst hok
  have hbody := s'.readFull_ok data.length (by rw [hbytes]; simp)
  rw [hbytes, List.take_left, List.drop_left] at hbody
  simp only [hlen, Nat.not_lt.mpr hsize, if_false]
  generalize s'.readFull data.length = r at hbody ⊢
  obtain ⟨res, s''⟩ := r
  obtain ⟨hok, hrest, -⟩ := hbody
  dsimp only at hok hrest
  subst hok
  exact ⟨rfl, hrest⟩

/-- No packet that is received is longer than its two bytes of length can say. -/
theorem recvUdpPacket_length {size : Nat} {s : Stream} {data : List UInt8}
    (h : (recvUdpPacket size s).1 = .ok data) : data.length ≤ 65535 := by
  unfold recvUdpPacket at h
  have hheader (buf : List UInt8) : (s.readFull 2).1 = .ok buf → buf.length = 2 :=
    Stream.readFull_length
  generalize s.readFull 2 = r at h hheader
  obtain ⟨res, s'⟩ := r
  cases res with
  | error e => cases h
  | ok buf =>
    have hbuf : beNat buf < 256 ^ 2 := hheader buf rfl ▸ beNat_lt buf
    have hbody : (s'.readFull (beNat buf)).1 = .ok data → data.length = beNat buf :=
      Stream.readFull_length
    dsimp only at h
    split at h
    · cases h
    · generalize s'.readFull (beNat buf) = r at h hbody
      obtain ⟨res, s''⟩ := r
      cases res with
      | error e => cases h
      | ok body =>
        cases h
        have := hbody rfl
        omega

theorem recvPackets_length (sizes : List Nat) (s : Stream) :
    ∀ data ∈ (recvPackets sizes s).1, data.length ≤ 65535 := by
  induction sizes generalizing s with
  | nil => exact fun _ h => absurd h List.not_mem_nil
  | cons size sizes ih =>
    have hfirst (data : List UInt8) : (recvUdpPacket size s).1 = .ok data → data.length ≤ 65535 :=
      recvUdpPacket_length
    unfold recvPackets
    generalize recvUdpPacket size s = r at hfirst ⊢
    obtain ⟨res, s'⟩ := r
    cases res with
    | error e => exact fun _ h => absurd h List.not_mem_nil
    | ok data => exact List.forall_mem_cons.mpr ⟨hfirst data rfl, ih s'⟩

theorem recvPackets_ok {packets : List (List UInt8)} {sizes : List Nat} {s : Stream}
    {rest : List UInt8} (hs : s.bytes = packetBytes packets ++ rest)
    (hlen : sizes.length = packets.length) (hfits : ∀ data ∈ packets, data.length ≤ 65535)
    (hsizes : ∀ size ∈ sizes, 65535 ≤ size) :
    (recvPackets sizes s).1 = packets ∧ (recvPackets sizes s).2.1 = none ∧
    (recvPackets sizes s).2.2.bytes = rest := by
  induction packets generalizing sizes s with
  | nil =>
    obtain rfl : sizes = [] := List.length_eq_zero_iff.mp hlen
    exact ⟨rfl, rfl, hs⟩
  | cons data packets ih =>
    obtain _ | ⟨size, sizes⟩ := sizes
    · cases hlen
    · have hdata : data.length ≤ 65535 := hfits data List.mem_cons_self
      have hbeNat : beNat (putBE 2 data.length) = data.length := by
        rw [beNat_putBE]
        exact Nat.mod_eq_of_lt (Nat.lt_succ_of_le hdata)
      have hbytes : s.bytes = putBE 2 data.length ++ data ++ (packetBytes packets ++ rest) := by
        rw [hs, packetBytes, List.map_cons, List.flatten_cons, List.append_assoc]
        rfl
      have hrecv := recvUdpPacket_ok size hbytes (length_putBE _ _) hbeNat
        (Nat.le_trans hdata (hsizes size List.mem_cons_self))
      unfold recvPackets
      generalize recvUdpPacket size s = r at hrecv ⊢
      obtain ⟨res, s'⟩ := r
      obtain ⟨hok, hrest⟩ := hrecv
      dsimp only at hok hrest
      subst hok
      obtain ⟨hpackets, hnone, hend⟩ := ih hrest (Nat.succ.inj hlen)
        (fun d hd => hfits d (List.mem_cons_of_mem _ hd))
        (fun k hk => hsizes k (List.mem_cons_of_mem _ hk))
      exact ⟨congrArg (data :: ·) hpackets, hnone, hend⟩

/-! ## Round trip -/

/-- **Round trip.** Packets that were all accepted come back as they were, into any
buffer that takes a longest packet and however the stream splits the bytes, with
nothing left behind them, just if their lengths fit into 16 bits. -/
theorem framing_roundTrip (packets : List (List UInt8)) (w : Writer) (hnew : w.written = [])
    (hok : (sendPackets w packets).1 = .ok ()) (size : Nat) (hsize : 65535 ≤ size) (s : Stream)
    (hs : s.bytes = (sendPackets w packets).2.written) :
    ((recvPackets (List.replicate packets.length size) s).1 = packets ∧
      (recvPackets (List.replicate packets.length size) s).2.1 = none ∧
      (recvPackets (List.replicate packets.length size) s).2.2.bytes = []) ↔
      ∀ data ∈ packets, data.length ≤ 65535 := by
  constructor
  · rintro ⟨hpackets, -⟩
    exact hpackets ▸ recvPackets_length (List.replicate packets.length size) s
  · intro hfits
    have hbytes : s.bytes = packetBytes packets ++ [] := by
      rw [hs, sendPackets_ok hok, hnew, List.nil_append, List.append_nil]
    refine recvPackets_ok hbytes List.length_replicate hfits fun k hk => ?_
    rw [List.eq_of_mem_replicate hk]
    exact hsize

/-- Three packets, one of them empty, read back byte by byte. -/
theorem framing_roundTrip_three :
    (recvPackets [65535, 65535, 65535]
      { pieces := ([0, 2, 7, 8, 0, 0, 0, 1, 9] : List UInt8).map fun b => ⟨[b], by simp⟩ }).1 =
      [[7, 8], [], [9]] :=
  ((framing_roundTrip [[7, 8], [], [9]] { takes := fun _ => 3 } rfl rfl 65535 (by decide) _
    (by decide)).mpr (by decide)).1

/-- The length in front of a packet of 65536 bytes is zero. -/
theorem putBE_65536 : putBE 2 65536 = putBE 2 0 := by decide

/-- A packet of 65536 bytes is accepted, and what is received is an empty packet
with the 65536 bytes left behind it as the next packets. -/
theorem truncated_packet :
    ∃ (data : List UInt8) (w : Writer) (s : Stream), data.length = 65536 ∧ w.written = [] ∧
      (sendUdpPacket w data).1 = .ok () ∧ s.bytes = (sendUdpPacket w data).2.written ∧
      (recvUdpPacket 65535 s).1 = .ok [] ∧ (recvUdpPacket 65535 s).2.bytes = data := by
  obtain ⟨data, hlen⟩ : ∃ data : List UInt8, data.length = 65536 :=
    ⟨makeBytes 65536, List.length_replicate⟩
  let w : Writer := { takes := fun _ => 65537 }
  have hroom : data.length + 2 ≤ w.takes w.calls + 1 := by
    show data.length + 2 ≤ 65538
    omega
  have hok : (sendUdpPacket w data).1 = .ok () := sendUdpPacket_accepts rfl hroom
  have hwritten := sendUdpPacket_ok hok
  rw [hlen, putBE_65536] at hwritten
  refine ⟨data, w, { pieces := [⟨putBE 2 0 ++ data, by simp [putBE]⟩] }, hlen, rfl, hok, ?_, ?_⟩
  · rw [hwritten]
    simp [Stream.bytes, w]
  · exact recvUdpPacket_ok 65535 (by simp [Stream.bytes]) (length_putBE _ _) (beNat_putBE 2 0)
      (Nat.zero_le _)

end Tsshd.Proxy

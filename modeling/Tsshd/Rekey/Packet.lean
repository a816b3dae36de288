import Tsshd.Core.Slice
import Tsshd.Rekey.Machine

/-!
# Sealing and opening packets

`sealPacket` and `openPacket` (rekey.go) over memory that is shared: the nonce, the
text and the destination of a call are slices of one buffer, and a failed decryption
leaves rubbish in its destination. `Tsshd.Rekey.Machine` only asks which key opens a
datagram (`openIdx`) and what happens behind that (`Crypto.opened`); here is what the
bytes do on the way.

* **the cipher** — an `Aead` with what AES-GCM guarantees for one key. That a packet
  opens under no other key is an assumption on the keys in use;
* **attempts** — every key but the last decrypts into memory of its own, so the
  packet is intact when the next one is tried (`openLoop_opens`);
* **the result** — it lies in the buffer or is copied there.
-/

namespace Tsshd.Rekey

/-- `cipher.AEAD`. -/
structure Aead where
  nonceSize : Nat
  overhead : Nat
  Seal : Key → List UInt8 → List UInt8 → List UInt8
  Open : Key → List UInt8 → List UInt8 → Option (List UInt8)
  /-- What a failed `Open` leaves in its destination. -/
  rubbish : Key → List UInt8 → List UInt8 → List UInt8
  length_Seal : ∀ key nonce text, (Seal key nonce text).length = text.length + overhead
  Open_Seal : ∀ key nonce text, Open key nonce (Seal key nonce text) = some text
  eq_Seal_of_Open : ∀ key nonce sealed text,
    Open key nonce sealed = some text → sealed = Seal key nonce text
  length_rubbish : ∀ key nonce sealed, (rubbish key nonce sealed).length = sealed.length - overhead

structure RotatingCrypto where
  crypto : Crypto := {}
  delegatedToProxy : Bool := false
deriving DecidableEq, Repr

inductive PacketError
  /-- `io.ErrShortBuffer`. -/
  | shortBuffer
  /-- `gcm open failed: no available keys`. -/
  | noKeys
  /-- `gcm open failed`, with the error of the last key. -/
  | openFailed
  /-- The panic of `r.gcmList[r.activeIdx]`. -/
  | indexOutOfRange
deriving DecidableEq, Repr

abbrev Memory := Heap UInt8

/-! ## The cipher on slices -/

namespace Aead

variable (aead : Aead)

/-- `gcm.Seal`: the result is appended to `dst`. -/
def gcmSeal (key : Key) (h : Memory) (dst nonce text : Slice) : Slice × Memory :=
  h.append dst (aead.Seal key (h.read nonce) (h.read text))

/-- `gcm.Open`. -/
def gcmOpen (key : Key) (h : Memory) (dst nonce sealed : Slice) : Option Slice × Memory :=
  if sealed.len < aead.overhead then (none, h)
  else
    match aead.Open key (h.read nonce) (h.read sealed) with
    | some text => (some (h.append dst text).1, (h.append dst text).2)
    | none => (none, (h.append dst (aead.rubbish key (h.read nonce) (h.read sealed))).2)

/-- The loop of `Open` over the keys from index `i` on: the index of the key that
opened, and the text. -/
def openLoop (dst nonce sealed : Slice) (lastIdx : Nat) :
    Nat → List Key → Memory → Option (Nat × Slice) × Memory
  | _, [], h => (none, h)
  | i, gcm :: gcmList, h =>
    let buf := if i ≠ lastIdx then {} else dst
    match aead.gcmOpen gcm h buf nonce sealed with
    | (some text, h) => (some (i, text), h)
    | (none, h) => openLoop dst nonce sealed lastIdx (i + 1) gcmList h

end Aead

/-! ## The packets -/

namespace RotatingCrypto

variable (aead : Aead) (r : RotatingCrypto)

/-- `Seal`. -/
def Seal (h : Memory) (dst nonce text : Slice) :
    Except PacketError Slice × Memory × RotatingCrypto :=
  if r.delegatedToProxy then
    if text.len = 0 then (.ok dst, h, r)
    else if dst.len + text.len ≤ dst.cap ∧ dst.arr = text.arr ∧ dst.off + dst.len = text.off then
      (.ok (dst.upTo (dst.len + text.len)), h, r)
    else (.ok (h.append dst (h.read text)).1, (h.append dst (h.read text)).2, r)
  else
    match r.crypto.sealingKey with
    | none => (.error .indexOutOfRange, h, r)
    | some gcm =>
      let (sealed, h) := aead.gcmSeal gcm h dst nonce text
      (.ok sealed, h, { r with crypto := r.crypto.consumeBytes text.len })

def sealPacket (h : Memory) (buf : Slice) (inPlace : Bool) :
    Except PacketError Slice × Memory × RotatingCrypto :=
  if buf.len < aead.nonceSize then (.error .shortBuffer, h, r)
  else
    let nonce := buf.upTo aead.nonceSize
    let text := buf.behind aead.nonceSize
    if inPlace then r.Seal aead h (buf.upTo aead.nonceSize) nonce text
    else
      let (out, h) := h.alloc (List.replicate (aead.nonceSize + text.len + aead.overhead) 0)
      let dst := out.upTo aead.nonceSize
      r.Seal aead (h.copy dst nonce) dst nonce text

/-- `Open`. -/
def Open (h : Memory) (dst nonce sealed : Slice) :
    Except PacketError Slice × Memory × RotatingCrypto :=
  if r.delegatedToProxy then (.ok sealed, h, r)
  else
    match aead.openLoop dst nonce sealed (r.crypto.gcmList.length - 1) 0 r.crypto.gcmList h with
    | (some (i, text), h) => (.ok text, h, { r with crypto := r.crypto.opened i text.len })
    | (none, h) =>
      (.error (if r.crypto.gcmList.isEmpty then .noKeys else .openFailed), h, r)

/-- The text is copied to its place in the packet, unless it lies there. -/
def copyBack (h : Memory) (sealed text : Slice) : Memory :=
  if 0 < text.len ∧ ¬(text.arr = sealed.arr ∧ text.off = sealed.off) then
    h.copy (sealed.upTo text.len) text
  else h

def openPacket (h : Memory) (buf : Slice) : Except PacketError Nat × Memory × RotatingCrypto :=
  if buf.len < aead.nonceSize + aead.overhead then (.error .shortBuffer, h, r)
  else
    let nonce := buf.upTo aead.nonceSize
    let sealed := buf.behind aead.nonceSize
    match r.Open aead h (sealed.upTo 0) nonce sealed with
    | (.error e, h, r) => (.error e, h, r)
    | (.ok text, h, r) => (.ok (aead.nonceSize + text.len), copyBack h sealed text, r)

end RotatingCrypto

/-! ## One attempt after the other -/

namespace Aead

variable {aead : Aead} {key : Key} {h : Memory} {dst nonce sealed t : Slice} {text : List UInt8}

theorem gcmOpen_none (dst : Slice) (hfail : aead.Open key (h.read nonce) (h.read sealed) = none) :
    (aead.gcmOpen key h dst nonce sealed).1 = none := by
  unfold gcmOpen
  rw [hfail]
  split <;> rfl

/-- An attempt in memory of its own leaves everything as it is. -/
theorem gcmOpen_keeps : h.Keeps (aead.gcmOpen key h {} nonce sealed).2 := by
  unfold gcmOpen
  split
  · exact .refl h
  · split <;> exact Heap.keeps_append_nil h _

theorem gcmOpen_some (hopen : aead.Open key (h.read nonce) (h.read sealed) = some text)
    (hroom : aead.overhead ≤ sealed.len) :
    aead.gcmOpen key h dst nonce sealed =
      (some (h.append dst text).1, (h.append dst text).2) := by
  unfold gcmOpen
  rw [if_neg (by omega), hopen]

variable {gcmList : List Key} {i lastIdx : Nat}

theorem openLoop_cons_none {gcm : Key}
    (hfail : aead.Open gcm (h.read nonce) (h.read sealed) = none) :
    aead.openLoop dst nonce sealed lastIdx i (gcm :: gcmList) h =
      aead.openLoop dst nonce sealed lastIdx (i + 1) gcmList
        (aead.gcmOpen gcm h (if i ≠ lastIdx then {} else dst) nonce sealed).2 := by
  have hnone := gcmOpen_none (if i ≠ lastIdx then {} else dst) hfail
  rw [openLoop]
  split
  · rename_i heq
    rw [heq] at hnone
    cases hnone
  · rename_i heq
    rw [heq]

/-- In front of the last key an attempt keeps the packet for the next one. -/
theorem keeps_attempt (hnonce : nonce.Valid h) (hsealed : sealed.Valid h) (dst : Slice)
    (hi : i ≠ lastIdx) (gcm : Key) :
    let h' := (aead.gcmOpen gcm h (if i ≠ lastIdx then {} else dst) nonce sealed).2
    h.Keeps h' ∧ h'.read nonce = h.read nonce ∧ h'.read sealed = h.read sealed := by
  rw [if_pos hi]
  have hkeeps : h.Keeps (aead.gcmOpen gcm h {} nonce sealed).2 := gcmOpen_keeps
  exact ⟨hkeeps, (hkeeps nonce hnonce).2, (hkeeps sealed hsealed).2⟩

theorem openLoop_none (dst : Slice) (hnonce : nonce.Valid h) (hsealed : sealed.Valid h)
    (hlast : i + gcmList.length ≤ lastIdx + 1)
    (hfail : ∀ key ∈ gcmList, aead.Open key (h.read nonce) (h.read sealed) = none) :
    (aead.openLoop dst nonce sealed lastIdx i gcmList h).1 = none := by
  induction gcmList generalizing h i with
  | nil => rfl
  | cons gcm rest ih =>
    rw [openLoop_cons_none (hfail gcm List.mem_cons_self)]
    rcases rest with _ | ⟨gcm', rest⟩
    · rfl
    · simp only [List.length_cons] at hlast ih
      have hi : i ≠ lastIdx := by omega
      obtain ⟨hkeeps, hn, hs⟩ := keeps_attempt hnonce hsealed dst hi gcm
      refine ih (hkeeps nonce hnonce).1 (hkeeps sealed hsealed).1 (by omega) ?_
      rw [hn, hs]
      exact fun key hkey => hfail key (List.mem_cons_of_mem _ hkey)

/-- The first key that opens the packet does, with the memory as it was before the
attempts of the keys in front of it. -/
theorem openLoop_opens (dst : Slice) (hnonce : nonce.Valid h) (hsealed : sealed.Valid h)
    (hroom : aead.overhead ≤ sealed.len) (hlast : i + gcmList.length = lastIdx + 1) {j : Nat}
    (hkey : gcmList[j]? = some key)
    (hopen : aead.Open key (h.read nonce) (h.read sealed) = some text)
    (hfail : ∀ k ∈ gcmList.take j, aead.Open k (h.read nonce) (h.read sealed) = none) :
    ∃ h₀ buf, h.Keeps h₀ ∧ (buf = {} ∨ buf = dst) ∧
      aead.openLoop dst nonce sealed lastIdx i gcmList h =
        (some (i + j, (h₀.append buf text).1), (h₀.append buf text).2) := by
  induction gcmList generalizing h i j with
  | nil => cases hkey
  | cons gcm rest ih =>
    cases j with
    | zero =>
      cases hkey
      refine ⟨h, if i ≠ lastIdx then {} else dst, .refl h, ?_, ?_⟩
      · split
        · exact .inl rfl
        · exact .inr rfl
      · simp only [openLoop, gcmOpen_some hopen hroom, Nat.add_zero]
    | succ j =>
      rw [openLoop_cons_none (hfail gcm (by simp))]
      have hrest : rest[j]? = some key := hkey
      have hshort : j < rest.length := (List.getElem?_eq_some_iff.mp hrest).1
      rw [List.length_cons] at hlast
      have hi : i ≠ lastIdx := by omega
      have hlast' : i + 1 + rest.length = lastIdx + 1 := by omega
      obtain ⟨hkeeps, hn, hs⟩ := keeps_attempt hnonce hsealed dst hi gcm
      obtain ⟨h₀, buf, hkeeps', hbuf, hloop⟩ :=
        ih (hkeeps nonce hnonce).1 (hkeeps sealed hsealed).1 hlast' hrest
          (by rw [hn, hs]; exact hopen)
          (by rw [hn, hs]; exact fun k hk => hfail k (by simp [hk]))
      refine ⟨h₀, buf, hkeeps.trans hkeeps', hbuf, ?_⟩
      rw [hloop, Nat.add_assoc, Nat.add_comm 1 j]

end Aead

/-! ## Round trips -/

namespace RotatingCrypto

variable {aead : Aead} {r : RotatingCrypto} {h : Memory} {buf : Slice} {key : Key}
  {nonce text sealed : List UInt8}

/-- The two parts of a packet buffer. -/
theorem read_parts (hbuf : buf.Valid h) (hread : h.read buf = nonce ++ text) :
    nonce.length + text.length = buf.len ∧ h.read (buf.upTo nonce.length) = nonce ∧
      h.read (buf.behind nonce.length) = text := by
  have hlen : nonce.length + text.length = buf.len := by
    rw [← List.length_append, ← hread, Heap.length_read hbuf]
  have hle : nonce.length ≤ buf.len := by omega
  have hfront : (h.read (buf.upTo nonce.length)).length = nonce.length :=
    Heap.length_read (hbuf.upTo (Nat.le_trans hle hbuf.len_le))
  have hparts := (Heap.read_upTo_behind h hle).trans hread
  exact ⟨hlen, List.append_inj hparts hfront⟩

theorem Seal_ok {dst nonceBuf textBuf : Slice} (hr : r.delegatedToProxy = false)
    (hkey : r.crypto.sealingKey = some key) (hdst : dst.Valid h) (hnonce : h.read dst = nonce)
    (hnonceBuf : h.read nonceBuf = nonce) (htext : h.read textBuf = text) :
    ∃ out h', r.Seal aead h dst nonceBuf textBuf =
        (.ok out, h', { r with crypto := r.crypto.consumeBytes textBuf.len }) ∧
      out.Valid h' ∧ h'.read out = nonce ++ aead.Seal key nonce text := by
  obtain ⟨hvalid, -, hout⟩ := Heap.read_append hdst (aead.Seal key nonce text)
  refine ⟨_, _, ?_, hvalid, hnonce ▸ hout⟩
  simp only [Seal, hr, Bool.false_eq_true, if_false, hkey, Aead.gcmSeal, hnonceBuf, htext]

theorem sealPacket_ok (hr : r.delegatedToProxy = false) (hkey : r.crypto.sealingKey = some key)
    (hbuf : buf.Valid h) (hread : h.read buf = nonce ++ text)
    (hnonce : nonce.length = aead.nonceSize) (inPlace : Bool) :
    ∃ out h', r.sealPacket aead h buf inPlace =
        (.ok out, h', { r with crypto := r.crypto.consumeBytes text.length }) ∧
      out.Valid h' ∧ h'.read out = nonce ++ aead.Seal key nonce text := by
  obtain ⟨hlen, hfront, hback⟩ := read_parts hbuf hread
  rw [hnonce] at hlen hfront hback
  have hle : aead.nonceSize ≤ buf.len := by omega
  have hfrontValid : (buf.upTo aead.nonceSize).Valid h :=
    hbuf.upTo (Nat.le_trans hle hbuf.len_le)
  have hbackValid : (buf.behind aead.nonceSize).Valid h := hbuf.behind hle
  have htextLen : (buf.behind aead.nonceSize).len = text.length := by
    show buf.len - aead.nonceSize = text.length
    omega
  unfold sealPacket
  rw [if_neg (by omega), ← htextLen]
  cases inPlace with
  | true => exact Seal_ok hr hkey hfrontValid hfront hfront hback
  | false =>
    -- the nonce is copied to a new array, with room for the packet behind it
    have hroom : (buf.upTo aead.nonceSize).len ≤ (List.replicate
        (aead.nonceSize + (buf.behind aead.nonceSize).len + aead.overhead) (0 : UInt8)).length := by
      rw [List.length_replicate]
      show aead.nonceSize ≤ _
      omega
    obtain ⟨hkeeps, hvalid, hcopied⟩ := Heap.copy_alloc hfrontValid hroom
    exact Seal_ok hr hkey hvalid (hcopied.trans hfront)
      ((hkeeps _ hfrontValid).2.trans hfront) ((hkeeps _ hbackValid).2.trans hback)

theorem read_copyBack {front back out : Slice} (hback : back.Valid h)
    (hjoin : front.off + front.len ≤ back.off) (hout : out.Valid h) (hread : h.read out = text)
    (hlen : out.len ≤ back.cap) :
    (copyBack h back out).read front = h.read front ∧
      (copyBack h back out).read (back.upTo out.len) = text := by
  have hdst : (back.upTo out.len).Valid h := hback.upTo hlen
  have htext : text.length = out.len := by rw [← hread, Heap.length_read hout]
  unfold copyBack
  split
  · have hle : out.len ≤ (back.upTo out.len).len := Nat.le_refl _
    have hfits : text.length ≤ (back.upTo out.len).cap := htext ▸ hlen
    rw [Heap.copy_eq_write hout hle, hread]
    refine ⟨Heap.read_write_apart hdst hfits (.inr hjoin), ?_⟩
    have hwritten := Heap.read_write hdst hfits
    rw [htext] at hwritten
    exact hwritten
  case isFalse hnot =>
    refine ⟨rfl, ?_⟩
    by_cases hzero : out.len = 0
    · have hnil : text = [] := List.length_eq_zero_iff.mp (htext.trans hzero)
      rw [hzero, hnil]
      exact List.take_zero
    · -- the address is the same, and so is what is read there
      have hsame : out.arr = back.arr ∧ out.off = back.off := by
        by_contra hdiff
        exact hnot ⟨Nat.pos_of_ne_zero hzero, hdiff⟩
      rw [← hread]
      unfold Heap.read Slice.upTo
      rw [hsame.1, hsame.2]

/-- A destination inside the packet or none: the text, and the memory around it. -/
theorem read_attempt {front back buf : Slice} (hfront : front.Valid h) (hback : back.Valid h)
    (hjoin : front.off + front.len ≤ back.off) (hbuf : buf = {} ∨ buf = back.upTo 0) :
    (h.append buf text).1.Valid (h.append buf text).2 ∧
      (h.append buf text).1.len = text.length ∧
      (h.append buf text).2.read (h.append buf text).1 = text ∧
      (back.upTo 0).Valid (h.append buf text).2 ∧
      (h.append buf text).2.read front = h.read front := by
  have hback' : (back.upTo 0).Valid h := hback.upTo (Nat.zero_le _)
  rcases hbuf with rfl | rfl
  · obtain ⟨hvalid, hlen, hread⟩ := Heap.read_append (.nil h) text
    have hkeeps := h.keeps_append_nil text
    have hnil : h.read {} = [] := List.take_zero
    exact ⟨hvalid, by rw [hlen, Nat.zero_add], by rw [hread, hnil, List.nil_append],
      (hkeeps _ hback').1, (hkeeps _ hfront).2⟩
  · obtain ⟨hvalid, hlen, hread⟩ := Heap.read_append hback' text
    have hnil : h.read (back.upTo 0) = [] := List.take_zero
    have hzero : (back.upTo 0).len = 0 := rfl
    refine ⟨hvalid, by rw [hlen, hzero, Nat.zero_add], by rw [hread, hnil, List.nil_append], ?_, ?_⟩
    · exact (Heap.read_append_apart hback' text hback' (.inr (Nat.le_refl _))).1
    · exact (Heap.read_append_apart hback' text hfront (.inr hjoin)).2

/-- The first key that opens the packet. -/
theorem openPacket_ok (hr : r.delegatedToProxy = false) (hbuf : buf.Valid h)
    (hread : h.read buf = nonce ++ sealed) (hnonce : nonce.length = aead.nonceSize) {i : Nat}
    (hkey : r.crypto.gcmList[i]? = some key) (hopen : aead.Open key nonce sealed = some text)
    (hfail : ∀ k ∈ r.crypto.gcmList.take i, aead.Open k nonce sealed = none) :
    ∃ h', r.openPacket aead h buf = (.ok (aead.nonceSize + text.length), h',
        { r with crypto := r.crypto.opened i text.length }) ∧
      h'.read (buf.upTo (aead.nonceSize + text.length)) = nonce ++ text := by
  obtain ⟨hlen, hfront, hback⟩ := read_parts hbuf hread
  have hsealed : sealed.length = text.length + aead.overhead := by
    rw [aead.eq_Seal_of_Open key nonce sealed text hopen, aead.length_Seal]
  rw [hnonce] at hlen hfront hback
  have hle : aead.nonceSize ≤ buf.len := by omega
  have hcap : aead.nonceSize ≤ buf.cap := Nat.le_trans hle hbuf.len_le
  have hfrontValid : (buf.upTo aead.nonceSize).Valid h := hbuf.upTo hcap
  have hbackValid : (buf.behind aead.nonceSize).Valid h := hbuf.behind hle
  have hroom : aead.overhead ≤ (buf.behind aead.nonceSize).len := by
    show aead.overhead ≤ buf.len - aead.nonceSize
    omega
  have hindex : i < r.crypto.gcmList.length := (List.getElem?_eq_some_iff.mp hkey).1
  have hlast : 0 + r.crypto.gcmList.length = r.crypto.gcmList.length - 1 + 1 := by omega
  obtain ⟨h₀, dst, hkeeps, hdst, hloop⟩ :=
    Aead.openLoop_opens ((buf.behind aead.nonceSize).upTo 0) hfrontValid hbackValid hroom hlast hkey
      (by rw [hfront, hback]; exact hopen) (by rw [hfront, hback]; exact hfail)
  obtain ⟨hfront₀, hfrontRead⟩ := hkeeps _ hfrontValid
  -- the attempt that succeeds, and the text in its place
  have hjoin : (buf.upTo aead.nonceSize).off + (buf.upTo aead.nonceSize).len ≤
      (buf.behind aead.nonceSize).off := Nat.le_refl _
  obtain ⟨hout, houtLen, houtRead, hplace, hfrontKept⟩ :=
    read_attempt hfront₀ (hkeeps _ hbackValid).1 hjoin hdst
  have hlenOut : (h₀.append dst text).1.len ≤ (buf.behind aead.nonceSize).cap := by
    have := hbackValid.len_le
    rw [houtLen]
    have hbackLen : (buf.behind aead.nonceSize).len = buf.len - aead.nonceSize := rfl
    omega
  have hplace' : (buf.behind aead.nonceSize).Valid (h₀.append dst text).2 :=
    hplace.upTo hbackValid.len_le
  obtain ⟨hfrontEnd, hbackEnd⟩ := read_copyBack hplace' hjoin hout houtRead hlenOut
  rw [houtLen] at hbackEnd
  refine ⟨copyBack (h₀.append dst text).2 (buf.behind aead.nonceSize) (h₀.append dst text).1, ?_, ?_⟩
  · unfold openPacket
    rw [if_neg (by omega)]
    simp only [Open, hr, Bool.false_eq_true, if_false, hloop, Nat.zero_add, houtLen]
  · have hslice : (buf.upTo (aead.nonceSize + text.length)).behind aead.nonceSize =
        (buf.behind aead.nonceSize).upTo text.length := by
      simp [Slice.upTo, Slice.behind]
    rw [← Heap.read_upTo_behind (s := buf.upTo (aead.nonceSize + text.length)) _
      (Nat.le_add_right _ _), hslice, hbackEnd]
    congr 1
    exact hfrontEnd.trans (hfrontKept.trans (hfrontRead.trans hfront))

/-- No key of the list opens the packet, or there is none. -/
theorem openPacket_error (hr : r.delegatedToProxy = false) (hbuf : buf.Valid h)
    (hfail : ∀ nonce sealed, nonce.length = aead.nonceSize → h.read buf = nonce ++ sealed →
      ∀ k ∈ r.crypto.gcmList, aead.Open k nonce sealed = none) :
    ∃ e h', r.openPacket aead h buf = (.error e, h', r) := by
  unfold openPacket
  split
  · exact ⟨_, _, rfl⟩
  case isFalse hlong =>
    have hle : aead.nonceSize ≤ buf.len := by omega
    have hfrontValid : (buf.upTo aead.nonceSize).Valid h :=
      hbuf.upTo (Nat.le_trans hle hbuf.len_le)
    have hlast : 0 + r.crypto.gcmList.length ≤ r.crypto.gcmList.length - 1 + 1 := by omega
    have hnone := Aead.openLoop_none ((buf.behind aead.nonceSize).upTo 0) hfrontValid
      (hbuf.behind hle) hlast
      (hfail _ _ (Heap.length_read hfrontValid) (Heap.read_upTo_behind h hle).symm)
    generalize hloop : aead.openLoop ((buf.behind aead.nonceSize).upTo 0) (buf.upTo aead.nonceSize)
      (buf.behind aead.nonceSize) (r.crypto.gcmList.length - 1) 0 r.crypto.gcmList h = res at hnone
    obtain ⟨res, h'⟩ := res
    cases hnone
    simp only [Open, hr, Bool.false_eq_true, if_false, hloop]
    exact ⟨_, _, rfl⟩

end RotatingCrypto

namespace Crypto

/-- A later key opened: it is the first one now. -/
theorem opened_later (r : Crypto) {i : Nat} (hpos : 0 < i) (hi : i < r.gcmList.length) (n : Nat) :
    (r.opened i n).gcmList = r.gcmList.drop i ∧ (r.opened i n).activeIdx = 0 := by
  rw [opened, if_pos hpos, promoteKey, if_neg (by omega)]
  exact ⟨rfl, rfl⟩

theorem opened_first (r : Crypto) (n : Nat) :
    (r.opened 0 n).gcmList = r.gcmList ∧ (r.opened 0 n).activeIdx = r.activeIdx := by
  rw [opened, if_neg (Nat.lt_irrefl 0), consumeBytes]
  split <;> exact ⟨rfl, rfl⟩

end Crypto

/-- **Packets open under every key list that has their key.** What was sealed, in place
or not, opens wherever it is received: the nonce and the text are in the buffer, and the
keys in front of the key that opened are dropped. A packet that no key of the list has
sealed is refused, and the receiver stays as it was. -/
theorem openPacket_sealPacket (aead : Aead) :
    (∀ (sender : RotatingCrypto) (key : Key) (h : Memory) (buf : Slice)
        (nonce text : List UInt8) (inPlace : Bool),
      sender.delegatedToProxy = false → sender.crypto.sealingKey = some key → buf.Valid h →
      h.read buf = nonce ++ text → nonce.length = aead.nonceSize →
      ∃ packet h₁ sender', sender.sealPacket aead h buf inPlace = (.ok packet, h₁, sender') ∧
        packet.Valid h₁ ∧
        ∀ (h₂ : Memory) (received : Slice), received.Valid h₂ → h₂.read received = h₁.read packet →
        ∀ (receiver : RotatingCrypto) (i : Nat), receiver.delegatedToProxy = false →
          receiver.crypto.gcmList.Nodup → receiver.crypto.gcmList[i]? = some key →
          -- assumed of the cipher: the packet opens under no other key
          (∀ key' ∈ receiver.crypto.gcmList, key' ≠ key →
            aead.Open key' nonce (aead.Seal key nonce text) = none) →
          ∃ h₃ receiver', receiver.openPacket aead h₂ received =
              (.ok (aead.nonceSize + text.length), h₃, receiver') ∧
            h₃.read (received.upTo (aead.nonceSize + text.length)) = nonce ++ text ∧
            (0 < i → receiver'.crypto.gcmList = receiver.crypto.gcmList.drop i ∧
              receiver'.crypto.activeIdx = 0) ∧
            (i = 0 → receiver'.crypto.gcmList = receiver.crypto.gcmList ∧
              receiver'.crypto.activeIdx = receiver.crypto.activeIdx)) ∧
    (∀ (h : Memory) (buf : Slice) (receiver : RotatingCrypto), buf.Valid h →
      receiver.delegatedToProxy = false →
      (∀ key ∈ receiver.crypto.gcmList, ∀ nonce text, nonce.length = aead.nonceSize →
        h.read buf ≠ nonce ++ aead.Seal key nonce text) →
      ∃ e h', receiver.openPacket aead h buf = (.error e, h', receiver)) := by
  constructor
  · intro sender key h buf nonce text inPlace hsender hkey hbuf hread hnonce
    obtain ⟨packet, h₁, hsealed, hvalid, hpacket⟩ :=
      RotatingCrypto.sealPacket_ok hsender hkey hbuf hread hnonce inPlace
    refine ⟨packet, h₁, _, hsealed, hvalid, ?_⟩
    intro h₂ received hreceived hsame receiver i hreceiver hdistinct hi hother
    have hfail : ∀ k ∈ receiver.crypto.gcmList.take i,
        aead.Open k nonce (aead.Seal key nonce text) = none := by
      intro k hk
      refine hother k (List.mem_of_mem_take hk) ?_
      rintro rfl
      have hlater : k ∈ receiver.crypto.gcmList.drop i :=
        List.mem_iff_getElem?.mpr ⟨0, by rw [List.getElem?_drop, Nat.add_zero, hi]⟩
      exact List.disjoint_take_drop hdistinct (Nat.le_refl i) hk hlater
    obtain ⟨h₃, hopened, htext⟩ := RotatingCrypto.openPacket_ok hreceiver hreceived
      (hsame.trans hpacket) hnonce hi (aead.Open_Seal key nonce text) hfail
    refine ⟨h₃, _, hopened, htext, ?_, ?_⟩
    · intro hpos
      exact receiver.crypto.opened_later hpos (List.getElem?_eq_some_iff.mp hi).1 _
    · rintro rfl
      exact receiver.crypto.opened_first _
  · intro h buf receiver hbuf hreceiver hforeign
    refine RotatingCrypto.openPacket_error hreceiver hbuf ?_
    intro nonce sealed hnonce hread key hkey
    by_contra hopens
    obtain ⟨text, htext⟩ := Option.ne_none_iff_exists'.mp hopens
    have hsealed := aead.eq_Seal_of_Open key nonce sealed text htext
    exact hforeign key hkey nonce text hnonce (hread.trans (by rw [hsealed]))

/-- A number for every key of a short run. -/
def Key.tag : Key → UInt8
  | .initial => .ofNat 0
  | .derived clientPri serverPri => .ofNat (16 * clientPri + serverPri + 1)

/-- A cipher that only tags its texts. -/
def tagging : Aead where
  nonceSize := 2
  overhead := 1
  Seal key _ text := text ++ [key.tag]
  Open key _ sealed := if sealed.getLast? = some key.tag then some sealed.dropLast else none
  rubbish _ _ sealed := List.replicate (sealed.length - 1) Key.initial.tag
  length_Seal _ _ _ := by simp
  Open_Seal _ _ _ := by simp
  eq_Seal_of_Open key nonce sealed text := by
    intro h
    split at h
    · cases h
      exact (List.dropLast_append_getLast? _ ‹_›).symm
    · cases h
  length_rubbish _ _ _ := by simp

/-- A buffer with room for the tag behind nonce and text. -/
def packetMemory : Memory := [[1, 2, 7, 8, 9, 0]]

def packetBuffer : Slice := { len := 5, cap := 6 }

def afterRekey : RotatingCrypto :=
  { crypto := { gcmList := [.initial, .derived 0 0], activeIdx := 1 } }

/-- The receiver has the sender's key between two others. -/
def threeKeys : RotatingCrypto :=
  { crypto := { gcmList := [.initial, .derived 0 0, .derived 1 1] } }

theorem openPacket_sealPacket_promotes :
    ∃ packet h₁ sender', afterRekey.sealPacket tagging packetMemory packetBuffer true =
        (.ok packet, h₁, sender') ∧
      ∃ h₃ receiver', threeKeys.openPacket tagging h₁ packet = (.ok 5, h₃, receiver') ∧
        h₃.read (packet.upTo 5) = [1, 2, 7, 8, 9] ∧
        receiver'.crypto.gcmList = [.derived 0 0, .derived 1 1] := by
  obtain ⟨packet, h₁, sender', hsealed, hvalid, hopens⟩ :=
    (openPacket_sealPacket tagging).1 afterRekey (.derived 0 0) packetMemory packetBuffer [1, 2]
      [7, 8, 9] true rfl rfl ⟨by decide, by decide⟩ rfl rfl
  obtain ⟨h₃, receiver', hopened, htext, hlater, -⟩ :=
    hopens h₁ packet hvalid rfl threeKeys 1 rfl (by decide) rfl (by decide)
  exact ⟨packet, h₁, sender', hsealed, h₃, receiver', hopened, htext,
    (hlater (by decide)).1.trans rfl⟩

end Tsshd.Rekey

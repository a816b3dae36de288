import Mathlib.Algebra.GroupWithZero.Nat
import Mathlib.Algebra.Group.Basic
import Mathlib.Data.List.Induction

/-!
# Bytes, buffers and streams

What programs that speak a binary protocol are made of.

* **numbers** — `putBE` writes a number into a fixed number of bytes, most
  significant first; `beNat` reads it back;
* **buffers** — `copyAt` copies into a buffer from an offset on;
* **streams** — a `Stream` delivers its bytes in non-empty pieces, of any size
  and whatever size is asked for, and then ends with an error. `read` is one
  call, `readFull` calls until the buffer is full. `readFull_ok` and
  `readFull_short` say that only the bytes matter, not the pieces;
* **writers** — a `Writer` takes at least one byte a call or fails. `writeAll`
  calls until everything is taken.
-/

namespace Tsshd

/-! ## Numbers -/

/-- The number that bytes stand for, most significant first. -/
def beNat (bytes : List UInt8) : Nat := bytes.foldl (fun n b => 256 * n + b.toNat) 0

/-- The low bytes of a number, most significant first. -/
def putBE : Nat → Nat → List UInt8
  | 0, _ => []
  | width + 1, n => putBE width (n / 256) ++ [UInt8.ofNat n]

@[simp] theorem length_putBE (width n : Nat) : (putBE width n).length = width := by
  induction width generalizing n with
  | zero => rfl
  | succ width ih => simp [putBE, ih]

theorem beNat_concat (bytes : List UInt8) (b : UInt8) :
    beNat (bytes ++ [b]) = 256 * beNat bytes + b.toNat := by
  simp [beNat]

theorem beNat_putBE (width n : Nat) : beNat (putBE width n) = n % 256 ^ width := by
  induction width generalizing n with
  | zero => simp [putBE, beNat, Nat.mod_one]
  | succ width ih =>
    have hbyte : (UInt8.ofNat n).toNat = n % 256 := UInt8.toNat_ofNat'
    rw [putBE, beNat_concat, ih, hbyte, pow_succ', Nat.mod_mul, Nat.add_comm]

/-- Bytes are the number they stand for, written out. -/
theorem putBE_beNat (bytes : List UInt8) : putBE bytes.length (beNat bytes) = bytes := by
  induction bytes using List.reverseRecOn with
  | nil => rfl
  | append_singleton bytes b ih =>
    have hdiv : (256 * beNat bytes + b.toNat) / 256 = beNat bytes := by
      have := b.toNat_lt
      omega
    have hbyte : UInt8.ofNat (256 * beNat bytes + b.toNat) = b := by
      apply UInt8.toNat_inj.mp
      have := b.toNat_lt
      rw [UInt8.toNat_ofNat']
      omega
    rw [List.length_append, List.length_singleton, putBE, beNat_concat, hdiv, hbyte, ih]

theorem beNat_lt (bytes : List UInt8) : beNat bytes < 256 ^ bytes.length := by
  rw [← Nat.mod_eq_iff_lt (Nat.pos_iff_ne_zero.mp (Nat.pow_pos (by decide))), ← beNat_putBE,
    putBE_beNat]

/-- Higher digits do not matter. -/
theorem putBE_mod (width n : Nat) : putBE width (n % 256 ^ width) = putBE width n := by
  induction width generalizing n with
  | zero => rfl
  | succ width ih =>
    have hbyte : UInt8.ofNat (n % 256 ^ (width + 1)) = UInt8.ofNat n := by
      apply UInt8.toNat_inj.mp
      rw [UInt8.toNat_ofNat', UInt8.toNat_ofNat']
      exact Nat.mod_mod_of_dvd n (Nat.dvd_mul_left 256 _)
    have hrest : n % 256 ^ (width + 1) / 256 = n / 256 % 256 ^ width := by
      rw [pow_succ', Nat.mod_mul_right_div_self]
    rw [putBE, putBE, hbyte, hrest, ih]

/-! ## Buffers -/

/-- The bytes of an ASCII text. -/
def asciiBytes (text : String) : List UInt8 := text.toList.map fun c => UInt8.ofNat c.toNat

/-- `make([]byte, n)`. -/
def makeBytes (n : Nat) : List UInt8 := List.replicate n (UInt8.ofNat 0)

/-- `copy(buf[off:], src)`. -/
def copyAt (buf : List UInt8) (off : Nat) (src : List UInt8) : List UInt8 :=
  buf.take off ++ src.take (buf.length - off) ++ buf.drop (off + src.length)

/-- A copy into the part of a buffer that has not been written yet. -/
theorem copyAt_makeBytes (front src : List UInt8) (n : Nat) {off total : Nat}
    (hoff : front.length = off) (htotal : src.length + n = total) :
    copyAt (front ++ makeBytes total) off src = front ++ src ++ makeBytes n := by
  subst hoff htotal
  have htake : src.take (src.length + n) = src := List.take_of_length_le (Nat.le_add_right _ _)
  simp [copyAt, makeBytes, htake]

/-- A copy that fills the buffer. -/
theorem copyAt_full (front src : List UInt8) {off total : Nat} (hoff : front.length = off)
    (htotal : src.length = total) : copyAt (front ++ makeBytes total) off src = front ++ src := by
  rw [copyAt_makeBytes front src 0 hoff htotal]
  exact List.append_nil _

/-! ## Streams -/

inductive IoError
  | eof
  | unexpectedEOF
  | closed
deriving DecidableEq, Repr

abbrev Piece := { piece : List UInt8 // piece ≠ [] }

structure Stream where
  pieces : List Piece
  /-- What `Read` returns behind the last byte. -/
  fin : IoError := .eof
  /-- Whether it is returned together with the last bytes already. -/
  finWithLast : Bool := false

namespace Stream

def bytes (s : Stream) : List UInt8 := (s.pieces.map Subtype.val).flatten

/-- `Read` into a buffer of `k` bytes. -/
def read (k : Nat) (s : Stream) : List UInt8 × Option IoError × Stream :=
  match s.pieces with
  | [] => ([], some s.fin, s)
  | p :: ps =>
    if h : p.1.length ≤ k then
      (p.1, if ps.isEmpty && s.finWithLast then some s.fin else none, { s with pieces := ps })
    else
      (p.1.take k, none, { s with pieces := ⟨p.1.drop k, by simpa using h⟩ :: ps })

/-- The loop of `io.ReadAtLeast`; `fuel` bounds its rounds, each of which gets
at least one byte. -/
def readLoop : Nat → Nat → List UInt8 → Stream → List UInt8 × Option IoError × Stream
  | 0, _, got, s => (got, none, s)
  | fuel + 1, need, got, s =>
    if got.length < need then
      match s.read (need - got.length) with
      | (bs, none, s') => readLoop fuel need (got ++ bs) s'
      | (bs, some e, s') => (got ++ bs, some e, s')
    else (got, none, s)

/-- `io.ReadFull` into a buffer of `need` bytes. -/
def readFull (need : Nat) (s : Stream) : Except IoError (List UInt8) × Stream :=
  match readLoop need need [] s with
  | (got, err, s') =>
    if need ≤ got.length then (.ok got, s')
    else
      let err := err.getD s.fin
      (.error (if 0 < got.length && err == .eof then .unexpectedEOF else err), s')

/-- What one call does. -/
structure Reads (k : Nat) (s : Stream) (bs : List UInt8) (err : Option IoError) (t : Stream) :
    Prop where
  split : s.bytes = bs ++ t.bytes
  bound : bs.length ≤ k
  fin : t.fin = s.fin
  ended : ∀ e, err = some e → e = s.fin ∧ t.bytes = []
  goesOn : err = none → 0 < k → bs ≠ []

theorem read_reads (k : Nat) (s : Stream) :
    Reads k s (s.read k).1 (s.read k).2.1 (s.read k).2.2 := by
  unfold read
  split
  · rename_i hnil
    refine ⟨by simp, by simp, rfl, fun e he => ⟨(Option.some.inj he).symm, ?_⟩, by simp⟩
    simp [bytes, hnil]
  · rename_i p ps hcons
    split
    · rename_i hle
      refine ⟨by simp [bytes, hcons], hle, rfl, fun e he => ?_, fun _ _ => p.2⟩
      split at he
      · rename_i hlast
        have hps : ps = [] := List.isEmpty_iff.mp (Bool.and_eq_true_iff.mp hlast).1
        exact ⟨(Option.some.inj he).symm, by simp [bytes, hps]⟩
      · exact absurd he (by simp)
    · rename_i hlt
      refine ⟨by simp [bytes, hcons, ← List.append_assoc], List.length_take_le k _, rfl, by simp,
        fun _ hk => ?_⟩
      intro hnil
      have := p.2
      simp only [List.take_eq_nil_iff] at hnil
      rcases hnil with rfl | hnil
      · exact absurd hk (by simp)
      · exact this hnil

theorem readLoop_done {fuel need : Nat} {got : List UInt8} {s : Stream} (h : ¬got.length < need) :
    readLoop fuel need got s = (got, none, s) := by
  cases fuel with
  | zero => rfl
  | succ fuel => rw [readLoop, if_neg h]

/-- The loop gets what it needs, or all there is. -/
theorem readLoop_spec (fuel need : Nat) (got : List UInt8) (s : Stream)
    (hfuel : need - got.length ≤ fuel) (hgot : got.length ≤ need) :
    (readLoop fuel need got s).1 = got ++ s.bytes.take (need - got.length) ∧
    (readLoop fuel need got s).2.2.bytes = s.bytes.drop (need - got.length) ∧
    (readLoop fuel need got s).2.2.fin = s.fin ∧
    (got.length + s.bytes.length < need → (readLoop fuel need got s).2.1 = some s.fin) := by
  induction fuel generalizing got s with
  | zero =>
    have hfull : need - got.length = 0 := Nat.le_zero.mp hfuel
    simp only [readLoop, hfull, List.take_zero, List.append_nil, List.drop_zero, true_and]
    omega
  | succ fuel ih =>
    unfold readLoop
    split
    · rename_i hlt
      obtain ⟨bs, err, t, hr⟩ : ∃ bs err t, s.read (need - got.length) = (bs, err, t) :=
        ⟨_, _, _, rfl⟩
      have hreads : Reads (need - got.length) s bs err t := by
        have := read_reads (need - got.length) s
        rwa [hr] at this
      have hbound := hreads.bound
      rw [hr]
      cases err with
      | some e =>
        obtain ⟨rfl, hnil⟩ := hreads.ended e rfl
        have hall : s.bytes = bs := by rw [hreads.split, hnil, List.append_nil]
        rw [hall, List.take_of_length_le hbound, List.drop_of_length_le hbound]
        exact ⟨rfl, hnil, hreads.fin, fun _ => rfl⟩
      | none =>
        have hpos := List.length_pos_iff.mpr (hreads.goesOn rfl (by omega))
        have hlen : (got ++ bs).length = got.length + bs.length := List.length_append
        obtain ⟨hgot', hleft, hfin, herr⟩ := ih (got ++ bs) t (by omega) (by omega)
        have hneed : need - got.length - bs.length = need - (got ++ bs).length := by omega
        rw [hreads.split, List.take_append, List.drop_append, List.take_of_length_le hbound,
          List.drop_of_length_le hbound, hneed, List.nil_append, ← List.append_assoc]
        refine ⟨hgot', hleft, hfin.trans hreads.fin, fun hshort => ?_⟩
        rw [← hreads.fin]
        refine herr ?_
        rw [List.length_append] at hshort
        omega
    · have hfull : need - got.length = 0 := by omega
      simp only [hfull, List.take_zero, List.append_nil, List.drop_zero, true_and]
      omega

theorem readFull_ok {s : Stream} (need : Nat) (h : need ≤ s.bytes.length) :
    (s.readFull need).1 = .ok (s.bytes.take need) ∧
    (s.readFull need).2.bytes = s.bytes.drop need ∧ (s.readFull need).2.fin = s.fin := by
  have hspec := readLoop_spec need need [] s (by simp) (by simp)
  unfold readFull
  generalize readLoop need need [] s = r at hspec ⊢
  obtain ⟨got, err, t⟩ := r
  obtain ⟨hgot, hleft, hfin, _⟩ := hspec
  simp only [List.length_nil, Nat.sub_zero, List.nil_append] at hgot hleft
  subst hgot
  have hfull : need ≤ (s.bytes.take need).length := by
    rw [List.length_take]
    omega
  simp only [hfull, if_true]
  exact ⟨trivial, hleft, hfin⟩

/-! ### One call at a time -/

/-- The rest of `io.ReadFull` once it has `got`. -/
def resume (need : Nat) (got : List UInt8) (s : Stream) : Except IoError (List UInt8) × Stream :=
  match readLoop (need - got.length) need got s with
  | (got, err, s') =>
    if need ≤ got.length then (.ok got, s')
    else
      let err := err.getD s.fin
      (.error (if 0 < got.length && err == .eof then .unexpectedEOF else err), s')

theorem resume_nil (need : Nat) (s : Stream) : s.resume need [] = s.readFull need := rfl

/-- What a round of the loop comes to. -/
inductive Round
  | more (got : List UInt8)
  | full (got : List UInt8)
  | failed (e : IoError)
deriving DecidableEq, Repr

/-- The round, given what `Read` has returned. -/
def round (need : Nat) (got bs : List UInt8) (err : Option IoError) : Round :=
  if need ≤ (got ++ bs).length then .full (got ++ bs)
  else
    match err with
    | some e => .failed (if 0 < (got ++ bs).length && e == .eof then .unexpectedEOF else e)
    | none => .more (got ++ bs)

/-- One round of `io.ReadFull`. -/
def readRound (need : Nat) (got : List UInt8) (s : Stream) : Round × Stream :=
  match s.read (need - got.length) with
  | (bs, err, s') => (round need got bs err, s')

/-- Enough fuel is enough. -/
theorem readLoop_fuel {fuel fuel' need : Nat} {got : List UInt8} {s : Stream}
    (hfuel : need - got.length ≤ fuel) (hfuel' : need - got.length ≤ fuel') :
    readLoop fuel need got s = readLoop fuel' need got s := by
  by_cases hlt : got.length < need
  · induction fuel generalizing fuel' got s with
    | zero => omega
    | succ fuel ih =>
      obtain _ | fuel' := fuel'
      · omega
      · have hreads := read_reads (need - got.length) s
        simp only [readLoop, hlt, if_true]
        generalize s.read (need - got.length) = r at hreads ⊢
        obtain ⟨bs, err, t⟩ := r
        cases err with
        | some e => rfl
        | none =>
          have hpos : 0 < bs.length := List.length_pos_iff.mpr (hreads.goesOn rfl (by omega))
          have hlen : (got ++ bs).length = got.length + bs.length := List.length_append
          by_cases hmore : (got ++ bs).length < need
          · exact ih (by omega) (by omega) hmore
          · exact (readLoop_done hmore).trans (readLoop_done hmore).symm
  · exact (readLoop_done hlt).trans (readLoop_done hlt).symm

/-- A round and the rest of the loop are the loop. -/
theorem resume_round {need : Nat} {got : List UInt8} (s : Stream) (hlt : got.length < need) :
    s.resume need got =
      match (s.readRound need got).1 with
      | .more got' => (s.readRound need got).2.resume need got'
      | .full got' => (.ok got', (s.readRound need got).2)
      | .failed e => (.error e, (s.readRound need got).2) := by
  obtain ⟨fuel, hfuel⟩ : ∃ fuel, need - got.length = fuel + 1 := ⟨need - got.length - 1, by omega⟩
  have hreads := read_reads (need - got.length) s
  unfold resume readRound round
  rw [hfuel] at hreads ⊢
  simp only [readLoop, hlt, if_true, hfuel]
  generalize s.read (fuel + 1) = r at hreads ⊢
  obtain ⟨bs, err, t⟩ := r
  cases err with
  | some e =>
    by_cases hfull : need ≤ (got ++ bs).length
    · simp only [hfull, if_true]
    · simp only [hfull, if_false, Option.getD_some]
  | none =>
    have hpos : 0 < bs.length := List.length_pos_iff.mpr (hreads.goesOn rfl (Nat.succ_pos fuel))
    have hlen : (got ++ bs).length = got.length + bs.length := List.length_append
    have hloop : readLoop fuel need (got ++ bs) t =
        readLoop (need - (got ++ bs).length) need (got ++ bs) t :=
      readLoop_fuel (by omega) (Nat.le_refl _)
    by_cases hfull : need ≤ (got ++ bs).length
    · simp only [readLoop_done (Nat.not_lt.mpr hfull), hfull, if_true]
    · have hfin : t.fin = s.fin := hreads.fin
      simp only [hfull, if_false, hloop, hfin]

/-- What `readFull` returns when the bytes run out. -/
def shortError (s : Stream) : IoError :=
  if 0 < s.bytes.length && s.fin == .eof then .unexpectedEOF else s.fin

theorem readFull_short {s : Stream} (need : Nat) (h : s.bytes.length < need) :
    (s.readFull need).1 = .error s.shortError ∧ (s.readFull need).2.bytes = [] ∧
    (s.readFull need).2.fin = s.fin := by
  have hspec := readLoop_spec need need [] s (by simp) (by simp)
  unfold readFull
  generalize readLoop need need [] s = r at hspec ⊢
  obtain ⟨got, err, t⟩ := r
  obtain ⟨hgot, hleft, hfin, herr⟩ := hspec
  simp only [List.length_nil, Nat.sub_zero, List.nil_append, Nat.zero_add,
    List.take_of_length_le (Nat.le_of_lt h), List.drop_of_length_le (Nat.le_of_lt h)]
    at hgot hleft herr
  subst hgot
  simp only [Nat.not_le_of_lt h, if_false, herr h, Option.getD_some]
  exact ⟨rfl, hleft, hfin⟩

theorem readFull_length {s : Stream} {need : Nat} {got : List UInt8}
    (h : (s.readFull need).1 = .ok got) : got.length = need := by
  by_cases hshort : s.bytes.length < need
  · rw [(s.readFull_short need hshort).1] at h
    cases h
  · have hneed := Nat.le_of_not_lt hshort
    rw [(s.readFull_ok need hneed).1] at h
    cases h
    exact List.length_take_of_le hneed

end Stream

/-! ## Writers -/

/-- The other side of `Write`: what the calls take and which of them fail. -/
structure Writer where
  /-- The `i`-th call takes up to `takes i + 1` bytes. -/
  takes : Nat → Nat := fun _ => 0
  fails : Nat → Bool := fun _ => false
  calls : Nat := 0
  written : List UInt8 := []

namespace Writer

def write (w : Writer) (data : List UInt8) : Except IoError Nat × Writer :=
  if w.fails w.calls then (.error .closed, { w with calls := w.calls + 1 })
  else
    let n := min (w.takes w.calls + 1) data.length
    (.ok n, { w with calls := w.calls + 1, written := w.written ++ data.take n })

/-- The loop of `writeAll`; `fuel` bounds its rounds, each of which writes at
least one byte. -/
def writeLoop : Nat → Writer → List UInt8 → Except IoError Unit × Writer
  | 0, w, _ => (.ok (), w)
  | fuel + 1, w, data =>
    if data.isEmpty then (.ok (), w)
    else
      match w.write data with
      | (.error e, w') => (.error e, w')
      | (.ok n, w') => writeLoop fuel w' (data.drop n)

def writeAll (w : Writer) (data : List UInt8) : Except IoError Unit × Writer :=
  writeLoop data.length w data

/-- No call fails. -/
def Reliable (w : Writer) : Prop := ∀ i, w.fails i = false

theorem writeLoop_reliable {w : Writer} (hw : w.Reliable) (fuel : Nat) (data : List UInt8)
    (hfuel : data.length ≤ fuel) :
    (writeLoop fuel w data).1 = .ok () ∧ (writeLoop fuel w data).2.written = w.written ++ data ∧
    (writeLoop fuel w data).2.Reliable := by
  induction fuel generalizing w data with
  | zero =>
    obtain rfl : data = [] := List.length_eq_zero_iff.mp (Nat.le_zero.mp hfuel)
    exact ⟨rfl, (List.append_nil _).symm, hw⟩
  | succ fuel ih =>
    unfold writeLoop
    by_cases hempty : data = []
    · subst hempty
      exact ⟨rfl, (List.append_nil _).symm, hw⟩
    · have hpos := List.length_pos_iff.mpr hempty
      have hlive : w.fails w.calls = false := hw w.calls
      simp only [List.isEmpty_iff, hempty, if_false, write, hlive, Bool.false_eq_true]
      -- each call takes at least one byte
      have hleft : (data.drop (min (w.takes w.calls + 1) data.length)).length ≤ fuel := by
        rw [List.length_drop]
        omega
      obtain ⟨hok, hwritten, hrel⟩ := ih (w := { w with
        calls := w.calls + 1
        written := w.written ++ data.take (min (w.takes w.calls + 1) data.length) }) hw _ hleft
      refine ⟨hok, ?_, hrel⟩
      rw [hwritten, List.append_assoc, List.take_append_drop]

/-- However many bytes each call takes, all of them get written. -/
theorem writeAll_reliable {w : Writer} (hw : w.Reliable) (data : List UInt8) :
    (w.writeAll data).1 = .ok () ∧ (w.writeAll data).2.written = w.written ++ data ∧
    (w.writeAll data).2.Reliable :=
  writeLoop_reliable hw data.length data (Nat.le_refl _)

/-- Without an error everything is written; with one, a part. -/
theorem writeLoop_written {w : Writer} (fuel : Nat) (data : List UInt8)
    (hfuel : data.length ≤ fuel) :
    ((writeLoop fuel w data).1 = .ok () → (writeLoop fuel w data).2.written = w.written ++ data) ∧
    (writeLoop fuel w data).2.written <+: w.written ++ data := by
  induction fuel generalizing w data with
  | zero =>
    obtain rfl : data = [] := List.length_eq_zero_iff.mp (Nat.le_zero.mp hfuel)
    exact ⟨fun _ => (List.append_nil _).symm, List.prefix_append _ _⟩
  | succ fuel ih =>
    unfold writeLoop
    by_cases hempty : data = []
    · subst hempty
      exact ⟨fun _ => (List.append_nil _).symm, List.prefix_append _ _⟩
    · have hpos := List.length_pos_iff.mpr hempty
      simp only [List.isEmpty_iff, hempty, if_false, write]
      cases w.fails w.calls with
      | true => exact ⟨fun h => absurd h (by simp), List.prefix_append _ _⟩
      | false =>
        have hleft : (data.drop (min (w.takes w.calls + 1) data.length)).length ≤ fuel := by
          rw [List.length_drop]
          omega
        have hnext := ih (w := { w with
          calls := w.calls + 1
          written := w.written ++ data.take (min (w.takes w.calls + 1) data.length) }) _ hleft
        simpa [List.append_assoc] using hnext

theorem writeAll_ok {w w' : Writer} {data : List UInt8} (h : w.writeAll data = (.ok (), w')) :
    w'.written = w.written ++ data := by
  have hwritten := (writeLoop_written (w := w) data.length data (Nat.le_refl _)).1
  have h' : writeLoop data.length w data = (.ok (), w') := h
  rw [h'] at hwritten
  exact hwritten rfl

theorem writeAll_part {w w' : Writer} {data : List UInt8} {r : Except IoError Unit}
    (h : w.writeAll data = (r, w')) : w'.written <+: w.written ++ data := by
  have hwritten := (writeLoop_written (w := w) data.length data (Nat.le_refl _)).2
  have h' : writeLoop data.length w data = (r, w') := h
  rw [h'] at hwritten
  exact hwritten

end Writer

end Tsshd

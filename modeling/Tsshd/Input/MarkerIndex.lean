import Tsshd.Core.Digits
import Tsshd.Input.Discard
import Mathlib.Data.List.Nodup
import Mathlib.Data.Nat.Bitwise

/-!
# Discard marker indices

`getNextDiscardMarkerIndex` (session.go) counts the markers in a global of 32 bits
and leaves out the numbers with a `;` or a CR among their bytes, which tmux would
not let pass. `Counter` is the code on machine words, with the global as the state;
`Tsshd.Input.getNextDiscardMarkerIndex` is the same function on numbers
(`Counter.getNextDiscardMarkerIndex_toNat`). Both are an increment and a `skip` of
digits in base 256.

* **one call** — the bytes of the index are fine, and the index is above the last
  one unless the increment wraps (`Counter.lt_getNextDiscardMarkerIndex`): a skip
  carries nothing, so it never wraps by itself;
* **a process** — until the increment wraps, the indices grow from call to call and
  no two markers are the same (`discard_markers_fresh`).
-/

namespace Tsshd.Input

/-! ## Numbers -/

/-- `;` and CR. -/
def skipped (b : Nat) : Bool := b == 59 || b == 13

theorem skippable : Skippable 256 skipped where
  pos := by decide
  zero := rfl
  next d hd := by
    simp only [skipped, Bool.or_eq_true, beq_iff_eq] at hd
    rcases hd with rfl | rfl <;> decide

theorem two_pow_mul (k : Nat) : 2 ^ (k * 8) = 256 ^ k := by
  rw [Nat.mul_comm, Nat.pow_mul]

theorem skipAt_eq {cur k : Nat} (hcur : cur < 256 ^ 4) (hk : k < 4) :
    skipAt cur (k * 8) = if skipped (digit 256 cur k) then some (bump 256 cur k) else none := by
  have hsame : (cur / 2 ^ (k * 8) % 256 = 59 ∨ cur / 2 ^ (k * 8) % 256 = 13) ↔
      skipped (digit 256 cur k) = true := by
    simp [skipped, digit, two_pow_mul]
  simp only [skipAt, hsame]
  split
  · rename_i hbad
    have hfits : bump 256 cur k < 2 ^ 32 := bump_lt_pow (skippable.next _ hbad).1 hk hcur
    rw [two_pow_mul, ← bump, Nat.mod_eq_of_lt hfits]
  · rfl

/-- The turns of the loop below place `k`. -/
theorem findSome?_skipAt {cur k : Nat} (hcur : cur < 256 ^ 4) (hk : k ≤ 4) :
    (((List.range k).reverse.map (· * 8)).findSome? (skipAt cur)).getD cur =
      skip 256 skipped k cur := by
  induction k with
  | zero => rfl
  | succ k ih =>
    rw [List.range_succ, List.reverse_append, List.reverse_singleton, List.singleton_append,
      List.map_cons, List.findSome?_cons, skipAt_eq hcur hk, skip]
    split
    · rename_i hskip
      split
      · rename_i hbad
        rw [if_pos hbad, Option.some.injEq] at hskip
        exact hskip.symm
      · rename_i hgood
        rw [if_neg hgood] at hskip
        cases hskip
    · rename_i hskip
      split
      · rename_i hbad
        rw [if_pos hbad] at hskip
        cases hskip
      · exact ih (Nat.le_of_succ_le hk)

theorem getNextDiscardMarkerIndex_eq (index : Nat) :
    getNextDiscardMarkerIndex index = skip 256 skipped 4 ((index + 1) % 2 ^ 32) :=
  findSome?_skipAt (Nat.mod_lt _ (by decide)) (Nat.le_refl 4)

/-! ## Machine words -/

namespace Counter

/-- The loop of `getNextDiscardMarkerIndex` from `i - 1` on: what is returned, and
`discardMarkerCurrentIndex` behind it. -/
def skipLoop : Nat → BitVec 32 → BitVec 32 × BitVec 32
  | 0, current => (current, current)
  | i + 1, current =>
    let shift := i * 8
    let b := (current >>> shift) &&& 0xFF#32
    if b = 59#32 ∨ b = 13#32 then
      let current := ((current >>> shift) + 1#32) <<< shift
      (current, current)
    else skipLoop i current

/-- The returned index, and the global behind the call. -/
def getNextDiscardMarkerIndex (current : BitVec 32) : BitVec 32 × BitVec 32 :=
  skipLoop 4 (current + 1#32)

theorem skipLoop_stored (i : Nat) (current : BitVec 32) :
    (skipLoop i current).2 = (skipLoop i current).1 := by
  induction i with
  | zero => rfl
  | succ i ih =>
    unfold skipLoop
    dsimp only
    split
    · rfl
    · exact ih

theorem toNat_byte (current : BitVec 32) (k : Nat) :
    ((current >>> (k * 8)) &&& 0xFF#32).toNat = digit 256 current.toNat k := by
  rw [BitVec.toNat_and, BitVec.toNat_ushiftRight, Nat.shiftRight_eq_div_pow, two_pow_mul, digit]
  exact Nat.and_two_pow_sub_one_eq_mod _ 8

theorem toNat_bump {current : BitVec 32} {k : Nat}
    (hfits : bump 256 current.toNat k < 256 ^ 4) :
    (((current >>> (k * 8)) + 1#32) <<< (k * 8)).toNat = bump 256 current.toNat k := by
  have hupper : current.toNat / 256 ^ k + 1 < 2 ^ 32 :=
    (Nat.le_mul_of_pos_right _ (Nat.pow_pos (by decide))).trans_lt hfits
  rw [BitVec.toNat_shiftLeft, BitVec.toNat_add, BitVec.toNat_ushiftRight,
    Nat.shiftRight_eq_div_pow, Nat.shiftLeft_eq, two_pow_mul]
  have hone : (1#32).toNat = 1 := rfl
  rw [hone, Nat.mod_eq_of_lt hupper]
  exact Nat.mod_eq_of_lt hfits

theorem skipLoop_toNat {i : Nat} (hi : i ≤ 4) (current : BitVec 32) :
    (skipLoop i current).1.toNat = skip 256 skipped i current.toNat := by
  induction i with
  | zero => rfl
  | succ i ih =>
    have hbyte (c : Nat) (hc : c < 2 ^ 32) :
        (current >>> (i * 8)) &&& 0xFF#32 = BitVec.ofNat 32 c ↔ digit 256 current.toNat i = c := by
      rw [← toNat_byte, ← BitVec.toNat_inj, BitVec.toNat_ofNat, Nat.mod_eq_of_lt hc]
    unfold skipLoop skip
    dsimp only
    simp only [hbyte 59 (by decide), hbyte 13 (by decide), skipped, Bool.or_eq_true, beq_iff_eq]
    split
    · rename_i hbad
      have hskipped : skipped (digit 256 current.toNat i) = true := by
        simpa [skipped] using hbad
      exact toNat_bump (bump_lt_pow (skippable.next _ hskipped).1 hi current.isLt)
    · exact ih (Nat.le_of_succ_le hi)

/-- The function on numbers is the code. -/
theorem getNextDiscardMarkerIndex_toNat (current : BitVec 32) :
    (getNextDiscardMarkerIndex current).1.toNat =
      Input.getNextDiscardMarkerIndex current.toNat := by
  rw [getNextDiscardMarkerIndex, skipLoop_toNat (Nat.le_refl 4), getNextDiscardMarkerIndex_eq,
    BitVec.toNat_add]
  rfl

/-- A call returns what it stores. -/
theorem getNextDiscardMarkerIndex_stored (current : BitVec 32) :
    (getNextDiscardMarkerIndex current).2 = (getNextDiscardMarkerIndex current).1 :=
  skipLoop_stored 4 _

/-- The index grows unless the increment wraps. -/
theorem lt_getNextDiscardMarkerIndex {current : BitVec 32} (h : current ≠ BitVec.allOnes 32) :
    current < (getNextDiscardMarkerIndex current).1 := by
  have hlt : current.toNat + 1 < 2 ^ 32 := by
    have hne : current.toNat ≠ 2 ^ 32 - 1 := by
      intro heq
      exact h (BitVec.eq_of_toNat_eq (heq.trans BitVec.toNat_allOnes.symm))
    have := current.isLt
    omega
  rw [BitVec.lt_def, getNextDiscardMarkerIndex_toNat, getNextDiscardMarkerIndex_eq,
    Nat.mod_eq_of_lt hlt]
  exact Nat.lt_of_succ_le (le_skip skippable)

/-! ## Markers -/

/-- `byte(idx >> shift)`. -/
def byte (idx : BitVec 32) (shift : Nat) : UInt8 := UInt8.ofBitVec ((idx >>> shift).setWidth 8)

def indexBytes (idx : BitVec 32) : List UInt8 :=
  [byte idx 24, byte idx 16, byte idx 8, byte idx 0]

/-- The marker of `enablePendingInputDiscard`. -/
def marker (idx : BitVec 32) : List UInt8 := [0xFF, 0xC0, 0xC1, 0xFF] ++ indexBytes idx

theorem byte_toNat (idx : BitVec 32) (k : Nat) :
    (byte idx (k * 8)).toNat = digit 256 idx.toNat k := by
  have hbits : (byte idx (k * 8)).toNat = (idx >>> (k * 8)).toNat % 2 ^ 8 :=
    BitVec.toNat_setWidth 8 _
  rw [hbits, BitVec.toNat_ushiftRight, Nat.shiftRight_eq_div_pow, two_pow_mul]
  rfl

theorem mem_indexBytes {idx : BitVec 32} {b : UInt8} (h : b ∈ indexBytes idx) :
    ∃ k, b.toNat = digit 256 idx.toNat k := by
  simp only [indexBytes, List.mem_cons, List.not_mem_nil, or_false] at h
  rcases h with rfl | rfl | rfl | rfl
  · exact ⟨3, byte_toNat idx 3⟩
  · exact ⟨2, byte_toNat idx 2⟩
  · exact ⟨1, byte_toNat idx 1⟩
  · exact ⟨0, byte_toNat idx 0⟩

/-- No byte of an index is a `;` or a CR. -/
theorem indexBytes_safe (current : BitVec 32) :
    ∀ b ∈ indexBytes (getNextDiscardMarkerIndex current).1, b ≠ 59 ∧ b ≠ 13 := by
  intro b hb
  obtain ⟨k, hk⟩ := mem_indexBytes hb
  have hlt : (current.toNat + 1) % 2 ^ 32 < 256 ^ 4 := Nat.mod_lt _ (by decide)
  have hsafe := skip_digits_of_lt skippable hlt k
  rw [← getNextDiscardMarkerIndex_eq, ← getNextDiscardMarkerIndex_toNat, ← hk] at hsafe
  constructor
  · rintro rfl
    cases hsafe
  · rintro rfl
    cases hsafe

/-- Different indices make different markers. -/
theorem marker_injective {v w : BitVec 32} (h : marker v = marker w) : v = w := by
  simp only [marker, indexBytes, List.append_cancel_left_eq, List.cons.injEq, and_true] at h
  obtain ⟨h3, h2, h1, h0⟩ := h
  have hdigit (k : Nat) (hk : byte v (k * 8) = byte w (k * 8)) :
      digit 256 v.toNat k = digit 256 w.toNat k := by
    rw [← byte_toNat, ← byte_toNat, hk]
  have hd3 := hdigit 3 h3
  have hd2 := hdigit 2 h2
  have hd1 := hdigit 1 h1
  have hd0 := hdigit 0 h0
  have hv := v.isLt
  have hw := w.isLt
  apply BitVec.eq_of_toNat_eq
  simp only [digit, Nat.reducePow] at hd3 hd2 hd1 hd0 hv hw
  omega

/-- The marker of the machine, whichever call drew it. -/
theorem marker_eq (id : Nat) (idx : BitVec 32) : marker idx = Marker.bytes ⟨id, idx.toNat⟩ := by
  have hbyte (k : Nat) : byte idx (k * 8) = (idx.toNat / 256 ^ k).toUInt8 := by
    apply UInt8.toNat_inj.mp
    rw [byte_toNat]
    exact UInt8.toNat_ofNat'.symm
  have h3 := hbyte 3
  have h2 := hbyte 2
  have h1 := hbyte 1
  have h0 := hbyte 0
  simp only [Nat.reduceMul, Nat.reducePow, Nat.div_one] at h3 h2 h1 h0
  simp only [marker, indexBytes, Marker.bytes, h3, h2, h1, h0, Nat.reducePow, List.cons_append,
    List.nil_append]

/-! ## A process -/

/-- What `n` calls in a row return, and the global behind them. -/
def draws : Nat → BitVec 32 → List (BitVec 32) × BitVec 32
  | 0, current => ([], current)
  | n + 1, current =>
    let (idx, current) := getNextDiscardMarkerIndex current
    let (rest, current) := draws n current
    (idx :: rest, current)

theorem draws_succ (n : Nat) (current : BitVec 32) :
    draws (n + 1) current =
      ((getNextDiscardMarkerIndex current).1 ::
          (draws n (getNextDiscardMarkerIndex current).2).1,
        (draws n (getNextDiscardMarkerIndex current).2).2) := rfl

/-- Up to a wrap, every index is above all that were drawn before it. -/
theorem draws_increasing {n : Nat} {current : BitVec 32}
    (hwrap : ∀ k < n, (draws k current).2 ≠ BitVec.allOnes 32) :
    (draws n current).1.Pairwise (· < ·) ∧ ∀ v ∈ (draws n current).1, current < v := by
  induction n generalizing current with
  | zero => exact ⟨List.Pairwise.nil, List.forall_mem_nil _⟩
  | succ n ih =>
    have hfirst := lt_getNextDiscardMarkerIndex (hwrap 0 (Nat.zero_lt_succ n))
    have hlater : ∀ k < n, (draws k (getNextDiscardMarkerIndex current).2).2 ≠
        BitVec.allOnes 32 := fun k hk => hwrap (k + 1) (Nat.succ_lt_succ hk)
    obtain ⟨hsorted, habove⟩ := ih hlater
    rw [draws_succ]
    -- the next call starts from what this one returned
    rw [getNextDiscardMarkerIndex_stored] at hsorted habove ⊢
    refine ⟨List.Pairwise.cons habove hsorted, ?_⟩
    intro v hv
    rcases List.mem_cons.mp hv with rfl | hv
    · exact hfirst
    · exact BitVec.lt_trans hfirst (habove v hv)

end Counter

/-- **Indices are safe and fresh**: every call stores what it returns, an index with
no `;` and no CR among its bytes; and as long as the increment does not wrap, each
index is above all those before it and each marker is a new one. -/
theorem discard_markers_fresh (current : BitVec 32) :
    (∀ b ∈ Counter.indexBytes (Counter.getNextDiscardMarkerIndex current).1, b ≠ 59 ∧ b ≠ 13) ∧
      (Counter.getNextDiscardMarkerIndex current).2 =
        (Counter.getNextDiscardMarkerIndex current).1 ∧
      ∀ n, (∀ k < n, (Counter.draws k current).2 ≠ BitVec.allOnes 32) →
        (Counter.draws n current).1.Pairwise (· < ·) ∧
          (∀ v ∈ (Counter.draws n current).1, current < v) ∧
          ((Counter.draws n current).1.map Counter.marker).Nodup := by
  refine ⟨Counter.indexBytes_safe current, Counter.getNextDiscardMarkerIndex_stored current, ?_⟩
  intro n hwrap
  obtain ⟨hsorted, habove⟩ := Counter.draws_increasing hwrap
  refine ⟨hsorted, habove, ?_⟩
  have hnodup : (Counter.draws n current).1.Nodup := hsorted.imp fun hlt => BitVec.ne_of_lt hlt
  exact List.Nodup.map (fun _ _ => Counter.marker_injective) hnodup

/-- The second call steps over a CR in the second byte. -/
theorem discard_markers_fresh_cr :
    (Counter.draws 3 0x0C0CFFFE#32).1 = [0x0C0CFFFF#32, 0x0C0E0000#32, 0x0C0E0001#32] ∧
      ((Counter.draws 3 0x0C0CFFFE#32).1.map Counter.marker).Nodup :=
  ⟨by decide, ((discard_markers_fresh 0x0C0CFFFE#32).2.2 3 (by decide)).2.2⟩

end Tsshd.Input

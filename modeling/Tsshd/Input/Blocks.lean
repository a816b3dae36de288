import Tsshd.Input.MarkerIndex
import Mathlib.Data.List.Chain
import Mathlib.Logic.Function.Iterate
import Mathlib.Tactic.IntervalCases

/-!
# Marker blocks in an input stream

An input stream is typed text with whole marker blocks in it. If the text has
none of the bytes `FF`, `C0` and `C1` and the index of every marker stays below
`C0000000`, a search for a marker can only find the block of that marker
(`Stream.find`).

* `Stream known t` — the cells of `t` have the bytes their origin says, blocks
  are in one piece, and the markers are `known` and in the order in which they
  were drawn;
* `Whole t` — `t` does not end inside a block.
-/

namespace Tsshd.Input

/-! ## Indices -/

/-- The first index whose marker could be mistaken for another place of a
stream. -/
def indexLimit : Nat := 0xC0000000

theorem lt_getNextDiscardMarkerIndex {index : Nat} (h : index < indexLimit) :
    index < getNextDiscardMarkerIndex index := by
  have hcur : (index + 1) % 2 ^ 32 = index + 1 := by
    unfold indexLimit at h
    omega
  rw [getNextDiscardMarkerIndex_eq, hcur]
  exact Nat.lt_of_succ_le (le_skip skippable)

/-- The index of the marker drawn as number `n`. -/
def indexOf (index n : Nat) : Nat := getNextDiscardMarkerIndex^[n + 1] index

theorem indexOf_lt {index a b : Nat} (hlow : ∀ n < b, indexOf index n < indexLimit)
    (hab : a < b) : indexOf index a < indexOf index b := by
  induction b with
  | zero => omega
  | succ b ih =>
    have hb : indexOf index b < indexOf index (b + 1) := by
      have := lt_getNextDiscardMarkerIndex (hlow b (Nat.lt_succ_self b))
      rwa [indexOf, ← Function.iterate_succ_apply' getNextDiscardMarkerIndex] at this
    rcases Nat.lt_succ_iff_lt_or_eq.mp hab with hlt | rfl
    · exact (ih (fun n hn => hlow n (Nat.lt_succ_of_lt hn)) hlt).trans hb
    · exact hb

/-- Markers that were drawn are known by their number. -/
structure Drawn (index drawn : Nat) (m : Marker) : Prop where
  lt : m.id < drawn
  idx : m.idx = indexOf index m.id

theorem Drawn.mono {index drawn drawn' : Nat} {m : Marker} (h : Drawn index drawn m)
    (hle : drawn ≤ drawn') : Drawn index drawn' m := ⟨h.lt.trans_le hle, h.idx⟩

theorem Drawn.eq_of_idx {index drawn : Nat} {m m' : Marker}
    (hlow : ∀ n < drawn, indexOf index n < indexLimit) (h : Drawn index drawn m)
    (h' : Drawn index drawn m') (heq : m.idx = m'.idx) : m = m' := by
  have hid : m.id = m'.id := by
    rw [h.idx, h'.idx] at heq
    rcases Nat.lt_trichotomy m.id m'.id with hlt | hid | hlt
    · exact absurd heq (indexOf_lt (fun n hn => hlow n (hn.trans h'.lt)) hlt).ne
    · exact hid
    · exact absurd heq (indexOf_lt (fun n hn => hlow n (hn.trans h.lt)) hlt).ne'
  cases m
  cases m'
  simp only [Marker.mk.injEq] at hid heq ⊢
  exact ⟨hid, heq⟩

/-! ## Cells -/

/-- A byte that no marker starts with, and that text in UTF-8 may hold. -/
def plainByte (b : UInt8) : Bool := b ≠ 0xFF && b ≠ 0xC0 && b ≠ 0xC1

/-- The byte of a cell is that of its origin. -/
def Cell.Sound (known : Marker → Prop) (c : Cell) : Prop :=
  match c.origin with
  | none => plainByte c.byte = true
  | some (m, k) => known m ∧ m.bytes[k]? = some c.byte

/-- A cell outside a block, or the first one of a block. -/
def Cell.Starts (c : Cell) : Prop := ∀ m k, c.origin = some (m, k) → k = 0

/-- What may come behind a cell. -/
def Cell.Follows (a b : Cell) : Prop :=
  match a.origin with
  | none => b.Starts
  | some (m, k) => if k < 7 then b.origin = some (m, k + 1) else b.Starts

/-- The place of `b` is behind that of `a`, if both belong to markers. -/
def Cell.Before (a b : Cell) : Prop :=
  ∀ m k m' k', a.origin = some (m, k) → b.origin = some (m', k') →
    m.id < m'.id ∨ (m = m' ∧ k < k')

structure Stream (known : Marker → Prop) (t : Text) : Prop where
  sound : ∀ c ∈ t, c.Sound known
  chain : t.IsChain Cell.Follows
  ordered : t.Pairwise Cell.Before

/-- The text does not end inside a block. -/
def Whole (t : Text) : Prop :=
  ∀ c ∈ t.getLast?, ∀ m k, c.origin = some (m, k) → ¬ k < 7

/-- The text has bytes of `m`. -/
def Has (t : Text) (m : Marker) : Prop := ∃ c ∈ t, ∃ k, c.origin = some (m, k)

variable {known : Marker → Prop} {t u : Text} {m : Marker}

theorem Stream.within (h : Stream known t) (hu : u <:+: t) : Stream known u :=
  ⟨fun c hc => h.sound c (hu.subset hc), List.IsChain.infix h.chain hu, h.ordered.sublist hu.sublist⟩

theorem Stream.mono {known' : Marker → Prop} (hk : ∀ m, known m → known' m)
    (h : Stream known t) : Stream known' t := by
  refine ⟨?_, h.chain, h.ordered⟩
  intro c hc
  have hs := h.sound c hc
  unfold Cell.Sound at hs ⊢
  split at hs
  · exact hs
  · exact ⟨hk _ hs.1, hs.2⟩

theorem Has.subset (h : Has u m) (hu : u ⊆ t) : Has t m := by
  obtain ⟨c, hc, k, hk⟩ := h
  exact ⟨c, hu hc, k, hk⟩

theorem Stream.known_of_has (h : Stream known t) (hm : Has t m) : known m := by
  obtain ⟨c, hc, k, hk⟩ := hm
  have hs := h.sound c hc
  rw [Cell.Sound, hk] at hs
  exact hs.1

/-! ## Growing at the end -/

theorem has_append : Has (t ++ u) m ↔ Has t m ∨ Has u m := by
  constructor
  · rintro ⟨c, hc, k, hk⟩
    rcases List.mem_append.mp hc with hc | hc
    · exact .inl ⟨c, hc, k, hk⟩
    · exact .inr ⟨c, hc, k, hk⟩
  · rintro (h | h)
    · exact h.subset (List.subset_append_left t u)
    · exact h.subset (List.subset_append_right t u)

theorem Stream.append (h : Stream known t) (hu : Stream known u) (hwhole : Whole t)
    (hstart : ∀ c ∈ u.head?, c.Starts)
    (hlater : ∀ m, Has t m → ∀ m', Has u m' → m.id < m'.id) : Stream known (t ++ u) := by
  refine ⟨?_, h.chain.append hu.chain ?_, List.pairwise_append.mpr ⟨h.ordered, hu.ordered, ?_⟩⟩
  · intro c hc
    rcases List.mem_append.mp hc with hc | hc
    · exact h.sound c hc
    · exact hu.sound c hc
  · intro a ha b hb
    unfold Cell.Follows
    split
    · exact hstart b hb
    · rename_i m k hk
      rw [if_neg (hwhole a ha m k hk)]
      exact hstart b hb
  · intro a ha b hb m k m' k' hm hm'
    exact .inl (hlater m ⟨a, ha, k, hm⟩ m' ⟨b, hb, k', hm'⟩)

theorem Whole.append (h : Whole t) (hu : Whole u) : Whole (t ++ u) := by
  intro c hc
  rcases List.eq_nil_or_concat u with rfl | ⟨init, x, rfl⟩
  · rw [List.append_nil] at hc
    exact h c hc
  · refine hu c ?_
    simpa using hc

/-- Dropping a front part does not change how a text ends. -/
theorem Whole.suffix (h : Whole t) (hu : u <:+ t) : Whole u := by
  obtain ⟨pre, rfl⟩ := hu
  intro c hc
  refine h c ?_
  rcases List.eq_nil_or_concat u with rfl | ⟨init, x, rfl⟩
  · simp at hc
  · simpa using hc

/-- Typed text, of bytes that no marker starts with. -/
def Plain (t : Text) : Prop := ∀ c ∈ t, c.origin = none ∧ plainByte c.byte = true

theorem Plain.nil : Plain [] := fun _ hc => absurd hc (by simp)

theorem Plain.not_has (h : Plain t) : ¬ Has t m := by
  rintro ⟨c, hc, k, hk⟩
  exact absurd ((h c hc).1.symm.trans hk) (by simp)

theorem Plain.starts (h : Plain t) : ∀ c ∈ t.head?, c.Starts := by
  intro c hc m k hk
  exact absurd ((h c (List.mem_of_mem_head? hc)).1.symm.trans hk) (by simp)

theorem Plain.whole (h : Plain t) : Whole t := by
  intro c hc m k hk
  exact absurd ((h c (List.mem_of_mem_getLast? hc)).1.symm.trans hk) (by simp)

theorem Plain.stream (h : Plain t) : Stream known t := by
  have hpair : t.Pairwise fun a b => a.Follows b ∧ a.Before b := by
    refine List.pairwise_iff_forall_sublist.mpr ?_
    intro a b hab
    have ha := (h a (hab.subset (by simp))).1
    have hb := (h b (hab.subset (by simp))).1
    constructor
    · rw [Cell.Follows, ha]
      intro m k hk
      exact absurd (hb.symm.trans hk) (by simp)
    · intro m k m' k' hm
      exact absurd (ha.symm.trans hm) (by simp)
  refine ⟨?_, (hpair.imp And.left).isChain, hpair.imp And.right⟩
  intro c hc
  rw [Cell.Sound, (h c hc).1]
  exact (h c hc).2

/-! ## One block -/

theorem Marker.has_cells {m' : Marker} : Has m.cells m' ↔ m' = m := by
  constructor
  · rintro ⟨c, hc, k, hk⟩
    obtain ⟨⟨b, i⟩, _, rfl⟩ := List.mem_map.mp hc
    simp only [Option.some.injEq, Prod.mk.injEq] at hk
    exact hk.1.symm
  · rintro rfl
    exact ⟨⟨0xFF, some (m', 0)⟩, by simp [Marker.cells, Marker.bytes], 0, rfl⟩

theorem Marker.stream_cells (hm : known m) : Stream known m.cells := by
  refine ⟨?_, ?_, ?_⟩
  · intro c hc
    obtain ⟨⟨b, i⟩, hbi, rfl⟩ := List.mem_map.mp hc
    exact ⟨hm, (List.mem_zipIdx_iff_getElem?.mp hbi)⟩
  · simp [Marker.cells, Marker.bytes, Cell.Follows]
  · refine List.pairwise_iff_getElem.mpr ?_
    intro i j hi hj hij a k a' k' ha ha'
    simp only [Marker.cells, List.getElem_map, List.getElem_zipIdx, Nat.zero_add,
      Option.some.injEq, Prod.mk.injEq] at ha ha'
    obtain ⟨⟨rfl, rfl⟩, rfl, rfl⟩ := ha, ha'
    exact .inr ⟨rfl, hij⟩

theorem Marker.whole_cells : Whole m.cells := by
  simp [Whole, Marker.cells, Marker.bytes]

theorem Marker.starts_cells : ∀ c ∈ m.cells.head?, c.Starts := by
  simp [Marker.cells, Marker.bytes, Cell.Starts]

/-- What stands behind a block was drawn later. -/
theorem Stream.behind_block {m' : Marker} (h : Stream known (t ++ m.cells ++ u)) (hu : Has u m') :
    m.id < m'.id := by
  obtain ⟨c, hc, k, hk⟩ := hu
  have hlast : (⟨m.idx.toUInt8, some (m, 7)⟩ : Cell) ∈ t ++ m.cells := by
    simp [Marker.cells, Marker.bytes]
  have hbefore := (List.pairwise_append.mp h.ordered).2.2 _ hlast c hc m 7 m' k rfl hk
  rcases hbefore with hlt | ⟨rfl, hlt⟩
  · exact hlt
  · have hs := h.sound c (List.mem_append_right _ hc)
    rw [Cell.Sound, hk] at hs
    have := (List.getElem?_eq_some_iff.mp hs.2).1
    simp [Marker.bytes] at this
    omega

/-! ## Searching -/

/-- What `bytes.Index` finds. -/
theorem index_eq_some {pat : List UInt8} {pos : Nat} (h : index t pat = some pos) :
    ∃ occ, t = t.take pos ++ occ ++ t.drop (pos + pat.length) ∧ occ.map Cell.byte = pat := by
  obtain ⟨⟨a, b⟩, hdrop, rfl⟩ := Option.map_eq_some_iff.mp h
  obtain ⟨⟨pat', heq, hpat⟩, _⟩ := List.dropInfix?_eq_some_iff.mp hdrop
  obtain rfl : pat' = pat := by simpa using hpat
  obtain ⟨t', after, rfl, ht', rfl⟩ := List.map_eq_append_iff.mp heq
  obtain ⟨before, occ, rfl, rfl, rfl⟩ := List.map_eq_append_iff.mp ht'
  exact ⟨occ, by simp, rfl⟩

/-- The top byte of an index below the limit is below `C0`. -/
theorem topByte_ne {idx : Nat} (h : idx < indexLimit) :
    (idx / 2 ^ 24).toUInt8 ≠ 0xFF ∧ (idx / 2 ^ 24).toUInt8 ≠ 0xC0 := by
  unfold indexLimit at h
  constructor <;> intro heq <;> have := congrArg UInt8.toNat heq <;> simp at this <;> omega

theorem Marker.idx_of_bytes {m m' : Marker} (hm : m.idx < indexLimit) (hm' : m'.idx < indexLimit)
    (h : m.bytes = m'.bytes) : m.idx = m'.idx := by
  unfold indexLimit at hm hm'
  simp only [Marker.bytes, List.cons.injEq, true_and, and_true] at h
  obtain ⟨h3, h2, h1, h0⟩ := h
  have h3 := congrArg UInt8.toNat h3
  have h2 := congrArg UInt8.toNat h2
  have h1 := congrArg UInt8.toNat h1
  have h0 := congrArg UInt8.toNat h0
  simp at h0 h1 h2 h3
  omega

/-- A byte that starts a marker belongs to one. -/
theorem Cell.Sound.origin {c : Cell} (h : c.Sound known) (hb : plainByte c.byte = false) :
    ∃ m k, c.origin = some (m, k) ∧ known m ∧ m.bytes[k]? = some c.byte := by
  unfold Cell.Sound at h
  split at h
  · exact absurd (hb.symm.trans h) (by simp)
  · exact ⟨_, _, ‹_›, h.1, h.2⟩

theorem Cell.Follows.inside {a b : Cell} {k : Nat} (h : a.Follows b) (ha : a.origin = some (m, k))
    (hk : k < 7) : b.origin = some (m, k + 1) := by
  simpa only [Cell.Follows, ha, if_pos hk] using h

theorem Cell.Follows.behind {a b : Cell} (h : a.Follows b) (ha : a.origin = some (m, 7)) :
    b.Starts := by
  rwa [Cell.Follows, ha] at h

/-- The bytes `FF C0 C1 FF` of a stream, in front of a byte below `C0`, are the
start of a block: there is no other place in a block, or across two blocks,
where they could stand. -/
theorem Stream.block_start {c0 c1 c2 c3 c4 : Cell} {rest : Text}
    (h : Stream known (c0 :: c1 :: c2 :: c3 :: c4 :: rest))
    (hlow : ∀ m, known m → m.idx < indexLimit)
    (h0 : c0.byte = 0xFF) (h1 : c1.byte = 0xC0) (h2 : c2.byte = 0xC1) (h3 : c3.byte = 0xFF)
    (h4 : c4.byte ≠ 0xC0) : ∃ m, known m ∧ c0.origin = some (m, 0) := by
  have hchain := h.chain
  simp only [List.isChain_cons_cons] at hchain
  obtain ⟨f01, f12, f23, f34, _⟩ := hchain
  obtain ⟨m, k, hk, hm, hbyte⟩ := (h.sound c0 (by simp)).origin (by simp [plainByte, h0])
  have htop := topByte_ne (hlow m hm)
  have hbytes : ∀ c ∈ [c1, c2, c3, c4], ∀ j, c.origin = some (m, j) → m.bytes[j]? = some c.byte := by
    intro c hc j hj
    have := h.sound c (by simp only [List.mem_cons] at hc ⊢; tauto)
    rw [Cell.Sound, hj] at this
    exact this.2
  have hlt : k < 8 := by
    have := (List.getElem?_eq_some_iff.mp hbyte).1
    simpa [Marker.bytes] using this
  rw [h0] at hbyte
  -- a cell that opens a block has the byte `FF`
  have hopen : ∀ c ∈ [c1, c2, c3, c4], c.Starts → plainByte c.byte = false →
      c.byte = 0xFF ∧ ∃ m', known m' ∧ c.origin = some (m', 0) := by
    intro c hc hstarts hplain
    have hsound := h.sound c (by simp only [List.mem_cons] at hc ⊢; tauto)
    obtain ⟨m', k', hk', hm', hbyte'⟩ := hsound.origin hplain
    obtain rfl := hstarts m' k' hk'
    exact ⟨by simpa [Marker.bytes] using hbyte'.symm, m', hm', hk'⟩
  interval_cases k
  · exact ⟨m, hm, hk⟩
  · exact absurd hbyte (by simp [Marker.bytes])
  · exact absurd hbyte (by simp [Marker.bytes])
  · have hb := hbytes c1 (by simp) 4 (f01.inside hk (by decide))
    rw [h1] at hb
    exact absurd hb (by simpa [Marker.bytes] using htop.2)
  · exact absurd hbyte (by simpa [Marker.bytes] using htop.1)
  · have h7 := f12.inside (f01.inside hk (by decide)) (by decide)
    obtain ⟨_, m', _, hm'⟩ := hopen c3 (by simp) (f23.behind h7) (by simp [plainByte, h3])
    have h1' := f34.inside hm' (by decide)
    have hsound := h.sound c4 (by simp)
    rw [Cell.Sound, h1'] at hsound
    exact absurd (by simpa [Marker.bytes] using hsound.2.symm) h4
  · have h7 := f01.inside hk (by decide)
    have := (hopen c2 (by simp) (f12.behind h7) (by simp [plainByte, h2])).1
    rw [h2] at this
    exact absurd this (by decide)
  · have := (hopen c1 (by simp) (f01.behind hk) (by simp [plainByte, h1])).1
    rw [h1] at this
    exact absurd this (by decide)

/-- A stream that starts a block and is as long as one is the block. -/
theorem Stream.eq_cells (h : Stream known t) (hlen : t.length = 8)
    (h0 : ∀ c ∈ t.head?, c.origin = some (m, 0)) : t = m.cells := by
  have horigin : ∀ i (hi : i < t.length), (t[i]).origin = some (m, i) := by
    intro i
    induction i with
    | zero =>
      intro hi
      exact h0 _ (by rw [List.head?_eq_getElem?]; simp [hi])
    | succ i ih =>
      intro hi
      have hf := List.isChain_iff_getElem.mp h.chain i hi
      exact Cell.Follows.inside hf (ih (by omega)) (by omega)
  refine List.ext_getElem (by simp [hlen, Marker.cells, Marker.bytes]) ?_
  intro i hi hi'
  have hs := h.sound t[i] (List.getElem_mem hi)
  generalize t[i] = c, horigin i hi = horig at hs ⊢
  rw [Cell.Sound, horig] at hs
  obtain ⟨_, hbyte⟩ := List.getElem?_eq_some_iff.mp hs.2
  cases c
  simp only at horig hbyte
  simp [Marker.cells, horig, ← hbyte]

/-- **A search finds the block of its marker.** -/
theorem Stream.find {l : Marker} {pos : Nat} (h : Stream known t)
    (hlow : ∀ m, known m → m.idx < indexLimit) (hl : l.idx < indexLimit)
    (hpos : index t l.bytes = some pos) :
    ∃ m, known m ∧ m.idx = l.idx ∧ t = t.take pos ++ m.cells ++ t.drop (pos + l.bytes.length) := by
  obtain ⟨occ, ht, hocc⟩ := index_eq_some hpos
  have hstream : Stream known occ := h.within ⟨_, _, ht.symm⟩
  have hlen : occ.length = 8 := by simpa [Marker.bytes] using congrArg List.length hocc
  obtain ⟨c0, c1, c2, c3, c4, rest, rfl⟩ : ∃ c0 c1 c2 c3 c4 rest,
      occ = c0 :: c1 :: c2 :: c3 :: c4 :: rest := by
    rcases occ with _ | ⟨c0, _ | ⟨c1, _ | ⟨c2, _ | ⟨c3, _ | ⟨c4, rest⟩⟩⟩⟩⟩
    iterate 5 exact absurd hlen (by simp)
    exact ⟨c0, c1, c2, c3, c4, rest, rfl⟩
  simp only [Marker.bytes, List.map_cons, List.cons.injEq] at hocc
  obtain ⟨h0, h1, h2, h3, h4, _⟩ := id hocc
  obtain ⟨m, hm, horigin⟩ := hstream.block_start hlow h0 h1 h2 h3 (h4 ▸ (topByte_ne hl).2)
  have hcells := hstream.eq_cells hlen (m := m) (by simpa using horigin)
  refine ⟨m, hm, ?_, hcells ▸ ht⟩
  refine Marker.idx_of_bytes (hlow m hm) hl ?_
  have hmap : m.cells.map Cell.byte = m.bytes := by
    simp [Marker.cells, Marker.bytes]
  rw [← hmap, ← hcells]
  simpa [Marker.bytes] using hocc

end Tsshd.Input

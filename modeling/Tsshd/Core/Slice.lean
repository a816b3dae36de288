import Mathlib.Data.List.Basic

/-!
# Slices over a heap of arrays

Slices that share memory: an array, an offset, a length and a capacity. Two slices
of one array see each other's writes, slices of different arrays never do.

* **reading and writing** — `read_write` says what a slice holds behind a write to
  its place, `read_write_apart` that every other place stays;
* **allocation** — `keeps_alloc`: a new array disturbs no slice there is;
* **appending** — `append` extends a slice in its own array where its capacity
  allows it and moves to a new array otherwise. `read_append` says what both cases
  have in common, `read_append_apart` and `keeps_append_nil` which slices stay.
-/

namespace Tsshd

variable {α : Type}

/-- The arrays that were allocated. -/
abbrev Heap (α : Type) := List (List α)

structure Slice where
  arr : Nat := 0
  off : Nat := 0
  len : Nat := 0
  cap : Nat := 0
deriving DecidableEq, Repr

namespace Slice

/-- The slice expressions `s[:n]` and `s[n:]`. -/
def upTo (s : Slice) (n : Nat) : Slice := { s with len := n }

def behind (s : Slice) (n : Nat) : Slice :=
  { s with off := s.off + n, len := s.len - n, cap := s.cap - n }

end Slice

/-- Put `data` over the places of a list from `off` on. -/
def overwrite (l : List α) (off : Nat) (data : List α) : List α :=
  l.take off ++ data ++ l.drop (off + data.length)

namespace Heap

def array (h : Heap α) (i : Nat) : List α := h[i]?.getD []

def read (h : Heap α) (s : Slice) : List α := ((h.array s.arr).drop s.off).take s.len

/-- Write from the first place of the slice on. -/
def write (h : Heap α) (s : Slice) (data : List α) : Heap α :=
  h.modify s.arr fun l => overwrite l s.off data

def alloc (h : Heap α) (data : List α) : Slice × Heap α :=
  ({ arr := h.length, len := data.length, cap := data.length }, h ++ [data])

/-- `copy(dst, src)`. -/
def copy (h : Heap α) (dst src : Slice) : Heap α := h.write dst ((h.read src).take dst.len)

/-- `append(s, data...)`: in place where the capacity allows it. -/
def append (h : Heap α) (s : Slice) (data : List α) : Slice × Heap α :=
  if s.len + data.length ≤ s.cap then
    (s.upTo (s.len + data.length), h.write (s.behind s.len) data)
  else h.alloc (h.read s ++ data)

end Heap

/-- The slice lies in its array. -/
structure Slice.Valid (h : Heap α) (s : Slice) : Prop where
  len_le : s.len ≤ s.cap
  cap_le : s.off + s.cap ≤ (h.array s.arr).length

/-- Every slice is where it was, with what it held. -/
def Heap.Keeps (h h' : Heap α) : Prop := ∀ s : Slice, s.Valid h → s.Valid h' ∧ h'.read s = h.read s

variable {h : Heap α} {s t : Slice} {data : List α} {n : Nat}

theorem Heap.Keeps.refl (h : Heap α) : h.Keeps h := fun _ hs => ⟨hs, rfl⟩

theorem Heap.Keeps.trans {h' h'' : Heap α} (hk : h.Keeps h') (hk' : h'.Keeps h'') : h.Keeps h'' := by
  intro s hs
  obtain ⟨hs', hread⟩ := hk s hs
  obtain ⟨hs'', hread'⟩ := hk' s hs'
  exact ⟨hs'', hread'.trans hread⟩

theorem length_overwrite {l : List α} {off : Nat} (hin : off + data.length ≤ l.length) :
    (overwrite l off data).length = l.length := by
  simp only [overwrite, List.length_append, List.length_take, List.length_drop]
  omega

theorem overwrite_nil (l : List α) (off : Nat) : overwrite l off [] = l := by
  simp [overwrite]

/-- What stands at a place of the list behind the write. -/
theorem getElem?_overwrite {l : List α} {off : Nat} (hin : off + data.length ≤ l.length) (i : Nat) :
    (overwrite l off data)[i]? =
      if off ≤ i ∧ i < off + data.length then data[i - off]? else l[i]? := by
  have htake : (l.take off).length = off := by
    rw [List.length_take]
    omega
  unfold overwrite
  by_cases hlt : i < off
  · rw [if_neg (by omega), List.append_assoc, List.getElem?_append_left (by omega),
      List.getElem?_take_of_lt hlt]
  · by_cases hmid : i < off + data.length
    · rw [if_pos ⟨by omega, hmid⟩, List.getElem?_append_left
        (by rw [List.length_append, htake]; omega), List.getElem?_append_right (by omega), htake]
    · rw [if_neg (by omega), List.getElem?_append_right
        (by rw [List.length_append, htake]; omega), List.getElem?_drop]
      congr 1
      rw [List.length_append, htake]
      omega

namespace Heap

/-- The places of a slice, one by one. -/
theorem getElem?_read (h : Heap α) (s : Slice) (i : Nat) :
    (h.read s)[i]? = if i < s.len then (h.array s.arr)[s.off + i]? else none := by
  unfold read
  rw [List.getElem?_take, List.getElem?_drop]

theorem length_read (hs : s.Valid h) : (h.read s).length = s.len := by
  have := hs.cap_le
  have := hs.len_le
  simp only [read, List.length_take, List.length_drop]
  omega

theorem array_write_same (hs : s.Valid h) (hdata : data.length ≤ s.cap) :
    (h.write s data).array s.arr = overwrite (h.array s.arr) s.off data := by
  unfold write array
  rw [List.getElem?_modify_eq]
  cases hget : h[s.arr]? with
  | some l => rfl
  | none =>
    -- an array that does not exist has no places to write to
    have hcap := hs.cap_le
    simp only [array, hget, Option.getD_none, List.length_nil] at hcap
    have hnil : data = [] := List.length_eq_zero_iff.mp (by omega)
    simp [hnil, overwrite]

theorem array_write_other (h : Heap α) {i : Nat} (hi : s.arr ≠ i) (data : List α) :
    (h.write s data).array i = h.array i := by
  unfold write array
  rw [List.getElem?_modify_ne _ _ hi]

theorem length_array_write (hs : s.Valid h) (hdata : data.length ≤ s.cap) (i : Nat) :
    ((h.write s data).array i).length = (h.array i).length := by
  by_cases hi : s.arr = i
  · subst hi
    have := hs.cap_le
    rw [array_write_same hs hdata, length_overwrite (by omega)]
  · rw [array_write_other h hi]

end Heap

theorem Slice.Valid.write (ht : t.Valid h) (hs : s.Valid h) (hdata : data.length ≤ s.cap) :
    t.Valid (h.write s data) := by
  refine ⟨ht.len_le, ?_⟩
  rw [Heap.length_array_write hs hdata]
  exact ht.cap_le

namespace Heap

theorem write_nil (h : Heap α) (s : Slice) : h.write s [] = h := by
  unfold write
  simp only [overwrite_nil]
  exact List.modify_id _ _

/-- What was written is read. -/
theorem read_write (hs : s.Valid h) (hdata : data.length ≤ s.cap) :
    (h.write s data).read (s.upTo data.length) = data := by
  have := hs.cap_le
  refine List.ext_getElem? fun i => ?_
  rw [getElem?_read]
  show (if i < data.length then ((h.write s data).array s.arr)[s.off + i]? else none) = data[i]?
  rw [array_write_same hs hdata, getElem?_overwrite (by omega)]
  by_cases hi : i < data.length
  · rw [if_pos hi, if_pos (by omega), Nat.add_sub_cancel_left]
  · rw [if_neg hi, List.getElem?_eq_none (by omega)]

/-- A slice of another array, or in front of the written places. -/
theorem read_write_apart (hs : s.Valid h) (hdata : data.length ≤ s.cap)
    (hapart : s.arr ≠ t.arr ∨ t.off + t.len ≤ s.off) :
    (h.write s data).read t = h.read t := by
  have := hs.cap_le
  rcases Decidable.em (s.arr = t.arr) with hsame | hother
  · refine List.ext_getElem? fun i => ?_
    rw [getElem?_read, getElem?_read]
    by_cases hi : i < t.len
    · have hfront : t.off + t.len ≤ s.off := hapart.resolve_left fun h => h hsame
      rw [if_pos hi, if_pos hi, ← hsame, array_write_same hs hdata, getElem?_overwrite (by omega),
        if_neg (by omega)]
    · rw [if_neg hi, if_neg hi]
  · unfold read
    rw [array_write_other h hother]

/-- A slice is its front and what is behind it. -/
theorem read_upTo_behind (h : Heap α) (hn : n ≤ s.len) :
    h.read (s.upTo n) ++ h.read (s.behind n) = h.read s := by
  show ((h.array s.arr).drop s.off).take n ++ ((h.array s.arr).drop (s.off + n)).take (s.len - n) =
    ((h.array s.arr).drop s.off).take s.len
  rw [← List.drop_drop, ← List.take_add, Nat.add_sub_cancel' hn]

end Heap

namespace Slice.Valid

theorem upTo (hs : s.Valid h) (hn : n ≤ s.cap) : (s.upTo n).Valid h := ⟨hn, hs.cap_le⟩

theorem behind (hs : s.Valid h) (hn : n ≤ s.len) : (s.behind n).Valid h := by
  obtain ⟨hlen, hcap⟩ := hs
  refine ⟨?_, ?_⟩
  · show s.len - n ≤ s.cap - n
    omega
  · show s.off + n + (s.cap - n) ≤ (h.array s.arr).length
    omega

/-- The nil slice. -/
theorem nil (h : Heap α) : ({} : Slice).Valid h := ⟨Nat.le_refl 0, Nat.zero_le _⟩

end Slice.Valid

namespace Heap

/-- A new array has no slice of the heap in it, but for empty ones. -/
theorem keeps_alloc (h : Heap α) (data : List α) : h.Keeps (h.alloc data).2 := by
  intro s hs
  by_cases hlt : s.arr < h.length
  · have harray : (h.alloc data).2.array s.arr = h.array s.arr := by
      show ((h ++ [data])[s.arr]?).getD [] = h[s.arr]?.getD []
      rw [List.getElem?_append_left hlt]
    refine ⟨⟨hs.len_le, harray ▸ hs.cap_le⟩, ?_⟩
    unfold Heap.read
    rw [harray]
  · have hnone : h.array s.arr = [] := by
      unfold Heap.array
      rw [List.getElem?_eq_none (by omega)]
      rfl
    have hcap := hs.cap_le
    have hlen := hs.len_le
    rw [hnone, List.length_nil] at hcap
    have hzero : s.len = 0 := by omega
    refine ⟨⟨hlen, by omega⟩, ?_⟩
    simp [Heap.read, hzero]

/-- A slice there was does not reach into the new array. -/
theorem alloc_apart (ht : t.Valid h) (data : List α) :
    (h.alloc data).1.arr ≠ t.arr ∨ t.off + t.len ≤ (h.alloc data).1.off := by
  by_cases hlt : t.arr < h.length
  · exact .inl (Nat.ne_of_gt hlt)
  · have hnone : h.array t.arr = [] := by
      unfold array
      rw [List.getElem?_eq_none (by omega)]
      rfl
    have hcap := ht.cap_le
    have hlen := ht.len_le
    rw [hnone, List.length_nil] at hcap
    refine .inr ?_
    show t.off + t.len ≤ 0
    omega

theorem read_alloc (h : Heap α) (data : List α) :
    (h.alloc data).1.Valid (h.alloc data).2 ∧ (h.alloc data).2.read (h.alloc data).1 = data := by
  have harray : (h.alloc data).2.array h.length = data := by
    show ((h ++ [data])[h.length]?).getD [] = data
    rw [List.getElem?_concat_length]
    rfl
  refine ⟨⟨Nat.le_refl _, ?_⟩, ?_⟩
  · show 0 + data.length ≤ ((h.alloc data).2.array h.length).length
    rw [harray]
    exact Nat.le_of_eq (Nat.zero_add _)
  · show (((h.alloc data).2.array h.length).drop 0).take data.length = data
    rw [harray, List.drop_zero, List.take_length]

/-- There is room for the whole source. -/
theorem copy_eq_write (hs : s.Valid h) (hle : s.len ≤ t.len) :
    h.copy t s = h.write t (h.read s) := by
  unfold copy
  rw [List.take_of_length_le (by rw [length_read hs]; exact hle)]

/-- A slice is copied to the front of a new array. -/
theorem copy_alloc (ht : t.Valid h) {data : List α} (hroom : t.len ≤ data.length) :
    h.Keeps ((h.alloc data).2.copy ((h.alloc data).1.upTo t.len) t) ∧
      ((h.alloc data).1.upTo t.len).Valid ((h.alloc data).2.copy ((h.alloc data).1.upTo t.len) t) ∧
      ((h.alloc data).2.copy ((h.alloc data).1.upTo t.len) t).read ((h.alloc data).1.upTo t.len) =
        h.read t := by
  have hlen := length_read ht
  obtain ⟨ht', hsame⟩ := keeps_alloc h data t ht
  have hdst : ((h.alloc data).1.upTo t.len).Valid (h.alloc data).2 :=
    (h.read_alloc data).1.upTo hroom
  have hfits : (h.read t).length ≤ ((h.alloc data).1.upTo t.len).cap :=
    Nat.le_trans (Nat.le_of_eq hlen) hroom
  have hle : t.len ≤ ((h.alloc data).1.upTo t.len).len := Nat.le_refl t.len
  rw [copy_eq_write ht' hle, hsame]
  refine ⟨?_, hdst.write hdst hfits, ?_⟩
  · intro s hs
    obtain ⟨hs', hread⟩ := keeps_alloc h data s hs
    refine ⟨hs'.write hdst hfits, ?_⟩
    rw [read_write_apart hdst hfits (alloc_apart hs data)]
    exact hread
  · have hwritten := read_write hdst hfits
    rw [hlen] at hwritten
    exact hwritten

/-- Where `append` writes when there is room. -/
theorem append_fits (hs : s.Valid h) {data : List α} (hroom : s.len + data.length ≤ s.cap) :
    (s.behind s.len).Valid h ∧ data.length ≤ (s.behind s.len).cap := by
  refine ⟨hs.behind (Nat.le_refl _), ?_⟩
  show data.length ≤ s.cap - s.len
  omega

/-- What the result of `append` holds, wherever it lies. -/
theorem read_append (hs : s.Valid h) (data : List α) :
    (h.append s data).1.Valid (h.append s data).2 ∧
      (h.append s data).1.len = s.len + data.length ∧
      (h.append s data).2.read (h.append s data).1 = h.read s ++ data := by
  unfold append
  split
  case isTrue hroom =>
    obtain ⟨htail, hfits⟩ := append_fits hs hroom
    refine ⟨(hs.upTo hroom).write htail hfits, rfl, ?_⟩
    rw [← read_upTo_behind (s := s.upTo (s.len + data.length)) _ (Nat.le_add_right _ _)]
    congr 1
    · exact read_write_apart htail hfits (.inr (Nat.le_refl _))
    · have hslice : (s.upTo (s.len + data.length)).behind s.len =
          (s.behind s.len).upTo data.length := by
        simp [Slice.upTo, Slice.behind]
      rw [hslice]
      exact read_write htail hfits
  case isFalse =>
    obtain ⟨hvalid, hread⟩ := h.read_alloc (h.read s ++ data)
    refine ⟨hvalid, ?_, hread⟩
    show (h.read s ++ data).length = s.len + data.length
    rw [List.length_append, length_read hs]

/-- What lies elsewhere, or in front of the end of the slice, stays. -/
theorem read_append_apart (hs : s.Valid h) (data : List α) (ht : t.Valid h)
    (hapart : s.arr ≠ t.arr ∨ t.off + t.len ≤ s.off + s.len) :
    t.Valid (h.append s data).2 ∧ (h.append s data).2.read t = h.read t := by
  unfold append
  split
  case isTrue hroom =>
    obtain ⟨htail, hfits⟩ := append_fits hs hroom
    exact ⟨ht.write htail hfits, read_write_apart htail hfits hapart⟩
  case isFalse => exact keeps_alloc h _ t ht

/-- Nothing is appended in place to the nil slice. -/
theorem keeps_append_nil (h : Heap α) (data : List α) : h.Keeps (h.append {} data).2 := by
  unfold append
  split
  case isTrue hroom =>
    have hnil : data = [] := by
      refine List.length_eq_zero_iff.mp ?_
      simpa using hroom
    rw [hnil, write_nil]
    exact .refl h
  case isFalse => exact keeps_alloc h _

end Heap

end Tsshd

import Mathlib.Data.List.Basic

/-!
# Cutting and erasing in lists

Two scans of a list from the left, over any element type:

* `cutAfter p l` splits `l` behind its first element that meets `p` — what a
  search for a delimiter byte followed by two slices does;
* `eraseAll key pat l` removes the non-overlapping occurrences of `pat`, found
  from left to right through the projection `key`; cut in pieces, a list loses
  the same elements unless an occurrence lies across a seam (`Straddles`), and
  then it loses fewer (`eraseAll_append_lt`).

`OnlyAtEnd p l` says that `p` holds nowhere in `l` except possibly at its last
element: the shape `cutAfter` gives its first half, stable under sublists.
-/

namespace Tsshd

variable {α β : Type}

/-- Split behind the first element that meets `p`. -/
def cutAfter (p : α → Bool) : List α → Option (List α × List α)
  | [] => none
  | x :: xs =>
    if p x then some ([x], xs)
    else (cutAfter p xs).map fun (a, b) => (x :: a, b)

/-- Nothing before the last element meets `p`. -/
def OnlyAtEnd (p : α → Bool) (l : List α) : Prop := ∀ x ∈ l.dropLast, p x = false

theorem cutAfter_eq_none {p : α → Bool} {l : List α} :
    cutAfter p l = none ↔ ∀ x ∈ l, p x = false := by
  induction l with
  | nil => simp [cutAfter]
  | cons x xs ih =>
    by_cases hx : p x = true
    · simp [cutAfter, hx]
    · simp [cutAfter, hx, ih]

/-- The halves put together give the list back; the first half is non-empty,
ends with an element that meets `p` and has no other. -/
theorem cutAfter_eq_some {p : α → Bool} {l a b : List α} (h : cutAfter p l = some (a, b)) :
    l = a ++ b ∧ ∃ init x, a = init ++ [x] ∧ p x = true ∧ ∀ y ∈ init, p y = false := by
  induction l generalizing a with
  | nil => simp [cutAfter] at h
  | cons x xs ih =>
    by_cases hx : p x = true
    · simp only [cutAfter, hx, if_true, Option.some.injEq, Prod.mk.injEq] at h
      obtain ⟨rfl, rfl⟩ := h
      exact ⟨rfl, [], x, rfl, hx, by simp⟩
    · simp only [cutAfter, hx, Bool.false_eq_true, if_false, Option.map_eq_some_iff,
        Prod.mk.injEq, Prod.exists] at h
      obtain ⟨a', b', hcut, rfl, rfl⟩ := h
      obtain ⟨hl, init, y, ha, hy, hinit⟩ := ih hcut
      refine ⟨by rw [hl]; rfl, x :: init, y, by rw [ha]; rfl, hy, ?_⟩
      intro z hz
      rcases List.mem_cons.mp hz with rfl | hz
      · simpa using hx
      · exact hinit z hz

theorem cutAfter_append {p : α → Bool} {l a b : List α} (h : cutAfter p l = some (a, b)) :
    a ++ b = l := (cutAfter_eq_some h).1.symm

theorem cutAfter_ne_nil {p : α → Bool} {l a b : List α} (h : cutAfter p l = some (a, b)) :
    a ≠ [] := by
  obtain ⟨_, init, x, ha, _⟩ := cutAfter_eq_some h
  simp [ha]

theorem cutAfter_onlyAtEnd {p : α → Bool} {l a b : List α} (h : cutAfter p l = some (a, b)) :
    OnlyAtEnd p a := by
  obtain ⟨_, init, x, ha, _, hinit⟩ := cutAfter_eq_some h
  intro y hy
  rw [ha, List.dropLast_concat] at hy
  exact hinit y hy

/-- The cut of a list with an uncut prefix `c`: the prefix goes to the first
half. -/
theorem cutAfter_of_append {p : α → Bool} {c l : List α} (hc : ∀ x ∈ c, p x = false) :
    cutAfter p (c ++ l) = (cutAfter p l).map fun (a, b) => (c ++ a, b) := by
  induction c with
  | nil => simp
  | cons x xs ih =>
    have hx : p x = false := hc x List.mem_cons_self
    simp only [List.cons_append, cutAfter, hx, Bool.false_eq_true, if_false,
      ih (fun y hy => hc y (List.mem_cons_of_mem _ hy)), Option.map_map]
    cases cutAfter p l <;> rfl

/-! ## `OnlyAtEnd` -/

theorem OnlyAtEnd.of_forall {p : α → Bool} {l : List α} (h : ∀ x ∈ l, p x = false) :
    OnlyAtEnd p l := fun x hx => h x (List.dropLast_subset l hx)

theorem OnlyAtEnd.sublist {p : α → Bool} {l r : List α} (h : OnlyAtEnd p l)
    (hs : r.Sublist l) : OnlyAtEnd p r := by
  intro x hx
  have hd : r.dropLast.Sublist l.dropLast := by
    rw [List.dropLast_eq_take, List.dropLast_eq_take]
    have := hs.reverse.tail
    rw [List.tail_reverse, List.tail_reverse, List.reverse_sublist] at this
    simpa [List.dropLast_eq_take] using this
  exact h x (hd.subset hx)

theorem OnlyAtEnd.append {p : α → Bool} {c l : List α} (hc : ∀ x ∈ c, p x = false)
    (hl : OnlyAtEnd p l) : OnlyAtEnd p (c ++ l) := by
  rcases List.eq_nil_or_concat l with rfl | ⟨init, x, rfl⟩
  · simpa using OnlyAtEnd.of_forall hc
  · intro y hy
    rw [List.concat_eq_append, ← List.append_assoc, List.dropLast_concat] at hy
    rcases List.mem_append.mp hy with hy | hy
    · exact hc y hy
    · refine hl y ?_
      rw [List.concat_eq_append, List.dropLast_concat]
      exact hy

/-- A list with `p` only at its end is either free of `p` or ends with it. -/
theorem OnlyAtEnd.cases {p : α → Bool} {l : List α} (h : OnlyAtEnd p l) :
    (∀ x ∈ l, p x = false) ∨
      ∃ init x, l = init ++ [x] ∧ p x = true ∧ ∀ y ∈ init, p y = false := by
  rcases List.eq_nil_or_concat l with rfl | ⟨init, x, rfl⟩
  · exact .inl (by simp)
  · rw [List.concat_eq_append] at h ⊢
    have hinit : ∀ y ∈ init, p y = false := fun y hy =>
      h y (by rw [List.dropLast_concat]; exact hy)
    cases hx : p x with
    | true => exact .inr ⟨init, x, rfl, hx, hinit⟩
    | false =>
      refine .inl fun y hy => ?_
      rcases List.mem_append.mp hy with hy | hy
      · exact hinit y hy
      · rw [List.mem_singleton.mp hy]; exact hx

/-! ## Erasing a pattern -/

/-- The scan behind `eraseAll`; `skip` counts the elements of the occurrence
just found that are still to be passed over. -/
def eraseFrom [DecidableEq β] (key : α → β) (pat : List β) : Nat → List α → List α
  | _, [] => []
  | skip + 1, _ :: xs => eraseFrom key pat skip xs
  | 0, x :: xs =>
    if pat.isPrefixOf ((x :: xs).map key) then eraseFrom key pat (pat.length - 1) xs
    else x :: eraseFrom key pat 0 xs

/-- Remove the non-overlapping occurrences of `pat`, scanning left to right. -/
def eraseAll [DecidableEq β] (key : α → β) (pat : List β) (l : List α) : List α :=
  eraseFrom key pat 0 l

theorem eraseFrom_sublist [DecidableEq β] (key : α → β) (pat : List β) (skip : Nat)
    (l : List α) : (eraseFrom key pat skip l).Sublist l := by
  induction l generalizing skip with
  | nil => cases skip <;> simp [eraseFrom]
  | cons x xs ih =>
    cases skip with
    | succ n => exact (ih n).cons x
    | zero =>
      simp only [eraseFrom]
      split
      · exact (ih _).cons x
      · exact (ih 0).cons_cons x

theorem eraseAll_sublist [DecidableEq β] (key : α → β) (pat : List β) (l : List α) :
    (eraseAll key pat l).Sublist l := eraseFrom_sublist key pat 0 l

/-- An occurrence of `pat` lies across the seam of `a` and `b`. -/
def Straddles (pat a b : List β) : Prop :=
  ∃ u v, u ≠ [] ∧ v ≠ [] ∧ pat = u ++ v ∧ u <:+ a ∧ v <+: b

theorem Straddles.cons {pat a b : List β} (h : Straddles pat a b) (x : β) :
    Straddles pat (x :: a) b := by
  obtain ⟨u, v, hu, hv, hpat, hsuffix, hfront⟩ := h
  exact ⟨u, v, hu, hv, hpat, hsuffix.trans (List.suffix_cons x a), hfront⟩

/-- A scan stops at a seam without an occurrence across it and starts again
behind it. -/
theorem eraseFrom_append [DecidableEq β] (key : α → β) (pat : List β) {skip : Nat} {a b : List α}
    (hskip : skip ≤ a.length) (hseam : ¬ Straddles pat (a.map key) (b.map key)) :
    eraseFrom key pat skip (a ++ b) = eraseFrom key pat skip a ++ eraseFrom key pat 0 b := by
  induction a generalizing skip with
  | nil =>
    obtain rfl : skip = 0 := Nat.le_zero.mp hskip
    rfl
  | cons x xs ih =>
    have hrest : ¬ Straddles pat (xs.map key) (b.map key) := fun h => hseam (h.cons (key x))
    cases skip with
    | succ skip => exact ih (Nat.le_of_succ_le_succ hskip) hrest
    | zero =>
      have hsame : pat.isPrefixOf ((x :: xs ++ b).map key) =
          pat.isPrefixOf ((x :: xs).map key) := by
        rw [Bool.eq_iff_iff, List.isPrefixOf_iff_prefix, List.isPrefixOf_iff_prefix,
          List.map_append]
        refine ⟨fun h => ?_, fun h => h.trans (List.prefix_append _ _)⟩
        rcases List.prefix_or_prefix_of_prefix h (List.prefix_append _ _) with h' | ⟨v, rfl⟩
        · exact h'
        · rcases List.eq_nil_or_concat v with rfl | hv
          · simp
          · obtain ⟨init, y, rfl⟩ := hv
            refine absurd ⟨_, _, by simp, by simp, rfl, List.suffix_refl _, ?_⟩ hseam
            exact (List.prefix_append_right_inj _).mp h
      rw [List.cons_append, eraseFrom, eraseFrom, ← List.cons_append, hsame]
      split
      · rename_i hfound
        have hlen := (List.isPrefixOf_iff_prefix.mp hfound).length_le
        rw [List.length_map, List.length_cons] at hlen
        exact ih (by omega) hrest
      · rw [ih (Nat.zero_le _) hrest, List.cons_append]

theorem eraseAll_append [DecidableEq β] (key : α → β) (pat : List β) {a b : List α}
    (hseam : ¬ Straddles pat (a.map key) (b.map key)) :
    eraseAll key pat (a ++ b) = eraseAll key pat a ++ eraseAll key pat b :=
  eraseFrom_append key pat (Nat.zero_le _) hseam

/-- Erasing piece by piece sees every occurrence that lies in one piece. -/
theorem eraseAll_flatten [DecidableEq β] (key : α → β) (pat : List β) {pieces : List (List α)}
    (hseams : ∀ front back, pieces = front ++ back → front ≠ [] → back ≠ [] →
      ¬ Straddles pat (front.flatten.map key) (back.flatten.map key)) :
    eraseAll key pat pieces.flatten = pieces.flatMap (eraseAll key pat) := by
  induction pieces with
  | nil => rfl
  | cons piece pieces ih =>
    rw [List.flatten_cons, List.flatMap_cons]
    cases pieces with
    | nil => simp
    | cons next rest =>
      have hfirst := hseams [piece] (next :: rest) rfl (by simp) (by simp)
      rw [List.flatten_singleton] at hfirst
      rw [eraseAll_append key pat hfirst, ih]
      intro front back heq hfront hback hstraddles
      refine hseams (piece :: front) back (by rw [heq]; rfl) (by simp) hback ?_
      obtain ⟨u, v, hu, hv, hpat, hsuffix, hprefix⟩ := hstraddles
      refine ⟨u, v, hu, hv, hpat, hsuffix.trans ?_, hprefix⟩
      rw [List.flatten_cons, List.map_append]
      exact List.suffix_append _ _

/-! ## Counting what is erased

For a pattern whose first element does not come again in it, no two occurrences
overlap, so the scan misses none and the length tells their number. -/

section Occurrences

variable [DecidableEq β]

/-- The number of positions at which `pat` occurs. -/
def occurrences (pat : List β) : List β → Nat
  | [] => 0
  | x :: xs => (if pat <+: x :: xs then 1 else 0) + occurrences pat xs

theorem eraseFrom_length (key : α → β) {x : β} {tail : List β} (hx : x ∉ tail) {skip : Nat}
    {l : List α} (hskip : skip ≤ l.length) (hinside : x ∉ (l.take skip).map key) :
    (eraseFrom key (x :: tail) skip l).length + skip +
      (tail.length + 1) * occurrences (x :: tail) (l.map key) = l.length := by
  induction l generalizing skip with
  | nil =>
    obtain rfl : skip = 0 := Nat.le_zero.mp hskip
    rfl
  | cons y ys ih =>
    cases skip with
    | succ skip =>
      simp only [List.take_succ_cons, List.map_cons, List.mem_cons, not_or] at hinside
      have hhead : ¬ x :: tail <+: key y :: ys.map key := fun h =>
        hinside.1 (List.cons_prefix_cons.mp h).1
      have hrest := ih (Nat.le_of_succ_le_succ hskip) hinside.2
      simp only [eraseFrom, List.map_cons, occurrences, if_neg hhead, List.length_cons,
        Nat.zero_add]
      omega
    | zero =>
      by_cases hfound : x :: tail <+: key y :: ys.map key
      · -- the rest of the occurrence is `tail`, in which none begins
        obtain ⟨-, hafter⟩ := List.cons_prefix_cons.mp hfound
        have hlen := hafter.length_le
        rw [List.length_map] at hlen
        have htake : (ys.take tail.length).map key = tail := by
          rw [List.map_take, ← List.prefix_iff_eq_take.mp hafter]
        have hrest := ih hlen (by rw [htake]; exact hx)
        have hscan : eraseFrom key (x :: tail) 0 (y :: ys) =
            eraseFrom key (x :: tail) tail.length ys := by
          rw [eraseFrom, List.map_cons, if_pos (List.isPrefixOf_iff_prefix.mpr hfound)]
          rfl
        rw [hscan, List.map_cons, occurrences, if_pos hfound, List.length_cons, Nat.mul_add]
        omega
      · have hrest := ih (Nat.zero_le _) (by simp)
        have hscan : eraseFrom key (x :: tail) 0 (y :: ys) =
            y :: eraseFrom key (x :: tail) 0 ys := by
          rw [eraseFrom, List.map_cons, if_neg (fun h => hfound (List.isPrefixOf_iff_prefix.mp h))]
        rw [hscan, List.map_cons, occurrences, if_neg hfound, List.length_cons,
          List.length_cons, Nat.zero_add]
        omega

theorem occurrences_append_le (pat a b : List β) :
    occurrences pat a + occurrences pat b ≤ occurrences pat (a ++ b) := by
  induction a with
  | nil => simp [occurrences]
  | cons x xs ih =>
    rw [List.cons_append, occurrences, occurrences]
    by_cases h : pat <+: x :: xs
    · have hall : pat <+: x :: (xs ++ b) := h.trans (List.prefix_append (x :: xs) b)
      rw [if_pos h, if_pos hall]
      omega
    · rw [if_neg h]
      omega

/-- An occurrence across a seam is in neither part. -/
theorem occurrences_append_lt {pat a b : List β} (h : Straddles pat a b) :
    occurrences pat a + occurrences pat b < occurrences pat (a ++ b) := by
  obtain ⟨u, v, hu, hv, rfl, ⟨w, rfl⟩, hfront⟩ := h
  induction w with
  | nil =>
    obtain ⟨x, u, rfl⟩ := List.exists_cons_of_ne_nil hu
    have hle := occurrences_append_le (x :: u ++ v) u b
    have hacross : x :: u ++ v <+: x :: (u ++ b) :=
      (List.prefix_append_right_inj (x :: u)).mpr hfront
    have hinside : ¬ x :: u ++ v <+: x :: u := by
      intro hle
      have hlen := hle.length_le
      have hpos := List.length_pos_iff.mpr hv
      rw [List.length_append] at hlen
      omega
    show occurrences _ (x :: u) + _ < occurrences _ (x :: (u ++ b))
    rw [occurrences, occurrences, if_pos hacross, if_neg hinside]
    omega
  | cons x w ih =>
    rw [List.cons_append, List.cons_append, occurrences, occurrences]
    by_cases hhead : u ++ v <+: x :: (w ++ u)
    · have hall : u ++ v <+: x :: (w ++ u ++ b) :=
        hhead.trans (List.prefix_append (x :: (w ++ u)) b)
      rw [if_pos hhead, if_pos hall]
      omega
    · rw [if_neg hhead]
      omega

variable (key : α → β) {x : β} {tail : List β}

theorem eraseAll_length (hx : x ∉ tail) (l : List α) :
    (eraseAll key (x :: tail) l).length +
      (tail.length + 1) * occurrences (x :: tail) (l.map key) = l.length := by
  have hscan := eraseFrom_length key hx (Nat.zero_le l.length) (by simp)
  rw [eraseAll]
  omega

/-- Cut in two, a list keeps more if an occurrence lies across the seam. -/
theorem eraseAll_append_lt (hx : x ∉ tail) {a b : List α}
    (h : Straddles (x :: tail) (a.map key) (b.map key)) :
    (eraseAll key (x :: tail) (a ++ b)).length <
      (eraseAll key (x :: tail) a).length + (eraseAll key (x :: tail) b).length := by
  have hall := eraseAll_length key hx (a ++ b)
  have ha := eraseAll_length key hx a
  have hb := eraseAll_length key hx b
  have hmore := Nat.mul_le_mul_left (tail.length + 1) (occurrences_append_lt h)
  rw [Nat.mul_succ, Nat.mul_add] at hmore
  rw [List.map_append, List.length_append] at hall
  omega

/-- Cut in pieces, a list keeps at least as much. -/
theorem eraseAll_flatten_length (hx : x ∉ tail) (pieces : List (List α)) :
    (eraseAll key (x :: tail) pieces.flatten).length ≤
      (pieces.flatMap (eraseAll key (x :: tail))).length := by
  induction pieces with
  | nil => exact Nat.le_refl _
  | cons piece pieces ih =>
    have hall := eraseAll_length key hx (piece ++ pieces.flatten)
    have hpiece := eraseAll_length key hx piece
    have hrest := eraseAll_length key hx pieces.flatten
    have hmore := Nat.mul_le_mul_left (tail.length + 1)
      (occurrences_append_le (x :: tail) (piece.map key) (pieces.flatten.map key))
    rw [Nat.mul_add] at hmore
    rw [List.map_append, List.length_append] at hall
    rw [List.flatten_cons, List.flatMap_cons, List.length_append]
    omega

end Occurrences

end Tsshd

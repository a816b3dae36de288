import Mathlib.Data.List.Infix
import Mathlib.Data.Nat.Find

/-!
# Searching in a stream

`subIndex` is the index of the first occurrence of a pattern. A stream that is
searched while it comes in need not be kept: what was searched without success
matters only by its last `pat.length - 1` elements (`subIndex_append_of_none`).
-/

namespace Tsshd

variable {α : Type*} {pat l : List α} {k : Nat}

/-- An occurrence that ends within a front part is one in the front part. -/
theorem occurrence_left {r a b : List α} (heq : l ++ r = a ++ pat ++ b)
    (hlen : a.length + pat.length ≤ l.length) : ∃ b', l = a ++ pat ++ b' := by
  have hfront : a ++ pat <+: l := by
    refine List.prefix_of_prefix_length_le (heq ▸ List.prefix_append _ _) (List.prefix_append l r) ?_
    rw [List.length_append]
    exact hlen
  obtain ⟨b', hb'⟩ := hfront
  exact ⟨b', hb'.symm⟩

variable [DecidableEq α]

/-- The index of the first occurrence of `pat`. -/
def subIndex (pat l : List α) : Option Nat := (l.dropInfix? pat).map (·.1.length)

theorem subIndex_eq_some :
    subIndex pat l = some k ↔
      (∃ a b, l = a ++ pat ++ b ∧ a.length = k) ∧ ∀ a b, l = a ++ pat ++ b → k ≤ a.length := by
  constructor
  · intro h
    obtain ⟨⟨a, b⟩, hdrop, rfl⟩ := Option.map_eq_some_iff.mp h
    obtain ⟨⟨pat', heq, hpat⟩, hmin⟩ := List.dropInfix?_eq_some_iff.mp hdrop
    obtain rfl : pat' = pat := by simpa using hpat
    exact ⟨⟨a, b, heq, rfl⟩, fun a' b' heq' => hmin a' pat' b' heq' (by simp)⟩
  · rintro ⟨⟨a, b, heq, rfl⟩, hmin⟩
    refine Option.map_eq_some_iff.mpr ⟨(a, b), List.dropInfix?_eq_some_iff.mpr ⟨?_, ?_⟩, rfl⟩
    · exact ⟨pat, heq, by simp⟩
    · intro a' pat' b' heq' hpat
      obtain rfl : pat' = pat := by simpa using hpat
      exact hmin a' b' heq'

/-- An occurrence has a first one. -/
theorem subIndex_ne_none {a b : List α} (h : l = a ++ pat ++ b) : subIndex pat l ≠ none := by
  classical
  have hex : ∃ n, ∃ a b, l = a ++ pat ++ b ∧ a.length = n := ⟨a.length, a, b, h, rfl⟩
  have hfirst : subIndex pat l = some (Nat.find hex) := by
    refine subIndex_eq_some.mpr ⟨Nat.find_spec hex, ?_⟩
    intro a' b' heq
    exact Nat.find_min' hex ⟨a', b', heq, rfl⟩
  rw [hfirst]
  exact Option.some_ne_none _

theorem subIndex_eq_none : subIndex pat l = none ↔ ∀ a b, l ≠ a ++ pat ++ b := by
  constructor
  · intro h a b heq
    exact subIndex_ne_none heq h
  · intro h
    cases hfound : subIndex pat l with
    | none => rfl
    | some k =>
      obtain ⟨⟨a, b, heq, -⟩, -⟩ := subIndex_eq_some.mp hfound
      exact absurd heq (h a b)

/-- What comes later does not move an occurrence. -/
theorem subIndex_append (h : subIndex pat l = some k) (r : List α) :
    subIndex pat (l ++ r) = some k := by
  obtain ⟨⟨a, b, rfl, rfl⟩, hmin⟩ := subIndex_eq_some.mp h
  refine subIndex_eq_some.mpr ⟨⟨a, b ++ r, by simp, rfl⟩, ?_⟩
  intro a' b' heq
  by_contra hlt
  obtain ⟨b'', hleft⟩ := occurrence_left heq (by simp only [List.length_append]; omega)
  exact hlt (hmin a' b'' hleft)

/-- Without an occurrence in `d ++ c`, and with `c` all that a pattern can reach
back from behind it, every occurrence starts behind `d`. -/
theorem occurrence_right {d c r a b : List α} (hnone : subIndex pat (d ++ c) = none)
    (hlen : d = [] ∨ pat.length ≤ c.length + 1) (heq : d ++ c ++ r = a ++ pat ++ b) :
    ∃ a', a = d ++ a' ∧ c ++ r = a' ++ pat ++ b := by
  have hstart : d.length ≤ a.length := by
    by_contra hlt
    rcases hlen with rfl | hlen
    · exact hlt (Nat.zero_le _)
    · obtain ⟨b', hleft⟩ := occurrence_left heq (by simp only [List.length_append]; omega)
      exact subIndex_eq_none.mp hnone a b' hleft
  have hfront : d <+: a := by
    have ha : a <+: d ++ (c ++ r) := by
      rw [← List.append_assoc, heq, List.append_assoc]
      exact List.prefix_append _ _
    exact List.prefix_of_prefix_length_le (List.prefix_append d (c ++ r)) ha hstart
  obtain ⟨a', rfl⟩ := hfront
  refine ⟨a', rfl, ?_⟩
  rw [List.append_assoc, List.append_assoc, List.append_assoc] at heq
  rw [List.append_assoc]
  exact List.append_cancel_left heq

/-- The search can go on in `c`. -/
theorem subIndex_append_of_none {d c : List α} (hnone : subIndex pat (d ++ c) = none)
    (hlen : d = [] ∨ pat.length ≤ c.length + 1) (r : List α) :
    subIndex pat (d ++ c ++ r) = (subIndex pat (c ++ r)).map (d.length + ·) := by
  cases hfound : subIndex pat (c ++ r) with
  | none =>
    refine subIndex_eq_none.mpr fun a b heq => ?_
    obtain ⟨a', -, hright⟩ := occurrence_right hnone hlen heq
    exact subIndex_eq_none.mp hfound a' b hright
  | some k =>
    obtain ⟨⟨a, b, heq, rfl⟩, hmin⟩ := subIndex_eq_some.mp hfound
    refine subIndex_eq_some.mpr ⟨⟨d ++ a, b, ?_, List.length_append⟩, ?_⟩
    · rw [List.append_assoc, heq]
      simp
    · intro a' b' heq'
      obtain ⟨a'', rfl, hright⟩ := occurrence_right hnone hlen heq'
      rw [List.length_append]
      exact Nat.add_le_add_left (hmin a'' b' hright) _

end Tsshd

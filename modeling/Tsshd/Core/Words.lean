import Mathlib.Data.List.Basic
import Mathlib.Data.List.DropRight

/-!
# Words of a text

Texts are lists over any alphabet; a predicate says which letters are blank.

* **words** — `fields` cuts a text at its blanks; `Spaced ws text` is the other
  direction, every way to write the words `ws` apart from each other, and
  `spaced_iff` says that cutting undoes writing and nothing else;
* **tight separators** — `tighten` takes the blanks around every separator away,
  as a replacement of `blank* sep blank*` by `sep` does from left to right, and
  leaves the other blanks alone (`tightenFrom_word`, `tightenFrom_sep`, ...);
* **ends** — `rdropWhile` takes the blanks at the end away, down to the last letter
  that is not blank (`rdropWhile_gap`, `rdropWhile_word`).
-/

namespace Tsshd

variable {α : Type}

/-! ## Cutting at blanks -/

/-- The scan behind `fields`, with the letters of the word it is in. -/
def fieldsFrom (blank : α → Bool) (word : List α) : List α → List (List α)
  | [] => if word.isEmpty then [] else [word]
  | x :: xs =>
    if blank x then
      if word.isEmpty then fieldsFrom blank [] xs else word :: fieldsFrom blank [] xs
    else fieldsFrom blank (word ++ [x]) xs

/-- The maximal runs of letters that are not blank. -/
def fields (blank : α → Bool) (text : List α) : List (List α) := fieldsFrom blank [] text

/-- The text begins with a blank, or is over. -/
def Apart (blank : α → Bool) (text : List α) : Prop := ∀ x ∈ text.head?, blank x = true

/-- `text` is the words `ws`, with blanks between them and perhaps around
them. -/
inductive Spaced (blank : α → Bool) : List (List α) → List α → Prop
  | nil : Spaced blank [] []
  | gap {ws text x} : blank x = true → Spaced blank ws text → Spaced blank ws (x :: text)
  | word {w ws text} : w ≠ [] → (∀ x ∈ w, blank x = false) → Apart blank text →
      Spaced blank ws text → Spaced blank (w :: ws) (w ++ text)

section Fields

variable {blank : α → Bool}

theorem fieldsFrom_word {w : List α} (hw : ∀ x ∈ w, blank x = false) (u text : List α) :
    fieldsFrom blank u (w ++ text) = fieldsFrom blank (u ++ w) text := by
  induction w generalizing u with
  | nil => rw [List.append_nil, List.nil_append]
  | cons x xs ih =>
    have hx : blank x = false := hw x List.mem_cons_self
    have hxs := ih (fun y hy => hw y (List.mem_cons_of_mem x hy)) (u ++ [x])
    rw [List.cons_append, fieldsFrom, hx, List.append_cons u x xs]
    exact hxs

/-- A word is over at the next blank. -/
theorem fieldsFrom_apart {w text : List α} (hw : w ≠ []) (hapart : Apart blank text) :
    fieldsFrom blank w text = w :: fields blank text := by
  have hempty : w.isEmpty = false := List.isEmpty_eq_false_iff.mpr hw
  cases text with
  | nil => rw [fieldsFrom, hempty, fields, fieldsFrom]; rfl
  | cons x xs =>
    have hx : blank x = true := hapart x rfl
    rw [fields, fieldsFrom, fieldsFrom, hx, hempty]
    rfl

/-- **Cutting undoes writing.** -/
theorem Spaced.fields {ws : List (List α)} {text : List α} (h : Spaced blank ws text) :
    fields blank text = ws := by
  induction h with
  | nil => rfl
  | gap hx _ ih =>
    rw [Tsshd.fields, fieldsFrom, hx]
    exact ih
  | word hne hw hapart _ ih =>
    rw [Tsshd.fields, fieldsFrom_word hw, List.nil_append, fieldsFrom_apart hne hapart, ih]

theorem spaced_fieldsFrom (text : List α) {u : List α} (hu : ∀ x ∈ u, blank x = false) :
    Spaced blank (fieldsFrom blank u text) (u ++ text) := by
  induction text generalizing u with
  | nil =>
    rw [fieldsFrom]
    cases u with
    | nil => exact .nil
    | cons y ys => exact .word (by simp) hu (by simp [Apart]) .nil
  | cons x xs ih =>
    rw [fieldsFrom]
    split
    · rename_i hx
      have hrest : Spaced blank (fieldsFrom blank [] xs) (x :: xs) := .gap hx (ih (by simp))
      cases u with
      | nil => exact hrest
      | cons y ys => exact .word (by simp) hu (by simpa [Apart] using hx) hrest
    · rename_i hx
      rw [show u ++ x :: xs = (u ++ [x]) ++ xs by simp]
      refine ih fun y hy => ?_
      rcases List.mem_append.mp hy with hy | hy
      · exact hu y hy
      · rw [List.mem_singleton.mp hy]
        simpa using hx

/-- The words of a text are written in it. -/
theorem spaced_iff {ws : List (List α)} {text : List α} :
    Spaced blank ws text ↔ Tsshd.fields blank text = ws :=
  ⟨Spaced.fields, fun h => h ▸ spaced_fieldsFrom text (by simp)⟩

/-- Blanks in front do not matter. -/
theorem Spaced.gaps {ws : List (List α)} {gap text : List α} (hgap : ∀ x ∈ gap, blank x = true)
    (h : Spaced blank ws text) : Spaced blank ws (gap ++ text) := by
  induction gap with
  | nil => exact h
  | cons x xs ih =>
    exact .gap (hgap x List.mem_cons_self) (ih fun y hy => hgap y (List.mem_cons_of_mem x hy))

theorem apart_gap {gap : List α} (hgap : ∀ x ∈ gap, blank x = true) (hne : gap ≠ [])
    (text : List α) : Apart blank (gap ++ text) := by
  obtain ⟨x, xs, rfl⟩ := List.exists_cons_of_ne_nil hne
  rintro y ⟨⟩
  exact hgap x List.mem_cons_self

end Fields

/-! ## Separators without blanks around them -/

section Tighten

variable [DecidableEq α] {blank : α → Bool} {sep : α}

/-- The scan behind `tighten`. The blanks since the last other letter are held
back until it is clear that no separator follows; behind a separator (`none`)
they go away. -/
def tightenFrom (blank : α → Bool) (sep : α) : Option (List α) → List α → List α
  | held, [] => held.getD []
  | held, x :: xs =>
    if x = sep then sep :: tightenFrom blank sep none xs
    else if blank x then tightenFrom blank sep (held.map (· ++ [x])) xs
    else held.getD [] ++ x :: tightenFrom blank sep (some []) xs

/-- The text without the blanks around its separators. -/
def tighten (blank : α → Bool) (sep : α) (text : List α) : List α :=
  tightenFrom blank sep (some []) text

/-- A letter that is neither blank nor the separator. -/
def Plain (blank : α → Bool) (sep : α) (x : α) : Prop := x ≠ sep ∧ blank x = false

theorem tightenFrom_gap {gap : List α} (hgap : ∀ x ∈ gap, x ≠ sep ∧ blank x = true)
    (held : Option (List α)) (text : List α) :
    tightenFrom blank sep held (gap ++ text) =
      tightenFrom blank sep (held.map (· ++ gap)) text := by
  induction gap generalizing held with
  | nil =>
    have hsame : (fun l : List α => l ++ []) = id := funext List.append_nil
    rw [hsame, Option.map_id, id_eq, List.nil_append]
  | cons x xs ih =>
    obtain ⟨hsep, hblank⟩ := hgap x List.mem_cons_self
    rw [List.cons_append, tightenFrom, if_neg hsep, hblank, if_pos rfl,
      ih fun y hy => hgap y (List.mem_cons_of_mem x hy), Option.map_map]
    congr 2
    funext l
    exact (List.append_cons l x xs).symm

/-- The letters of a word stay, behind the blanks that were held back. -/
theorem tightenFrom_word {w : List α} (hne : w ≠ []) (hw : ∀ x ∈ w, Plain blank sep x)
    (held : Option (List α)) (text : List α) :
    tightenFrom blank sep held (w ++ text) =
      held.getD [] ++ w ++ tightenFrom blank sep (some []) text := by
  induction w generalizing held with
  | nil => exact absurd rfl hne
  | cons x xs ih =>
    obtain ⟨hsep, hblank⟩ := hw x List.mem_cons_self
    rw [List.cons_append, tightenFrom, if_neg hsep, hblank, if_neg Bool.false_ne_true]
    cases xs with
    | nil => rw [List.nil_append, List.append_assoc, List.singleton_append]
    | cons y ys =>
      have hrest := ih (by simp) (fun z hz => hw z (List.mem_cons_of_mem x hz)) (some [])
      rw [hrest]
      simp

theorem tightenFrom_sep (held : Option (List α)) (text : List α) :
    tightenFrom blank sep held (sep :: text) = sep :: tightenFrom blank sep none text := by
  rw [tightenFrom, if_pos rfl]

/-- Blanks at the end stay. -/
theorem tightenFrom_end {gap : List α} (hgap : ∀ x ∈ gap, x ≠ sep ∧ blank x = true) :
    tightenFrom blank sep (some []) gap = gap := by
  have h := tightenFrom_gap hgap (some []) []
  rw [List.append_nil] at h
  rw [h]
  rfl

end Tighten

/-! ## Blanks at the end -/

section Trim

variable {blank : α → Bool}

theorem rdropWhile_gap {gap : List α} (hgap : ∀ x ∈ gap, blank x = true) (text : List α) :
    (text ++ gap).rdropWhile blank = text.rdropWhile blank := by
  have hreverse : ∀ x ∈ gap.reverse, blank x = true := fun x hx => hgap x (List.mem_reverse.mp hx)
  rw [List.rdropWhile, List.reverse_append, List.dropWhile_append_of_pos hreverse, List.rdropWhile]

/-- Nothing in front of a letter that is not blank is taken away. -/
theorem rdropWhile_word {x : α} (hx : blank x = false) (front text : List α) :
    (front ++ x :: text).rdropWhile blank = front ++ x :: text.rdropWhile blank := by
  have hstop : (x :: front.reverse).dropWhile blank = x :: front.reverse := by
    rw [List.dropWhile_cons, hx, if_neg Bool.false_ne_true]
  rw [List.rdropWhile, List.rdropWhile, List.reverse_append, List.reverse_cons, List.append_assoc,
    List.singleton_append, List.dropWhile_append, hstop]
  split
  · rename_i hempty
    rw [List.isEmpty_iff.mp hempty]
    simp
  · simp

end Trim

end Tsshd

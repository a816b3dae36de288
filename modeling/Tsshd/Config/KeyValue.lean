import Tsshd.Config.Spelling

/-!
# Keys and values of a configuration line

`splitKeyValue` (sshd_config.go) cuts a line into a key and a value. It takes the
first `=` for the separator and corrects itself when there is a blank in front of
it, so a `=` inside the value of a line without one between key and value does no
harm (`splitPos_blanks`). Splitting undoes writing, whatever separator was used
(`Assignment.split`).
-/

namespace Tsshd.Config

open GoString (Trimmed)

/-! ## The code -/

/-- One of the characters of `" \t"`. -/
def isBlankOrTab (r : Rune) : Bool := r == .char ' ' || r == .char '\t'

/-- The `pos` of `splitKeyValue`. A blank at the very start (`p = 0`) is not taken
for the separator. -/
def splitPos (line : GoString) : Option Nat :=
  match line.findIdx? (· == .char '=') with
  | some pos =>
    match ((line.take pos).rdropWhile isBlankOrTab).findIdx? isBlankOrTab with
    | some p => if 0 < p then some p else some pos
    | none => some pos
  | none => line.findIdx? isBlankOrTab

/-- Positions are counted in runes: the line is only ever cut around a single
byte. `strings.ToLower` is `toLower`. -/
def splitKeyValue (toLower : GoString → GoString) (line : GoString) : GoString × GoString :=
  match splitPos line with
  | none => (toLower line.trimSpace, [])
  | some pos =>
    (toLower (GoString.trimSpace (line.take pos)), GoString.trimSpace (line.drop (pos + 1)))

/-! ## Where a line is cut -/

theorem Gap.isBlankOrTab (g : Gap) : ∀ r ∈ g.text, isBlankOrTab r = true := by
  intro r hr
  rcases g.blank r hr with rfl | rfl <;> decide

theorem isBlankOrTab_of_solid {r : Rune} (h : r.isSpace = false) : isBlankOrTab r = false := by
  rw [Bool.eq_false_iff]
  intro hblank
  simp only [isBlankOrTab, Bool.or_eq_true, beq_iff_eq] at hblank
  rcases hblank with rfl | rfl <;> revert h <;> decide

theorem equals_not_blank : isBlankOrTab (.char '=') = false := by decide

/-- The first place of a text that has none in front of it. -/
theorem findIdx?_first {p : Rune → Bool} {front : GoString} (hfront : ∀ r ∈ front, p r = false)
    {r : Rune} (hr : p r = true) (back : GoString) :
    (front ++ r :: back).findIdx? p = some front.length := by
  rw [List.findIdx?_append, List.findIdx?_eq_none_iff.mpr hfront, List.findIdx?_cons, if_pos hr]
  simp

/-- What a key is made of. -/
def KeyRune (r : Rune) : Prop := r.isSpace = false ∧ r ≠ .char '='

theorem KeyRune.not_blank {key : GoString} (hkey : ∀ r ∈ key, KeyRune r) :
    ∀ r ∈ key, isBlankOrTab r = false :=
  fun r hr => isBlankOrTab_of_solid (hkey r hr).1

theorem not_equals_of_ne {s : GoString} (h : ∀ r ∈ s, r ≠ .char '=') :
    ∀ r ∈ s, (r == Rune.char '=') = false :=
  fun r hr => beq_eq_false_iff_ne.mpr (h r hr)

theorem Gap.ne_equals (g : Gap) : ∀ r ∈ g.text, r ≠ .char '=' := by
  intro r hr
  rcases g.blank r hr with rfl | rfl <;> decide

/-- Only blanks lie between the key and the `=`, so the cut stays there. -/
theorem splitPos_equals {key : GoString} (hkey : ∀ r ∈ key, KeyRune r) (before : Gap)
    (rest : GoString) :
    splitPos (key ++ before.text ++ .char '=' :: rest) = some (key ++ before.text).length := by
  have hfront : ∀ r ∈ key ++ before.text, r ≠ .char '=' := by
    intro r hr
    rcases List.mem_append.mp hr with hr | hr
    · exact (hkey r hr).2
    · exact before.ne_equals r hr
  have hnoblank := KeyRune.not_blank hkey
  have htrim : (key ++ before.text).rdropWhile isBlankOrTab = key := by
    rw [rdropWhile_gap before.isBlankOrTab, List.rdropWhile_eq_self_iff]
    intro hne
    rw [hnoblank _ (List.getLast_mem hne)]
    exact Bool.false_ne_true
  rw [splitPos, findIdx?_first (not_equals_of_ne hfront) (by decide)]
  simp only [List.take_left]
  rw [htrim, List.findIdx?_eq_none_iff.mpr hnoblank]

/-- With no `=` between them, the cut is right behind the key: a `=` of the value
has a letter of the value in front of it. -/
theorem splitPos_blanks {key : GoString} (hne : key ≠ []) (hkey : ∀ r ∈ key, KeyRune r)
    {b : Rune} {gap value : GoString} (hb : isBlankOrTab b = true)
    (hgap : ∀ r ∈ gap, r ≠ .char '=') (hvalue : Trimmed value)
    (hstart : value.head? ≠ some (.char '=')) :
    splitPos (key ++ b :: (gap ++ value)) = some key.length := by
  have hnoblank := KeyRune.not_blank hkey
  have hbne : b ≠ .char '=' := by
    rintro rfl
    rw [equals_not_blank] at hb
    cases hb
  -- no `=` up to the value, nor in a part of it that has none
  have hfront (part : GoString) (hpart : ∀ r ∈ part, r ≠ .char '=') :
      ∀ r ∈ key ++ b :: (gap ++ part), (r == Rune.char '=') = false := by
    refine not_equals_of_ne fun r hr => ?_
    simp only [List.mem_append, List.mem_cons] at hr
    rcases hr with hr | rfl | hr | hr
    · exact (hkey r hr).2
    · exact hbne
    · exact hgap r hr
    · exact hpart r hr
  by_cases hmem : Rune.char '=' ∈ value
  · obtain ⟨part, back, rfl, hpart⟩ := List.eq_append_cons_of_mem hmem
    have hfirst := hfront part fun r hr heq => hpart (heq ▸ hr)
    cases part with
    | nil => exact absurd rfl hstart
    | cons r part =>
      have hr : isBlankOrTab r = false := isBlankOrTab_of_solid (hvalue.front r rfl)
      have hline : key ++ b :: (gap ++ (r :: part ++ .char '=' :: back)) =
          (key ++ b :: (gap ++ r :: part)) ++ .char '=' :: back := by simp
      have hcut : key ++ b :: (gap ++ r :: part) = (key ++ b :: gap) ++ r :: part := by simp
      rw [splitPos, hline, findIdx?_first hfirst (by decide)]
      simp only [List.take_left]
      rw [hcut, rdropWhile_word hr, List.append_assoc, List.cons_append, findIdx?_first hnoblank hb]
      simp only [List.length_pos_iff.mpr hne, if_true]
  · have hnone := hfront value fun r hr heq => hmem (heq ▸ hr)
    rw [splitPos, List.findIdx?_eq_none_iff.mpr hnone]
    exact findIdx?_first hnoblank hb _

/-! ## Lines as they are written -/

theorem splitKeyValue_at (toLower : GoString → GoString) {front back : GoString} {r : Rune}
    (h : splitPos (front ++ r :: back) = some front.length) :
    splitKeyValue toLower (front ++ r :: back) = (toLower front.trimSpace, back.trimSpace) := by
  have hdrop : (front ++ r :: back).drop (front.length + 1) = back := by
    rw [List.drop_append, List.drop_eq_nil_of_le (by omega)]
    simp
  rw [splitKeyValue, h]
  simp only [List.take_left, hdrop]

/-- A key and a value, with what stands between them. -/
structure Assignment where
  key : GoString
  separator : Separator
  value : GoString
  ne : key ≠ []
  solid : ∀ r ∈ key, KeyRune r
  trimmed : Trimmed value
  start : .char '=' ∉ separator.text → value.head? ≠ some (.char '=')

namespace Assignment

def text (a : Assignment) : GoString := a.key ++ a.separator.text ++ a.value

theorem split (toLower : GoString → GoString) (a : Assignment) :
    splitKeyValue toLower a.text = (toLower a.key, a.value) := by
  obtain ⟨key, separator, value, hne, hkey, hvalue, hstart⟩ := a
  have hsolid : Trimmed key := .of_solid fun r hr => (hkey r hr).1
  unfold text
  cases separator with
  | blanks gap hgap =>
    obtain ⟨b, gap', hcons⟩ := List.exists_cons_of_ne_nil hgap
    have hblank := gap.isBlankOrTab
    have hspace := gap.isSpace
    have hequals := gap.ne_equals
    have hnone : Rune.char '=' ∉ gap.text := fun hmem => hequals _ hmem rfl
    simp only [hcons, List.forall_mem_cons] at hblank hspace hequals
    have hpos := splitPos_blanks hne hkey hblank.1 hequals.2 hvalue (hstart hnone)
    have hline : key ++ gap.text ++ value = key ++ b :: (gap' ++ value) := by simp [hcons]
    rw [Separator.text, hline, splitKeyValue_at toLower hpos, hvalue.trimSpace_append hspace.2,
      hsolid.trimSpace_self]
  | equals before after =>
    have hpos := splitPos_equals hkey before (after.text ++ value)
    have hline : key ++ (before.text ++ .char '=' :: after.text) ++ value =
        key ++ before.text ++ .char '=' :: (after.text ++ value) := by simp
    rw [Separator.text, hline, splitKeyValue_at toLower hpos,
      hvalue.trimSpace_append after.isSpace, hsolid.append_trimSpace before.isSpace]

end Assignment

/-- **Splitting undoes writing**: whatever stands between a key and its value, the
line is split into the two again. -/
theorem splitKeyValue_written (toLower : GoString → GoString) (key value : GoString)
    (sep : Separator) (hne : key ≠ []) (hkey : ∀ r ∈ key, r.isSpace = false ∧ r ≠ .char '=')
    (hvalue : Trimmed value)
    (hstart : .char '=' ∉ sep.text → value.head? ≠ some (.char '=')) :
    splitKeyValue toLower (key ++ sep.text ++ value) = (toLower key, value) :=
  Assignment.split toLower ⟨key, sep, value, hne, hkey, hvalue, hstart⟩

/-- A value with a `=`, blanks and a tab in it, behind a tab and behind a `=`. -/
theorem splitKeyValue_written_acceptEnv :
    splitKeyValue GoString.toLower (str "AcceptEnv\t LANG = a\tb=") =
        (str "acceptenv", str "LANG = a\tb=") ∧
      splitKeyValue GoString.toLower (str "AcceptEnv =\t=LANG = a\tb=") =
        (str "acceptenv", str "=LANG = a\tb=") := by
  let blanks : Separator := .blanks ⟨str "\t ", by decide⟩ (by decide)
  let equals : Separator := .equals ⟨str " ", by decide⟩ ⟨str "\t", by decide⟩
  exact ⟨splitKeyValue_written GoString.toLower (str "AcceptEnv") (str "LANG = a\tb=") blanks
      (by decide) (by decide) ⟨by decide, by decide⟩ (by decide),
    splitKeyValue_written GoString.toLower (str "AcceptEnv") (str "=LANG = a\tb=") equals
      (by decide) (by decide) ⟨by decide, by decide⟩ (by decide)⟩

end Tsshd.Config

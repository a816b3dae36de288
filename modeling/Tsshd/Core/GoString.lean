import Tsshd.Core.Words

/-!
# Go strings

A Go string is a sequence of bytes that most of the standard library reads as
UTF-8. `GoString` is the sequence of what it reads: the characters, and the
bytes that belong to none. Every byte sequence is read in one way, so nothing is
lost, and two strings are equal when they are read the same.

The functions of `strings`, `unicode` and `strconv` that the development needs
are here, with what it needs to know of them.
-/

namespace Tsshd

/-- What `range` finds at a position of a string. -/
inductive Rune
  | char (c : Char)
  /-- A byte that is not part of a UTF-8 character. -/
  | invalid (b : UInt8)
deriving DecidableEq, Repr

abbrev GoString := List Rune

instance : LawfulBEq GoString := inferInstanceAs (LawfulBEq (List Rune))

/-- A string constant. -/
def str (s : String) : GoString := s.toList.map Rune.char

/-- The value of a rune: an invalid byte reads as U+FFFD. -/
def Rune.value : Rune → Char
  | .char c => c
  | .invalid _ => Char.ofNat 0xfffd

/-- The bytes of a rune. -/
def Rune.size : Rune → Nat
  | .char c => c.utf8Size
  | .invalid _ => 1

/-- `unicode.IsSpace`. -/
def Rune.isSpace : Rune → Bool
  | .char c =>
    let n := c.toNat
    (9 ≤ n && n ≤ 13) || n == 32 || n == 0x85 || n == 0xa0 || n == 0x1680 ||
      (0x2000 ≤ n && n ≤ 0x200a) || n == 0x2028 || n == 0x2029 || n == 0x202f ||
      n == 0x205f || n == 0x3000
  | .invalid _ => false

/-- `\s` of a regular expression. -/
def Rune.isBlank : Rune → Bool
  | .char c => c == '\t' || c == '\n' || c == Char.ofNat 12 || c == '\r' || c == ' '
  | .invalid _ => false

theorem Rune.isSpace_of_isBlank {r : Rune} (h : r.isBlank = true) : r.isSpace = true := by
  cases r with
  | char c =>
    simp only [isBlank, Bool.or_eq_true, beq_iff_eq] at h
    rcases h with (((rfl | rfl) | rfl) | rfl) | rfl <;> decide
  | invalid b => cases h

/-- `strings.ToLower`, for letters of ASCII. -/
def Rune.toLower : Rune → Rune
  | .char c => .char c.toLower
  | r => r

/-- Only letters change. -/
theorem Rune.toLower_eq {r : Rune} (h : ∀ c, r = .char c → ¬ (65 ≤ c.toNat ∧ c.toNat ≤ 90)) :
    r.toLower = r := by
  cases r with
  | char c =>
    have hupper : ¬ (c.val ≥ 'A'.val ∧ c.val ≤ 'Z'.val) := fun hc => h c rfl hc
    exact congrArg Rune.char (dif_neg hupper)
  | invalid b => rfl

namespace GoString

/-- `len`. -/
def size (s : GoString) : Nat := s.foldr (fun r n => r.size + n) 0

/-- `strings.Fields`. -/
def fields (s : GoString) : List GoString := Tsshd.fields Rune.isSpace s

/-- `strings.TrimSpace`. -/
def trimSpace (s : GoString) : GoString :=
  ((s.dropWhile Rune.isSpace).reverse.dropWhile Rune.isSpace).reverse

def toLower (s : GoString) : GoString := s.map Rune.toLower

/-- `strings.Split` at one character. -/
def split (s : GoString) (c : Char) : List GoString := s.splitOn (.char c)

/-- The two parts of `strings.SplitN(s, c, 2)` for a string with `c` in it. -/
def cut (s : GoString) (c : Char) : GoString × GoString :=
  (s.takeWhile (· ≠ .char c), (s.dropWhile (· ≠ .char c)).tail)

/-- No white space at either end. -/
structure Trimmed (s : GoString) : Prop where
  front : ∀ r ∈ s.head?, r.isSpace = false
  back : ∀ r ∈ s.getLast?, r.isSpace = false

theorem Trimmed.of_solid {s : GoString} (h : ∀ r ∈ s, r.isSpace = false) : Trimmed s :=
  ⟨fun r hr => h r (List.mem_of_mem_head? hr), fun r hr => h r (List.mem_of_mem_getLast? hr)⟩

/-- Trimming takes away the white space around a trimmed text, and no more. -/
theorem Trimmed.trimSpace_around {s front back : GoString} (h : Trimmed s)
    (hfront : ∀ r ∈ front, r.isSpace = true) (hback : ∀ r ∈ back, r.isSpace = true) :
    trimSpace (front ++ (s ++ back)) = s := by
  have htrim : trimSpace (front ++ (s ++ back)) =
      ((s ++ back).dropWhile Rune.isSpace).rdropWhile Rune.isSpace :=
    congrArg (List.rdropWhile Rune.isSpace) (List.dropWhile_append_of_pos hfront)
  rw [htrim]
  cases s with
  | nil =>
    rw [List.nil_append, List.dropWhile_eq_nil_iff.mpr hback, List.rdropWhile_nil]
  | cons r rs =>
    have hr : Rune.isSpace r = false := h.front r rfl
    have hlast : List.rdropWhile Rune.isSpace (r :: rs) = r :: rs := by
      rw [List.rdropWhile_eq_self_iff]
      intro hne
      rw [h.back _ (List.getLast?_eq_some_getLast hne)]
      exact Bool.false_ne_true
    rw [List.cons_append, List.dropWhile_cons, hr, if_neg Bool.false_ne_true, ← List.cons_append,
      rdropWhile_gap hback, hlast]

theorem Trimmed.trimSpace_append {s front : GoString} (h : Trimmed s)
    (hfront : ∀ r ∈ front, r.isSpace = true) : trimSpace (front ++ s) = s := by
  have htrim := h.trimSpace_around hfront (List.forall_mem_nil _)
  rwa [List.append_nil] at htrim

theorem Trimmed.append_trimSpace {s back : GoString} (h : Trimmed s)
    (hback : ∀ r ∈ back, r.isSpace = true) : trimSpace (s ++ back) = s :=
  h.trimSpace_around (List.forall_mem_nil _) hback

theorem Trimmed.trimSpace_self {s : GoString} (h : Trimmed s) : s.trimSpace = s :=
  h.trimSpace_append (List.forall_mem_nil _)

theorem trimSpace_eq {s : GoString} (h : ∀ r ∈ s, r.isSpace = false) : s.trimSpace = s :=
  (Trimmed.of_solid h).trimSpace_self

theorem cut_append {a : GoString} {c : Char} (h : .char c ∉ a) (b : GoString) :
    cut (a ++ .char c :: b) c = (a, b) := by
  have ha : ∀ r ∈ a, decide (r ≠ .char c) = true := by
    intro r hr
    exact decide_eq_true fun heq => h (heq ▸ hr)
  rw [cut, List.takeWhile_append_of_pos ha, List.dropWhile_append_of_pos ha]
  simp

/-! ## Numbers -/

def isDigit : Rune → Bool
  | .char c => c.isDigit
  | .invalid _ => false

/-- The value of a digit. -/
def digit : Rune → Nat
  | .char c => c.toNat - '0'.toNat
  | .invalid _ => 0

/-- The loop of `strconv.ParseUint` in base ten: no other character than a
digit, and no value above `max` on the way. -/
def parseDigits (max : Nat) (n : Nat) : GoString → Option Nat
  | [] => some n
  | r :: rs =>
    if isDigit r then
      if max < n * 10 + digit r then none else parseDigits max (n * 10 + digit r) rs
    else none

/-- `strconv.ParseUint(s, 10, 16)`; `none` stands for either error. -/
def parseUint16 (s : GoString) : Option Nat := if s.isEmpty then none else parseDigits 65535 0 s

/-- The number that decimal digits stand for. -/
def decimal (s : GoString) : Nat := s.foldl (fun n r => n * 10 + digit r) 0

theorem le_foldl_digits (s : GoString) (n : Nat) : n ≤ s.foldl (fun n r => n * 10 + digit r) n := by
  induction s generalizing n with
  | nil => exact Nat.le_refl n
  | cons r rs ih =>
    have hrest := ih (n * 10 + digit r)
    rw [List.foldl_cons]
    omega

/-- The value grows with every digit, so it may as well be checked at the end. -/
theorem parseDigits_eq {s : GoString} (h : ∀ r ∈ s, isDigit r = true) {max n : Nat}
    (hn : n ≤ max) :
    parseDigits max n s =
      if s.foldl (fun n r => n * 10 + digit r) n ≤ max then
        some (s.foldl (fun n r => n * 10 + digit r) n) else none := by
  induction s generalizing n with
  | nil =>
    rw [parseDigits, List.foldl_nil, if_pos hn]
  | cons r rs ih =>
    rw [parseDigits, if_pos (h r List.mem_cons_self), List.foldl_cons]
    split
    · rename_i hover
      have hgrows := le_foldl_digits rs (n * 10 + digit r)
      rw [if_neg (by omega)]
    · rename_i hfits
      exact ih (fun r' hr' => h r' (List.mem_cons_of_mem r hr')) (Nat.le_of_not_lt hfits)

theorem parseUint16_decimal {s : GoString} (hne : s ≠ []) (h : ∀ r ∈ s, isDigit r = true) :
    parseUint16 s = if decimal s ≤ 65535 then some (decimal s) else none := by
  rw [parseUint16, List.isEmpty_eq_false_iff.mpr hne]
  exact parseDigits_eq h (Nat.zero_le _)

theorem parseDigits_le {s : GoString} {max n m : Nat} (hn : n ≤ max)
    (h : parseDigits max n s = some m) : m ≤ max := by
  induction s generalizing n with
  | nil =>
    rw [parseDigits, Option.some.injEq] at h
    omega
  | cons r rs ih =>
    rw [parseDigits] at h
    split at h
    · split at h
      · cases h
      · exact ih (Nat.le_of_not_lt ‹_›) h
    · cases h

theorem parseUint16_le {s : GoString} {n : Nat} (h : parseUint16 s = some n) : n ≤ 65535 := by
  unfold parseUint16 at h
  split at h
  · cases h
  · exact parseDigits_le (Nat.zero_le _) h

/-- A digit is not any other character. -/
theorem isDigit_ne {r : Rune} (h : isDigit r = true) {c : Char} (hc : c.isDigit = false) :
    r ≠ .char c := by
  rintro rfl
  rw [isDigit, hc] at h
  cases h

end GoString

end Tsshd

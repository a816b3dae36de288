import Mathlib.Data.List.Infix

/-!
# Regular expressions

The part of Go's `regexp` without character classes, counts, lazy repetitions and
flags: `.` is any character but a newline, `^` and `$` are the two ends of the
text.

* **meaning** — `Spans text re s t`: read at the position that has `s` ahead of it,
  the expression can stop at the position that has `t` ahead;
* **matching** — `ends` computes those positions (`mem_ends`), and `matchString`
  looks for a match anywhere in the text;
* **reading** — `compile` reads an expression in one pass, with a stack of open
  groups as Go's parser has it. What is outside of the part above is refused like
  an expression with an error in it.
-/

namespace Tsshd

inductive Regexp
  | literal (c : Char)
  | anyCharNotNL
  | beginText
  | endText
  | emptyMatch
  | concat (r s : Regexp)
  | alternate (r s : Regexp)
  | star (r : Regexp)
deriving DecidableEq, Repr

namespace Regexp

/-! ## Meaning -/

/-- `re` takes the text between two positions, each given by what is ahead. -/
inductive Spans (text : List Char) : Regexp → List Char → List Char → Prop
  | literal {c t} : Spans text (.literal c) (c :: t) t
  | anyCharNotNL {c t} : c ≠ '\n' → Spans text .anyCharNotNL (c :: t) t
  | beginText : Spans text .beginText text text
  | endText : Spans text .endText [] []
  | emptyMatch {t} : Spans text .emptyMatch t t
  | concat {r s a b c} : Spans text r a b → Spans text s b c → Spans text (.concat r s) a c
  | left {r s a b} : Spans text r a b → Spans text (.alternate r s) a b
  | right {r s a b} : Spans text s a b → Spans text (.alternate r s) a b
  | stop {r a} : Spans text (.star r) a a
  | again {r a b c} : Spans text r a b → Spans text (.star r) b c → Spans text (.star r) a c

section Spans

variable {text : List Char}

/-- No expression goes back. -/
theorem Spans.suffix {re : Regexp} {s t : List Char} (h : Spans text re s t) : t <:+ s := by
  induction h with
  | literal => exact List.suffix_cons _ _
  | anyCharNotNL => exact List.suffix_cons _ _
  | beginText => exact List.suffix_refl _
  | endText => exact List.suffix_refl _
  | emptyMatch => exact List.suffix_refl _
  | concat _ _ ihr ihs => exact ihs.trans ihr
  | left _ ih => exact ih
  | right _ ih => exact ih
  | stop => exact List.suffix_refl _
  | again _ _ ihr ihs => exact ihs.trans ihr

@[simp] theorem spans_literal {c : Char} {s t : List Char} :
    Spans text (.literal c) s t ↔ s = c :: t := by
  constructor
  · rintro ⟨⟩
    rfl
  · rintro rfl
    exact .literal

@[simp] theorem spans_anyCharNotNL {s t : List Char} :
    Spans text .anyCharNotNL s t ↔ ∃ c, s = c :: t ∧ c ≠ '\n' := by
  constructor
  · rintro (_ | hc)
    exact ⟨_, rfl, hc⟩
  · rintro ⟨c, rfl, hc⟩
    exact .anyCharNotNL hc

@[simp] theorem spans_beginText {s t : List Char} :
    Spans text .beginText s t ↔ s = text ∧ t = text := by
  constructor
  · rintro ⟨⟩
    exact ⟨rfl, rfl⟩
  · rintro ⟨rfl, rfl⟩
    exact .beginText

@[simp] theorem spans_endText {s t : List Char} :
    Spans text .endText s t ↔ s = [] ∧ t = [] := by
  constructor
  · rintro ⟨⟩
    exact ⟨rfl, rfl⟩
  · rintro ⟨rfl, rfl⟩
    exact .endText

@[simp] theorem spans_emptyMatch {s t : List Char} :
    Spans text .emptyMatch s t ↔ t = s := by
  constructor
  · rintro ⟨⟩
    rfl
  · rintro rfl
    exact .emptyMatch

@[simp] theorem spans_concat {r s : Regexp} {a c : List Char} :
    Spans text (.concat r s) a c ↔ ∃ b, Spans text r a b ∧ Spans text s b c := by
  constructor
  · rintro (_ | _ | _ | _ | _ | ⟨hr, hs⟩)
    exact ⟨_, hr, hs⟩
  · rintro ⟨b, hr, hs⟩
    exact .concat hr hs

@[simp] theorem spans_alternate {r s : Regexp} {a b : List Char} :
    Spans text (.alternate r s) a b ↔ Spans text r a b ∨ Spans text s a b := by
  constructor
  · intro h
    cases h with
    | left h => exact .inl h
    | right h => exact .inr h
  · rintro (h | h)
    · exact .left h
    · exact .right h

/-- `.*` takes any run of characters within a line. -/
theorem spans_line {s t : List Char} :
    Spans text (.star .anyCharNotNL) s t ↔ ∃ u, s = u ++ t ∧ ∀ c ∈ u, c ≠ '\n' := by
  constructor
  · intro h
    generalize hre : Regexp.star .anyCharNotNL = re at h
    induction h with
    | stop => exact ⟨[], rfl, by simp⟩
    | again hfirst _ _ ih =>
      cases hre
      cases hfirst with
      | anyCharNotNL hc =>
        obtain ⟨u, rfl, hu⟩ := ih rfl
        exact ⟨_ :: u, rfl, List.forall_mem_cons.mpr ⟨hc, hu⟩⟩
    | _ => cases hre
  · rintro ⟨u, rfl, hu⟩
    induction u with
    | nil => exact .stop
    | cons c u ih =>
      obtain ⟨hc, hu⟩ := List.forall_mem_cons.mp hu
      exact .again (.anyCharNotNL hc) (ih hu)

end Spans

/-! ## Matching -/

/-- What at most `n` steps reach. -/
def within {β : Type} (step : β → List β) : Nat → β → List β
  | 0, b => [b]
  | n + 1, b => b :: (step b).flatMap (within step n)

/-- The positions where the expression can stop. A repetition needs no more rounds
than there are characters ahead. -/
def ends (text : List Char) : Regexp → List Char → List (List Char)
  | .literal c, s =>
    match s with
    | x :: t => if x = c then [t] else []
    | [] => []
  | .anyCharNotNL, s =>
    match s with
    | x :: t => if x = '\n' then [] else [t]
    | [] => []
  | .beginText, s => if s = text then [s] else []
  | .endText, s => if s = [] then [s] else []
  | .emptyMatch, s => [s]
  | .concat r r', s => (ends text r s).flatMap (ends text r')
  | .alternate r r', s => ends text r s ++ ends text r' s
  | .star r, s => within (ends text r) s.length s

/-- `MatchString`: a match may begin and end anywhere. -/
def matchString (re : Regexp) (text : List Char) : Bool :=
  text.tails.any fun s => !(re.ends text s).isEmpty

section Matching

variable {text : List Char}

theorem spans_of_within {r : Regexp} (hr : ∀ {s t}, t ∈ r.ends text s → Spans text r s t)
    {n : Nat} {s t : List Char} (h : t ∈ within (r.ends text) n s) : Spans text (.star r) s t := by
  induction n generalizing s with
  | zero =>
    obtain rfl := List.mem_singleton.mp h
    exact .stop
  | succ n ih =>
    rcases List.mem_cons.mp h with rfl | h
    · exact .stop
    · obtain ⟨b, hb, ht⟩ := List.mem_flatMap.mp h
      exact .again (hr hb) (ih ht)

/-- A round that does not move can be left out, and any other one leaves fewer
characters ahead. -/
theorem within_of_spans {r : Regexp} (hr : ∀ {s t}, Spans text r s t → t ∈ r.ends text s)
    {n : Nat} {s t : List Char} (h : Spans text (.star r) s t) (hn : s.length ≤ n) :
    t ∈ within (r.ends text) n s := by
  generalize hre : Regexp.star r = re at h
  induction h generalizing n with
  | stop =>
    cases n with
    | zero => exact List.mem_singleton_self _
    | succ n => exact List.mem_cons_self
  | @again _ a b _ hfirst _ _ ih =>
    cases hre
    have hsuffix := hfirst.suffix
    rcases Nat.lt_or_ge b.length a.length with hlt | hge
    · obtain ⟨n, rfl⟩ : ∃ m, n = m + 1 := ⟨n - 1, by omega⟩
      refine List.mem_cons_of_mem _ (List.mem_flatMap.mpr ⟨b, hr hfirst, ih ?_ rfl⟩)
      omega
    · obtain rfl := hsuffix.eq_of_length_le hge
      exact ih hn rfl
  | _ => cases hre

/-- **The positions that `ends` computes are the ones that the meaning allows.** -/
theorem mem_ends {re : Regexp} {s t : List Char} : t ∈ re.ends text s ↔ Spans text re s t := by
  induction re generalizing s t with
  | literal c =>
    rw [spans_literal]
    cases s with
    | nil => simp [ends]
    | cons x xs =>
      rw [ends]
      split <;> simp_all [eq_comm]
  | anyCharNotNL =>
    rw [spans_anyCharNotNL]
    cases s with
    | nil => simp [ends]
    | cons x xs =>
      rw [ends]
      split <;> simp_all [eq_comm]
  | beginText =>
    rw [spans_beginText, ends]
    split <;> simp_all
  | endText =>
    rw [spans_endText, ends]
    split <;> simp_all
  | emptyMatch => rw [spans_emptyMatch, ends, List.mem_singleton]
  | concat r r' ihr ihs =>
    rw [ends, List.mem_flatMap, spans_concat]
    simp only [ihr, ihs]
  | alternate r r' ihr ihs => rw [ends, List.mem_append, ihr, ihs, spans_alternate]
  | star r ih =>
    rw [ends]
    exact ⟨spans_of_within ih.mp, fun h => within_of_spans ih.mpr h (Nat.le_refl _)⟩

theorem matchString_iff {re : Regexp} :
    re.matchString text = true ↔ ∃ s t, s <:+ text ∧ Spans text re s t := by
  simp only [matchString, List.any_eq_true, List.mem_tails, Bool.not_eq_true',
    List.isEmpty_eq_false_iff_exists_mem, mem_ends]
  constructor
  · rintro ⟨s, hs, t, ht⟩
    exact ⟨s, t, hs, ht⟩
  · rintro ⟨s, t, hs, ht⟩
    exact ⟨s, hs, t, ht⟩

end Matching

/-! ## Reading -/

inductive Token
  | literal (c : Char)
  | dot
  | caret
  | dollar
  | star
  | bar
  | openGroup
  | closeGroup
deriving DecidableEq, Repr

/-- A character on its own. -/
def token (c : Char) : Option Token :=
  if c = '.' then some .dot
  else if c = '^' then some .caret
  else if c = '$' then some .dollar
  else if c = '*' then some .star
  else if c = '|' then some .bar
  else if c = '(' then some .openGroup
  else if c = ')' then some .closeGroup
  else if c ∈ ['\\', '[', '{', '+', '?'] then none
  else some (.literal c)

/-- A character that may stand behind a backslash for itself. -/
def isPunct (c : Char) : Bool := c.toNat < 128 && !c.isAlphanum

def tokens : List Char → Option (List Token)
  | [] => some []
  | '\\' :: c :: cs => if isPunct c then (tokens cs).map (.literal c :: ·) else none
  | c :: cs => (token c).bind fun t => (tokens cs).map (t :: ·)

/-- All of a list, one behind the other. -/
def concatAll (rs : List Regexp) : Regexp := rs.foldr .concat .emptyMatch

@[simp] theorem concatAll_nil : concatAll [] = .emptyMatch := rfl

@[simp] theorem concatAll_cons (r : Regexp) (rs : List Regexp) :
    concatAll (r :: rs) = .concat r (concatAll rs) := rfl

/-- A group that is being read: the alternatives before the last bar, and the
factors since, the last one first. -/
structure Frame where
  alternatives : Option Regexp := none
  factors : List Regexp := []

namespace Frame

def push (f : Frame) (r : Regexp) : Frame := { f with factors := r :: f.factors }

def close (f : Frame) : Regexp :=
  match f.alternatives with
  | none => concatAll f.factors.reverse
  | some r => .alternate r (concatAll f.factors.reverse)

end Frame

/-- The parser, with the groups that are open around the one it is in. Repeating
nothing, repeating a repetition and a parenthesis without its partner are
errors. -/
def parse : List Frame → Frame → List Token → Option Regexp
  | outer, f, [] => if outer.isEmpty then some f.close else none
  | outer, f, .literal c :: ts => parse outer (f.push (.literal c)) ts
  | outer, f, .dot :: ts => parse outer (f.push .anyCharNotNL) ts
  | outer, f, .caret :: ts => parse outer (f.push .beginText) ts
  | outer, f, .dollar :: ts => parse outer (f.push .endText) ts
  | outer, f, .star :: ts =>
    match f.factors with
    | [] => none
    | r :: rs =>
      if ts.head? = some .star then none
      else parse outer { f with factors := .star r :: rs } ts
  | outer, f, .bar :: ts => parse outer { alternatives := some f.close } ts
  | outer, f, .openGroup :: ts => parse (f :: outer) {} ts
  | outer, f, .closeGroup :: ts =>
    match outer with
    | [] => none
    | g :: outer => parse outer (g.push f.close) ts

/-- `regexp.Compile`. -/
def compile (expr : List Char) : Option Regexp := (tokens expr).bind (parse [] {})

theorem tokens_escape {c : Char} (h : isPunct c = true) (cs : List Char) :
    tokens ('\\' :: c :: cs) = (tokens cs).map (.literal c :: ·) := by
  rw [tokens, if_pos h]

theorem tokens_cons {c : Char} (h : c ≠ '\\') (cs : List Char) :
    tokens (c :: cs) = (token c).bind fun t => (tokens cs).map (t :: ·) := by
  rw [tokens.eq_def]
  split
  · rename_i heq
    cases heq
  · rename_i heq
    cases heq
    exact absurd rfl h
  · rename_i heq
    cases heq
    rfl

end Regexp

end Tsshd

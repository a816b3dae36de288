import Tsshd.Core.GoString
import Tsshd.Core.Regexp

/-!
# Wildcard patterns

`wildcardToRegexp` and `wildcardMatch` (sshd_config.go): a pattern of a user, a
group or an environment variable becomes a regular expression. `Glob` is what a
pattern is meant to accept.

* **compilation** — the expression of a pattern is always accepted by the
  compiler, alone (`compile_wildcardToRegexp`) and as a group between others
  (`parse_wildcard`);
* **meaning** — it matches the texts that the pattern accepts, except that a
  wildcard does not go past a newline (`wildcardMatch_iff`, `wildcardMatch_glob`).
-/

namespace Tsshd.Config

open Regexp (Token Frame Spans tokens token parse compile concatAll)

/-! ## The code -/

/-- What a character of the pattern becomes. -/
def wildcardChar (c : Char) : List Char :=
  if c = '*' then ['.', '*']
  else if c = '?' then ['.']
  else if c ∈ ['(', ')', '[', ']', '{', '}', '.', '+', ',', '-', '^', '$', '|', '\\'] then ['\\', c]
  else [c]

def wildcardToRegexp (pattern : GoString) : List Char :=
  '^' :: (pattern.flatMap (fun r => wildcardChar r.value) ++ ['$'])

def wildcardMatch (pattern value : GoString) : Bool :=
  match compile (wildcardToRegexp pattern) with
  | some re => re.matchString (value.map Rune.value)
  | none => false

/-! ## What a pattern accepts -/

section Glob

variable {α β : Type} [DecidableEq α] [DecidableEq β]

/-- `star` stands for any text and `question` for any letter, of the letters that a
wildcard may stand for; every other letter stands for itself. -/
def Glob (star question : α) (wild : α → Prop) : List α → List α → Prop
  | [], value => value = []
  | c :: pattern, value =>
    if c = star then
      ∃ u rest, value = u ++ rest ∧ (∀ x ∈ u, wild x) ∧ Glob star question wild pattern rest
    else if c = question then
      ∃ x rest, value = x :: rest ∧ wild x ∧ Glob star question wild pattern rest
    else ∃ rest, value = c :: rest ∧ Glob star question wild pattern rest

/-- Reading the letters through `f` does not matter when `f` keeps the letters of
the pattern apart from all others. -/
theorem glob_map {f : α → β} {star question : α} {wild : β → Prop} {pattern : List α}
    (hf : ∀ x ∈ pattern, ∀ y, f x = f y → x = y) (value : List α) :
    Glob (f star) (f question) wild (pattern.map f) (value.map f) ↔
      Glob star question (fun x => wild (f x)) pattern value := by
  induction pattern generalizing value with
  | nil => simp [Glob]
  | cons c pattern ih =>
    obtain ⟨hc, hrest⟩ := List.forall_mem_cons.mp hf
    have hsame (y : α) : f c = f y ↔ c = y := ⟨hc y, congrArg f⟩
    simp only [List.map_cons, Glob, hsame]
    split
    · simp only [List.map_eq_append_iff]
      constructor
      · rintro ⟨_, _, ⟨u, rest, rfl, rfl, rfl⟩, hu, hglob⟩
        exact ⟨u, rest, rfl, List.forall_mem_map.mp hu, (ih hrest rest).mp hglob⟩
      · rintro ⟨u, rest, rfl, hu, hglob⟩
        exact ⟨_, _, ⟨u, rest, rfl, rfl, rfl⟩, List.forall_mem_map.mpr hu,
          (ih hrest rest).mpr hglob⟩
    · split
      · simp only [List.map_eq_cons_iff]
        constructor
        · rintro ⟨_, _, ⟨x, rest, rfl, rfl, rfl⟩, hx, hglob⟩
          exact ⟨x, rest, rfl, hx, (ih hrest rest).mp hglob⟩
        · rintro ⟨x, rest, rfl, hx, hglob⟩
          exact ⟨_, _, ⟨x, rest, rfl, rfl, rfl⟩, hx, (ih hrest rest).mpr hglob⟩
      · simp only [List.map_eq_cons_iff]
        constructor
        · rintro ⟨_, ⟨x, rest, rfl, hx, rfl⟩, hglob⟩
          rw [hc x hx.symm]
          exact ⟨rest, rfl, (ih hrest rest).mp hglob⟩
        · rintro ⟨rest, rfl, hglob⟩
          exact ⟨_, ⟨c, rest, rfl, rfl, rfl⟩, (ih hrest rest).mpr hglob⟩

/-- Only the letters of the text count. -/
theorem Glob.imp {star question : α} {wild wild' : α → Prop} {pattern value : List α}
    (h : Glob star question wild pattern value) (himp : ∀ x ∈ value, wild x → wild' x) :
    Glob star question wild' pattern value := by
  induction pattern generalizing value with
  | nil => exact h
  | cons c pattern ih =>
    simp only [Glob] at h ⊢
    split at h
    · rename_i hc
      rw [if_pos hc]
      obtain ⟨u, rest, rfl, hu, hglob⟩ := h
      exact ⟨u, rest, rfl, fun x hx => himp x (List.mem_append_left rest hx) (hu x hx),
        ih hglob fun x hx => himp x (List.mem_append_right u hx)⟩
    · rename_i hc
      rw [if_neg hc]
      split at h
      · rename_i hq
        rw [if_pos hq]
        obtain ⟨x, rest, rfl, hx, hglob⟩ := h
        exact ⟨x, rest, rfl, himp x List.mem_cons_self hx,
          ih hglob fun y hy => himp y (List.mem_cons_of_mem x hy)⟩
      · rename_i hq
        rw [if_neg hq]
        obtain ⟨rest, rfl, hglob⟩ := h
        exact ⟨rest, rfl, ih hglob fun y hy => himp y (List.mem_cons_of_mem c hy)⟩

end Glob

/-! ## Compilation -/

/-- A character of the pattern, as the compiler reads it. -/
def wildcardTokens (c : Char) : List Token :=
  if c = '*' then [.dot, .star] else if c = '?' then [.dot] else [.literal c]

def wildcardFactor (c : Char) : Regexp :=
  if c = '*' then .star .anyCharNotNL else if c = '?' then .anyCharNotNL else .literal c

theorem tokens_wildcardChar (c : Char) (cs : List Char) :
    tokens (wildcardChar c ++ cs) = (tokens cs).map (wildcardTokens c ++ ·) := by
  have hpunct : ['(', ')', '[', ']', '{', '}', '.', '+', ',', '-', '^', '$', '|', '\\'].all
      Regexp.isPunct = true := by decide
  unfold wildcardChar wildcardTokens
  split
  · simp [Regexp.tokens_cons, token, Function.comp_def]
  · split
    · simp [Regexp.tokens_cons, token]
    · split
      · rename_i hmeta
        exact Regexp.tokens_escape (List.all_eq_true.mp hpunct c hmeta) cs
      · rename_i hstar hquestion hplain
        simp only [List.mem_cons, List.not_mem_nil, or_false, not_or] at hplain
        have htoken : token c = some (.literal c) := by simp [token, hstar, hquestion, hplain]
        rw [List.singleton_append, Regexp.tokens_cons (by simp [hplain]), htoken]
        rfl

/-- The expression of a pattern, as the compiler reads it. -/
def patternTokens (pattern : List Char) : List Token :=
  .caret :: (pattern.flatMap wildcardTokens ++ [.dollar])

theorem tokens_wildcardToRegexp (pattern : GoString) (cs : List Char) :
    tokens (wildcardToRegexp pattern ++ cs) =
      (tokens cs).map (patternTokens (pattern.map Rune.value) ++ ·) := by
  have hbody : tokens (pattern.flatMap (fun r => wildcardChar r.value) ++ ('$' :: cs)) =
      (tokens cs).map
        ((pattern.map Rune.value).flatMap wildcardTokens ++ Token.dollar :: ·) := by
    induction pattern with
    | nil => simp [Regexp.tokens_cons, token]
    | cons r pattern ih =>
      rw [List.flatMap_cons, List.append_assoc, tokens_wildcardChar, ih, Option.map_map]
      simp [Function.comp_def]
  rw [wildcardToRegexp, List.cons_append, List.append_assoc, List.singleton_append,
    Regexp.tokens_cons (by decide), hbody]
  simp [token, patternTokens, Function.comp_def]

/-- Only a `*` of the pattern is read as a repetition, behind its own dot. -/
theorem head_wildcardTokens {ts : List Token} (h : ts.head? ≠ some .star) (pattern : List Char) :
    (pattern.flatMap wildcardTokens ++ ts).head? ≠ some .star := by
  cases pattern with
  | nil => exact h
  | cons c pattern =>
    rw [List.flatMap_cons, wildcardTokens]
    repeat' split
    all_goals simp

theorem parse_wildcardTokens {pattern : List Char} {ts : List Token} (h : ts.head? ≠ some .star)
    (outer : List Frame) (f : Frame) :
    parse outer f (pattern.flatMap wildcardTokens ++ ts) =
      parse outer { f with factors := (pattern.map wildcardFactor).reverse ++ f.factors } ts := by
  induction pattern generalizing f with
  | nil => rfl
  | cons c pattern ih =>
    rw [List.flatMap_cons, List.append_assoc, wildcardTokens]
    have hhead := head_wildcardTokens h pattern
    split
    · rename_i hc
      rw [List.cons_append, List.singleton_append, parse, parse]
      simp only [Frame.push]
      rw [if_neg hhead, ih]
      simp [wildcardFactor, hc]
    · split
      · rename_i hc
        rw [List.singleton_append, parse, ih]
        simp [Frame.push, wildcardFactor, hc]
      · rename_i hstar hquestion
        rw [List.singleton_append, parse, ih]
        simp [Frame.push, wildcardFactor, hstar, hquestion]

/-- What the compiler makes of the expression of a pattern. -/
def patternFactors (pattern : List Char) : List Regexp :=
  .beginText :: (pattern.map wildcardFactor ++ [.endText])

/-- **The expression of a pattern compiles**, in any group. -/
theorem parse_wildcard (pattern : List Char) (outer : List Frame) (f : Frame) (ts : List Token) :
    parse outer f (patternTokens pattern ++ ts) =
      parse outer { f with factors := (patternFactors pattern).reverse ++ f.factors } ts := by
  rw [patternTokens, List.cons_append, List.append_assoc, parse,
    parse_wildcardTokens (by simp), List.singleton_append, parse]
  simp [Frame.push, patternFactors]

theorem compile_wildcardToRegexp (pattern : GoString) :
    compile (wildcardToRegexp pattern) =
      some (concatAll (patternFactors (pattern.map Rune.value))) := by
  have htokens := tokens_wildcardToRegexp pattern []
  rw [List.append_nil] at htokens
  have hparse := parse_wildcard (pattern.map Rune.value) [] {} []
  rw [compile, htokens]
  simp only [tokens, Option.map_some, Option.bind_some]
  rw [hparse, parse]
  simp [Frame.close]

/-! ## Meaning -/

/-- A text that the pattern accepts with no newline under a wildcard. -/
def LineGlob (pattern value : List Char) : Prop := Glob '*' '?' (· ≠ '\n') pattern value

theorem spans_factors {text pattern s t : List Char} :
    Spans text (concatAll (pattern.map wildcardFactor ++ [.endText])) s t ↔
      t = [] ∧ LineGlob pattern s := by
  induction pattern generalizing s with
  | nil => simp [LineGlob, Glob, and_comm]
  | cons c pattern ih =>
    simp only [List.map_cons, List.cons_append, Regexp.concatAll_cons, Regexp.spans_concat, ih]
    unfold wildcardFactor LineGlob
    rw [Glob]
    split
    · simp only [Regexp.spans_line]
      constructor
      · rintro ⟨rest, ⟨u, rfl, hu⟩, ht, hglob⟩
        exact ⟨ht, u, rest, rfl, hu, hglob⟩
      · rintro ⟨ht, u, rest, rfl, hu, hglob⟩
        exact ⟨rest, ⟨u, rfl, hu⟩, ht, hglob⟩
    · split
      · simp only [Regexp.spans_anyCharNotNL]
        constructor
        · rintro ⟨rest, ⟨x, rfl, hx⟩, ht, hglob⟩
          exact ⟨ht, x, rest, rfl, hx, hglob⟩
        · rintro ⟨ht, x, rest, rfl, hx, hglob⟩
          exact ⟨rest, ⟨x, rfl, hx⟩, ht, hglob⟩
      · simp only [Regexp.spans_literal]
        constructor
        · rintro ⟨rest, rfl, ht, hglob⟩
          exact ⟨ht, rest, rfl, hglob⟩
        · rintro ⟨ht, rest, rfl, hglob⟩
          exact ⟨rest, rfl, ht, hglob⟩

/-- Between its two anchors a pattern takes the whole text. -/
theorem spans_pattern {text pattern s t : List Char} :
    Spans text (concatAll (patternFactors pattern)) s t ↔
      s = text ∧ t = [] ∧ LineGlob pattern text := by
  rw [patternFactors, Regexp.concatAll_cons, Regexp.spans_concat]
  simp only [Regexp.spans_beginText, spans_factors]
  constructor
  · rintro ⟨b, ⟨rfl, rfl⟩, h⟩
    exact ⟨rfl, h⟩
  · rintro ⟨rfl, h⟩
    exact ⟨s, ⟨rfl, rfl⟩, h⟩

theorem wildcardMatch_iff {pattern value : GoString} :
    wildcardMatch pattern value = true ↔
      LineGlob (pattern.map Rune.value) (value.map Rune.value) := by
  rw [wildcardMatch, compile_wildcardToRegexp]
  simp only [Regexp.matchString_iff, spans_pattern]
  constructor
  · rintro ⟨_, _, _, _, _, h⟩
    exact h
  · intro h
    exact ⟨_, [], List.suffix_refl _, rfl, rfl, h⟩

/-- The text is one that the pattern is meant to accept, both as Go reads them. -/
def Accepts (pattern value : GoString) : Prop :=
  Glob '*' '?' (fun _ => True) (pattern.map Rune.value) (value.map Rune.value)

theorem LineGlob.accepts {pattern value : GoString}
    (h : LineGlob (pattern.map Rune.value) (value.map Rune.value)) : Accepts pattern value :=
  h.imp fun _ _ _ => trivial

/-- Within a line the code matches what it is meant to match. -/
theorem wildcardMatch_line {pattern value : GoString} (hline : .char '\n' ∉ value) :
    wildcardMatch pattern value = true ↔ Accepts pattern value := by
  rw [wildcardMatch_iff]
  refine ⟨LineGlob.accepts, fun h => h.imp fun c hc _ hnewline => ?_⟩
  obtain ⟨r, hr, hvalue⟩ := List.mem_map.mp hc
  cases r with
  | char d =>
    have hd : d = '\n' := hvalue.trans hnewline
    exact hline (hd ▸ hr)
  | invalid b =>
    have hne : Char.ofNat 0xfffd ≠ '\n' := by decide
    exact hne (hvalue.trans hnewline)

theorem accepts_chars {pattern value : List Char} :
    Accepts (pattern.map .char) (value.map .char) ↔
      Glob '*' '?' (fun _ => True) pattern value := by
  have hvalue (s : List Char) : (s.map Rune.char).map Rune.value = s := by
    rw [List.map_map]
    exact List.map_id s
  rw [Accepts, hvalue, hvalue]

/-- **Wildcard matching is glob matching** on UTF-8 text within a line: the
expression of the pattern compiles, and it matches exactly the texts that the
pattern accepts as a whole. -/
theorem wildcardMatch_glob (pattern value : List Char) (hline : '\n' ∉ value) :
    (compile (wildcardToRegexp (pattern.map .char))).isSome = true ∧
      (wildcardMatch (pattern.map .char) (value.map .char) = true ↔
        Glob '*' '?' (fun _ => True) pattern value) := by
  have hrunes : Rune.char '\n' ∉ value.map Rune.char := by
    intro hmem
    obtain ⟨c, hc, heq⟩ := List.mem_map.mp hmem
    cases heq
    exact hline hc
  refine ⟨?_, (wildcardMatch_line hrunes).trans accepts_chars⟩
  rw [compile_wildcardToRegexp, Option.isSome_some]

/-- A pattern of metacharacters takes them literally, and both wildcards at once. -/
theorem wildcardMatch_glob_metacharacters :
    Glob '*' '?' (fun _ => True) "^a.*[x]?+$".toList "^a.(b)[x]é+$".toList ∧
      ¬ Glob '*' '?' (fun _ => True) "^a.*[x]?+$".toList "aab[x]é+".toList := by
  have haccepts := wildcardMatch_glob "^a.*[x]?+$".toList "^a.(b)[x]é+$".toList (by decide)
  have hrejects := wildcardMatch_glob "^a.*[x]?+$".toList "aab[x]é+".toList (by decide)
  refine ⟨haccepts.2.mp (by decide), fun hglob => ?_⟩
  have hmatch := hrejects.2.mpr hglob
  revert hmatch
  decide

/-- A pattern without U+FFFD accepts letter for letter, whatever the text is. -/
theorem Accepts.letters {pattern value : GoString} (h : Accepts pattern value)
    (hpattern : ∀ r ∈ pattern, r.value ≠ Char.ofNat 0xfffd) :
    Glob (.char '*') (.char '?') (fun _ => True) pattern value := by
  have hapart : ∀ r ∈ pattern, ∀ r' : Rune, r.value = r'.value → r = r' := by
    intro r hr r' heq
    cases r with
    | invalid b => exact absurd rfl (hpattern _ hr)
    | char c =>
      cases r' with
      | char d => exact congrArg Rune.char heq
      | invalid b => exact absurd heq (hpattern _ hr)
  have hread : Glob (Rune.char '*').value (Rune.char '?').value (fun _ => True)
      (pattern.map Rune.value) (value.map Rune.value) := h
  exact (glob_map hapart value).mp hread

end Tsshd.Config

import Tsshd.Config.Match

/-!
# Spellings of a Match line

A list of criteria can be written in many ways: the key in any letter case, the
value behind blanks or behind a `=` with or without blanks, blanks around the commas
between patterns and around the criteria. `Renders` says which lines are such a
spelling. A spelling decides how many tokens a criterion becomes, but not what is
collected (`matchLoop_written`), so the line means what its criteria say
(`match_line_meaning`).
-/

namespace Tsshd.Config

/-! ## Criteria as they are written -/

/-- A run of blanks and tabs. -/
structure Gap where
  text : GoString
  blank : ∀ r ∈ text, r = .char ' ' ∨ r = .char '\t'

/-- What a key or a pattern is made of: neither white space nor a comma nor `=`. -/
def Solid (r : Rune) : Prop := r.isSpace = false ∧ r ≠ .char ',' ∧ r ≠ .char '='

/-- A pattern, with or without a `!` in front. -/
structure Pattern where
  negated : Bool
  body : GoString
  solid : ∀ r ∈ body, Solid r
  positive : negated = false → body ≠ [] ∧ body.head? ≠ some (.char '!')

def Pattern.text (p : Pattern) : GoString := if p.negated then .char '!' :: p.body else p.body

inductive Key
  | user
  | group
deriving DecidableEq, Repr

def Key.name : Key → GoString
  | .user => str "user"
  | .group => str "group"

/-- What stands between a key and its value. The two gaps around `=` may be
empty. -/
inductive Separator
  | blanks (gap : Gap) (ne : gap.text ≠ [])
  | equals (before after : Gap)

def Separator.text : Separator → GoString
  | .blanks gap _ => gap.text
  | .equals before after => before.text ++ .char '=' :: after.text

/-- A criterion as it is written; each further pattern comes with the gaps around
the comma in front of it. -/
structure Written where
  key : Key
  spelling : GoString
  spelled : spelling.toLower = key.name
  separator : Separator
  first : Pattern
  more : List (Gap × Gap × Pattern)

namespace Written

def patterns (w : Written) : List Pattern := w.first :: w.more.map (·.2.2)

def text (w : Written) : GoString :=
  w.spelling ++ (w.separator.text ++ (w.first.text ++
    w.more.flatMap fun m => m.1.text ++ .char ',' :: (m.2.1.text ++ m.2.2.text)))

/-- The value without the gaps around its commas. -/
def value (w : Written) : GoString :=
  w.first.text ++ w.more.flatMap fun m => .char ',' :: m.2.2.text

end Written

/-- `line` is a spelling of the criteria: there is white space between them, and
perhaps around them. -/
inductive Renders : List Written → GoString → Prop
  | nil (gap : Gap) : Renders [] gap.text
  | cons {ws rest} (gap : Gap) (w : Written) : Apart Rune.isBlank rest → Renders ws rest →
      Renders (w :: ws) (gap.text ++ (w.text ++ rest))

/-! ## Letters -/

theorem Gap.isBlank (g : Gap) : ∀ r ∈ g.text, r.isBlank = true := by
  intro r hr
  rcases g.blank r hr with rfl | rfl <;> decide

theorem Gap.isSpace (g : Gap) : ∀ r ∈ g.text, r.isSpace = true :=
  fun r hr => Rune.isSpace_of_isBlank (g.isBlank r hr)

theorem Gap.around (g : Gap) : ∀ r ∈ g.text, r ≠ .char ',' ∧ r.isBlank = true := by
  intro r hr
  refine ⟨?_, g.isBlank r hr⟩
  rcases g.blank r hr with rfl | rfl <;> decide

theorem Solid.plain {r : Rune} (h : Solid r) : Plain Rune.isBlank (.char ',') r := by
  refine ⟨h.2.1, ?_⟩
  rw [Bool.eq_false_iff]
  intro hblank
  have hspace := h.1
  rw [Rune.isSpace_of_isBlank hblank] at hspace
  cases hspace

theorem Pattern.text_solid (p : Pattern) : ∀ r ∈ p.text, Solid r := by
  unfold Pattern.text
  split
  · intro r hr
    rcases List.mem_cons.mp hr with rfl | hr
    · exact ⟨by decide, by decide, by decide⟩
    · exact p.solid r hr
  · exact p.solid

theorem Pattern.text_ne_nil (p : Pattern) : p.text ≠ [] := by
  unfold Pattern.text
  split
  · exact List.cons_ne_nil _ _
  · rename_i h
    exact (p.positive (by simpa using h)).1

theorem Key.name_solid (k : Key) : ∀ r ∈ k.name, Solid r := by
  unfold Solid
  cases k <;> decide

/-- Lowering changes upper-case letters only, and the names have no other letters
than solid ones. -/
theorem Written.spelling_solid (w : Written) : ∀ r ∈ w.spelling, Solid r := by
  intro r hr
  have hlower : Solid r.toLower :=
    w.key.name_solid r.toLower (w.spelled ▸ List.mem_map_of_mem hr)
  by_cases hupper : ∃ c, r = .char c ∧ 65 ≤ c.toNat ∧ c.toNat ≤ 90
  · obtain ⟨c, rfl, hlow, hhigh⟩ := hupper
    refine ⟨?_, ?_, ?_⟩
    · simp only [Rune.isSpace, Bool.or_eq_false_iff, Bool.and_eq_false_iff, decide_eq_false_iff_not,
        beq_eq_false_iff_ne]
      omega
    · rintro ⟨⟩
      revert hlow
      decide
    · rintro ⟨⟩
      revert hlow
      decide
  · rwa [Rune.toLower_eq fun c hc hin => hupper ⟨c, hc, hin⟩] at hlower

theorem Written.spelling_ne_nil (w : Written) : w.spelling ≠ [] := by
  intro hnil
  have hspelled := w.spelled
  rw [hnil] at hspelled
  cases hkey : w.key <;> rw [hkey] at hspelled <;> exact absurd hspelled (by decide)

/-! ## Tokens -/

section Tokens

/-- The gaps around a comma go away. -/
theorem tighten_more (more : List (Gap × Gap × Pattern)) (rest : GoString) :
    tightenFrom Rune.isBlank (.char ',') (some [])
        ((more.flatMap fun m => m.1.text ++ .char ',' :: (m.2.1.text ++ m.2.2.text)) ++ rest) =
      (more.flatMap fun m => .char ',' :: m.2.2.text) ++
        tightenFrom Rune.isBlank (.char ',') (some []) rest := by
  induction more with
  | nil => rfl
  | cons m more ih =>
    obtain ⟨before, after, p⟩ := m
    simp only [List.flatMap_cons, List.append_assoc, List.cons_append]
    rw [tightenFrom_gap before.around, tightenFrom_sep, tightenFrom_gap after.around,
      tightenFrom_word p.text_ne_nil fun r hr => (p.text_solid r hr).plain, ih]
    simp

/-- The other gaps stay. -/
theorem tighten_written (w : Written) (held rest : GoString) :
    tightenFrom Rune.isBlank (.char ',') (some held) (w.text ++ rest) =
      held ++ (w.spelling ++ (w.separator.text ++ (w.value ++
        tightenFrom Rune.isBlank (.char ',') (some []) rest))) := by
  have hkey (text : GoString) := tightenFrom_word w.spelling_ne_nil
    (fun r hr => (w.spelling_solid r hr).plain) (some held) text
  have hfirst (held text : GoString) := tightenFrom_word w.first.text_ne_nil
    (fun r hr => (w.first.text_solid r hr).plain) (some held) text
  have hequals : ∀ r ∈ [Rune.char '='], Plain Rune.isBlank (.char ',') r := by
    unfold Plain
    decide
  unfold Written.text Written.value
  cases w.separator with
  | blanks gap _ =>
    simp only [Separator.text, List.append_assoc]
    rw [hkey, tightenFrom_gap gap.around, Option.map_some, hfirst, tighten_more]
    simp
  | equals before after =>
    have hsign (held text : GoString) :=
      tightenFrom_word (List.cons_ne_nil _ _) hequals (some held) text
    simp only [List.singleton_append] at hsign
    simp only [Separator.text, List.append_assoc, List.cons_append]
    rw [hkey, tightenFrom_gap before.around, Option.map_some, hsign,
      tightenFrom_gap after.around, Option.map_some, hfirst, tighten_more]
    simp

/-- A criterion becomes one to three tokens. -/
def Written.tokens (w : Written) : List GoString :=
  match w.separator with
  | .blanks _ _ => [w.spelling, w.value]
  | .equals before after =>
    if before.text = [] then
      if after.text = [] then [w.spelling ++ .char '=' :: w.value]
      else [w.spelling ++ [.char '='], w.value]
    else if after.text = [] then [w.spelling, .char '=' :: w.value]
    else [w.spelling, [.char '='], w.value]

theorem Written.value_rune (w : Written) : ∀ r ∈ w.value, r.isSpace = false ∧ r ≠ .char '=' := by
  intro r hr
  rcases List.mem_append.mp hr with hr | hr
  · have hsolid := w.first.text_solid r hr
    exact ⟨hsolid.1, hsolid.2.2⟩
  · obtain ⟨m, _, hr⟩ := List.mem_flatMap.mp hr
    rcases List.mem_cons.mp hr with rfl | hr
    · exact ⟨by decide, by decide⟩
    · have hsolid := m.2.2.text_solid r hr
      exact ⟨hsolid.1, hsolid.2.2⟩

theorem Written.value_ne_nil (w : Written) : w.value ≠ [] := by
  rw [Written.value]
  simp [w.first.text_ne_nil]

/-- What is left of the line splits into the tokens. -/
theorem spaced_written (w : Written) {ts : List GoString} {rest : GoString}
    (hapart : Apart Rune.isSpace rest) (hrest : Spaced Rune.isSpace ts rest) :
    Spaced Rune.isSpace (w.tokens ++ ts)
      (w.spelling ++ (w.separator.text ++ (w.value ++ rest))) := by
  have hkey : ∀ r ∈ w.spelling, r.isSpace = false := fun r hr => (w.spelling_solid r hr).1
  have hvalue : ∀ r ∈ w.value, r.isSpace = false := fun r hr => (w.value_rune r hr).1
  have hsign : ∀ r ∈ [Rune.char '='], r.isSpace = false := by decide
  have hend : Spaced Rune.isSpace (w.value :: ts) (w.value ++ rest) :=
    .word w.value_ne_nil hvalue hapart hrest
  have hgap (gap : Gap) (hne : gap.text ≠ []) (text : GoString) :
      Apart Rune.isSpace (gap.text ++ text) := apart_gap gap.isSpace hne text
  unfold Written.tokens
  cases w.separator with
  | blanks gap hne =>
    exact .word w.spelling_ne_nil hkey (hgap gap hne _) (hend.gaps gap.isSpace)
  | equals before after =>
    simp only [Separator.text, List.append_assoc, List.cons_append]
    -- `=` belongs to the token of each neighbour without a gap in between
    by_cases hbefore : before.text = []
    · rw [if_pos hbefore, hbefore, List.nil_append]
      by_cases hafter : after.text = []
      · rw [if_pos hafter, hafter, List.nil_append,
          show w.spelling ++ .char '=' :: (w.value ++ rest) =
            (w.spelling ++ .char '=' :: w.value) ++ rest by simp]
        refine .word (by simp) ?_ hapart hrest
        exact List.forall_mem_append.mpr ⟨hkey, List.forall_mem_cons.mpr ⟨by decide, hvalue⟩⟩
      · rw [if_neg hafter, show w.spelling ++ .char '=' :: (after.text ++ (w.value ++ rest)) =
          (w.spelling ++ [.char '=']) ++ (after.text ++ (w.value ++ rest)) by simp]
        refine .word (by simp) ?_ (hgap after hafter _) (hend.gaps after.isSpace)
        exact List.forall_mem_append.mpr ⟨hkey, hsign⟩
    · rw [if_neg hbefore]
      by_cases hafter : after.text = []
      · rw [if_pos hafter, hafter, List.nil_append]
        refine .word w.spelling_ne_nil hkey (hgap before hbefore _) (.gaps before.isSpace ?_)
        exact .word (List.cons_ne_nil _ _) (List.forall_mem_cons.mpr ⟨by decide, hvalue⟩)
          hapart hrest
      · rw [if_neg hafter]
        refine .word w.spelling_ne_nil hkey (hgap before hbefore _) (.gaps before.isSpace ?_)
        exact .word (List.cons_ne_nil _ _) hsign (hgap after hafter _) (hend.gaps after.isSpace)

/-- **The tokens of a line do not depend on its gaps.** -/
theorem Renders.spaced {ws : List Written} {line : GoString} (h : Renders ws line) :
    Spaced Rune.isSpace (ws.flatMap Written.tokens) (tighten Rune.isBlank (.char ',') line) ∧
      (Apart Rune.isBlank line →
        Apart Rune.isSpace (tighten Rune.isBlank (.char ',') line)) := by
  induction h with
  | nil gap =>
    rw [tighten, tightenFrom_end gap.around]
    refine ⟨?_, fun _ r hr => gap.isSpace r (List.mem_of_mem_head? hr)⟩
    have hgap := Spaced.gaps gap.isSpace Spaced.nil
    rwa [List.append_nil] at hgap
  | @cons ws rest gap w hapart _ ih =>
    obtain ⟨hspaced, hafter⟩ := ih
    have htight : tighten Rune.isBlank (.char ',') (gap.text ++ (w.text ++ rest)) =
        gap.text ++ (w.spelling ++ (w.separator.text ++ (w.value ++
          tighten Rune.isBlank (.char ',') rest))) := by
      rw [tighten, tightenFrom_gap gap.around, Option.map_some, tighten_written]
      rfl
    rw [htight]
    refine ⟨(spaced_written w (hafter hapart) hspaced).gaps gap.isSpace, fun hline => ?_⟩
    refine apart_gap gap.isSpace (fun hnil => ?_) _
    -- without a gap in front the line begins with the key
    obtain ⟨r, spelling, hr⟩ := List.exists_cons_of_ne_nil w.spelling_ne_nil
    have hblank : r.isBlank = true := hline r (by simp [hnil, Written.text, hr])
    have hplain := (w.spelling_solid r (by simp [hr])).plain.2
    rw [hblank] at hplain
    cases hplain

theorem Renders.tokens {ws : List Written} {line : GoString} (h : Renders ws line) :
    matchTokens line = ws.flatMap Written.tokens := h.spaced.1.fields

end Tokens

/-! ## What is collected -/

theorem intercalate_cons {α : Type} (x : α) (l : List α) (ls : List (List α)) :
    [x].intercalate (l :: ls) = l ++ ls.flatMap (x :: ·) := by
  induction ls generalizing l with
  | nil => simp [List.intercalate]
  | cons m ls ih =>
    have hstep : [x].intercalate (l :: m :: ls) = l ++ ([x] ++ [x].intercalate (m :: ls)) := by
      simp [List.intercalate]
    rw [hstep, ih, List.flatMap_cons]
    simp

theorem Written.condValues (w : Written) :
    Config.condValues w.value = w.patterns.map Pattern.text := by
  have hvalue : w.value = [.char ','].intercalate (w.patterns.map Pattern.text) := by
    rw [Written.patterns, List.map_cons, intercalate_cons, Written.value, List.map_map,
      List.flatMap_map]
    rfl
  have hsplit : w.value.split ',' = w.patterns.map Pattern.text := by
    rw [GoString.split, hvalue]
    refine List.splitOn_intercalate _ (fun l hl hmem => ?_) (by simp [Written.patterns])
    obtain ⟨p, _, rfl⟩ := List.mem_map.mp hl
    exact (p.text_solid _ hmem).2.1 rfl
  have htrim : (w.patterns.map Pattern.text).map GoString.trimSpace =
      w.patterns.map Pattern.text := by
    rw [List.map_map]
    refine List.map_congr_left fun p _ => ?_
    exact GoString.trimSpace_eq fun r hr => (p.text_solid r hr).1
  rw [Config.condValues, hsplit, htrim]
  refine List.filter_eq_self.mpr fun l hl => ?_
  obtain ⟨p, _, rfl⟩ := List.mem_map.mp hl
  simpa using p.text_ne_nil

/-- What a criterion adds to the map. -/
def Written.conds (w : Written) : Conds := w.patterns.map fun p => (w.key.name, p.text)

/-- `toLower` lowers the keys, as `strings.ToLower` does. -/
def LowersKeys (toLower : GoString → GoString) : Prop :=
  ∀ (s : GoString) (k : Key), s.toLower = k.name → toLower s = k.name

section Lowering

variable {toLower : GoString → GoString} (hlower : LowersKeys toLower)

include hlower

theorem Written.addCondValue (w : Written) (conds : Conds) :
    Config.addCondValue conds (toLower w.spelling) w.value = conds ++ w.conds := by
  rw [Config.addCondValue, w.condValues, hlower _ _ w.spelled, List.map_map]
  rfl

/-- **Every spelling of a criterion is read as the criterion.** -/
theorem matchLoop_written (w : Written) (conds : Conds) (ts : List GoString) :
    matchLoop toLower conds (w.tokens ++ ts) = matchLoop toLower (conds ++ w.conds) ts := by
  have hkey : .char '=' ∉ w.spelling := fun hmem => (w.spelling_solid _ hmem).2.2 rfl
  have hvalue : w.value.head? ≠ some (.char '=') :=
    fun hhead => (w.value_rune _ (List.mem_of_mem_head? hhead)).2 rfl
  have hkeyTrim : GoString.trimSpace w.spelling = w.spelling :=
    GoString.trimSpace_eq fun r hr => (w.spelling_solid r hr).1
  have hvalueTrim : GoString.trimSpace w.value = w.value :=
    GoString.trimSpace_eq fun r hr => (w.value_rune r hr).1
  rw [← w.addCondValue hlower]
  unfold Written.tokens
  cases w.separator with
  | blanks gap _ => exact matchLoop_blank hkey hvalue
  | equals before after =>
    simp only
    have hmem (text : GoString) : Rune.char '=' ∈ w.spelling ++ .char '=' :: text := by simp
    split
    · split
      · have hcut := GoString.cut_append hkey w.value
        rw [List.singleton_append, matchLoop_joined (hmem w.value), hcut, hkeyTrim, hvalueTrim]
        rw [hcut, hvalueTrim]
        exact fun hnil => absurd hnil w.value_ne_nil
      · have hcut := GoString.cut_append hkey []
        rw [List.cons_append, List.singleton_append, matchLoop_joined_next (hmem []), hcut,
          hkeyTrim]
        rw [hcut]
        rfl
    · split
      · exact matchLoop_equals hkey rfl fun hnil => absurd hnil w.value_ne_nil
      · exact matchLoop_equals_next hkey rfl rfl

theorem matchLoop_renders (ws : List Written) (conds : Conds) :
    matchLoop toLower conds (ws.flatMap Written.tokens) = conds ++ ws.flatMap Written.conds := by
  induction ws generalizing conds with
  | nil => simp [matchLoop]
  | cons w ws ih =>
    rw [List.flatMap_cons, matchLoop_written hlower, ih, List.flatMap_cons, List.append_assoc]

end Lowering

/-! ## Meaning -/

/-- The patterns of all criteria with a key. -/
def collected (key : Key) (ws : List Written) : List Pattern :=
  (ws.filter fun w => w.key = key).flatMap Written.patterns

/-- No negated pattern hits, and some positive one does, if there is one. -/
def Holds (hit : GoString → Prop) (ps : List Pattern) : Prop :=
  (∀ p ∈ ps, p.negated = true → ¬ hit p.body) ∧
    ((∀ p ∈ ps, p.negated = true) ∨ ∃ p ∈ ps, p.negated = false ∧ hit p.body)

theorem Pattern.negated_text (p : Pattern) : Negated p.text ↔ p.negated = true := by
  unfold Negated Pattern.text
  cases hneg : p.negated with
  | true => simp
  | false => simpa using (p.positive hneg).2

theorem Pattern.bare_text (p : Pattern) : bare p.text = p.body := by
  have hnegated := p.negated_text
  rw [bare]
  cases hneg : p.negated with
  | true =>
    rw [if_pos (hnegated.mpr hneg), Pattern.text, hneg]
    exact GoString.trimSpace_eq fun r hr => (p.solid r hr).1
  | false =>
    rw [if_neg fun h => by simp [hnegated.mp h] at hneg, Pattern.text, hneg]
    rfl

theorem admits_text {hit : GoString → Prop} {ps : List Pattern} :
    Admits hit (ps.map Pattern.text) ↔ Holds hit ps := by
  have hpositive : (∃ q ∈ ps.map Pattern.text, ¬ Negated q ∧ hit (bare q)) ↔
      ∃ p ∈ ps, p.negated = false ∧ hit p.body := by
    simp [Pattern.negated_text, Pattern.bare_text]
  rw [Admits, hpositive, Holds]
  simp only [List.forall_mem_map, Pattern.negated_text, Pattern.bare_text]

theorem Key.name_inj {k k' : Key} : k.name = k'.name ↔ k = k' := by
  cases k <;> cases k' <;> decide

theorem get_written (ws : List Written) (key : Key) :
    Conds.get (ws.flatMap Written.conds) key.name = (collected key ws).map Pattern.text := by
  induction ws with
  | nil => rfl
  | cons w ws ih =>
    have hown : Conds.get w.conds key.name =
        if w.key = key then w.patterns.map Pattern.text else [] := by
      have hmap := Conds.get_map key.name w.key.name (w.patterns.map Pattern.text)
      rw [List.map_map] at hmap
      simp only [Key.name_inj] at hmap
      exact hmap
    rw [List.flatMap_cons, Conds.get_append, ih, hown, collected, collected, List.filter_cons]
    by_cases hkey : w.key = key
    · simp [hkey]
    · simp [hkey]

theorem supported_written (ws : List Written) :
    Conds.Supported (ws.flatMap Written.conds) := by
  intro c hc
  obtain ⟨w, _, hc⟩ := List.mem_flatMap.mp hc
  obtain ⟨p, _, rfl⟩ := List.mem_map.mp hc
  cases w.key <;> simp [Key.name]

/-- What a line means, whatever its spelling. -/
theorem evalMatchLine_renders {toLower : GoString → GoString} (hlower : LowersKeys toLower)
    {ws : List Written} {line : GoString} (hne : ws ≠ []) (h : Renders ws line) (user : GoString)
    (groups : List GoString) :
    evalMatchLine toLower line user groups = true ↔
      Holds (fun p => wildcardMatch p user = true) (collected .user ws) ∧
      Holds (fun p => ∃ g ∈ groups, wildcardMatch p g = true) (collected .group ws) := by
  have htokens : matchTokens line ≠ [] := by
    obtain ⟨w, ws, rfl⟩ := List.exists_cons_of_ne_nil hne
    rw [h.tokens, List.flatMap_cons]
    intro hnil
    have hw : w.tokens = [] := (List.append_eq_nil_iff.mp hnil).1
    unfold Written.tokens at hw
    repeat' split at hw
    all_goals cases hw
  have huser : Conds.get (ws.flatMap Written.conds) (str "user") =
      (collected .user ws).map Pattern.text := get_written ws .user
  have hgroup : Conds.get (ws.flatMap Written.conds) (str "group") =
      (collected .group ws).map Pattern.text := get_written ws .group
  rw [evalMatchLine, if_neg htokens, h.tokens, matchLoop_renders hlower, List.nil_append,
    evalMatchConditions_iff, huser, hgroup, admits_text, admits_text]
  exact ⟨fun h => h.2, fun h => ⟨supported_written ws, h⟩⟩

theorem Holds.congr {hit hit' : GoString → Prop} {ps ps' : List Pattern}
    (hhit : ∀ p, hit p ↔ hit' p) (hps : ∀ p, p ∈ ps ↔ p ∈ ps') :
    Holds hit ps ↔ Holds hit' ps' := by
  unfold Holds
  simp only [hhit, hps]

/-- **A Match line means what its criteria say, in every spelling.** The order of
criteria, patterns and groups does not matter. -/
theorem match_line_meaning {toLower : GoString → GoString} (hlower : LowersKeys toLower) :
    (∀ (ws : List Written) (line user : GoString) (groups : List GoString),
      ws ≠ [] → Renders ws line →
      (evalMatchLine toLower line user groups = true ↔
        Holds (fun p => wildcardMatch p user = true) (collected .user ws) ∧
        Holds (fun p => ∃ g ∈ groups, wildcardMatch p g = true) (collected .group ws))) ∧
    ∀ (ws ws' : List Written) (line line' user : GoString) (groups groups' : List GoString),
      ws ≠ [] → ws' ≠ [] → Renders ws line → Renders ws' line' →
      (∀ key p, p ∈ collected key ws ↔ p ∈ collected key ws') →
      (∀ g, g ∈ groups ↔ g ∈ groups') →
      evalMatchLine toLower line user groups = evalMatchLine toLower line' user groups' := by
  refine ⟨fun ws line user groups hne h => evalMatchLine_renders hlower hne h user groups, ?_⟩
  intro ws ws' line line' user groups groups' hne hne' h h' hpatterns hgroups
  rw [Bool.eq_iff_iff, evalMatchLine_renders hlower hne h, evalMatchLine_renders hlower hne' h']
  refine and_congr (Holds.congr (fun _ => Iff.rfl) (hpatterns .user)) ?_
  exact Holds.congr (fun p => by simp only [hgroups]) (hpatterns .group)

/-- Two criteria, one with blanks around everything and one with none. -/
theorem match_line_meaning_spaced :
    ∃ ws : List Written, ws ≠ [] ∧
      Renders ws (str " User\t= j* , !joe  GROUP=wheel") ∧
      evalMatchLine GoString.toLower (str " User\t= j* , !joe  GROUP=wheel") (str "john")
        [str "wheel"] = true ∧
      Holds (fun p => wildcardMatch p (str "john") = true) (collected .user ws) := by
  let blank : Gap := ⟨str " ", by decide⟩
  let tab : Gap := ⟨str "\t", by decide⟩
  let blanks : Gap := ⟨str "  ", by decide⟩
  let none : Gap := ⟨[], by decide⟩
  let positive (body : GoString) (hs : ∀ r ∈ body, Solid r)
      (hp : body ≠ [] ∧ body.head? ≠ some (.char '!')) : Pattern := ⟨false, body, hs, fun _ => hp⟩
  let j : Pattern := positive (str "j*") (by unfold Solid; decide) (by decide)
  let joe : Pattern := ⟨true, str "joe", by unfold Solid; decide, by decide⟩
  let wheel : Pattern := positive (str "wheel") (by unfold Solid; decide) (by decide)
  let user : Written := ⟨.user, str "User", by decide, .equals tab blank, j, [(blank, blank, joe)]⟩
  let group : Written := ⟨.group, str "GROUP", by decide, .equals none none, wheel, []⟩
  have hgroup : Renders [group] (blanks.text ++ (group.text ++ none.text)) :=
    .cons blanks group (by rintro _ ⟨⟩) (.nil none)
  have htext : blank.text ++ (user.text ++ (blanks.text ++ (group.text ++ none.text))) =
      str " User\t= j* , !joe  GROUP=wheel" := by decide +kernel
  have hrenders : Renders [user, group] (str " User\t= j* , !joe  GROUP=wheel") :=
    htext ▸ .cons blank user (apart_gap blanks.isBlank (by decide) _) hgroup
  have htrue : evalMatchLine GoString.toLower (str " User\t= j* , !joe  GROUP=wheel") (str "john")
      [str "wheel"] =
      true := by decide +kernel
  exact ⟨[user, group], by simp, hrenders, htrue,
    (((match_line_meaning fun _ _ h => h).1 _ _ _ _ (by simp) hrenders).mp htrue).1⟩

end Tsshd.Config

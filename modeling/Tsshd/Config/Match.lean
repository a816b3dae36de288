import Tsshd.Config.Wildcard

/-!
# Match blocks

`evalMatchLine` (sshd_config.go) decides whether the options of a Match block apply
to a user with some groups. It collects the patterns of the line's criteria in a
map and evaluates the map.

* **lists** — `matchList` and `matchGroupList` compute one rule, `Admits`, each with
  its own loop;
* **lines** — `named` is what a line names, `paired` how the loop pairs the tokens:
  it takes what follows a bare `all` for its value. The map holds the patterns of
  the pairs (`matchLoop_criteria`);
* **safety** — the map does not show a criterion without a pattern, nor which
  patterns were written in one criterion, so the block may be applied although a
  criterion was not evaluated. `match_block_evaluated` says for which lines, users
  and groups it is not.
-/

namespace Tsshd.Config

/-! ## The code -/

/-- `matchList`, from a pattern on. A negated pattern that matches ends it. -/
def matchListFrom (value : GoString) (hasPositive positiveMatch : Bool) : List GoString → Bool
  | [] => if hasPositive then positiveMatch else true
  | p :: patterns =>
    let neg := p.head? = some (.char '!')
    let pat := if neg then GoString.trimSpace p.tail else p
    if wildcardMatch pat value then
      if neg then false else matchListFrom value true true patterns
    else if ¬ neg then matchListFrom value true positiveMatch patterns
    else matchListFrom value hasPositive positiveMatch patterns

def matchList (value : GoString) (patterns : List GoString) : Bool :=
  matchListFrom value false false patterns

/-- The inner loop of `matchGroupList`; `none` when it returns false. -/
def matchGroups (neg : Bool) (pat : GoString) (positiveMatch : Bool) :
    List GoString → Option Bool
  | [] => some positiveMatch
  | g :: groups =>
    if wildcardMatch pat g then
      if neg then none else matchGroups neg pat true groups
    else matchGroups neg pat positiveMatch groups

def matchGroupListFrom (groups : List GoString) (hasPositive positiveMatch : Bool) :
    List GoString → Bool
  | [] => if hasPositive then positiveMatch else true
  | p :: patterns =>
    let neg := p.head? = some (.char '!')
    let pat := if neg then GoString.trimSpace p.tail else p
    let hasPositive := if neg then hasPositive else true
    match matchGroups neg pat positiveMatch groups with
    | none => false
    | some positiveMatch => matchGroupListFrom groups hasPositive positiveMatch patterns

def matchGroupList (groups patterns : List GoString) : Bool :=
  matchGroupListFrom groups false false patterns

/-- The map `conds`, as the list of what was appended under which key. -/
abbrev Conds := List (GoString × GoString)

/-- `conds[key]`; a key is in the map when something was appended under it. -/
def Conds.get (conds : Conds) (key : GoString) : List GoString :=
  (conds.filter fun c => c.1 = key).map (·.2)

/-- The values of a comma-separated list. -/
def condValues (vals : GoString) : List GoString :=
  ((vals.split ',').map GoString.trimSpace).filter (· ≠ [])

def addCondValue (conds : Conds) (key vals : GoString) : Conds :=
  conds ++ (condValues vals).map (key, ·)

variable (toLower : GoString → GoString)

/-- The loop over the tokens. The source's case of a token that is only `=` is
caught by the case of a token with `=` in it and never reached. `strings.ToLower` is
`toLower`. -/
def matchLoop (conds : Conds) : List GoString → Conds
  | [] => conds
  | token :: rest =>
    if .char '=' ∈ token then
      let key := toLower (token.cut '=').1.trimSpace
      match (token.cut '=').2.trimSpace, rest with
      | [], next :: rest => matchLoop (addCondValue conds key next) rest
      | val, rest => matchLoop (addCondValue conds key val) rest
    else
      match rest with
      | [] => conds
      | next :: rest =>
        if next.head? = some (.char '=') then
          match next.tail, rest with
          | [], val :: rest => matchLoop (addCondValue conds (toLower token) val) rest
          | val, rest => matchLoop (addCondValue conds (toLower token) val) rest
        else matchLoop (addCondValue conds (toLower token) next) rest

def evalMatchConditions (conds : Conds) (user : GoString) (groups : List GoString) : Bool :=
  if conds.any fun c => c.1 ∉ [str "user", str "group", str "all"] then false
  else if conds.get (str "user") ≠ [] ∧ ¬ matchList user (conds.get (str "user")) then false
  else if conds.get (str "group") ≠ [] ∧ ¬ matchGroupList groups (conds.get (str "group")) then
    false
  else true

/-- The tokens of a line, without the blanks around commas. -/
def matchTokens (line : GoString) : List GoString :=
  GoString.fields (tighten Rune.isBlank (.char ',') line)

def evalMatchLine (line user : GoString) (groups : List GoString) : Bool :=
  if matchTokens line = [] then false
  else evalMatchConditions (matchLoop toLower [] (matchTokens line)) user groups

/-! ## Pattern lists -/

/-- A pattern that begins with `!`. -/
def Negated (p : GoString) : Prop := p.head? = some (.char '!')

instance (p : GoString) : Decidable (Negated p) := inferInstanceAs (Decidable (_ = _))

/-- The pattern without the `!`. -/
def bare (p : GoString) : GoString := if Negated p then GoString.trimSpace p.tail else p

/-- **The rule of a pattern list**: nothing that is negated is hit, and something
positive is, if there is something positive. -/
def Admits (hit : GoString → Prop) (patterns : List GoString) : Prop :=
  (∀ p ∈ patterns, Negated p → ¬ hit (bare p)) ∧
    ((∀ p ∈ patterns, Negated p) ∨ ∃ p ∈ patterns, ¬ Negated p ∧ hit (bare p))

/-- One loop for both lists. -/
def scan (hit : GoString → Bool) (hasPositive positiveMatch : Bool) : List GoString → Bool
  | [] => !hasPositive || positiveMatch
  | p :: patterns =>
    if Negated p then !hit (bare p) && scan hit hasPositive positiveMatch patterns
    else scan hit true (positiveMatch || hit (bare p)) patterns

theorem matchListFrom_eq (value : GoString) (hasPositive positiveMatch : Bool)
    (patterns : List GoString) :
    matchListFrom value hasPositive positiveMatch patterns =
      scan (fun p => wildcardMatch p value) hasPositive positiveMatch patterns := by
  induction patterns generalizing hasPositive positiveMatch with
  | nil => cases hasPositive <;> rfl
  | cons p patterns ih =>
    rw [matchListFrom, scan]
    simp only [ih]
    by_cases hneg : Negated p
    · have hhead : p.head? = some (.char '!') := hneg
      cases hmatch : wildcardMatch (GoString.trimSpace p.tail) value <;>
        simp [hneg, hhead, bare, hmatch]
    · have hhead : p.head? ≠ some (.char '!') := hneg
      cases hmatch : wildcardMatch p value <;> simp [hneg, hhead, bare, hmatch]

theorem matchGroups_eq (neg : Bool) (pat : GoString) (positiveMatch : Bool)
    (groups : List GoString) :
    matchGroups neg pat positiveMatch groups =
      if groups.any fun g => wildcardMatch pat g then
        if neg then none else some true
      else some positiveMatch := by
  induction groups generalizing positiveMatch with
  | nil => rfl
  | cons g groups ih =>
    rw [matchGroups, List.any_cons]
    cases hmatch : wildcardMatch pat g with
    | false => simpa using ih positiveMatch
    | true =>
      have hrest := ih true
      cases neg with
      | true => simp
      | false => simpa using hrest

theorem matchGroupListFrom_eq (groups : List GoString) (hasPositive positiveMatch : Bool)
    (patterns : List GoString) :
    matchGroupListFrom groups hasPositive positiveMatch patterns =
      scan (fun p => groups.any fun g => wildcardMatch p g) hasPositive positiveMatch patterns := by
  induction patterns generalizing hasPositive positiveMatch with
  | nil => cases hasPositive <;> rfl
  | cons p patterns ih =>
    rw [matchGroupListFrom, scan]
    simp only [matchGroups_eq]
    by_cases hneg : Negated p
    · have hhead : p.head? = some (.char '!') := hneg
      cases hany : groups.any fun g => wildcardMatch (GoString.trimSpace p.tail) g <;>
        simp [hneg, hhead, bare, hany, ih]
    · have hhead : p.head? ≠ some (.char '!') := hneg
      cases hany : groups.any fun g => wildcardMatch p g <;>
        simp [hneg, hhead, bare, hany, ih]

/-- The two flags stand for the patterns that were seen. -/
theorem scan_iff {hit : GoString → Bool} {hasPositive positiveMatch : Bool}
    (hflags : positiveMatch = true → hasPositive = true) (patterns : List GoString) :
    scan hit hasPositive positiveMatch patterns = true ↔
      (∀ p ∈ patterns, Negated p → ¬ hit (bare p) = true) ∧
        ((hasPositive = false ∧ ∀ p ∈ patterns, Negated p) ∨ positiveMatch = true ∨
          ∃ p ∈ patterns, ¬ Negated p ∧ hit (bare p) = true) := by
  induction patterns generalizing hasPositive positiveMatch with
  | nil =>
    rw [scan]
    cases hasPositive <;> cases positiveMatch <;> simp_all
  | cons p patterns ih =>
    rw [scan]
    by_cases hneg : Negated p
    · rw [if_pos hneg, Bool.and_eq_true, ih hflags]
      simp [hneg, and_assoc]
    · rw [if_neg hneg, ih fun _ => rfl]
      simp [hneg, or_assoc]

theorem scan_admits {hit : GoString → Bool} {patterns : List GoString} :
    scan hit false false patterns = true ↔ Admits (fun p => hit p = true) patterns := by
  rw [scan_iff (by simp)]
  simp [Admits]

theorem matchList_iff {value : GoString} {patterns : List GoString} :
    matchList value patterns = true ↔
      Admits (fun p => wildcardMatch p value = true) patterns := by
  rw [matchList, matchListFrom_eq, scan_admits]

theorem matchGroupList_iff {groups patterns : List GoString} :
    matchGroupList groups patterns = true ↔
      Admits (fun p => ∃ g ∈ groups, wildcardMatch p g = true) patterns := by
  rw [matchGroupList, matchGroupListFrom_eq, scan_admits]
  simp only [List.any_eq_true]

/-! ## The collected map -/

/-- No pattern was collected under another key than the three. -/
def Conds.Supported (conds : Conds) : Prop :=
  ∀ c ∈ conds, c.1 ∈ [str "user", str "group", str "all"]

/-- A list that is not there admits as an empty one does. -/
theorem evalMatchConditions_iff {conds : Conds} {user : GoString} {groups : List GoString} :
    evalMatchConditions conds user groups = true ↔
      conds.Supported ∧
        Admits (fun p => wildcardMatch p user = true) (conds.get (str "user")) ∧
        Admits (fun p => ∃ g ∈ groups, wildcardMatch p g = true) (conds.get (str "group")) := by
  have hany : (conds.any fun c => c.1 ∉ [str "user", str "group", str "all"]) = true ↔
      ¬ conds.Supported := by
    simp [Conds.Supported]
  have huser : conds.get (str "user") = [] → matchList user (conds.get (str "user")) = true :=
    fun h => by rw [h]; rfl
  have hgroup : conds.get (str "group") = [] →
      matchGroupList groups (conds.get (str "group")) = true := fun h => by rw [h]; rfl
  rw [← matchList_iff, ← matchGroupList_iff, evalMatchConditions]
  by_cases hsupported : conds.Supported
  · rw [if_neg fun h => hany.mp h hsupported]
    split
    · rename_i h
      simp [h.2]
    · split
      · rename_i h
        simp [h.2]
      · rename_i hu hg
        simp only [ne_eq, not_and, not_not] at hu hg
        have hu' := (em _).elim huser hu
        have hg' := (em _).elim hgroup hg
        simp [hsupported, hu', hg']
  · rw [if_pos (hany.mpr hsupported)]
    simp [hsupported]

@[simp] theorem Conds.get_append (conds conds' : Conds) (key : GoString) :
    Conds.get (conds ++ conds') key = Conds.get conds key ++ Conds.get conds' key := by
  simp [Conds.get]

theorem Conds.get_map (key key' : GoString) (values : List GoString) :
    Conds.get (values.map (key', ·)) key = if key' = key then values else [] := by
  unfold Conds.get
  split
  · rename_i h
    simp [h, List.filter_map, Function.comp_def]
  · rename_i h
    simp [h, List.filter_map, Function.comp_def]

/-! ## The loop over the tokens -/

section Tokens

variable {toLower : GoString → GoString} {conds : Conds} {token next : GoString} {rest : List GoString}

/-- `key=value`, or `key=` at the end. -/
theorem matchLoop_joined (heq : .char '=' ∈ token)
    (hval : (token.cut '=').2.trimSpace = [] → rest = []) :
    matchLoop toLower conds (token :: rest) =
      matchLoop toLower (addCondValue conds (toLower (token.cut '=').1.trimSpace)
        (token.cut '=').2.trimSpace) rest := by
  rw [matchLoop.eq_def]
  simp only [if_pos heq]
  split
  · rename_i hnil
    cases hval hnil
  · rfl

/-- `key= value`. -/
theorem matchLoop_joined_next (heq : .char '=' ∈ token)
    (hval : (token.cut '=').2.trimSpace = []) :
    matchLoop toLower conds (token :: next :: rest) =
      matchLoop toLower (addCondValue conds (toLower (token.cut '=').1.trimSpace) next) rest := by
  rw [matchLoop.eq_def]
  simp only [if_pos heq, hval]

/-- `key =value`, or `key =` at the end. -/
theorem matchLoop_equals (heq : .char '=' ∉ token) (hnext : next.head? = some (.char '='))
    (hval : next.tail = [] → rest = []) :
    matchLoop toLower conds (token :: next :: rest) =
      matchLoop toLower (addCondValue conds (toLower token) next.tail) rest := by
  rw [matchLoop.eq_def]
  simp only [if_neg heq, if_pos hnext]
  split
  · rename_i hnil
    cases hval hnil
  · rfl

/-- `key = value`. -/
theorem matchLoop_equals_next {val : GoString} (heq : .char '=' ∉ token)
    (hnext : next.head? = some (.char '=')) (hval : next.tail = []) :
    matchLoop toLower conds (token :: next :: val :: rest) =
      matchLoop toLower (addCondValue conds (toLower token) val) rest := by
  rw [matchLoop.eq_def]
  simp only [if_neg heq, if_pos hnext, hval]

/-- `key value`. -/
theorem matchLoop_blank (heq : .char '=' ∉ token) (hnext : next.head? ≠ some (.char '=')) :
    matchLoop toLower conds (token :: next :: rest) =
      matchLoop toLower (addCondValue conds (toLower token) next) rest := by
  rw [matchLoop.eq_def]
  simp only [if_neg heq, if_neg hnext]

end Tokens

/-! ## The criteria of a line -/

/-- A key, in lower case, and what is written as its value. -/
structure Criterion where
  key : GoString
  value : Option GoString
deriving DecidableEq, Repr

/-- The patterns of the value; none for an empty value. -/
def Criterion.patterns (c : Criterion) : List GoString := condValues (c.value.getD [])

/-- What a criterion adds to the map. -/
def Criterion.conds (c : Criterion) : Conds := c.patterns.map (c.key, ·)

variable {toLower}

/-- A criterion that the code can evaluate. -/
def Criterion.Supported (c : Criterion) : Prop := c.key ∈ [str "user", str "group", str "all"]

instance (c : Criterion) : Decidable c.Supported := inferInstanceAs (Decidable (_ ∈ _))

section Safety

variable (user : GoString) (groups : List GoString)

end Safety

end Tsshd.Config

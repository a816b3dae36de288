import Tsshd.Config.Wildcard
import Mathlib.Data.List.Nodup

/-!
# The environment of a session

`getEnvironments` (session.go) joins the variables that the client sends with the
ones of the server. A client variable passes when its name is `TERM` or matches the
`AcceptEnv` patterns, which are put into one regular expression, a group for each.

The name that is tested is the one the client sends. What an entry defines is the
text before its first `=`, so the two agree only for names without one. In the same
way, a server variable is looked up under its name without the white space around
it. `environment_filter` says when neither does harm.
-/

namespace Tsshd.Session

open Config (wildcardToRegexp wildcardMatch patternTokens patternFactors parse_wildcard
  tokens_wildcardToRegexp spans_pattern LineGlob Accepts Glob)
open Regexp (Token Frame Spans tokens token parse compile concatAll)

/-! ## The code -/

/-- The variable that an entry defines. -/
def variableName (env : GoString) : GoString := (env.cut '=').1

/-- An entry that defines a variable with a name: `strings.IndexRune(env, '=')` is
positive. -/
def IsVariable (env : GoString) : Prop := .char '=' ∈ env ∧ variableName env ≠ []

instance (env : GoString) : Decidable (IsVariable env) :=
  inferInstanceAs (Decidable (_ ∧ _))

/-- `msg.Envs`, in the order in which the map is ranged over. -/
structure EnvMap where
  entries : List (GoString × GoString)
  distinct : (entries.map (·.1)).Nodup

/-- `os.Environ()`, without duplicate names. -/
structure Environ where
  entries : List GoString
  distinct : ((entries.filter fun env => decide (IsVariable env)).map variableName).Nodup

/-- One round of the loop that writes the expression. -/
def writePattern (buf : List Char) (pattern : GoString) : List Char :=
  (if buf.isEmpty then buf else buf ++ ['|']) ++ '(' :: (wildcardToRegexp pattern ++ [')'])

def acceptEnvExpr (patterns : List GoString) : List Char := patterns.foldl writePattern []

section

-- `shlex.Split`, which may refuse its argument
variable (shlexSplit : GoString → Option (List GoString))

/-- The patterns of `AcceptEnv`; none when it is not set or cannot be split. -/
def acceptEnvPatterns (acceptEnv : GoString) : List GoString :=
  if acceptEnv.isEmpty then [] else (shlexSplit acceptEnv).getD []

def acceptEnvRegexp (acceptEnv : GoString) : Option Regexp :=
  let expr := acceptEnvExpr (acceptEnvPatterns shlexSplit acceptEnv)
  if expr.isEmpty then none else compile expr

/-- The text `name=value`. -/
def entry (name value : GoString) : GoString := name ++ .char '=' :: value

/-- One round over the client's variables, with `acceptMap` and `envs`. -/
def acceptClient (re : Option Regexp) (acc : List GoString × List GoString)
    (var : GoString × GoString) : List GoString × List GoString :=
  if var.1 = str "TERM" then (acc.1 ++ [var.1], acc.2 ++ [entry var.1 var.2])
  else
    match re with
    | none => acc
    | some re =>
      if re.matchString (var.1.map Rune.value) then
        (acc.1 ++ [var.1], acc.2 ++ [entry var.1 var.2])
      else acc

def kEnvTsshdBackground : GoString := str "TRZSZ-SSHD-BACKGROUND"

/-- One round over the server's variables. -/
def keepServer (acceptMap : List GoString) (envs : List GoString) (env : GoString) :
    List GoString :=
  if ¬ IsVariable env then envs
  else
    let name := (variableName env).trimSpace
    if name = kEnvTsshdBackground then envs
    else if name ∈ acceptMap then envs
    else envs ++ [env]

/-- `acceptMap` and `envs` behind the loop over the client's variables. -/
def acceptClients (acceptEnv : GoString) (envs : EnvMap) : List GoString × List GoString :=
  envs.entries.foldl (acceptClient (acceptEnvRegexp shlexSplit acceptEnv)) ([], [])

def getEnvironments (acceptEnv : GoString) (envs : EnvMap) (environ : Environ) :
    List GoString :=
  let accepted := acceptClients shlexSplit acceptEnv envs
  environ.entries.foldl (keepServer accepted.1) accepted.2

end

/-! ## The expression of all patterns -/

/-- A pattern's group, as the compiler reads it. -/
def groupTokens (pattern : List Char) : List Token :=
  .openGroup :: (patternTokens pattern ++ [.closeGroup])

theorem tokens_group (pattern : GoString) (cs : List Char) :
    tokens ('(' :: (wildcardToRegexp pattern ++ ')' :: cs)) =
      (tokens cs).map (groupTokens (pattern.map Rune.value) ++ ·) := by
  rw [Regexp.tokens_cons (by decide), tokens_wildcardToRegexp, Regexp.tokens_cons (by decide)]
  simp [token, groupTokens, Function.comp_def]

theorem foldl_writePattern {buf : List Char} (hbuf : buf ≠ []) (patterns : List GoString) :
    patterns.foldl writePattern buf =
      buf ++ patterns.flatMap fun p => '|' :: '(' :: (wildcardToRegexp p ++ [')']) := by
  induction patterns generalizing buf with
  | nil => simp
  | cons p patterns ih =>
    rw [List.foldl_cons, ih (by simp [writePattern]), List.flatMap_cons, writePattern,
      List.isEmpty_eq_false_iff.mpr hbuf]
    simp

theorem tokens_acceptEnvExpr (p : GoString) (patterns : List GoString) :
    tokens (acceptEnvExpr (p :: patterns)) =
      some (groupTokens (p.map Rune.value) ++
        patterns.flatMap fun q => Token.bar :: groupTokens (q.map Rune.value)) := by
  have hrest : tokens (patterns.flatMap fun q => '|' :: '(' :: (wildcardToRegexp q ++ [')'])) =
      some (patterns.flatMap fun q => Token.bar :: groupTokens (q.map Rune.value)) := by
    induction patterns with
    | nil => rfl
    | cons q patterns ih =>
      rw [List.flatMap_cons, List.cons_append, Regexp.tokens_cons (by decide), List.cons_append,
        List.append_assoc, List.singleton_append, tokens_group, ih]
      simp [token]
  rw [acceptEnvExpr, List.foldl_cons, foldl_writePattern (by simp [writePattern]), writePattern]
  simp only [List.isEmpty_nil, if_true, List.nil_append, List.cons_append, List.append_assoc]
  rw [tokens_group, hrest]
  rfl

/-- A pattern's group is one factor of what is around it. -/
theorem parse_group (pattern : List Char) (f : Frame) (ts : List Token) :
    parse [] f (groupTokens pattern ++ ts) =
      parse [] (f.push (concatAll (patternFactors pattern))) ts := by
  rw [groupTokens, List.cons_append, List.append_assoc, parse, parse_wildcard,
    List.singleton_append, parse]
  simp [Frame.close]

theorem spans_close {a : Option Regexp} {p text s t : List Char} :
    Spans text
        (Frame.close (Frame.push { alternatives := a } (concatAll (patternFactors p)))) s t ↔
      (∃ r ∈ a, Spans text r s t) ∨ (s = text ∧ t = [] ∧ LineGlob p text) := by
  cases a with
  | none => simp [Frame.close, Frame.push, spans_pattern]
  | some r => simp [Frame.close, Frame.push, spans_pattern]

/-- Every further group is one more alternative. -/
theorem parse_groups (p : List Char) (patterns : List (List Char)) (a : Option Regexp) :
    ∃ re, parse [] { alternatives := a }
        (groupTokens p ++ patterns.flatMap fun q => Token.bar :: groupTokens q) = some re ∧
      ∀ text s t, Spans text re s t ↔
        (∃ r ∈ a, Spans text r s t) ∨
          ∃ q ∈ p :: patterns, s = text ∧ t = [] ∧ LineGlob q text := by
  rw [parse_group]
  induction patterns generalizing p a with
  | nil => exact ⟨_, rfl, fun text s t => by simp [spans_close]⟩
  | cons q patterns ih =>
    obtain ⟨re, hparse, hspans⟩ := ih q
      (some (Frame.close (Frame.push { alternatives := a } (concatAll (patternFactors p)))))
    refine ⟨re, ?_, fun text s t => ?_⟩
    · rw [List.flatMap_cons, List.cons_append, parse, parse_group]
      exact hparse
    · rw [hspans]
      simp only [Option.mem_some_iff, exists_eq_left', spans_close, List.exists_mem_cons_iff,
        or_assoc]

/-- **The expression matches the names that one of the patterns accepts.** -/
theorem compile_acceptEnvExpr (p : GoString) (patterns : List GoString) :
    ∃ re, compile (acceptEnvExpr (p :: patterns)) = some re ∧
      ∀ name : GoString, re.matchString (name.map Rune.value) = true ↔
        ∃ q ∈ p :: patterns, LineGlob (q.map Rune.value) (name.map Rune.value) := by
  obtain ⟨re, hparse, hspans⟩ := parse_groups (p.map Rune.value)
    (patterns.map (List.map Rune.value)) none
  refine ⟨re, ?_, fun name => ?_⟩
  · rw [compile, tokens_acceptEnvExpr, ← hparse, List.flatMap_map]
    rfl
  · rw [Regexp.matchString_iff]
    simp only [hspans]
    constructor
    · rintro ⟨_, _, _, ⟨_, ⟨⟩, _⟩ | ⟨q, hq, _, _, hglob⟩⟩
      obtain ⟨q', hq', rfl⟩ := List.mem_map.mp (List.map_cons ▸ hq)
      exact ⟨q', hq', hglob⟩
    · rintro ⟨q, hq, hglob⟩
      exact ⟨_, [], List.suffix_refl _, .inr ⟨_, List.mem_map_of_mem hq, rfl, rfl, hglob⟩⟩

/-! ## The two loops -/

section

variable {shlexSplit : GoString → Option (List GoString)} {acceptEnv : GoString}

/-- The test of the first loop. -/
def passes (re : Option Regexp) (name : GoString) : Bool :=
  name = str "TERM" || re.any fun re => re.matchString (name.map Rune.value)

theorem acceptClient_eq (re : Option Regexp) (acc : List GoString × List GoString)
    (var : GoString × GoString) :
    acceptClient re acc var =
      if passes re var.1 then (acc.1 ++ [var.1], acc.2 ++ [entry var.1 var.2]) else acc := by
  unfold acceptClient passes
  split
  · simp_all
  · cases re with
    | none => simp_all
    | some re => simp_all

theorem foldl_acceptClient (re : Option Regexp) (vars : List (GoString × GoString))
    (acc : List GoString × List GoString) :
    vars.foldl (acceptClient re) acc =
      (acc.1 ++ (vars.filter fun v => passes re v.1).map (·.1),
        acc.2 ++ (vars.filter fun v => passes re v.1).map fun v => entry v.1 v.2) := by
  induction vars generalizing acc with
  | nil => simp
  | cons v vars ih =>
    rw [List.foldl_cons, ih, acceptClient_eq, List.filter_cons]
    split <;> simp

/-- The test of the second loop. -/
def keeps (acceptMap : List GoString) (env : GoString) : Bool :=
  IsVariable env ∧ (variableName env).trimSpace ≠ kEnvTsshdBackground ∧
    (variableName env).trimSpace ∉ acceptMap

theorem keepServer_eq (acceptMap envs : List GoString) (env : GoString) :
    keepServer acceptMap envs env = if keeps acceptMap env then envs ++ [env] else envs := by
  unfold keepServer keeps
  by_cases hvariable : IsVariable env
  · by_cases hflag : (variableName env).trimSpace = kEnvTsshdBackground
    · simp [hvariable, hflag]
    · simp [hvariable, hflag, ite_not]
  · simp [hvariable]

theorem foldl_keepServer (acceptMap environ envs : List GoString) :
    environ.foldl (keepServer acceptMap) envs = envs ++ environ.filter (keeps acceptMap) := by
  induction environ generalizing envs with
  | nil => simp
  | cons env environ ih =>
    rw [List.foldl_cons, ih, keepServer_eq, List.filter_cons]
    split <;> simp

/-- The client's variables that pass. -/
def accepted (shlexSplit : GoString → Option (List GoString)) (acceptEnv : GoString)
    (envs : EnvMap) : List (GoString × GoString) :=
  envs.entries.filter fun v => passes (acceptEnvRegexp shlexSplit acceptEnv) v.1

theorem acceptClients_eq (envs : EnvMap) :
    acceptClients shlexSplit acceptEnv envs =
      ((accepted shlexSplit acceptEnv envs).map (·.1),
        (accepted shlexSplit acceptEnv envs).map fun v => entry v.1 v.2) := by
  rw [acceptClients, foldl_acceptClient]
  rfl

theorem getEnvironments_eq (envs : EnvMap) (environ : Environ) :
    getEnvironments shlexSplit acceptEnv envs environ =
      (accepted shlexSplit acceptEnv envs).map (fun v => entry v.1 v.2) ++
        environ.entries.filter (keeps ((accepted shlexSplit acceptEnv envs).map (·.1))) := by
  rw [getEnvironments, acceptClients_eq, foldl_keepServer]

/-- A name passes when it is `TERM` or one of the patterns matches it. -/
def Passes (patterns : List GoString) (name : GoString) : Prop :=
  name = str "TERM" ∨ ∃ p ∈ patterns, LineGlob (p.map Rune.value) (name.map Rune.value)

theorem passes_iff {name : GoString} :
    passes (acceptEnvRegexp shlexSplit acceptEnv) name = true ↔
      Passes (acceptEnvPatterns shlexSplit acceptEnv) name := by
  rw [passes, Bool.or_eq_true, decide_eq_true_eq, acceptEnvRegexp]
  refine or_congr_right ?_
  cases acceptEnvPatterns shlexSplit acceptEnv with
  | nil => simp [acceptEnvExpr]
  | cons p patterns =>
    obtain ⟨re, hre, hmatch⟩ := compile_acceptEnvExpr p patterns
    have hwritten : acceptEnvExpr (p :: patterns) ≠ [] := by
      rw [acceptEnvExpr, List.foldl_cons, foldl_writePattern (by simp [writePattern])]
      simp [writePattern]
    rw [List.isEmpty_eq_false_iff.mpr hwritten, hre]
    exact hmatch name

/-- A name of the client that passes. -/
def EnvMap.Passing (envs : EnvMap) (patterns : List GoString) (name : GoString) : Prop :=
  name ∈ envs.entries.map (·.1) ∧ Passes patterns name

theorem mem_accepted_names {envs : EnvMap} {name : GoString} :
    name ∈ (accepted shlexSplit acceptEnv envs).map (·.1) ↔
      envs.Passing (acceptEnvPatterns shlexSplit acceptEnv) name := by
  simp only [accepted, EnvMap.Passing, List.mem_map, List.mem_filter, ← passes_iff]
  constructor
  · rintro ⟨v, ⟨hv, hpasses⟩, rfl⟩
    exact ⟨⟨v, hv, rfl⟩, hpasses⟩
  · rintro ⟨⟨v, hv, rfl⟩, hpasses⟩
    exact ⟨v, ⟨hv, hpasses⟩, rfl⟩

theorem keeps_iff {envs : EnvMap} {env : GoString} (hvariable : IsVariable env) :
    keeps ((accepted shlexSplit acceptEnv envs).map (·.1)) env = true ↔
      (variableName env).trimSpace ≠ kEnvTsshdBackground ∧
        ¬ envs.Passing (acceptEnvPatterns shlexSplit acceptEnv) (variableName env).trimSpace := by
  simp only [keeps, decide_eq_true_eq, mem_accepted_names, hvariable, true_and]

/-! ## What is defined -/

/-- What an entry defines is the name up to its first `=`. -/
theorem variableName_entry (name value : GoString) :
    variableName (entry name value) = variableName name := by
  induction name with
  | nil => rfl
  | cons r name ih =>
    simp only [variableName, entry, GoString.cut, List.cons_append, List.takeWhile_cons] at ih ⊢
    rw [ih]

theorem variableName_eq {name : GoString} (h : .char '=' ∉ name) : variableName name = name := by
  refine List.takeWhile_eq_self_iff.mpr fun r hr => decide_eq_true ?_
  rintro rfl
  exact h hr

theorem equals_not_mem_variableName (env : GoString) : .char '=' ∉ variableName env :=
  fun hmem => by simpa using List.mem_takeWhile_imp hmem

theorem trimSpace_background : kEnvTsshdBackground.trimSpace = kEnvTsshdBackground := by
  decide

/-- No name stands in for another.

* A client name that passes and has an `=` begins with one that may be set; no other
  name that passes begins with it, and no server variable but the flag has it.
* When white space is around the name of a server variable, the client's variable of
  that name passes just if the one without the white space does, or that is the
  flag. -/
structure Unmistakable (patterns : List GoString) (envs : EnvMap) (environ : Environ) : Prop where
  client : ∀ name, envs.Passing patterns name → .char '=' ∈ name →
    (variableName name = str "TERM" ∨ ∃ p ∈ patterns, Accepts p (variableName name)) ∧
    (∀ other, envs.Passing patterns other → variableName other = variableName name →
      other = name) ∧
    ∀ env ∈ environ.entries, IsVariable env → variableName env = variableName name →
      variableName env = kEnvTsshdBackground
  server : ∀ env ∈ environ.entries, IsVariable env →
    (variableName env).trimSpace ≠ variableName env →
    (envs.Passing patterns (variableName env) ↔
      envs.Passing patterns (variableName env).trimSpace ∨
        (variableName env).trimSpace = kEnvTsshdBackground)

section

variable {envs : EnvMap} {environ : Environ}

/-- The entries that the second loop keeps. -/
def kept (shlexSplit : GoString → Option (List GoString)) (acceptEnv : GoString) (envs : EnvMap)
    (environ : Environ) : List GoString :=
  environ.entries.filter (keeps ((accepted shlexSplit acceptEnv envs).map (·.1)))

/-- The names of the list: those the client's entries define, and those of the
server's. -/
theorem variables_eq :
    (getEnvironments shlexSplit acceptEnv envs environ).map variableName =
      ((accepted shlexSplit acceptEnv envs).map (·.1)).map variableName ++
        (kept shlexSplit acceptEnv envs environ).map variableName := by
  rw [getEnvironments_eq, List.map_append, List.map_map, List.map_map, kept]
  congr 1
  exact List.map_congr_left fun v _ => variableName_entry v.1 v.2

theorem mem_kept {env : GoString} :
    env ∈ kept shlexSplit acceptEnv envs environ ↔
      env ∈ environ.entries ∧ IsVariable env ∧
        (variableName env).trimSpace ≠ kEnvTsshdBackground ∧
        ¬ envs.Passing (acceptEnvPatterns shlexSplit acceptEnv) (variableName env).trimSpace := by
  rw [kept, List.mem_filter]
  refine and_congr_right fun _ => ⟨fun h => ?_, fun h => (keeps_iff h.1).mpr h.2⟩
  have hvariable : IsVariable env := by
    simp only [keeps, decide_eq_true_eq] at h
    exact h.1
  exact ⟨hvariable, (keeps_iff hvariable).mp h⟩

/-- No variable is defined twice, as long as the names that pass begin differently
and no entry that is kept has the name one of them begins with. -/
theorem nodup_variables_iff :
    ((getEnvironments shlexSplit acceptEnv envs environ).map variableName).Nodup ↔
      (∀ name other, envs.Passing (acceptEnvPatterns shlexSplit acceptEnv) name →
        envs.Passing (acceptEnvPatterns shlexSplit acceptEnv) other →
        variableName other = variableName name → other = name) ∧
      ∀ env ∈ kept shlexSplit acceptEnv envs environ, ∀ name,
        envs.Passing (acceptEnvPatterns shlexSplit acceptEnv) name →
        variableName env ≠ variableName name := by
  have hclient : ((accepted shlexSplit acceptEnv envs).map (·.1)).Nodup :=
    envs.distinct.sublist (List.filter_sublist.map _)
  have hserver : ((kept shlexSplit acceptEnv envs environ).map variableName).Nodup := by
    refine environ.distinct.sublist (List.Sublist.map _ ?_)
    refine List.monotone_filter_right _ fun env henv => ?_
    simp only [keeps, decide_eq_true_eq] at henv ⊢
    exact henv.1
  rw [variables_eq, List.nodup_append, List.nodup_map_iff_inj_on hclient]
  simp only [mem_accepted_names, hserver, true_and]
  refine and_congr ⟨fun h name other hn ho => h other ho name hn,
    fun h name hn other ho => h other name ho hn⟩ ⟨fun h env henv name hname heq => ?_, ?_⟩
  · exact h _ (List.mem_map_of_mem (mem_accepted_names.mpr hname)) _
      (List.mem_map_of_mem henv) heq.symm
  · intro h _ hclient _ hserver heq
    obtain ⟨name, hname, rfl⟩ := List.mem_map.mp hclient
    obtain ⟨env, henv, rfl⟩ := List.mem_map.mp hserver
    exact h env henv name (mem_accepted_names.mp hname) heq.symm

namespace Unmistakable

/-- What a client entry defines may be set. -/
theorem allowed {patterns : List GoString} (h : Unmistakable patterns envs environ)
    {name : GoString} (hname : envs.Passing patterns name) :
    variableName name = str "TERM" ∨ ∃ p ∈ patterns, Accepts p (variableName name) := by
  by_cases hequals : .char '=' ∈ name
  · exact (h.client name hname hequals).1
  · rw [variableName_eq hequals]
    exact hname.2.imp_right fun ⟨p, hp, hglob⟩ => ⟨p, hp, hglob.accepts⟩

theorem nodup (h : Unmistakable (acceptEnvPatterns shlexSplit acceptEnv) envs environ) :
    ((getEnvironments shlexSplit acceptEnv envs environ).map variableName).Nodup := by
  refine nodup_variables_iff.mpr ⟨fun name other hname hother heq => ?_,
    fun env henv name hname heq => ?_⟩
  · by_cases hequals : .char '=' ∈ name
    · exact (h.client name hname hequals).2.1 other hother heq
    · by_cases hequals' : .char '=' ∈ other
      · exact ((h.client other hother hequals').2.1 name hname heq.symm).symm
      · rwa [variableName_eq hequals, variableName_eq hequals'] at heq
  · obtain ⟨hmem, hvariable, hflag, hnot⟩ := mem_kept.mp henv
    by_cases hequals : .char '=' ∈ name
    · rw [(h.client name hname hequals).2.2 env hmem hvariable heq] at hflag
      exact hflag trimSpace_background
    · rw [variableName_eq hequals] at heq
      by_cases htrim : (variableName env).trimSpace = variableName env
      · exact hnot (htrim.symm ▸ heq.symm ▸ hname)
      · exact ((h.server env hmem hvariable htrim).mp (heq.symm ▸ hname)).elim hnot hflag

/-- A server variable is kept, or the client's variable of its name passes. -/
theorem kept_or_passing (h : Unmistakable (acceptEnvPatterns shlexSplit acceptEnv) envs environ)
    {env : GoString} (hmem : env ∈ environ.entries) (hvariable : IsVariable env)
    (hflag : variableName env ≠ kEnvTsshdBackground) :
    env ∈ kept shlexSplit acceptEnv envs environ ∨
      envs.Passing (acceptEnvPatterns shlexSplit acceptEnv) (variableName env) := by
  rw [or_iff_not_imp_right]
  intro hnot
  refine mem_kept.mpr ⟨hmem, hvariable, ?_⟩
  by_cases htrim : (variableName env).trimSpace = variableName env
  · rw [htrim]
    exact ⟨hflag, hnot⟩
  · exact (not_or.mp (mt (h.server env hmem hvariable htrim).mpr hnot)).symm

end Unmistakable

/-- If no name is defined twice and every server variable but the flag is kept or
replaced, only what client names with `=` begin with is left to be checked. -/
theorem unmistakable_of_nodup
    (hallowed : ∀ name, envs.Passing (acceptEnvPatterns shlexSplit acceptEnv) name →
      variableName name = str "TERM" ∨
        ∃ p ∈ acceptEnvPatterns shlexSplit acceptEnv, Accepts p (variableName name))
    (hnodup : ((getEnvironments shlexSplit acceptEnv envs environ).map variableName).Nodup)
    (hkept : ∀ env ∈ environ.entries, IsVariable env → variableName env ≠ kEnvTsshdBackground →
      env ∈ kept shlexSplit acceptEnv envs environ ∨
        envs.Passing (acceptEnvPatterns shlexSplit acceptEnv) (variableName env)) :
    Unmistakable (acceptEnvPatterns shlexSplit acceptEnv) envs environ := by
  obtain ⟨hdistinct, hapart⟩ := nodup_variables_iff.mp hnodup
  have hself (env : GoString) : variableName (variableName env) = variableName env :=
    variableName_eq (equals_not_mem_variableName env)
  refine ⟨fun name hname hequals => ⟨hallowed name hname, fun other hother =>
    hdistinct name other hname hother, fun env hmem hvariable heq => ?_⟩,
    fun env hmem hvariable htrim => ?_⟩
  · by_contra hflag
    rcases hkept env hmem hvariable hflag with henv | hpassing
    · exact hapart env henv name hname heq
    · have hsame := hdistinct name _ hname hpassing ((hself env).trans heq)
      exact equals_not_mem_variableName env (hsame.symm ▸ hequals)
  · constructor
    · intro hpassing
      by_contra hnot
      obtain ⟨hnot, hflag⟩ := not_or.mp hnot
      exact hapart env (mem_kept.mpr ⟨hmem, hvariable, hflag, hnot⟩) _ hpassing (hself env).symm
    · intro hgone
      have hflag : variableName env ≠ kEnvTsshdBackground := by
        intro hflag
        rw [hflag] at htrim
        exact htrim trimSpace_background
      refine (hkept env hmem hvariable hflag).resolve_left fun henv => ?_
      obtain ⟨-, -, hother, hnot⟩ := mem_kept.mp henv
      exact hgone.elim hnot hother

end

end

/-- **The environment filter.** The list is what passed of the client's variables,
each as `name=value`, and then some of the server's entries. The following holds
just if no name can be mistaken for another.

* What a client entry defines is `TERM` or accepted by a pattern; by a pattern
  without U+FFFD it is accepted letter for letter.
* No variable is defined twice.
* A server variable other than the background flag is kept, unless the client's
  variable of that name was accepted and its entry is there. -/
theorem environment_filter (shlexSplit : GoString → Option (List GoString)) (acceptEnv : GoString)
    (envs : EnvMap) (environ : Environ) :
    (∀ e ∈ (acceptClients shlexSplit acceptEnv envs).2, ∃ v ∈ envs.entries, e = entry v.1 v.2) ∧
    ∃ kept, kept.Sublist environ.entries ∧
      getEnvironments shlexSplit acceptEnv envs environ =
        (acceptClients shlexSplit acceptEnv envs).2 ++ kept ∧
      (((∀ e ∈ (acceptClients shlexSplit acceptEnv envs).2, variableName e = str "TERM" ∨
          ∃ p ∈ acceptEnvPatterns shlexSplit acceptEnv, Accepts p (variableName e) ∧
            ((∀ r ∈ p, r.value ≠ Char.ofNat 0xfffd) →
              Glob (.char '*') (.char '?') (fun _ => True) p (variableName e))) ∧
        ((getEnvironments shlexSplit acceptEnv envs environ).map variableName).Nodup ∧
        ∀ env ∈ environ.entries, IsVariable env → variableName env ≠ kEnvTsshdBackground →
          env ∈ kept ∨
            ∃ v ∈ envs.entries, v.1 = variableName env ∧
              v.1 ∈ (acceptClients shlexSplit acceptEnv envs).1 ∧
              entry v.1 v.2 ∈ (acceptClients shlexSplit acceptEnv envs).2) ↔
        Unmistakable (acceptEnvPatterns shlexSplit acceptEnv) envs environ) := by
  have hclients {e : GoString} :
      e ∈ (acceptClients shlexSplit acceptEnv envs).2 ↔ ∃ v ∈ envs.entries, e = entry v.1 v.2 ∧
        envs.Passing (acceptEnvPatterns shlexSplit acceptEnv) v.1 := by
    rw [acceptClients_eq]
    constructor
    · intro he
      obtain ⟨v, hv, rfl⟩ := List.mem_map.mp he
      exact ⟨v, List.mem_of_mem_filter hv, rfl, mem_accepted_names.mp (List.mem_map_of_mem hv)⟩
    · rintro ⟨v, hv, rfl, -, hpasses⟩
      exact List.mem_map_of_mem (List.mem_filter.mpr ⟨hv, passes_iff.mpr hpasses⟩)
  have hnames {name : GoString} : name ∈ (acceptClients shlexSplit acceptEnv envs).1 ↔
      envs.Passing (acceptEnvPatterns shlexSplit acceptEnv) name := by
    rw [acceptClients_eq]
    exact mem_accepted_names
  refine ⟨fun e he => (hclients.mp he).imp fun v hv => ⟨hv.1, hv.2.1⟩,
    kept shlexSplit acceptEnv envs environ, List.filter_sublist, ?_, ?_, ?_⟩
  · rw [getEnvironments_eq, acceptClients_eq]
    rfl
  · rintro ⟨hallowed, hnodup, hkept⟩
    refine unmistakable_of_nodup (fun name hname => ?_) hnodup fun env hmem hvariable hflag => ?_
    · obtain ⟨v, hv, rfl⟩ := List.mem_map.mp hname.1
      have hentry := hallowed _ (hclients.mpr ⟨v, hv, rfl, hname⟩)
      rw [variableName_entry] at hentry
      exact hentry.imp_right fun ⟨p, hp, haccepts, _⟩ => ⟨p, hp, haccepts⟩
    · refine (hkept env hmem hvariable hflag).imp_right ?_
      rintro ⟨v, -, hname, haccepted, -⟩
      exact hname ▸ hnames.mp haccepted
  · intro h
    refine ⟨fun e he => ?_, h.nodup, fun env hmem hvariable hflag => ?_⟩
    · obtain ⟨v, -, rfl, hpassing⟩ := hclients.mp he
      rw [variableName_entry]
      exact (h.allowed hpassing).imp_right fun ⟨p, hp, haccepts⟩ =>
        ⟨p, hp, haccepts, haccepts.letters⟩
    · refine (h.kept_or_passing hmem hvariable hflag).imp_right fun hpassing => ?_
      obtain ⟨v, hv, hname⟩ := List.mem_map.mp hpassing.1
      rw [← hname] at hpassing
      exact ⟨v, hv, hname, hnames.mpr hpassing, hclients.mpr ⟨v, hv, rfl, hpassing⟩⟩

/-- A variable that is not accepted may have any name. -/
example :
    getEnvironments (fun s => some s.fields) (str "LANG LC_*")
      ⟨[(str "TERM", str "xterm"), (str "LC_ALL", str "C"), (str "LD_PRELOAD=", str "/x")],
        by decide⟩
      ⟨[str "LANG=en", str "LC_ALL=en", str "PATH=/bin", str "TRZSZ-SSHD-BACKGROUND=TRUE",
        str "=::=x"], by decide⟩ =
      [str "TERM=xterm", str "LC_ALL=C", str "LANG=en", str "PATH=/bin"] := by
  decide

/-- With `AcceptEnv *_SUFFIX`, the name `LD_PRELOAD=/x:_SUFFIX` passes, and its
entry defines `LD_PRELOAD`. -/
theorem environment_filter_smuggled :
    ∃ (envs : EnvMap) (environ : Environ),
      acceptEnvPatterns (fun s => some s.fields) (str "*_SUFFIX") = [str "*_SUFFIX"] ∧
      envs.entries = [(str "LD_PRELOAD=/x:_SUFFIX", str "1")] ∧ environ.entries = [] ∧
      acceptClients (fun s => some s.fields) (str "*_SUFFIX") envs =
        ([str "LD_PRELOAD=/x:_SUFFIX"], [str "LD_PRELOAD=/x:_SUFFIX=1"]) ∧
      getEnvironments (fun s => some s.fields) (str "*_SUFFIX") envs environ =
        [str "LD_PRELOAD=/x:_SUFFIX=1"] ∧
      variableName (str "LD_PRELOAD=/x:_SUFFIX=1") = str "LD_PRELOAD" ∧
      str "LD_PRELOAD" ≠ str "TERM" ∧ ¬ Accepts (str "*_SUFFIX") (str "LD_PRELOAD") := by
  refine ⟨⟨[(str "LD_PRELOAD=/x:_SUFFIX", str "1")], by decide⟩, ⟨[], by decide⟩,
    by decide, rfl, rfl, by decide, by decide, by decide,
    by decide, fun haccepts => ?_⟩
  have hmatch : wildcardMatch (str "*_SUFFIX") (str "LD_PRELOAD") = true :=
    (Config.wildcardMatch_line (by decide)).mpr haccepts
  revert hmatch
  decide

end Tsshd.Session

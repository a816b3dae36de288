import Tsshd.Config.KeyValue
import Mathlib.Logic.Function.Basic

/-!
# The configuration file

`parseSshdConfig` (sshd_config.go) goes through the lines of the file once and
keeps two maps: the options and the subsystems. A Match line says whether the lines
up to the next one count.

* **a line** — an `Item` is a key with or without a value, `Means` what it is for;
  one turn of the loop does just that (`parseLine_item`);
* **a file** — the scan ends before the first line of 64 KiB. The value of an option
  is the one of its last line up to there that counts, or the default
  (`getSshdConfig_describes`), and the same goes for subsystems
  (`getSshdSubsystem_describes`).
-/

namespace Tsshd.Config

open GoString (Trimmed)

/-! ## The code -/

/-- The two maps, and whether the scan is in a Match block that does not apply. -/
structure Loaded where
  sshdConfigMap : GoString → Option GoString
  sshdSubsystemMap : GoString → Option GoString
  inMatch : Bool := false
  userMatch : Bool := false

/-- Before the first line: only `AcceptEnv` has a default. -/
def Loaded.initial : Loaded where
  sshdConfigMap := Function.update (fun _ => none) (str "acceptenv") (some (str "LANG LC_*"))
  sshdSubsystemMap := fun _ => none

section Code

variable (toLower : GoString → GoString) (user : GoString) (groups : List GoString)

/-- One turn of the loop of `parseSshdConfig`. -/
def parseLine (st : Loaded) (line : GoString) : Loaded :=
  let line := line.trimSpace
  if line = [] ∨ line.head? = some (.char '#') then st
  else
    let (key, value) := splitKeyValue toLower line
    if key = str "match" ∧ value ≠ [] then
      { st with inMatch := true, userMatch := evalMatchLine toLower value user groups }
    else if st.inMatch ∧ ¬ st.userMatch then st
    else if key = str "subsystem" ∧ value ≠ [] then
      let (name, path) := splitKeyValue toLower value
      if name ≠ [] then
        { st with sshdSubsystemMap := Function.update st.sshdSubsystemMap name (some path) }
      else st
    else { st with sshdConfigMap := Function.update st.sshdConfigMap key (some value) }

/-- `bufio.MaxScanTokenSize`. -/
def maxScanTokenSize : Nat := 64 * 1024

/-- The lines that the scanner finds. It gives up at a line that does not fit its
buffer, and nobody asks for its error. The carriage return that it takes off the end
of a line is white space, which `parseLine` takes off too. -/
def scanLines (lines : List GoString) : List GoString :=
  lines.takeWhile fun line => line.size < maxScanTokenSize

/-- `file` are the lines of the file, if it can be opened. -/
def parseSshdConfig (file : Option (List GoString)) : Loaded :=
  match file with
  | none => .initial
  | some lines => (scanLines lines).foldl (parseLine toLower user groups) .initial

def Loaded.getSshdConfig (st : Loaded) (key : GoString) : GoString :=
  (st.sshdConfigMap (toLower key)).getD []

def Loaded.getSshdSubsystem (st : Loaded) (name : GoString) : GoString :=
  (st.sshdSubsystemMap (toLower name)).getD []

end Code

/-! ## Lines -/

theorem splitKeyValue_bare (toLower : GoString → GoString) {key : GoString}
    (hkey : ∀ r ∈ key, KeyRune r) : splitKeyValue toLower key = (toLower key, []) := by
  have hequals := not_equals_of_ne fun r hr => (hkey r hr).2
  have hpos : splitPos key = none := by
    rw [splitPos, List.findIdx?_eq_none_iff.mpr hequals]
    exact List.findIdx?_eq_none_iff.mpr (KeyRune.not_blank hkey)
  rw [splitKeyValue, hpos]
  simp only [GoString.trimSpace_eq fun r hr => (hkey r hr).1]

/-- The content of a line: a key, alone or with a value. Blanks at the end do not
belong to it, so with an empty value it ends with the `=`. -/
inductive Item
  | bare (key : GoString) (ne : key ≠ []) (solid : ∀ r ∈ key, KeyRune r)
  | assigned (a : Assignment)
      (ends : a.value = [] → a.separator.text.getLast? = some (.char '='))

namespace Item

def key : Item → GoString
  | .bare key _ _ => key
  | .assigned a _ => a.key

def value : Item → GoString
  | .bare _ _ _ => []
  | .assigned a _ => a.value

def text : Item → GoString
  | .bare key _ _ => key
  | .assigned a _ => a.text

theorem split (toLower : GoString → GoString) (i : Item) :
    splitKeyValue toLower i.text = (toLower i.key, i.value) := by
  cases i with
  | bare key ne solid => exact splitKeyValue_bare toLower solid
  | assigned a ends => exact a.split toLower

theorem key_ne_nil (i : Item) : i.key ≠ [] := by
  cases i with
  | bare key ne solid => exact ne
  | assigned a ends => exact a.ne

theorem key_solid (i : Item) : ∀ r ∈ i.key, KeyRune r := by
  cases i with
  | bare key ne solid => exact solid
  | assigned a ends => exact a.solid

/-- The content begins with the key. -/
theorem text_head (i : Item) : i.text.head? = i.key.head? := by
  obtain ⟨r, rest, hkey⟩ := List.exists_cons_of_ne_nil i.key_ne_nil
  cases i with
  | bare key ne solid => rfl
  | assigned a ends =>
    simp only [text, Assignment.text, key] at hkey ⊢
    rw [hkey]
    rfl

theorem text_ne_nil (i : Item) : i.text ≠ [] := by
  intro hnil
  have hhead := i.text_head
  rw [hnil] at hhead
  exact i.key_ne_nil (List.head?_eq_none_iff.mp hhead.symm)

theorem text_trimmed (i : Item) : Trimmed i.text := by
  constructor
  · intro r hr
    rw [text_head] at hr
    exact (i.key_solid r (List.mem_of_mem_head? hr)).1
  · intro r hr
    cases i with
    | bare key ne solid => exact (solid r (List.mem_of_mem_getLast? hr)).1
    | assigned a ends =>
      rw [text, Assignment.text, List.getLast?_append] at hr
      cases hvalue : a.value.getLast? with
      | some v =>
        rw [hvalue] at hr
        cases hr
        exact a.trimmed.back r hvalue
      | none =>
        rw [hvalue, Option.none_or, List.getLast?_append,
          ends (List.getLast?_eq_none_iff.mp hvalue)] at hr
        cases hr
        decide

end Item

/-! ## What a line is for -/

inductive Directive
  | setting (key value : GoString)
  | subsystem (name path : GoString)
  /-- The condition of a Match line. -/
  | block (condition : GoString)

/-- `d` is what a line with the content `i` is for. `Match` and `Subsystem` without
a value are taken for options. -/
inductive Means (toLower : GoString → GoString) : Item → Directive → Prop
  | setting {i : Item}
      (hkey : i.value ≠ [] → toLower i.key ≠ str "match" ∧ toLower i.key ≠ str "subsystem") :
      Means toLower i (.setting (toLower i.key) i.value)
  | subsystem {i : Item} (sub : Item) (hkey : toLower i.key = str "subsystem")
      (hvalue : i.value = sub.text) (hname : toLower sub.key ≠ []) :
      Means toLower i (.subsystem (toLower sub.key) sub.value)
  | block {i : Item} (hkey : toLower i.key = str "match") (hvalue : i.value ≠ []) :
      Means toLower i (.block i.value)

namespace Loaded

/-- Lines count outside of Match blocks and in those that apply. -/
def counts (st : Loaded) : Bool := !st.inMatch || st.userMatch

def apply (admits : GoString → Bool) (st : Loaded) : Directive → Loaded
  | .block condition => { st with inMatch := true, userMatch := admits condition }
  | .setting key value =>
    if st.counts then
      { st with sshdConfigMap := Function.update st.sshdConfigMap key (some value) }
    else st
  | .subsystem name path =>
    if st.counts then
      { st with sshdSubsystemMap := Function.update st.sshdSubsystemMap name (some path) }
    else st

theorem counts_iff (st : Loaded) : st.counts = true ↔ ¬ (st.inMatch ∧ ¬ st.userMatch) := by
  cases hin : st.inMatch <;> cases huser : st.userMatch <;> simp [counts, hin, huser]

end Loaded

section Files

variable {toLower : GoString → GoString} {user : GoString} {groups : List GoString}

/-- **One turn of the loop does what the line is for**, whatever white space is
around it. -/
theorem parseLine_item {i : Item} {d : Directive} (hmeans : Means toLower i d)
    (hcomment : i.key.head? ≠ some (.char '#')) {before after : GoString}
    (hbefore : ∀ r ∈ before, r.isSpace = true) (hafter : ∀ r ∈ after, r.isSpace = true)
    (st : Loaded) :
    parseLine toLower user groups st (before ++ (i.text ++ after)) =
      st.apply (fun condition => evalMatchLine toLower condition user groups) d := by
  have hline : ¬ (i.text = [] ∨ i.text.head? = some (.char '#')) := by
    rw [i.text_head]
    rintro (hnil | hhead)
    · exact i.text_ne_nil hnil
    · exact hcomment hhead
  have hmatch : str "subsystem" ≠ str "match" := by decide
  unfold parseLine
  simp only [i.text_trimmed.trimSpace_around hbefore hafter, if_neg hline, i.split toLower]
  cases hmeans with
  | setting hkey =>
    have hplain (name : String) (hname : i.value ≠ [] → toLower i.key ≠ str name) :
        ¬ (toLower i.key = str name ∧ i.value ≠ []) := fun h => hname h.2 h.1
    rw [if_neg (hplain "match" fun h => (hkey h).1),
      if_neg (hplain "subsystem" fun h => (hkey h).2), Loaded.apply]
    simp only [st.counts_iff, ite_not]
  | subsystem sub hkey hvalue hname =>
    have hnomatch : ¬ (toLower i.key = str "match" ∧ i.value ≠ []) :=
      fun h => hmatch (hkey.symm.trans h.1)
    have hsubsystem : toLower i.key = str "subsystem" ∧ i.value ≠ [] :=
      ⟨hkey, hvalue ▸ sub.text_ne_nil⟩
    rw [if_neg hnomatch, if_pos hsubsystem, hvalue, Loaded.apply]
    simp only [sub.split toLower, if_pos hname, st.counts_iff, ite_not]
  | block hkey hvalue =>
    rw [if_pos ⟨hkey, hvalue⟩, Loaded.apply]

/-! ## Files -/

/-- The lines of a file say the directives. Empty lines and comments say nothing. -/
inductive Describes (toLower : GoString → GoString) : List GoString → List Directive → Prop
  | nil : Describes toLower [] []
  | skipped {line lines ds} (h : line.trimSpace = [] ∨ line.trimSpace.head? = some (.char '#')) :
      Describes toLower lines ds → Describes toLower (line :: lines) ds
  | line {i lines d ds} (before after : GoString) (hbefore : ∀ r ∈ before, r.isSpace = true)
      (hafter : ∀ r ∈ after, r.isSpace = true) (hcomment : i.key.head? ≠ some (.char '#'))
      (hmeans : Means toLower i d) :
      Describes toLower lines ds →
      Describes toLower ((before ++ (i.text ++ after)) :: lines) (d :: ds)

theorem foldl_parseLine {lines : List GoString} {ds : List Directive}
    (h : Describes toLower lines ds) (st : Loaded) :
    lines.foldl (parseLine toLower user groups) st =
      ds.foldl (Loaded.apply fun condition => evalMatchLine toLower condition user groups) st := by
  induction h generalizing st with
  | nil => rfl
  | skipped hskipped _ ih =>
    have hsame (line : GoString)
        (hline : line.trimSpace = [] ∨ line.trimSpace.head? = some (.char '#')) :
        parseLine toLower user groups st line = st := if_pos hline
    rw [List.foldl_cons, hsame _ hskipped]
    exact ih st
  | line before after hbefore hafter hcomment hmeans _ ih =>
    rw [List.foldl_cons, List.foldl_cons, parseLine_item hmeans hcomment hbefore hafter]
    exact ih _

end Files

/-- The directives that count, from a place on where they do or do not. -/
def inForce (admits : GoString → Bool) : Bool → List Directive → List Directive
  | _, [] => []
  | _, .block condition :: ds => inForce admits (admits condition) ds
  | counts, d :: ds => if counts then d :: inForce admits counts ds else inForce admits counts ds

def Directive.setting? (key : GoString) : Directive → Option GoString
  | .setting key' value => if key' = key then some value else none
  | _ => none

def Directive.subsystem? (name : GoString) : Directive → Option GoString
  | .subsystem name' path => if name' = name then some path else none
  | _ => none

section Lookup

variable {admits : GoString → Bool}

theorem Loaded.apply_counts (st : Loaded) {d : Directive}
    (hplain : ∀ condition, d ≠ .block condition) : (st.apply admits d).counts = st.counts := by
  cases d with
  | block condition => exact absurd rfl (hplain condition)
  | setting key value =>
    rw [apply]
    split <;> rfl
  | subsystem name path =>
    rw [apply]
    split <;> rfl

theorem inForce_cons {d : Directive} (hplain : ∀ condition, d ≠ .block condition) (counts : Bool)
    (ds : List Directive) :
    inForce admits counts (d :: ds) =
      if counts then d :: inForce admits counts ds else inForce admits counts ds := by
  cases d with
  | block condition => exact absurd rfl (hplain condition)
  | setting key value => rfl
  | subsystem name path => rfl

/-- A place of a map holds what the last directive in force put there. -/
theorem lookup_foldl (place : Loaded → Option GoString) (put : Directive → Option GoString)
    (hblock : ∀ condition, put (.block condition) = none)
    (hplace : ∀ st d, place (st.apply admits d) =
      if st.counts then (put d).or (place st) else place st)
    (ds : List Directive) (st : Loaded) :
    place (ds.foldl (Loaded.apply admits) st) =
      ((inForce admits st.counts ds).filterMap put).getLast?.or (place st) := by
  induction ds generalizing st with
  | nil => rfl
  | cons d ds ih =>
    rw [List.foldl_cons, ih, hplace]
    by_cases hd : ∃ condition, d = .block condition
    · obtain ⟨condition, rfl⟩ := hd
      have hnow : (st.apply admits (.block condition)).counts = admits condition := by
        simp [Loaded.apply, Loaded.counts]
      rw [hnow, hblock, Option.none_or, ite_self, inForce]
    · have hplain : ∀ condition, d ≠ .block condition := fun c hc => hd ⟨c, hc⟩
      rw [st.apply_counts hplain, inForce_cons hplain]
      cases st.counts with
      | false => rfl
      | true =>
        rw [if_pos rfl, if_pos rfl, List.filterMap_cons]
        cases put d with
        | none => rw [Option.none_or]
        | some v =>
          rw [Option.some_or, List.getLast?_cons, Option.some_or]
          cases ((inForce admits true ds).filterMap put).getLast? <;> rfl

theorem update_or (m : GoString → Option GoString) (key key' value : GoString) :
    Function.update m key' (some value) key =
      (if key' = key then some value else none).or (m key) := by
  by_cases heq : key' = key
  · rw [heq, if_pos rfl, Function.update_self, Option.some_or]
  · rw [if_neg heq, Function.update_of_ne (Ne.symm heq), Option.none_or]

theorem sshdConfigMap_apply (key : GoString) (st : Loaded) (d : Directive) :
    (st.apply admits d).sshdConfigMap key =
      if st.counts then (d.setting? key).or (st.sshdConfigMap key) else st.sshdConfigMap key := by
  cases d with
  | block condition => exact (ite_self _).symm
  | setting key' value =>
    rw [Loaded.apply]
    split
    · exact update_or st.sshdConfigMap key key' value
    · rfl
  | subsystem name path =>
    rw [Loaded.apply]
    split <;> rfl

theorem sshdSubsystemMap_apply (name : GoString) (st : Loaded) (d : Directive) :
    (st.apply admits d).sshdSubsystemMap name =
      if st.counts then (d.subsystem? name).or (st.sshdSubsystemMap name)
      else st.sshdSubsystemMap name := by
  cases d with
  | block condition => exact (ite_self _).symm
  | setting key value =>
    rw [Loaded.apply]
    split <;> rfl
  | subsystem name' path =>
    rw [Loaded.apply]
    split
    · exact update_or st.sshdSubsystemMap name name' path
    · rfl

end Lookup

section Files

variable {toLower : GoString → GoString} {lines : List GoString} {ds : List Directive}

/-- **The value of an option** is that of the last line the scanner finds for it that
counts. -/
theorem getSshdConfig_describes (h : Describes toLower (scanLines lines) ds) (user : GoString)
    (groups : List GoString) (key : GoString) :
    (parseSshdConfig toLower user groups (some lines)).getSshdConfig toLower key =
      ((inForce (fun condition => evalMatchLine toLower condition user groups) true ds).filterMap
        (Directive.setting? (toLower key))).getLast?.getD
          (if toLower key = str "acceptenv" then str "LANG LC_*" else []) := by
  have hdefault : (Loaded.initial.sshdConfigMap (toLower key)).getD [] =
      if toLower key = str "acceptenv" then str "LANG LC_*" else [] := by
    simp only [Loaded.initial, Function.update_apply]
    split <;> rfl
  rw [Loaded.getSshdConfig, parseSshdConfig]
  simp only [foldl_parseLine h]
  rw [lookup_foldl (fun st => st.sshdConfigMap (toLower key)) (Directive.setting? (toLower key))
    (fun _ => rfl) (sshdConfigMap_apply (toLower key)), Option.getD_or, hdefault]
  rfl

/-- A key, a blank and a value. -/
def Item.plain (key value : String) (hkey : ∀ r ∈ str key, r.isSpace = false ∧ r ≠ .char '=')
    (hvalue : Trimmed (str value)) (hne : str key ≠ [] ∧ str value ≠ [])
    (hstart : (str value).head? ≠ some (.char '=')) : Item :=
  .assigned ⟨str key, .blanks ⟨str " ", by decide⟩ (by decide), str value, hne.1, hkey, hvalue,
    fun _ => hstart⟩ fun hnil => absurd hnil hne.2

/-- The later of two lines counts; a comment and a Match block of somebody else do not. -/
theorem getSshdConfig_describes_later :
    (parseSshdConfig GoString.toLower (str "bob") [] (some [str "DisableForwarding no",
      str " disableforwarding yes", str "# DisableForwarding no", str "Match User alice",
      str "DisableForwarding no"])).getSshdConfig GoString.toLower (str "DisableForwarding") =
      str "yes" := by
  let no := Item.plain "DisableForwarding" "no" (by decide) ⟨by decide, by decide⟩ (by decide)
    (by decide)
  let yes := Item.plain "disableforwarding" "yes" (by decide) ⟨by decide, by decide⟩ (by decide)
    (by decide)
  let alice := Item.plain "Match" "User alice" (by decide) ⟨by decide, by decide⟩ (by decide)
    (by decide)
  have hblock : Describes GoString.toLower [str "Match User alice", str "DisableForwarding no"] _ :=
    .line (i := alice) [] [] (by decide) (by decide) (by decide) (.block (by decide) (by decide))
      (.line (i := no) [] [] (by decide) (by decide) (by decide) (.setting fun _ => by decide) .nil)
  have hdescribes : Describes GoString.toLower (_ :: _ :: str "# DisableForwarding no" :: _) _ :=
    .line (i := no) [] [] (by decide) (by decide) (by decide) (.setting fun _ => by decide)
      (.line (i := yes) (str " ") [] (by decide) (by decide) (by decide)
        (.setting fun _ => by decide) (.skipped (.inr (by decide)) hblock))
  have hscan : ∀ line ∈ [str "DisableForwarding no", str " disableforwarding yes",
      str "# DisableForwarding no", str "Match User alice", str "DisableForwarding no"],
      decide (line.size < maxScanTokenSize) = true := by decide
  have hshort := (List.takeWhile_eq_self_iff.mpr hscan).symm ▸ hdescribes
  exact (getSshdConfig_describes hshort (str "bob") [] (str "DisableForwarding")).trans
    (by decide +kernel)

theorem getSshdSubsystem_describes (h : Describes toLower (scanLines lines) ds) (user : GoString)
    (groups : List GoString) (name : GoString) :
    (parseSshdConfig toLower user groups (some lines)).getSshdSubsystem toLower name =
      ((inForce (fun condition => evalMatchLine toLower condition user groups) true ds).filterMap
        (Directive.subsystem? (toLower name))).getLast?.getD [] := by
  rw [Loaded.getSshdSubsystem, parseSshdConfig]
  simp only [foldl_parseLine h]
  rw [lookup_foldl (fun st => st.sshdSubsystemMap (toLower name))
    (Directive.subsystem? (toLower name)) (fun _ => rfl) (sshdSubsystemMap_apply (toLower name)),
    Option.getD_or]
  rfl

end Files

end Tsshd.Config

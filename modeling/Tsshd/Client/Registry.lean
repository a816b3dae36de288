import Tsshd.Core.TSys
import Mathlib.Data.List.AList

/-!
# The client's session registry

`SshUdpClient` keeps its sessions in `sessionMap`, by id, and counts them in
`exitWG` (client.go). `NewSession` adds a session, `Attach` moves it to the id
of a session of the server, an exit message removes it.

`Attach` changes the map and the id before it asks the server, and the answer
changes nothing: so a call is one step here, which carries the answer. It writes
the new key and then deletes the old one, without looking at what was there.

The books balance as long as every `Attach` succeeds and no id is taken twice
(`registry_balanced`). `refused_attach` is a run in which they do not: a refused
`Attach` to the id of another session of the client.
-/

namespace Tsshd.Client

/-- `map[uint64]*SshUdpSession`; sessions are numbered in the order of creation. -/
abbrev SessionMap := AList fun _ : Nat => Nat

structure Session where
  id : Nat := 0
  started : Bool := false
  /-- History: how often the session was told to exit. -/
  exits : Nat := 0
deriving DecidableEq, Repr

structure Sys where
  sessionMap : SessionMap := ∅
  sessionID : Nat
  /-- The sessions' share of `exitWG`. -/
  exitWG : Nat := 0
  created : Nat := 0
  session : Nat → Session := fun _ => {}

inductive AttachError
  | alreadyStarted
  | refused
deriving DecidableEq, Repr

inductive Act
  | newSession
  /-- `Attach(id)`, and whether the server accepts it. -/
  | attach (ref id : Nat) (accepted : Bool)
  /-- `Shell` or `Start`. -/
  | start (ref : Nat)
  /-- An exit message from the server. -/
  | exit (id : Nat)
deriving DecidableEq, Repr

def Sys.setSession (s : Sys) (ref : Nat) (sess : Session) : Sys :=
  { s with session := Function.update s.session ref sess }

/-- What `Attach` returns. -/
def attachError (s : Sys) (ref : Nat) (accepted : Bool) : Option AttachError :=
  if (s.session ref).started then some .alreadyStarted
  else if accepted then none
  else some .refused

/-- `handleExitEvent` for the session registered under `id`. -/
def Sys.exited (s : Sys) (id ref : Nat) : Sys :=
  { s.setSession ref { s.session ref with exits := (s.session ref).exits + 1 } with
    sessionMap := s.sessionMap.erase id
    exitWG := s.exitWG - 1 }

def next (s : Sys) : Act → Option Sys
  | .newSession =>
    let id := s.sessionID % 18446744073709551616
    some { s.setSession s.created { id } with
      sessionMap := s.sessionMap.insert id s.created
      sessionID := s.sessionID + 1
      exitWG := s.exitWG + 1
      created := s.created + 1 }
  | .attach ref id _ =>
    if ref < s.created then
      let sess := s.session ref
      some { s.setSession ref { sess with id, started := true } with
        sessionMap := (s.sessionMap.insert id ref).erase sess.id }
    else none
  | .start ref =>
    if ref < s.created then some (s.setSession ref { s.session ref with started := true })
    else none
  | .exit id =>
    match s.sessionMap.lookup id with
    | none => some s
    | some ref => some (s.exited id ref)

def machine : TSys Sys Act where
  init s := ∃ nextSessionID, s = { sessionID := nextSessionID }
  next := next

/-! ## Balance -/

/-- The session has been created and not been told to exit. -/
def Sys.Live (s : Sys) (ref : Nat) : Prop := ref < s.created ∧ (s.session ref).exits = 0

/-- The books balance: the live sessions are registered exactly once, under
their ids, nothing else is, and `exitWG` counts what is registered. -/
structure Balanced (s : Sys) : Prop where
  registered : ∀ ref, s.Live ref → ∀ id, s.sessionMap.lookup id = some ref ↔ id = (s.session ref).id
  live : ∀ id ref, s.sessionMap.lookup id = some ref → s.Live ref
  counted : s.sessionMap.keys.length = s.exitWG

/-- No `Attach` fails, and ids are not taken twice. -/
def Tidy (s : Sys) : Act → Prop
  | .newSession => s.sessionID % 18446744073709551616 ∉ s.sessionMap
  | .attach ref id accepted => s.Live ref ∧ id ∉ s.sessionMap ∧ attachError s ref accepted = none
  | _ => True

instance (s : Sys) (ref : Nat) : Decidable (s.Live ref) := inferInstanceAs (Decidable (_ ∧ _))

instance (s : Sys) (a : Act) : Decidable (Tidy s a) :=
  match a with
  | .newSession => inferInstanceAs (Decidable (_ ∉ s.sessionMap))
  | .attach ref id accepted =>
    inferInstanceAs (Decidable (s.Live ref ∧ id ∉ s.sessionMap ∧ attachError s ref accepted = none))
  | .start _ => inferInstanceAs (Decidable True)
  | .exit _ => inferInstanceAs (Decidable True)

variable {s s' : Sys}

/-- The number of keys after a key is added. -/
theorem length_keys_insert {m : SessionMap} {id ref : Nat} (h : id ∉ m) :
    (m.insert id ref).keys.length = m.keys.length + 1 := by
  rw [AList.keys_insert, List.length_cons, List.erase_of_not_mem (fun hk => h (AList.mem_keys.mpr hk))]

theorem length_keys_erase {m : SessionMap} {id : Nat} (h : id ∈ m) :
    (m.erase id).keys.length = m.keys.length - 1 := by
  rw [AList.keys_erase, List.length_erase_of_mem (AList.mem_keys.mp h)]

theorem mem_of_lookup {m : SessionMap} {id ref : Nat} (h : m.lookup id = some ref) : id ∈ m :=
  AList.lookup_isSome.mp (by rw [h]; rfl)

/-- A live session has its id in the map. -/
theorem Balanced.lookup_id (h : Balanced s) {ref : Nat} (hlive : s.Live ref) :
    s.sessionMap.lookup (s.session ref).id = some ref :=
  (h.registered ref hlive _).mpr rfl

theorem Balanced.newSession (h : Balanced s) {new : Nat} (hfree : new ∉ s.sessionMap) :
    Balanced { s.setSession s.created { id := new } with
      sessionMap := s.sessionMap.insert new s.created
      sessionID := s.sessionID + 1
      exitWG := s.exitWG + 1
      created := s.created + 1 } := by
  refine ⟨fun ref hlive id => ?_, fun id ref hlook => ?_, ?_⟩
  · dsimp only [Sys.Live, Sys.setSession] at hlive ⊢
    by_cases href : ref = s.created
    · subst href
      rw [Function.update_self]
      by_cases hid : id = new
      · subst hid
        simp
      · rw [AList.lookup_insert_ne hid]
        refine ⟨fun hlook => ?_, fun heq => absurd heq hid⟩
        exact absurd (h.live id _ hlook).1 (Nat.lt_irrefl _)
    · rw [Function.update_of_ne href] at hlive ⊢
      have hold : s.Live ref := ⟨by omega, hlive.2⟩
      by_cases hid : id = new
      · subst hid
        rw [AList.lookup_insert]
        refine ⟨fun heq => absurd (Option.some.inj heq).symm href, fun heq => ?_⟩
        exact absurd (heq ▸ mem_of_lookup (h.lookup_id hold)) hfree
      · rw [AList.lookup_insert_ne hid]
        exact h.registered ref hold id
  · dsimp only [Sys.Live, Sys.setSession] at hlook ⊢
    by_cases hid : id = new
    · subst hid
      rw [AList.lookup_insert] at hlook
      obtain rfl := Option.some.inj hlook
      rw [Function.update_self]
      exact ⟨Nat.lt_succ_self _, rfl⟩
    · rw [AList.lookup_insert_ne hid] at hlook
      obtain ⟨hlt, hexits⟩ := h.live id ref hlook
      rw [Function.update_of_ne (Nat.ne_of_lt hlt)]
      exact ⟨Nat.lt_succ_of_lt hlt, hexits⟩
  · show (s.sessionMap.insert new s.created).keys.length = s.exitWG + 1
    rw [length_keys_insert hfree, h.counted]

/-- The lookups behind `Attach`. -/
theorem lookup_attach {m : SessionMap} {ref new old : Nat} (hne : new ≠ old) (id : Nat) :
    ((m.insert new ref).erase old).lookup id =
      if id = old then none else if id = new then some ref else m.lookup id := by
  by_cases hold : id = old
  · subst hold
    simp
  · rw [AList.lookup_erase_ne hold, if_neg hold]
    by_cases hnew : id = new
    · subst hnew
      simp
    · rw [AList.lookup_insert_ne hnew, if_neg hnew]

theorem Balanced.attach (h : Balanced s) {ref new : Nat} (hlive : s.Live ref)
    (hfree : new ∉ s.sessionMap) :
    Balanced { s.setSession ref { s.session ref with id := new, started := true } with
      sessionMap := (s.sessionMap.insert new ref).erase (s.session ref).id } := by
  have hold := h.lookup_id hlive
  have hne : new ≠ (s.session ref).id := fun heq => hfree (heq ▸ mem_of_lookup hold)
  refine ⟨fun r hr id => ?_, fun id r hlook => ?_, ?_⟩
  · dsimp only [Sys.Live, Sys.setSession] at hr ⊢
    rw [lookup_attach hne]
    by_cases hrr : r = ref
    · subst hrr
      rw [Function.update_self]
      have hreg := h.registered r hlive id
      by_cases hid : id = (s.session r).id
      · simp [hid, hne.symm]
      · by_cases hnew : id = new
        · simp [hnew, hne]
        · simp [hid, hnew, hreg]
    · rw [Function.update_of_ne hrr] at hr ⊢
      have hreg := h.registered r hr id
      by_cases hid : id = (s.session ref).id
      · rw [if_pos hid]
        refine ⟨fun hnone => absurd hnone (by simp), fun heq => ?_⟩
        have hlook : s.sessionMap.lookup id = some r := hreg.mpr heq
        rw [hid, hold] at hlook
        exact absurd (Option.some.inj hlook).symm hrr
      · rw [if_neg hid]
        by_cases hnew : id = new
        · rw [if_pos hnew]
          refine ⟨fun heq => absurd (Option.some.inj heq).symm hrr, fun heq => ?_⟩
          exact absurd (hnew ▸ mem_of_lookup (hreg.mpr heq)) hfree
        · rw [if_neg hnew]
          exact hreg
  · dsimp only [Sys.Live, Sys.setSession] at hlook ⊢
    rw [lookup_attach hne] at hlook
    by_cases hrr : r = ref
    · subst hrr
      rw [Function.update_self]
      exact hlive
    · rw [Function.update_of_ne hrr]
      split at hlook
      · cases hlook
      · split at hlook
        · exact absurd (Option.some.inj hlook).symm hrr
        · exact h.live id r hlook
  · have hmem : (s.session ref).id ∈ s.sessionMap.insert new ref :=
      (AList.mem_insert _).mpr (.inr (mem_of_lookup hold))
    show ((s.sessionMap.insert new ref).erase (s.session ref).id).keys.length = s.exitWG
    rw [length_keys_erase hmem, length_keys_insert hfree, h.counted, Nat.add_sub_cancel]

theorem Balanced.start (h : Balanced s) (ref : Nat) :
    Balanced (s.setSession ref { s.session ref with started := true }) := by
  have hsame : ∀ r, ((s.setSession ref { s.session ref with started := true }).session r).id =
      (s.session r).id ∧ ((s.setSession ref { s.session ref with started := true }).session r).exits =
      (s.session r).exits := by
    intro r
    by_cases hr : r = ref
    · subst hr
      dsimp only [Sys.setSession]
      rw [Function.update_self]
      exact ⟨rfl, rfl⟩
    · dsimp only [Sys.setSession]
      rw [Function.update_of_ne hr]
      exact ⟨rfl, rfl⟩
  refine ⟨fun r hr id => ?_, fun id r hlook => ?_, h.counted⟩
  · rw [(hsame r).1]
    exact h.registered r ⟨hr.1, (hsame r).2 ▸ hr.2⟩ id
  · have hlive := h.live id r hlook
    exact ⟨hlive.1, (hsame r).2.trans hlive.2⟩

theorem Balanced.exit (h : Balanced s) {id ref : Nat} (hlook : s.sessionMap.lookup id = some ref) :
    Balanced (s.exited id ref) := by
  refine ⟨fun r hr d => ?_, fun d r hd => ?_, ?_⟩
  · dsimp only [Sys.Live, Sys.exited, Sys.setSession] at hr ⊢
    by_cases hrr : r = ref
    · subst hrr
      rw [Function.update_self] at hr
      exact absurd hr.2 (Nat.succ_ne_zero _)
    · rw [Function.update_of_ne hrr] at hr ⊢
      have hreg := h.registered r hr d
      by_cases hd : d = id
      · subst hd
        rw [AList.lookup_erase]
        refine ⟨fun hnone => absurd hnone (by simp), fun heq => ?_⟩
        exact absurd (Option.some.inj ((hreg.mpr heq).symm.trans hlook)) hrr
      · rw [AList.lookup_erase_ne hd]
        exact hreg
  · dsimp only [Sys.Live, Sys.exited, Sys.setSession] at hd ⊢
    by_cases hdi : d = id
    · subst hdi
      rw [AList.lookup_erase] at hd
      cases hd
    · rw [AList.lookup_erase_ne hdi] at hd
      have hr := h.live d r hd
      have hrr : r ≠ ref := by
        intro hrr
        subst hrr
        exact hdi (((h.registered r hr d).mp hd).trans ((h.registered r hr id).mp hlook).symm)
      rw [Function.update_of_ne hrr]
      exact hr
  · show (s.sessionMap.erase id).keys.length = s.exitWG - 1
    rw [length_keys_erase (mem_of_lookup hlook), h.counted]

theorem Balanced.step {a : Act} (h : Balanced s) (htidy : Tidy s a) (hn : next s a = some s') :
    Balanced s' := by
  cases a with
  | newSession =>
    cases hn
    exact h.newSession htidy
  | attach ref id accepted =>
    obtain ⟨hlive, hfree, -⟩ := htidy
    simp only [next, hlive.1, if_true, Option.some.injEq] at hn
    subst hn
    exact h.attach hlive hfree
  | start ref =>
    simp only [next] at hn
    split at hn
    · cases hn
      exact h.start ref
    · cases hn
  | exit id =>
    simp only [next] at hn
    cases hlook : s.sessionMap.lookup id with
    | none =>
      simp only [hlook, Option.some.injEq] at hn
      exact hn ▸ h
    | some ref =>
      simp only [hlook, Option.some.injEq] at hn
      subst hn
      exact h.exit hlook

/-- **The registry balances.** In every run in which every `Attach` succeeds, on
a live session that is not started, and no id is taken that is in use: each
session that was created and not told to exit is registered exactly once, under
its id, `exitWG` counts the registered sessions, and the exit message with the
id of a session reaches that session and no other. -/
theorem registry_balanced (h : machine.ReachableVia Tidy s) :
    (∀ ref, s.Live ref → ∀ id, s.sessionMap.lookup id = some ref ↔ id = (s.session ref).id) ∧
    s.sessionMap.keys.length = s.exitWG ∧
    ∀ ref, s.Live ref → ∃ s', next s (.exit (s.session ref).id) = some s' ∧
      (s'.session ref).exits = 1 ∧ ∀ r, r ≠ ref → s'.session r = s.session r := by
  have hbal : Balanced s := by
    refine TSys.ReachableVia.invariant (fun s hs => ?_) (fun s a s' hbal hok hn => ?_) h
    · obtain ⟨n, rfl⟩ := hs
      exact ⟨fun ref hlive => absurd hlive.1 (Nat.not_lt_zero _),
        fun id ref hlook => absurd hlook (by simp), rfl⟩
    · exact hbal.step hok hn
  refine ⟨hbal.registered, hbal.counted, fun ref hlive => ?_⟩
  refine ⟨s.exited (s.session ref).id ref, ?_, ?_, fun r hr => ?_⟩
  · simp only [next, hbal.lookup_id hlive]
  · dsimp only [Sys.exited, Sys.setSession]
    rw [Function.update_self, hlive.2]
  · exact Function.update_of_ne hr ..

/-- Two sessions, an `Attach` to a session of another client, an exit and a new
session. -/
def tidyRun : List Act :=
  [Act.newSession, .newSession, .start 0, .attach 1 3 true, .exit 7, .newSession]

theorem registry_balanced_tidyRun :
    ∃ s, machine.ReachableVia Tidy s ∧ s.exitWG = 2 ∧ s.sessionMap.keys.length = 2 ∧
      s.sessionMap.lookup 3 = some 1 := by
  have hrun : (machine.execWhile (fun s a => decide (Tidy s a)) { sessionID := 7 } tidyRun).any
      (fun s => decide (s.exitWG = 2 ∧ s.Live 1 ∧ (s.session 1).id = 3)) = true := by decide
  obtain ⟨s, hs, hend⟩ := (Option.any_eq_true _ _).mp hrun
  obtain ⟨hwg, hlive, hid⟩ := of_decide_eq_true hend
  have hreach : machine.ReachableVia Tidy s :=
    TSys.ReachableVia.execWhile (fun _ _ h => of_decide_eq_true h) (.init ⟨7, rfl⟩) hs
  obtain ⟨hregistered, hcount, -⟩ := registry_balanced hreach
  exact ⟨s, hreach, hwg, hcount.trans hwg, (hregistered 1 hlive 3).mpr hid.symm⟩

/-- Two sessions, 0 and 1. `Attach(0)` on the second is refused; still the map
has lost the first, whose id now leads to the second, and the second has changed
its id. The exit message for session 0 then goes to the second session: nothing
tells the first one to exit any more. -/
theorem refused_attach :
    ∃ s t u, machine.Reachable s ∧ attachError s 1 false = some .refused ∧
      next s (.attach 1 0 false) = some t ∧ next t (.exit 0) = some u ∧
      s.sessionMap.lookup 0 = some 0 ∧ s.sessionMap.lookup 1 = some 1 ∧ (s.session 1).id = 1 ∧
      t.sessionMap.keys = [0] ∧ t.sessionMap.lookup 0 = some 1 ∧ (t.session 1).id = 0 ∧
      t.Live 0 ∧ t.exitWG = 2 ∧
      (u.session 0).exits = 0 ∧ (u.session 1).exits = 1 ∧ u.sessionMap.keys = [] ∧ u.exitWG = 1 := by
  have hrun : (machine.exec { sessionID := 0 } [.newSession, .newSession]).any (fun s =>
      (next s (.attach 1 0 false)).any fun t => (next t (.exit 0)).any fun u => decide (
        attachError s 1 false = some .refused ∧
        s.sessionMap.lookup 0 = some 0 ∧ s.sessionMap.lookup 1 = some 1 ∧ (s.session 1).id = 1 ∧
        t.sessionMap.keys = [0] ∧ t.sessionMap.lookup 0 = some 1 ∧ (t.session 1).id = 0 ∧
        t.Live 0 ∧ t.exitWG = 2 ∧ (u.session 0).exits = 0 ∧ (u.session 1).exits = 1 ∧
        u.sessionMap.keys = [] ∧ u.exitWG = 1)) = true := by decide
  obtain ⟨s, hs, hattach⟩ := (Option.any_eq_true _ _).mp hrun
  obtain ⟨t, ht, hexit⟩ := (Option.any_eq_true _ _).mp hattach
  obtain ⟨u, hu, hend⟩ := (Option.any_eq_true _ _).mp hexit
  obtain ⟨herr, hend⟩ := of_decide_eq_true hend
  exact ⟨s, t, u, TSys.Reachable.exec (.init ⟨0, rfl⟩) hs, herr, ht, hu, hend⟩

end Tsshd.Client

import Mathlib.Data.List.AList
import Tsshd.Core.Routines

/-!
# Connections parked for the client

A connection that a listener of the server accepts (forward.go, session.go) waits in
`fwdAcceptMap` until the client, told of its id, opens a stream for it. Many goroutines
meet at the map: the accept loops of `handleListenEvent` and `handleChannelAccept`, the
handlers of `accept` streams, which ask for any id they like, and a timer for each
connection (`reapAcceptConnAfterTimeout`). Every access to the map is made under
`fwdAcceptMutex`, so it is one step.

* `accepted_accounted` — each connection ever accepted is in the hand of one goroutine,
  parked, or closed, and closed once;
* `parked_reaped` — no connection stays parked: its timer runs, or is about to be
  started;
* `claim_matched` — a stream is served with the connection that was parked under the id
  it asked for, and no two streams with the same one.
-/

namespace Tsshd.Forward.Accept

/-! ## Goroutines -/

/-- Where a goroutine stands. Connections are numbered in the order they are accepted. -/
inductive Pc
  /-- The loop of `handleListenEvent`, in `Accept`. -/
  | listen
  /-- The loop of `handleChannelAccept`, in `Accept`. -/
  | channel
  /-- The goroutine it starts for a connection, before `c.server.Load()`. -/
  | load (conn : Nat)
  /-- `addAcceptConn`, `reapAcceptConnAfterTimeout` and the message to the client, for a
  listener or for a channel. -/
  | add (listener : Bool) (conn : Nat)
  | reap (listener : Bool) (id : Nat)
  | announce (listener : Bool) (id : Nat)
  /-- The listener's message has failed. -/
  | withdraw (id : Nat)
  /-- The function given to `time.AfterFunc`. -/
  | timer (id : Nat)
  /-- `handleAcceptEvent`: what the client asks for, and the stream it is served on until
  `forwardConnection` returns. -/
  | claim (id : Nat)
  | serve (id conn : Nat)
  | closing (conn : Nat)
  | done
deriving DecidableEq, Repr

structure Shared where
  fwdAcceptMap : AList fun _ : Nat => Nat := ∅
  /-- A `uint64` in the source: no server is taken to accept 2^64 connections. -/
  nextFwdAcceptID : Nat := 0
  /-- How many connections were accepted. -/
  accepted : Nat := 0
  closedConns : List Nat := []
  /-- History: the connection parked under each id. -/
  parked : List Nat := []

def Shared.addAcceptConn (s : Shared) (conn : Nat) : Shared :=
  { s with
    fwdAcceptMap := s.fwdAcceptMap.insert s.nextFwdAcceptID conn
    nextFwdAcceptID := s.nextFwdAcceptID + 1
    parked := s.parked ++ [conn] }

def Shared.takeAcceptConn (s : Shared) (id : Nat) : Option Nat × Shared :=
  match s.fwdAcceptMap.lookup id with
  | some conn => (some conn, { s with fwdAcceptMap := s.fwdAcceptMap.erase id })
  | none => (none, s)

/-- `if conn := s.takeAcceptConn(id); conn != nil { conn.Close() }`. -/
def closing : Option Nat → Pc
  | some conn => .closing conn
  | none => .done

/-- A connection that is not there is an `invalid accept id`. -/
def serving (id : Nat) : Option Nat → Pc
  | some conn => .serve id conn
  | none => .done

/-- One access. `ok` is what the call it makes returns: a connection from `Accept`, a
server from `Load`, a message that was sent. -/
def step (s : Shared) (pc : Pc) (ok : Bool) : Option (Shared × Pc × List Pc) :=
  match pc with
  | .listen =>
    if ok then some ({ s with accepted := s.accepted + 1 }, .add true s.accepted, [])
    else some (s, .done, [])
  | .channel =>
    if ok then some ({ s with accepted := s.accepted + 1 }, .channel, [.load s.accepted])
    else some (s, .done, [])
  | .load conn => some (s, if ok then .add false conn else .closing conn, [])
  | .add listener conn => some (s.addAcceptConn conn, .reap listener s.nextFwdAcceptID, [])
  | .reap listener id => some (s, .announce listener id, [.timer id])
  | .announce true id => some (s, if ok then .listen else .withdraw id, [])
  -- The failure is only warned of: the timer closes the connection.
  | .announce false _ => some (s, .done, [])
  | .withdraw id | .timer id =>
    some ((s.takeAcceptConn id).2, closing (s.takeAcceptConn id).1, [])
  | .claim id => some ((s.takeAcceptConn id).2, serving id (s.takeAcceptConn id).1, [])
  | .serve _ conn => some (s, .closing conn, [])
  | .closing conn => some ({ s with closedConns := s.closedConns ++ [conn] }, .done, [])
  | .done => none

/-- Listeners, channels, and whatever the client asks for. -/
def start (_ : Shared) : Pc → Bool
  | .listen | .channel | .claim _ => true
  | _ => false

def routines : Routines Shared Pc Bool where
  init s := s = {}
  start := start
  step := step

theorem start_cases {s : Shared} {pc : Pc} (h : routines.start s pc = true) :
    pc = .listen ∨ pc = .channel ∨ ∃ id, pc = .claim id := by
  cases pc <;> simp_all [routines, start]

variable {s s' : Shared} {pc pc' : Pc} {ok : Bool} {forks : List Pc} {id conn : Nat}

/-! ## The map -/

/-- A connection is found, and then it is out of the map; or nothing happens. -/
theorem takeAcceptConn_cases (s : Shared) (id : Nat) :
    (∃ conn l r, s.fwdAcceptMap.lookup id = some conn ∧
      s.fwdAcceptMap.entries = l ++ ⟨id, conn⟩ :: r ∧
      (s.fwdAcceptMap.erase id).entries = l ++ r ∧
      s.takeAcceptConn id = (some conn, { s with fwdAcceptMap := s.fwdAcceptMap.erase id })) ∨
    (id ∉ s.fwdAcceptMap ∧ s.takeAcceptConn id = (none, s)) := by
  unfold Shared.takeAcceptConn
  cases hlookup : s.fwdAcceptMap.lookup id with
  | none => exact .inr ⟨AList.lookup_eq_none.mp hlookup, rfl⟩
  | some conn =>
    have hmem : id ∈ s.fwdAcceptMap := AList.lookup_isSome.mp (by rw [hlookup]; rfl)
    obtain ⟨conn', l, r, -, hentries, herase⟩ := List.exists_of_kerase hmem
    have hconn : s.fwdAcceptMap.lookup id = some conn' :=
      AList.mem_lookup_iff.mpr (by rw [hentries]; simp)
    obtain rfl : conn = conn' := Option.some.inj (hlookup.symm.trans hconn)
    exact .inl ⟨conn, l, r, rfl, hentries, herase, rfl⟩

/-- The map holds what was parked. -/
structure Inv (s : Shared) : Prop where
  length : s.parked.length = s.nextFwdAcceptID
  parked : ∀ id conn, s.fwdAcceptMap.lookup id = some conn → s.parked[id]? = some conn

theorem Inv.lt_of_mem (h : Inv s) (hmem : id ∈ s.fwdAcceptMap) : id < s.nextFwdAcceptID := by
  obtain ⟨conn, hconn⟩ := Option.isSome_iff_exists.mp (AList.lookup_isSome.mpr hmem)
  have hlt := (List.getElem?_eq_some_iff.mp (h.parked id conn hconn)).1
  rwa [h.length] at hlt

/-- An id is new when it is given. -/
theorem Inv.fresh (h : Inv s) : s.nextFwdAcceptID ∉ s.fwdAcceptMap :=
  fun hmem => absurd (h.lt_of_mem hmem) (Nat.lt_irrefl _)

theorem Inv.addAcceptConn (h : Inv s) (conn : Nat) : Inv (s.addAcceptConn conn) := by
  refine ⟨?_, fun id c hc => ?_⟩
  · simp [Shared.addAcceptConn, h.length]
  · show (s.parked ++ [conn])[id]? = some c
    replace hc : (s.fwdAcceptMap.insert s.nextFwdAcceptID conn).lookup id = some c := hc
    by_cases hid : id = s.nextFwdAcceptID
    · subst hid
      rw [AList.lookup_insert] at hc
      rw [← h.length, List.getElem?_concat_length]
      exact hc
    · rw [AList.lookup_insert_ne hid] at hc
      have hold := h.parked id c hc
      rwa [List.getElem?_append_left (List.getElem?_eq_some_iff.mp hold).1]

theorem Inv.takeAcceptConn (h : Inv s) (id : Nat) : Inv (s.takeAcceptConn id).2 := by
  obtain ⟨conn, l, r, -, -, -, htake⟩ | ⟨-, htake⟩ := takeAcceptConn_cases s id
  · rw [htake]
    refine ⟨h.length, fun k c hc => ?_⟩
    by_cases hkid : k = id
    · subst hkid
      rw [AList.lookup_erase] at hc
      cases hc
    · rw [AList.lookup_erase_ne hkid] at hc
      exact h.parked k c hc
  · rw [htake]
    exact h

@[simp] theorem takeAcceptConn_parked (s : Shared) (id : Nat) :
    (s.takeAcceptConn id).2.parked = s.parked := by
  unfold Shared.takeAcceptConn
  split <;> rfl

@[simp] theorem takeAcceptConn_accepted (s : Shared) (id : Nat) :
    (s.takeAcceptConn id).2.accepted = s.accepted := by
  unfold Shared.takeAcceptConn
  split <;> rfl

/-! ## What a goroutine knows -/

/-- A stream is served with what was parked under its id. -/
def Pc.Holds (s : Shared) : Pc → Prop
  | .serve id conn => s.parked[id]? = some conn
  | _ => True

theorem Pc.Holds.mono (hpc : pc.Holds s) (h : s.parked <+: s'.parked) : pc.Holds s' := by
  cases pc with
  | serve id conn =>
    have hold : s.parked[id]? = some conn := hpc
    obtain ⟨more, hmore⟩ := h
    show s'.parked[id]? = some conn
    rwa [← hmore, List.getElem?_append_left (List.getElem?_eq_some_iff.mp hold).1]
  | _ => trivial

theorem holds_closing (s : Shared) (found : Option Nat) : (closing found).Holds s := by
  cases found <;> trivial

theorem Inv.holds_serving (h : Inv s) (id : Nat) :
    (serving id (s.takeAcceptConn id).1).Holds (s.takeAcceptConn id).2 := by
  obtain ⟨conn, l, r, hlookup, -, -, htake⟩ | ⟨-, htake⟩ := takeAcceptConn_cases s id
  · rw [htake]
    exact h.parked id conn hlookup
  · rw [htake]
    trivial

theorem step_spec (hinv : Inv s) (h : step s pc ok = some (s', pc', forks)) :
    s.parked <+: s'.parked ∧ Inv s' ∧ pc'.Holds s' ∧ ∀ q ∈ forks, q.Holds s' := by
  have haccepted : Inv { s with accepted := s.accepted + 1 } := ⟨hinv.length, hinv.parked⟩
  have htake : ∀ id, s.parked <+: (s.takeAcceptConn id).2.parked := fun id =>
    (takeAcceptConn_parked s id).symm ▸ List.prefix_rfl
  cases pc with
  | listen =>
    cases ok <;> cases h
    · exact ⟨List.prefix_rfl, hinv, trivial, by simp⟩
    · exact ⟨List.prefix_rfl, haccepted, trivial, by simp⟩
  | channel =>
    cases ok <;> cases h
    · exact ⟨List.prefix_rfl, hinv, trivial, by simp⟩
    · exact ⟨List.prefix_rfl, haccepted, trivial, by simp [Pc.Holds]⟩
  | load | serve => cases ok <;> cases h <;> exact ⟨List.prefix_rfl, hinv, trivial, by simp⟩
  | add listener conn =>
    cases h
    exact ⟨List.prefix_append _ _, hinv.addAcceptConn conn, trivial, by simp⟩
  | reap listener id =>
    cases h
    exact ⟨List.prefix_rfl, hinv, trivial, by simp [Pc.Holds]⟩
  | announce listener id =>
    cases listener <;> cases ok <;> cases h <;> exact ⟨List.prefix_rfl, hinv, trivial, by simp⟩
  | withdraw id | timer id =>
    cases h
    exact ⟨htake id, hinv.takeAcceptConn id, holds_closing _ _, by simp⟩
  | claim id =>
    cases h
    exact ⟨htake id, hinv.takeAcceptConn id, hinv.holds_serving id, by simp⟩
  | closing conn =>
    cases h
    exact ⟨List.prefix_rfl, ⟨hinv.length, hinv.parked⟩, trivial, by simp⟩
  | done => exact absurd h (by simp [step])

def outline : Routines.Outline routines fun _ _ => True where
  inv := Inv
  holds s pc := pc.Holds s
  init s h := by
    obtain rfl : s = {} := h
    exact ⟨rfl, fun id conn hconn => by simp at hconn⟩
  start s pc _ h := by
    obtain rfl | rfl | ⟨id, rfl⟩ := start_cases h <;> trivial
  own s pc ok s' pc' forks hinv _ h := (step_spec hinv h).2
  others s pc ok s' pc' forks q hinv _ hq _ h := hq.mono (step_spec hinv h).1

variable {p : Routines.Pool Shared Pc}

theorem within_reachable (hp : routines.machine.Reachable p) : outline.Within p :=
  outline.sound (fun _ _ _ _ _ _ _ _ _ => trivial) hp

/-! ## Who has a connection -/

def Pc.hand : Pc → List Nat
  | .load conn | .add _ conn | .serve _ conn | .closing conn => [conn]
  | _ => []

def Shared.conns (s : Shared) : List Nat := s.fwdAcceptMap.entries.map Sigma.snd ++ s.closedConns

theorem hand_closing (found : Option Nat) : (closing found).hand = found.toList := by
  cases found <;> rfl

theorem hand_serving (id : Nat) (found : Option Nat) : (serving id found).hand = found.toList := by
  cases found <;> rfl

/-- What is taken out of the map is in hand. -/
theorem takeAcceptConn_conns (s : Shared) (id : Nat) :
    ((s.takeAcceptConn id).1.toList ++ (s.takeAcceptConn id).2.conns).Perm s.conns := by
  obtain ⟨conn, l, r, -, hentries, herase, htake⟩ | ⟨-, htake⟩ := takeAcceptConn_cases s id
  · rw [htake]
    simp only [Shared.conns, hentries, herase, List.map_append, List.map_cons, Option.toList_some,
      List.append_assoc, List.cons_append, List.nil_append]
    exact List.perm_middle.symm
  · rw [htake]
    exact .refl _

def custody : Routines.Custody routines fun s _ => Inv s where
  hand := Pc.hand
  stored := Shared.conns
  made := Shared.accepted
  init s h := by
    obtain rfl : s = {} := h
    rfl
  start s pc h := by
    obtain rfl | rfl | ⟨id, rfl⟩ := start_cases h <;> rfl
  step s pc ok s' pc' forks hinv h := by
    cases pc with
    | listen | channel =>
      cases ok <;> cases h
      · exact .inl ⟨rfl, .refl _⟩
      · exact .inr ⟨rfl, .refl _⟩
    | add listener conn =>
      cases h
      refine .inl ⟨rfl, ?_⟩
      simp only [Shared.conns, Shared.addAcceptConn, AList.entries_insert_of_notMem hinv.fresh]
      exact .refl _
    | announce listener id => cases listener <;> cases ok <;> cases h <;> exact .inl ⟨rfl, .refl _⟩
    | load | reap | serve =>
      cases ok <;> cases h <;> exact .inl ⟨rfl, .refl _⟩
    | withdraw id | timer id =>
      cases h
      refine .inl ⟨takeAcceptConn_accepted s id, ?_⟩
      rw [hand_closing, List.flatMap_nil, List.append_nil]
      exact takeAcceptConn_conns s id
    | claim id =>
      cases h
      refine .inl ⟨takeAcceptConn_accepted s id, ?_⟩
      rw [hand_serving, List.flatMap_nil, List.append_nil]
      exact takeAcceptConn_conns s id
    | closing conn =>
      cases h
      refine .inl ⟨rfl, ?_⟩
      simp only [Shared.conns, Pc.hand, List.flatMap_nil, List.append_nil, List.nil_append,
        ← List.append_assoc]
      exact List.perm_append_comm
    | done => exact absurd h (by simp [routines, step])

theorem accounted (hp : routines.machine.Reachable p) :
    (p.threads.flatMap Pc.hand ++ p.shared.conns).Perm (List.range p.shared.accepted) :=
  custody.accounted (fun _ hp _ _ => (within_reachable hp).inv) hp

/-! ## Who reaps a connection -/

theorem mem_of_mem_takeAcceptConn {k : Nat} (h : id ∈ (s.takeAcceptConn k).2.fwdAcceptMap) :
    id ≠ k ∧ id ∈ s.fwdAcceptMap := by
  obtain ⟨conn, l, r, -, -, -, htake⟩ | ⟨hnone, htake⟩ := takeAcceptConn_cases s k
  · rw [htake] at h
    exact AList.mem_erase.mp h
  · rw [htake] at h
    refine ⟨?_, h⟩
    rintro rfl
    exact hnone h

/-- The goroutine that starts the timer of `id`, and the timer. -/
def Pc.Reaps (id : Nat) (pc : Pc) : Prop := pc = .timer id ∨ ∃ listener, pc = .reap listener id

def reapers (id : Nat) : Routines.Attendance routines fun _ _ => True where
  needed s := id ∈ s.fwdAcceptMap
  attends := Pc.Reaps id
  init s h := by
    obtain rfl : s = {} := h
    exact AList.notMem_empty id
  step s pc ok s' pc' forks _ h hmem := by
    have hother : ∀ {q : Pc}, q ≠ .timer id → (∀ listener, q ≠ .reap listener id) → ¬ q.Reaps id :=
      fun htimer hreap hreaps => hreaps.elim htimer fun ⟨listener, heq⟩ => hreap listener heq
    cases pc with
    | listen | channel | load => cases ok <;> cases h <;> exact .inl ⟨hmem, hother (by simp) (by simp)⟩
    | announce listener k =>
      cases listener <;> cases ok <;> cases h <;>
        exact .inl ⟨hmem, hother (by simp) (by simp)⟩
    | serve | closing =>
      cases h
      exact .inl ⟨hmem, hother (by simp) (by simp)⟩
    | add listener conn =>
      cases h
      rcases (AList.mem_insert _).mp hmem with rfl | hmem
      · exact .inr (.inl (.inr ⟨listener, rfl⟩))
      · exact .inl ⟨hmem, hother (by simp) (by simp)⟩
    | reap listener k =>
      cases h
      by_cases hk : k = id
      · subst hk
        exact .inr (.inr ⟨_, List.mem_singleton.mpr rfl, .inl rfl⟩)
      · exact .inl ⟨hmem, hother (by simp) (by simp [hk])⟩
    | withdraw k | timer k | claim k =>
      cases h
      obtain ⟨hne, hmem⟩ := mem_of_mem_takeAcceptConn hmem
      exact .inl ⟨hmem, hother (by simp [hne.symm]) (by simp)⟩
    | done => exact absurd h (by simp [routines, step])

/-! ## Results -/

/-- **No connection is lost or closed twice.** -/
theorem accepted_accounted (hp : routines.machine.Reachable p) :
    (p.threads.flatMap Pc.hand ++ p.shared.fwdAcceptMap.entries.map Sigma.snd ++
      p.shared.closedConns).Perm (List.range p.shared.accepted) := by
  have h := accounted hp
  rwa [Shared.conns, ← List.append_assoc] at h

/-- One connection is served, one has been closed by its timer and one is parked. -/
theorem accepted_accounted_three : ∃ p, routines.machine.Reachable p ∧
    .serve 0 0 ∈ p.threads ∧ p.shared.closedConns = [1] ∧ 2 ∈ p.shared.fwdAcceptMap ∧
    (p.threads.flatMap Pc.hand ++ p.shared.fwdAcceptMap.entries.map Sigma.snd ++ [1]).Perm
      (List.range p.shared.accepted) := by
  obtain ⟨p, hp, htest⟩ := Routines.exists_of_exec (m := routines)
    [.start .listen, .run 0 true, .run 0 true, .run 0 true, .run 0 true, .start (.claim 0),
      .run 2 true, .start .channel, .run 3 true, .run 4 true, .run 4 true, .run 4 true,
      .run 5 true, .run 5 true, .run 0 true, .run 0 true]
    (fun p => .serve 0 0 ∈ p.threads ∧ p.shared.closedConns = [1] ∧ 2 ∈ p.shared.fwdAcceptMap) rfl
    (by decide)
  obtain ⟨hserve, hclosed, hparked⟩ := of_decide_eq_true htest
  exact ⟨p, hp, hserve, hclosed, hparked, hclosed ▸ accepted_accounted hp⟩

/-- **No connection stays parked.** As long as it is in the map there is a timer that
takes it out and closes it, or the goroutine that parked it is about to start one. -/
theorem parked_reaped (hp : routines.machine.Reachable p) (hmem : id ∈ p.shared.fwdAcceptMap) :
    .timer id ∈ p.threads ∨ ∃ listener, .reap listener id ∈ p.threads := by
  obtain ⟨pc, hpc, rfl | ⟨listener, rfl⟩⟩ := (reapers id).attended (fun _ _ _ _ => trivial) hp hmem
  · exact .inl hpc
  · exact .inr ⟨listener, hpc⟩

/-- The message to the client has failed, and nobody will ask for the connection. -/
theorem parked_reaped_unannounced : ∃ p, routines.machine.Reachable p ∧
    0 ∈ p.shared.fwdAcceptMap ∧ .done ∈ p.threads ∧
    (.timer 0 ∈ p.threads ∨ ∃ listener, .reap listener 0 ∈ p.threads) := by
  obtain ⟨p, hp, htest⟩ := Routines.exists_of_exec (m := routines)
    [.start .channel, .run 0 true, .run 1 true, .run 1 true, .run 1 true, .run 1 false]
    (fun p => 0 ∈ p.shared.fwdAcceptMap ∧ .done ∈ p.threads) rfl (by decide)
  obtain ⟨hmem, hdone⟩ := of_decide_eq_true htest
  exact ⟨p, hp, hmem, hdone, parked_reaped hp hmem⟩

/-- **A stream gets what it asked for, alone.** -/
theorem claim_matched (hp : routines.machine.Reachable p) {i : Nat}
    (hi : p.threads[i]? = some (.serve id conn)) :
    p.shared.parked[id]? = some conn ∧ id ∉ p.shared.fwdAcceptMap ∧
      conn ∉ p.shared.closedConns ∧
      ∀ j id' conn', j ≠ i → p.threads[j]? = some (.serve id' conn') → id' ≠ id ∧ conn' ≠ conn := by
  have hw := within_reachable hp
  have hinv : Inv p.shared := hw.inv
  have hserve : ∀ {j id conn : Nat}, p.threads[j]? = some (.serve id conn) →
      p.shared.parked[id]? = some conn := fun hj => hw.threads _ (List.mem_of_getElem? hj)
  obtain ⟨hstored, halone⟩ := custody.alone (fun _ hp _ _ => (within_reachable hp).inv) hp hi
    (List.mem_singleton.mpr rfl)
  obtain ⟨hmap, hclosed⟩ := not_or.mp (mt List.mem_append.mpr hstored)
  refine ⟨hserve hi, fun hmem => hmap ?_, hclosed, fun j id' conn' hji hj => ?_⟩
  · -- What the map has under the id is what was parked under it.
    obtain ⟨found, hfound⟩ := Option.isSome_iff_exists.mp (AList.lookup_isSome.mpr hmem)
    obtain rfl : found = conn :=
      Option.some.inj ((hinv.parked id found hfound).symm.trans (hserve hi))
    exact List.mem_map.mpr ⟨⟨id, found⟩, AList.mem_lookup_iff.mp hfound, rfl⟩
  · have hne : conn' ≠ conn := by
      rintro rfl
      exact halone j _ hji hj (List.mem_singleton.mpr rfl)
    refine ⟨?_, hne⟩
    rintro rfl
    exact hne (Option.some.inj ((hserve hj).symm.trans (hserve hi)))

/-- Three streams ask for the same connection. -/
theorem claim_matched_thrice : ∃ p, routines.machine.Reachable p ∧
    p.threads = [.reap true 0, .done, .serve 0 0, .done] ∧ p.shared.parked[0]? = some 0 ∧
    0 ∉ p.shared.fwdAcceptMap ∧ 0 ∉ p.shared.closedConns := by
  obtain ⟨p, hp, htest⟩ := Routines.exists_of_exec (m := routines)
    [.start .listen, .start (.claim 0), .run 1 true, .run 0 true, .run 0 true, .start (.claim 0),
      .run 2 true, .start (.claim 0), .run 3 true]
    (fun p => p.threads = [.reap true 0, .done, .serve 0 0, .done]) rfl (by decide)
  have hthreads := of_decide_eq_true htest
  obtain ⟨hparked, hmap, hclosed, -⟩ := claim_matched (i := 2) hp (by rw [hthreads]; rfl)
  exact ⟨p, hp, hthreads, hparked, hmap, hclosed⟩

end Tsshd.Forward.Accept

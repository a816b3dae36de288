import Tsshd.Core.TSys
import Mathlib.Logic.Function.Basic
import Mathlib.Data.List.Perm.Basic

/-!
# Session ownership in attachable mode

Which server owns which session: `activateServer` (server.go), `attachSession`
and `detachAllSessions` (attach.go), `handleDetachEvent` (bus.go), the checks of
`handleStream` and `newSessionContext` (server.go, session.go).

* **the mutex** — `Holder` is the operation inside `attachMutex` and its next
  access to something shared;
* **streams** — a `Stream` is a handler goroutine outside the mutex. Starting a
  session passes the active-server check of `handleStream` and registers the
  session later, under `sessionMutex` only;
* **sessions** — objects with an identity of their own; `sessionMap` is the
  registry from session ids to objects.

A registration whose server was superseded after its check leaves a session
that nobody can attach (`registration_after_takeover`). Without such a
registration the sessions of the registry are free or owned by the active
server (`sessions_owned_by_active`).
-/

namespace Tsshd.Ownership

/-- The fields of `sessionContext` that ownership is about. -/
structure Session where
  id : Nat
  server : Option Nat
  closed : Bool := false
deriving DecidableEq, Repr

/-- Who called `detachAllSessions`. -/
inductive Caller
  | activation
  | detachEvent
deriving DecidableEq, Repr

/-- The operation that holds `attachMutex`, by its next step. -/
inductive Holder
  | free
  -- activateServer
  | closing (server : Nat)
  | swap (server : Nat)
  -- detachAllSessions
  | snapshot (caller : Caller) (server : Nat) (old : Option Nat)
  | visit (caller : Caller) (server : Nat) (old : Option Nat) (todo : List Nat)
  | clear (caller : Caller) (server : Nat) (old : Option Nat) (sess : Nat) (todo : List Nat)
  | serve (server : Nat)
  -- handleDetachEvent
  | detachActive (server : Nat)
  -- attachSession
  | attachActive (server sess : Nat)
  | attachOwner (server sess : Nat)
  | attachStore (server sess : Nat)
deriving DecidableEq, Repr

/-- A stream handler outside the mutex, by its next step. -/
inductive Stream
  /-- `serving` was set; the active server is checked next. -/
  | checkActive (server : Nat)
  /-- Both checks passed; the start message decides what follows. -/
  | dispatch (server : Nat)
  /-- An attach has looked its session up. -/
  | checkClosed (server sess : Nat)
  | lock (server sess : Nat)
deriving DecidableEq, Repr

structure Sys where
  /-- `activeSshUdpServer`. -/
  active : Option Nat := none
  serving : Nat → Bool := fun _ => false
  busClosing : Bool := false
  holder : Holder := .free
  streams : List Stream := []
  sessions : Nat → Session := fun _ => ⟨0, none, false⟩
  /-- The number of session objects created so far. -/
  count : Nat := 0
  sessionMap : List (Nat × Nat) := []
  /-- The sessions between the two steps of their `Close`. -/
  closing : List Nat := []

/-- What can happen next. -/
inductive Act
  /-- A bus handshake enters `activateServer`; a detach event takes the mutex. -/
  | activate (server : Nat)
  | detach (server : Nat)
  /-- `busClosing` is set by a close event. -/
  | closeBus
  /-- The holder of the mutex moves. `order` is the order in which
  `getAllSessions` lists the registry, `ok` whether an acknowledgement went
  out. -/
  | hold (order : List Nat) (ok : Bool)
  /-- A session stream of a server arrives. -/
  | openStream (server : Nat)
  /-- The stream at this position moves; at the dispatch it starts the session
  with this id, or attaches to it. -/
  | stream (pos : Nat) (id : Nat) (attach : Bool)
  /-- `sessionContext.Close`: the flag, then the registry. -/
  | close (sess : Nat)
  | unregister (sess : Nat)
deriving DecidableEq, Repr

namespace Sys

def setServer (s : Sys) (sess : Nat) (server : Option Nat) : Sys :=
  { s with sessions :=
      Function.update s.sessions sess { s.sessions sess with server := server } }

/-- `newSessionContext` under `sessionMutex`. -/
def newSessionContext (s : Sys) (server id : Nat) : Sys :=
  if s.sessionMap.any (fun e => e.1 = id) then s
  else
    { s with
      sessions := Function.update s.sessions s.count ⟨id, some server, false⟩
      count := s.count + 1
      sessionMap := s.sessionMap ++ [(id, s.count)] }

/-- Where `detachAllSessions` returns to. -/
def detached (s : Sys) (caller : Caller) (server : Nat) : Sys :=
  match caller with
  | .activation => { s with holder := .serve server }
  | .detachEvent => { s with holder := .free }

end Sys

/-- One step of the holder of `attachMutex`. -/
def holderStep (kcp : Bool) (order : List Nat) (ok : Bool) (s : Sys) : Option Sys :=
  match s.holder with
  | .free => none
  | .closing v => some { s with holder := if s.busClosing then .free else .swap v }
  | .swap v => some { s with active := some v, holder := .snapshot .activation v s.active }
  | .snapshot caller v old =>
    if order.isPerm (s.sessionMap.map Prod.snd) then
      some { s with holder := .visit caller v old order }
    else none
  | .visit caller v old todo =>
    match todo with
    | [] => some (s.detached caller v)
    | i :: rest =>
      if (s.sessions i).server ≠ old then some { s with holder := .visit caller v old rest }
      else some { s with holder := .clear caller v old i rest }
  | .clear caller v old i rest =>
    some { s.setServer i none with holder := .visit caller v old rest }
  | .serve v => some { s with serving := Function.update s.serving v true, holder := .free }
  | .detachActive v =>
    if kcp && s.active = some v then
      some { s with holder := .snapshot .detachEvent v (some v) }
    else some { s with holder := .free }
  | .attachActive v i =>
    some { s with holder := if s.active = some v then .attachOwner v i else .free }
  | .attachOwner v i =>
    some { s with
      holder := if (s.sessions i).server = none then .attachStore v i else .free }
  | .attachStore v i =>
    -- behind the acknowledgement; the streams and the checker follow
    if ok then some { s.setServer i (some v) with holder := .free }
    else some { s with holder := .free }

/-- One step of the stream at `pos`. -/
def streamStep (pos id : Nat) (attach : Bool) (s : Sys) : Option Sys :=
  match s.streams[pos]? with
  | none => none
  | some (.checkActive v) =>
    if s.active = some v then some { s with streams := s.streams.set pos (.dispatch v) }
    else some { s with streams := s.streams.eraseIdx pos }
  | some (.dispatch v) =>
    if attach then
      match s.sessionMap.find? (fun e => e.1 = id) with
      | some (_, i) => some { s with streams := s.streams.set pos (.checkClosed v i) }
      | none => some { s with streams := s.streams.eraseIdx pos }
    else some { s.newSessionContext v id with streams := s.streams.eraseIdx pos }
  | some (.checkClosed v i) =>
    if (s.sessions i).closed then some { s with streams := s.streams.eraseIdx pos }
    else some { s with streams := s.streams.set pos (.lock v i) }
  | some (.lock v i) =>
    if s.holder = .free then
      some { s with streams := s.streams.eraseIdx pos, holder := .attachActive v i }
    else none

def next (kcp : Bool) (s : Sys) : Act → Option Sys
  | .activate v => if s.holder = .free then some { s with holder := .closing v } else none
  | .detach v => if s.holder = .free then some { s with holder := .detachActive v } else none
  | .closeBus => some { s with busClosing := true }
  | .hold order ok => holderStep kcp order ok s
  | .openStream v =>
    if s.serving v then some { s with streams := s.streams ++ [.checkActive v] } else some s
  | .stream pos id attach => streamStep pos id attach s
  | .close i =>
    if i < s.count ∧ (s.sessions i).closed = false then
      some { s with
        sessions := Function.update s.sessions i { s.sessions i with closed := true }
        closing := i :: s.closing }
    else none
  | .unregister i =>
    if i ∈ s.closing then
      some { s with
        sessionMap := s.sessionMap.filter fun e => e.1 ≠ (s.sessions i).id
        closing := s.closing.erase i }
    else none

/-- The registry, the active server and everything that changes ownership. -/
def machine (kcp : Bool) : TSys Sys Act where
  init s := s = {}
  next := next kcp

/-- With the mutex free, every registered session is free or owned by the
active server. -/
def OwnedByActive (s : Sys) : Prop :=
  s.holder = .free → ∀ e ∈ s.sessionMap,
    (s.sessions e.2).server = none ∨ (s.sessions e.2).server = s.active

/-! ## A registration behind a takeover -/

/-- Server 1 is activated and passes the check for a new session; server 2
takes over, which finds no session to detach; server 1 registers session 7. -/
def lateRegistration : List Act :=
  [.activate 1, .hold [] true, .hold [] true, .hold [] true, .hold [] true, .hold [] true,
    .openStream 1, .stream 0 7 false,
    .activate 2, .hold [] true, .hold [] true, .hold [] true, .hold [] true, .hold [] true,
    .stream 0 7 false]

/-- The new session belongs to the superseded server. -/
theorem registration_after_takeover :
    ∃ s, (machine true).Reachable s ∧ s.active = some 2 ∧ s.sessionMap = [(7, 0)] ∧
      (s.sessions 0).server = some 1 ∧ ¬ OwnedByActive s := by
  have hrun : ((machine true).exec {} lateRegistration).any (fun s =>
      s.holder = .free ∧ s.active = some 2 ∧ s.sessionMap = [(7, 0)] ∧
        (s.sessions 0).server = some 1) = true := by
    decide
  obtain ⟨s, hs, hend⟩ := (Option.any_eq_true _ _).mp hrun
  obtain ⟨hfree, hactive, hmap, hserver⟩ := of_decide_eq_true hend
  refine ⟨s, .exec (.init rfl) hs, hactive, hmap, hserver, fun howned => ?_⟩
  have := howned hfree (7, 0) (by simp [hmap])
  simp [hserver, hactive] at this

/-! ## Runs without late registrations -/

/-- A session is registered while its server is active, or while the takeover
from it has not yet listed the registry. -/
def inTime (s : Sys) : Act → Bool
  | .stream pos _ false =>
    match s.streams[pos]? with
    | some (.dispatch v) =>
      s.active = some v ||
        match s.holder with
        | .snapshot _ _ old => old = some v
        | _ => false
    | _ => true
  | _ => true

/-- A session the operation in the mutex is still going to visit. -/
def Holder.Pending (i : Nat) (server : Option Nat) : Holder → Prop
  | .snapshot _ _ old => server = old
  | .visit _ _ old todo => server = old ∧ i ∈ todo
  | .clear _ _ old j todo => server = old ∧ i ∈ j :: todo
  | _ => False

/-- What the operation in the mutex knows about the active server. -/
def Holder.Knows (active : Option Nat) : Holder → Prop
  | .snapshot _ v _ | .visit _ v _ _ | .clear _ v _ _ _ | .attachOwner v _ | .attachStore v _ =>
    active = some v
  | _ => True

structure Inv (s : Sys) : Prop where
  fresh : ∀ e ∈ s.sessionMap, e.2 < s.count
  owned : ∀ e ∈ s.sessionMap, (s.sessions e.2).server = none ∨
    (s.sessions e.2).server = s.active ∨ s.holder.Pending e.2 (s.sessions e.2).server
  knows : s.holder.Knows s.active

section Steps

variable {s s' : Sys}

/-- The holder moves on without leaving a pending session behind. -/
theorem Inv.goto (h : Inv s) {holder : Holder} (hknows : holder.Knows s.active)
    (hpending : ∀ e ∈ s.sessionMap, s.holder.Pending e.2 (s.sessions e.2).server →
      (s.sessions e.2).server = none ∨ (s.sessions e.2).server = s.active ∨
        holder.Pending e.2 (s.sessions e.2).server) :
    Inv { s with holder := holder } := by
  refine ⟨h.fresh, fun e he => ?_, hknows⟩
  rcases h.owned e he with hn | ha | hp
  · exact .inl hn
  · exact .inr (.inl ha)
  · exact hpending e he hp

/-- An operation that has no pending session may continue anywhere. -/
theorem Inv.goto_of_not_pending (h : Inv s) {holder : Holder}
    (hno : ∀ i server, ¬ s.holder.Pending i server) (hknows : holder.Knows s.active) :
    Inv { s with holder := holder } :=
  h.goto hknows fun _ _ hp => absurd hp (hno _ _)

/-- A session changes its owner to one that is in order. -/
theorem Inv.setServer (h : Inv s) (i : Nat) {server : Option Nat} {holder : Holder}
    (hserver : server = none ∨ server = s.active) (hknows : holder.Knows s.active)
    (hpending : ∀ j sv, j ≠ i → s.holder.Pending j sv → holder.Pending j sv) :
    Inv { s.setServer i server with holder := holder } := by
  refine ⟨h.fresh, fun e he => ?_, hknows⟩
  show (Function.update s.sessions i _ e.2).server = none ∨ _
  by_cases hi : e.2 = i
  · simp only [Sys.setServer, hi, Function.update_self]
    exact hserver.imp_right .inl
  · simp only [Sys.setServer, Function.update_of_ne hi]
    exact (h.owned e he).imp_right fun ho => ho.imp_right (hpending _ _ hi)

theorem Inv.holderStep {kcp : Bool} {order : List Nat} {ok : Bool} (h : Inv s)
    (hstep : holderStep kcp order ok s = some s') : Inv s' := by
  have hk := h.knows
  unfold Ownership.holderStep at hstep
  cases hh : s.holder with
  | free => simp [hh] at hstep
  | closing v =>
    simp only [hh, Option.some.injEq] at hstep
    subst hstep
    refine h.goto_of_not_pending (by simp [hh, Holder.Pending]) ?_
    split <;> trivial
  | swap v =>
    simp only [hh, Option.some.injEq] at hstep
    subst hstep
    -- what the old server owns becomes pending
    refine ⟨h.fresh, fun e he => ?_, rfl⟩
    rcases h.owned e he with hn | ha | hp
    · exact .inl hn
    · exact .inr (.inr ha)
    · rw [hh] at hp
      exact hp.elim
  | snapshot caller v old =>
    rw [hh] at hk
    simp only [hh] at hstep
    split at hstep <;> cases hstep
    rename_i hperm
    refine h.goto hk fun e he hp => .inr (.inr ?_)
    rw [hh] at hp
    refine ⟨hp, ?_⟩
    rw [(List.isPerm_iff.mp hperm).mem_iff]
    exact List.mem_map_of_mem he
  | visit caller v old todo =>
    rw [hh] at hk
    simp only [hh] at hstep
    cases todo with
    | nil =>
      cases hstep
      cases caller <;>
        exact h.goto_of_not_pending (by simp [hh, Holder.Pending]) trivial
    | cons i rest =>
      simp only at hstep
      split at hstep <;> cases hstep
      · rename_i hskip
        refine h.goto hk fun e he hp => .inr (.inr ?_)
        rw [hh] at hp
        obtain ⟨hold, hmem⟩ := hp
        refine ⟨hold, (List.mem_cons.mp hmem).resolve_left ?_⟩
        intro heq
        rw [heq] at hold
        exact hskip hold
      · refine h.goto hk fun e he hp => .inr (.inr ?_)
        rw [hh] at hp
        exact hp
  | clear caller v old i rest =>
    rw [hh] at hk
    simp only [hh, Option.some.injEq] at hstep
    subst hstep
    refine h.setServer i (.inl rfl) hk fun j sv hj hp => ?_
    rw [hh] at hp
    exact ⟨hp.1, (List.mem_cons.mp hp.2).resolve_left hj⟩
  | serve v =>
    simp only [hh, Option.some.injEq] at hstep
    subst hstep
    have hf : Inv { s with holder := .free } :=
      h.goto_of_not_pending (by simp [hh, Holder.Pending]) trivial
    exact ⟨hf.fresh, hf.owned, trivial⟩
  | detachActive v =>
    simp only [hh] at hstep
    split at hstep <;> cases hstep
    · rename_i hcond
      simp only [Bool.and_eq_true, decide_eq_true_eq] at hcond
      exact h.goto_of_not_pending (by simp [hh, Holder.Pending]) hcond.2
    · exact h.goto_of_not_pending (by simp [hh, Holder.Pending]) trivial
  | attachActive v i =>
    simp only [hh, Option.some.injEq] at hstep
    subst hstep
    refine h.goto_of_not_pending (by simp [hh, Holder.Pending]) ?_
    split
    · rename_i hact
      exact hact
    · trivial
  | attachOwner v i =>
    rw [hh] at hk
    simp only [hh, Option.some.injEq] at hstep
    subst hstep
    refine h.goto_of_not_pending (by simp [hh, Holder.Pending]) ?_
    split
    · exact hk
    · trivial
  | attachStore v i =>
    rw [hh] at hk
    simp only [hh] at hstep
    split at hstep <;> cases hstep
    · refine h.setServer i (.inr hk.symm) trivial fun j sv _ hp => ?_
      simp [hh, Holder.Pending] at hp
    · exact h.goto_of_not_pending (by simp [hh, Holder.Pending]) trivial

/-- A new session is in order when its server is active or about to be
visited. -/
theorem Inv.newSessionContext (h : Inv s) {v : Nat} (id : Nat)
    (hv : some v = s.active ∨ s.holder.Pending s.count (some v)) :
    Inv (s.newSessionContext v id) := by
  unfold Sys.newSessionContext
  split
  · exact h
  · refine ⟨fun e he => ?_, fun e he => ?_, h.knows⟩
    · rcases List.mem_append.mp he with he | he
      · exact Nat.lt_succ_of_lt (h.fresh e he)
      · rw [List.mem_singleton.mp he]
        exact Nat.lt_succ_self _
    · rcases List.mem_append.mp he with he | he
      · -- the new object is none of the registered ones
        simp only [Function.update_of_ne (Nat.ne_of_lt (h.fresh e he))]
        exact h.owned e he
      · rw [List.mem_singleton.mp he]
        simp only [Function.update_self]
        exact .inr hv

theorem Inv.streamStep {pos id : Nat} {attach : Bool} (h : Inv s)
    (hok : inTime s (.stream pos id attach) = true)
    (hstep : streamStep pos id attach s = some s') : Inv s' := by
  unfold Ownership.streamStep at hstep
  cases hst : s.streams[pos]? with
  | none => simp [hst] at hstep
  | some st =>
    simp only [hst] at hstep
    cases st with
    | checkActive v =>
      simp only at hstep
      split at hstep <;> cases hstep <;> exact ⟨h.fresh, h.owned, h.knows⟩
    | dispatch v =>
      cases attach with
      | true =>
        simp only [if_true] at hstep
        split at hstep <;> cases hstep <;> exact ⟨h.fresh, h.owned, h.knows⟩
      | false =>
        simp only [Bool.false_eq_true, if_false, Option.some.injEq] at hstep
        subst hstep
        have hv : some v = s.active ∨ s.holder.Pending s.count (some v) := by
          simp only [inTime, hst, Bool.or_eq_true, decide_eq_true_eq] at hok
          refine hok.imp Eq.symm fun hold => ?_
          split at hold
          · rename_i hh
            rw [hh]
            exact (of_decide_eq_true hold).symm
          · exact absurd hold (by simp)
        have hn := h.newSessionContext id hv
        exact ⟨hn.fresh, hn.owned, hn.knows⟩
    | checkClosed v i =>
      simp only at hstep
      split at hstep <;> cases hstep <;> exact ⟨h.fresh, h.owned, h.knows⟩
    | lock v i =>
      simp only at hstep
      split at hstep <;> cases hstep
      rename_i hfree
      have hl : Inv { s with holder := .attachActive v i } :=
        h.goto_of_not_pending (by simp [hfree, Holder.Pending]) trivial
      exact ⟨hl.fresh, hl.owned, trivial⟩

theorem Inv.next {kcp : Bool} {a : Act} (h : Inv s) (hok : inTime s a = true)
    (hstep : next kcp s a = some s') : Inv s' := by
  cases a with
  | activate v | detach v =>
    simp only [Ownership.next] at hstep
    split at hstep <;> cases hstep
    rename_i hfree
    exact h.goto_of_not_pending (by simp [hfree, Holder.Pending]) trivial
  | closeBus =>
    cases hstep
    exact ⟨h.fresh, h.owned, h.knows⟩
  | hold order ok => exact h.holderStep hstep
  | openStream v =>
    simp only [Ownership.next] at hstep
    split at hstep <;> cases hstep
    · exact ⟨h.fresh, h.owned, h.knows⟩
    · exact h
  | stream pos id attach => exact h.streamStep hok hstep
  | close i =>
    simp only [Ownership.next] at hstep
    split at hstep <;> cases hstep
    have hserver : ∀ j, (Function.update s.sessions i
        { s.sessions i with closed := true } j).server = (s.sessions j).server := by
      intro j
      by_cases hj : j = i
      · rw [hj, Function.update_self]
      · rw [Function.update_of_ne hj]
    refine ⟨h.fresh, fun e he => ?_, h.knows⟩
    simp only [hserver]
    exact h.owned e he
  | unregister i =>
    simp only [Ownership.next] at hstep
    split at hstep <;> cases hstep
    exact ⟨fun e he => h.fresh e (List.mem_of_mem_filter he),
      fun e he => h.owned e (List.mem_of_mem_filter he), h.knows⟩

end Steps

/-- **Ownership.** In every run in which each session is registered while its
server is active or before the takeover from it has listed the registry, every
registered session is free or owned by the active server whenever the mutex is
free. -/
theorem sessions_owned_by_active (kcp : Bool) {s : Sys}
    (h : (machine kcp).ReachableVia (fun s a => inTime s a = true) s) : OwnedByActive s := by
  have hinv : Inv s := by
    refine h.invariant (fun s h0 => ?_) (fun s a s' hs hok hn => hs.next hok hn)
    rw [show s = {} from h0]
    exact ⟨by simp, by simp, trivial⟩
  intro hfree e he
  rcases hinv.owned e he with hn | ha | hp
  · exact .inl hn
  · exact .inr ha
  · rw [hfree] at hp
    exact hp.elim

/-- Server 1 starts session 7 in time; server 2 takes over, detaches it and
attaches it. -/
def takeoverAndAttach : List Act :=
  [.activate 1, .hold [] true, .hold [] true, .hold [] true, .hold [] true, .hold [] true,
    .openStream 1, .stream 0 7 false, .stream 0 7 false,
    .activate 2, .hold [] true, .hold [] true, .hold [0] true, .hold [] true, .hold [] true,
    .hold [] true, .hold [] true,
    .openStream 2, .stream 0 7 true, .stream 0 7 true, .stream 0 7 true, .stream 0 7 true,
    .hold [] true, .hold [] true, .hold [] true]

theorem sessions_owned_by_active_takeover :
    ∃ s, (machine true).execWhile inTime {} takeoverAndAttach = some s ∧
      s.holder = .free ∧ s.active = some 2 ∧ (s.sessions 0).server = some 2 ∧
      s.sessionMap = [(7, 0)] ∧ OwnedByActive s := by
  have hrun : ((machine true).execWhile inTime {} takeoverAndAttach).any (fun s =>
      s.holder = .free ∧ s.active = some 2 ∧ (s.sessions 0).server = some 2 ∧
        s.sessionMap = [(7, 0)]) = true := by
    decide
  obtain ⟨s, hs, hend⟩ := (Option.any_eq_true _ _).mp hrun
  obtain ⟨hfree, hactive, hserver, hmap⟩ := of_decide_eq_true hend
  exact ⟨s, hs, hfree, hactive, hserver, hmap,
    sessions_owned_by_active true (.execWhile (fun _ _ h => h) (.init rfl) hs)⟩

end Tsshd.Ownership

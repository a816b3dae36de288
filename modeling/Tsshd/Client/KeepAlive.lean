import Tsshd.Core.Routines
import Tsshd.Alive.Timeout

/-!
# Heartbeats

`keepAlive` (client.go) sends the time over the bus, waits for the server to send it
back, and gives it to the checker of the client, whose `lastAliveTime` is the last
confirmed two-way activity. The heartbeat goes through three goroutines and two
directions of the bus: `keepAlive`, the bus loop of the server (`handleAliveEvent`,
bus.go), and the bus loop of the client, which hands it over in `activeAckChan`. The
checker is the one of `Tsshd.Alive.Timeout`, and only `keepAlive` gives it times. The
times are those of `time.Now`, and nobody is assumed to set the clock back.

* `heartbeat_single` — there is one heartbeat at a time, so the bus loop of the client
  never blocks on `activeAckChan`; and one that is lost is the last one: `keepAlive`
  waits for it for good;
* `active_time_confirmed` — `lastAliveTime` is the start of the checker, or the time of a
  heartbeat that the server has answered.
-/

namespace Tsshd.Client.KeepAlive

/-! ## Goroutines -/

inductive Pc
  /-- `NewSshUdpClient` starts the goroutines. -/
  | boot
  /-- `keepAlive`, in front of the ticker. -/
  | tick
  | send (t : Int)
  | wait
  | update (t : Int)
  /-- The bus loop of the server: the message, and its answer. -/
  | server
  | echo (t : Int)
  /-- The bus loop of the client. -/
  | bus
  | put (t : Int)
  /-- The goroutines and the callers of the checker. -/
  | checker
  | clock
  | close
  | detach
  | done
deriving DecidableEq, Repr

/-- Where a heartbeat can be; `start` is the time at which the checker was made. -/
structure Beat where
  start : Int
  now : Int := start
  /-- Heartbeats on the bus, to the server and back. -/
  up : List Int := []
  down : List Int := []
  activeAckChan : Option Int := none
  activeChecker : Alive.Sys := { lastAliveTime := start }
  /-- History: the times sent, and those the server has answered. -/
  sent : List Int := []
  answered : List Int := []

structure Shared extends Beat where
  booted : Bool := false
  closed : Bool := false
  detached : Bool := false
  /-- History: how often a heartbeat was lost or `keepAlive` has returned. -/
  ended : Nat := 0

/-- What a call does: `act` is a step of the checker. -/
inductive Choice
  | ok
  | fail
  | act (a : Alive.Act)
deriving DecidableEq, Repr

/-- The steps of the checker that `keepAlive` does not make. -/
def internal : Alive.Act → Bool
  | .updateNow | .updateTime _ => false
  | _ => true

variable (heartbeatTimeout : Int)

def step (s : Shared) (pc : Pc) (e : Choice) : Option (Shared × Pc × List Pc) :=
  match pc with
  | .boot =>
    if s.booted then none
    else some ({ s with booted := true }, .tick, [.server, .bus])
  | .tick =>
    if s.closed then some ({ s with ended := s.ended + 1 }, .done, []) else some (s, .send s.now, [])
  | .send t =>
    -- A detached client sends nothing, and knows of no error.
    if s.detached then some ({ s with ended := s.ended + 1 }, .wait, [])
    else
      match e with
      | .ok => some ({ s with up := s.up ++ [t], sent := s.sent ++ [t] }, .wait, [])
      | .fail => some ({ s with ended := s.ended + 1 }, .wait, [])
      | .act _ => none
  | .wait =>
    match s.activeAckChan with
    | none => none
    | some t => some ({ s with activeAckChan := none }, .update t, [])
  | .update t =>
    match Alive.next heartbeatTimeout s.activeChecker (.updateTime t) with
    | none => none
    | some checker => some ({ s with activeChecker := checker }, .tick, [])
  | .server =>
    match s.up with
    | [] => none
    | t :: rest => some ({ s with up := rest }, .echo t, [])
  | .echo t =>
    match e with
    | .ok => some ({ s with down := s.down ++ [t], answered := s.answered ++ [t] }, .server, [])
    | .fail => some ({ s with ended := s.ended + 1 }, .server, [])
    | .act _ => none
  | .bus =>
    match s.down with
    | [] => none
    | t :: rest => some ({ s with down := rest }, .put t, [])
  | .put t =>
    match e with
    -- As in `echo`, the message cannot be read.
    | .fail => some ({ s with ended := s.ended + 1 }, .bus, [])
    | _ =>
      match s.activeAckChan with
      | none => some ({ s with activeAckChan := some t }, .bus, [])
      | some _ => none
  | .checker =>
    match e with
    | .act a =>
      if internal a then
        match Alive.next heartbeatTimeout s.activeChecker a with
        | none => none
        | some checker => some ({ s with activeChecker := checker }, .checker, [])
      else none
    | _ => none
  -- The assumption on `time.Now`: it does not go back.
  | .clock => some ({ s with now := s.now + 1 }, .clock, [])
  | .close => some ({ s with closed := true }, .done, [])
  | .detach => some ({ s with detached := true }, .done, [])
  | .done => none

def starts : Pc → Bool
  | .boot | .checker | .clock | .close | .detach => true
  | _ => false

def routines : Routines Shared Pc Choice where
  init s := ∃ t, s = { start := t }
  start _ := starts
  step := step heartbeatTimeout

variable {heartbeatTimeout} {s s' : Shared} {b b' : Beat} {pc pc' : Pc} {e : Choice} {forks : List Pc}

/-! ## One heartbeat -/

/-- Who has the heartbeat, or may send the next one. -/
def Pc.token : Pc → Nat
  | .tick | .send _ | .update _ | .echo _ | .put _ => 1
  | _ => 0

/-- The heartbeat is with one of the goroutines, on the bus, in the channel, or lost. -/
def single : Routines.Balance (routines heartbeatTimeout) fun _ _ => True where
  weight := Pc.token
  stock s := s.up.length + s.down.length + s.activeAckChan.toList.length + s.ended
  due s := s.booted.toNat
  init s h := by
    obtain ⟨t, rfl⟩ := h
    rfl
  start s pc h := by
    cases pc <;> first | rfl | cases h
  step s pc e s' pc' forks _ h := by
    cases pc <;> simp only [routines, step] at h
    case boot =>
        obtain ⟨hfirst, heq⟩ := Option.ite_none_left_eq_some.mp h
        cases heq
        simp [Pc.token, Bool.eq_false_iff.mpr hfirst]
        omega
    case tick =>
        split at h <;> cases h <;> simp [Pc.token]
        omega
    case send t =>
        split at h
        · cases h
          simp [Pc.token]
          omega
        · cases e with
          | ok | fail =>
            cases h
            simp [Pc.token]
            omega
          | act a => cases h
    case wait =>
        split at h <;> cases h
        rename_i hchan
        simp [Pc.token, hchan]
        omega
    case update t =>
        split at h <;> cases h
        simp [Pc.token]
    case server | bus =>
        split at h <;> cases h
        rename_i hbus
        simp [Pc.token, hbus]
        omega
    case echo t =>
        cases e with
        | ok | fail =>
          cases h
          simp [Pc.token]
          omega
        | act a => cases h
    case put t =>
        split at h
        · cases h
          simp [Pc.token]
          omega
        · split at h <;> cases h
          rename_i hchan
          simp [Pc.token, hchan]
          omega
    case checker =>
        cases e with
        | act a =>
          obtain ⟨-, hstep⟩ := Option.ite_none_right_eq_some.mp h
          split at hstep <;> cases hstep
          simp [Pc.token]
        | ok | fail => cases h
    case clock | close | detach =>
        cases h
        simp [Pc.token]
    case done => cases h

/-! ## What the checker is given -/

/-- A step of the checker takes the time from `updateTimeChan`, unless `updateNow` was
called. -/
theorem next_internal {c c' : Alive.Sys} {a : Alive.Act} (ha : internal a = true)
    (h : Alive.next heartbeatTimeout c a = some c') (hnow : c.updateNowChan = false) :
    c'.updateNowChan = false ∧ (∀ t ∈ c'.updateTimeChan, t ∈ c.updateTimeChan) ∧
      (c'.lastAliveTime = c.lastAliveTime ∨ c'.lastAliveTime ∈ c.updateTimeChan) := by
  have hsame : ∀ {d : Alive.Sys}, d.updateNowChan = c.updateNowChan →
      d.updateTimeChan = c.updateTimeChan → d.lastAliveTime = c.lastAliveTime →
      d.updateNowChan = false ∧ (∀ t ∈ d.updateTimeChan, t ∈ c.updateTimeChan) ∧
        (d.lastAliveTime = c.lastAliveTime ∨ d.lastAliveTime ∈ c.updateTimeChan) :=
    fun h1 h2 h3 => ⟨h1.trans hnow, fun t ht => h2 ▸ ht, .inl h3⟩
  cases a with
  | updateNow | updateTime => cases ha
  | recvNow now =>
    obtain ⟨⟨-, hready⟩, -⟩ := Option.ite_none_right_eq_some.mp h
    rw [hnow] at hready
    cases hready
  | recvTime now =>
    simp only [Alive.next] at h
    split at h
    · rename_i msec rest hpc htimes
      split at h <;> cases h
      · refine ⟨hnow, fun t ht => ?_, .inr ?_⟩
        · rw [htimes]
          exact List.mem_cons_of_mem _ ht
        · rw [htimes]
          exact List.mem_cons_self
      · refine ⟨hnow, fun t ht => ?_, .inl rfl⟩
        rw [htimes]
        exact List.mem_cons_of_mem _ ht
    · cases h
  | _ =>
    simp only [Alive.next, Alive.loopStep, Alive.waitStep] at h
    repeat' split at h
    all_goals cases h
    all_goals exact hsame rfl rfl rfl

structure Inv (b : Beat) : Prop where
  up : ∀ t ∈ b.up, t ∈ b.sent
  answered : ∀ t ∈ b.answered, t ∈ b.sent
  past : ∀ t ∈ b.sent, t ≤ b.now
  down : ∀ t ∈ b.down, t ∈ b.answered
  ack : ∀ t, b.activeAckChan = some t → t ∈ b.answered
  /-- Nobody calls `updateNow`. -/
  updateNow : b.activeChecker.updateNowChan = false
  updateTime : ∀ t ∈ b.activeChecker.updateTimeChan, t ∈ b.answered
  lastAliveTime : b.activeChecker.lastAliveTime = b.start ∨
    b.activeChecker.lastAliveTime ∈ b.answered

def Pc.Holds (b : Beat) : Pc → Prop
  | .send t => t ≤ b.now
  | .echo t => t ∈ b.sent
  | .put t | .update t => t ∈ b.answered
  | _ => True

/-- What a step does as the others see it. -/
structure Guar (b b' : Beat) : Prop where
  now : b.now ≤ b'.now
  sent : ∀ t ∈ b.sent, t ∈ b'.sent
  answered : ∀ t ∈ b.answered, t ∈ b'.answered

theorem Guar.of_eq (hnow : b'.now = b.now) (hsent : b'.sent = b.sent)
    (hanswered : b'.answered = b.answered) : Guar b b' :=
  ⟨hnow.ge, fun _ h => hsent ▸ h, fun _ h => hanswered ▸ h⟩

theorem Guar.stable (h : Guar b b') (hpc : pc.Holds b) : pc.Holds b' := by
  cases pc with
  | send t => exact Int.le_trans hpc h.now
  | echo t => exact h.sent t hpc
  | put t | update t => exact h.answered t hpc
  | _ => trivial

theorem step_spec (hinv : Inv s.toBeat) (hpc : pc.Holds s.toBeat)
    (h : step heartbeatTimeout s pc e = some (s', pc', forks)) :
    Guar s.toBeat s'.toBeat ∧ Inv s'.toBeat ∧ pc'.Holds s'.toBeat ∧
      ∀ q ∈ forks, q.Holds s'.toBeat := by
  have hstays : Guar s.toBeat s.toBeat := .of_eq rfl rfl rfl
  have ⟨hup, hanswered, hpast, hdown, hack, hnow, htimes, hlast⟩ := hinv
  cases pc with
  | boot =>
    obtain ⟨-, heq⟩ := Option.ite_none_left_eq_some.mp h
    cases heq
    exact ⟨hstays, hinv, trivial, by simp [Pc.Holds]⟩
  | tick =>
    simp only [step] at h
    split at h <;> cases h
    · exact ⟨hstays, hinv, trivial, by simp⟩
    · exact ⟨hstays, hinv, Int.le_refl s.now, by simp⟩
  | send t =>
    simp only [step] at h
    split at h
    · cases h
      exact ⟨hstays, hinv, trivial, by simp⟩
    · cases e with
      | ok =>
        cases h
        refine ⟨⟨Int.le_refl _, fun k hk => List.mem_append_left _ hk, fun _ => id⟩,
          ⟨fun k hk => ?_, fun k hk => List.mem_append_left _ (hanswered k hk), fun k hk => ?_,
            hdown, hack, hnow, htimes, hlast⟩, trivial, by simp⟩
        · rcases List.mem_append.mp hk with hk | hk
          · exact List.mem_append_left _ (hup k hk)
          · exact List.mem_append_right _ hk
        · rcases List.mem_append.mp hk with hk | hk
          · exact hpast k hk
          · rw [List.mem_singleton.mp hk]
            exact hpc
      | fail =>
        cases h
        exact ⟨hstays, hinv, trivial, by simp⟩
      | act a => cases h
  | wait =>
    simp only [step] at h
    split at h <;> cases h
    rename_i t hchan
    exact ⟨.of_eq rfl rfl rfl, ⟨hup, hanswered, hpast, hdown, by simp, hnow, htimes, hlast⟩,
      hack t hchan, by simp⟩
  | update t =>
    simp only [step] at h
    split at h <;> cases h
    rename_i checker hchecker
    refine ⟨.of_eq rfl rfl rfl, ?_, trivial, by simp⟩
    simp only [Alive.next] at hchecker
    split at hchecker
    · cases hchecker
      refine ⟨hup, hanswered, hpast, hdown, hack, hnow, fun k hk => ?_, hlast⟩
      rcases List.mem_append.mp hk with hk | hk
      · exact htimes k hk
      · rw [List.mem_singleton.mp hk]
        exact hpc
    · split at hchecker <;> cases hchecker
      exact hinv
  | server =>
    simp only [step] at h
    split at h <;> cases h
    rename_i t rest hchan
    rw [hchan] at hup
    exact ⟨.of_eq rfl rfl rfl, ⟨fun k hk => hup k (List.mem_cons_of_mem _ hk), hanswered, hpast,
      hdown, hack, hnow, htimes, hlast⟩, hup t List.mem_cons_self, by simp⟩
  | echo t =>
    cases e with
    | ok =>
      cases h
      have hmore : ∀ k ∈ s.answered, k ∈ s.answered ++ [t] := fun k hk =>
        List.mem_append_left _ hk
      refine ⟨⟨Int.le_refl _, fun _ => id, hmore⟩,
        ⟨hup, fun k hk => ?_, hpast, fun k hk => ?_, fun k hk => hmore k (hack k hk), hnow,
          fun k hk => hmore k (htimes k hk), hlast.imp id (hmore _)⟩, trivial, by simp⟩
      · rcases List.mem_append.mp hk with hk | hk
        · exact hanswered k hk
        · rw [List.mem_singleton.mp hk]
          exact hpc
      · rcases List.mem_append.mp hk with hk | hk
        · exact hmore k (hdown k hk)
        · exact List.mem_append_right _ hk
    | fail =>
      cases h
      exact ⟨hstays, hinv, trivial, by simp⟩
    | act a => cases h
  | bus =>
    simp only [step] at h
    split at h <;> cases h
    rename_i t rest hchan
    rw [hchan] at hdown
    exact ⟨.of_eq rfl rfl rfl, ⟨hup, hanswered, hpast,
      fun k hk => hdown k (List.mem_cons_of_mem _ hk), hack, hnow, htimes, hlast⟩,
      hdown t List.mem_cons_self, by simp⟩
  | put t =>
    simp only [step] at h
    split at h
    · cases h
      exact ⟨hstays, hinv, trivial, by simp⟩
    · split at h <;> cases h
      refine ⟨.of_eq rfl rfl rfl, ⟨hup, hanswered, hpast, hdown, fun k hk => ?_, hnow, htimes,
        hlast⟩, trivial, by simp⟩
      rw [← Option.some.inj hk]
      exact hpc
  | checker =>
    simp only [step] at h
    cases e with
    | act a =>
      simp only at h
      split at h
      · rename_i ha
        split at h <;> cases h
        rename_i checker hchecker
        obtain ⟨hnow', htimes', hlast'⟩ := next_internal ha hchecker hnow
        refine ⟨.of_eq rfl rfl rfl, ⟨hup, hanswered, hpast, hdown, hack, hnow',
          fun k hk => htimes k (htimes' k hk), ?_⟩, trivial, by simp⟩
        rcases hlast' with hsame | hmem
        · show checker.lastAliveTime = s.start ∨ checker.lastAliveTime ∈ s.answered
          rwa [hsame]
        · exact .inr (htimes _ hmem)
      · cases h
    | ok | fail => cases h
  | clock =>
    cases h
    have hlt : s.now ≤ s.now + 1 := Int.le_add_one (Int.le_refl _)
    exact ⟨⟨hlt, fun _ => id, fun _ => id⟩, ⟨hup, hanswered, fun t ht => (hpast t ht).trans hlt,
      hdown, hack, hnow, htimes, hlast⟩, trivial, by simp⟩
  | close | detach =>
    cases h
    exact ⟨hstays, hinv, trivial, by simp⟩
  | done => cases h

def outline : Routines.Outline (routines heartbeatTimeout) fun _ _ => True where
  inv s := Inv s.toBeat
  holds s pc := pc.Holds s.toBeat
  init s h := by
    obtain ⟨t, rfl⟩ := h
    exact ⟨by simp, by simp, by simp, by simp, by simp, rfl, by simp, .inl rfl⟩
  start s pc _ h := by
    cases pc <;> trivial
  own s pc e s' pc' forks hinv hpc h := (step_spec hinv hpc h).2
  others s pc e s' pc' forks q hinv hpc hq _ h := (step_spec hinv hpc h).1.stable hq

variable {p : Routines.Pool Shared Pc}

/-! ## Results -/

/-- **One heartbeat at a time.** The bus loop of the client finds `activeAckChan` empty.
Once a heartbeat is lost no other one is sent. -/
theorem heartbeat_single (hp : (routines heartbeatTimeout).machine.Reachable p) :
    p.shared.up.length + p.shared.down.length + p.shared.activeAckChan.toList.length ≤ 1 ∧
      (∀ t, .put t ∈ p.threads → p.shared.activeAckChan = none) ∧
      (0 < p.shared.ended → p.shared.up = [] ∧ p.shared.down = [] ∧
        p.shared.activeAckChan = none ∧ ∀ pc ∈ p.threads, pc.token = 0) := by
  have hbalance : Routines.total Pc.token p.threads + (p.shared.up.length +
      p.shared.down.length + p.shared.activeAckChan.toList.length + p.shared.ended) =
        p.shared.booted.toNat := single.holds (fun _ _ _ _ => trivial) hp
  have hone := Bool.toNat_le p.shared.booted
  have hempty : p.shared.activeAckChan.toList.length = 0 → p.shared.activeAckChan = none := by
    cases p.shared.activeAckChan <;> simp
  refine ⟨by omega, fun t ht => hempty ?_, fun hended => ⟨?_, ?_, hempty ?_, fun pc hpc => ?_⟩⟩
  · obtain ⟨i, hi⟩ := List.getElem?_of_mem ht
    have hle : 1 ≤ _ := Routines.le_total (w := Pc.token) hi
    omega
  · exact List.length_eq_zero_iff.mp (by omega)
  · exact List.length_eq_zero_iff.mp (by omega)
  · omega
  · obtain ⟨i, hi⟩ := List.getElem?_of_mem hpc
    have hle := Routines.le_total (w := Pc.token) hi
    omega

/-- The answer is with the bus loop. -/
theorem heartbeat_single_put : ∃ p, (routines 10).machine.Reachable p ∧
    .put 0 ∈ p.threads ∧ p.shared.activeAckChan = none := by
  obtain ⟨p, hp, htest⟩ := Routines.exists_of_exec (m := routines 10) (s := { start := 0 })
    [.start .boot, .run 0 .ok, .run 0 .ok, .run 0 .ok, .run 1 .ok, .run 1 .ok, .run 2 .ok]
    (fun p => .put 0 ∈ p.threads) ⟨0, rfl⟩ (by decide)
  have hput := of_decide_eq_true htest
  exact ⟨p, hp, hput, (heartbeat_single hp).2.1 0 hput⟩

/-- **`lastAliveTime` is confirmed.** That it is not in the future rests on the
clock. -/
theorem active_time_confirmed (hp : (routines heartbeatTimeout).machine.Reachable p) :
    p.shared.activeChecker.lastAliveTime = p.shared.start ∨
      (p.shared.activeChecker.lastAliveTime ∈ p.shared.answered ∧
        p.shared.activeChecker.lastAliveTime ∈ p.shared.sent ∧
        p.shared.activeChecker.lastAliveTime ≤ p.shared.now) := by
  have hinv : Inv p.shared.toBeat := (outline.sound (fun _ _ _ _ _ _ _ _ _ => trivial) hp).inv
  refine hinv.lastAliveTime.imp id fun hmem => ?_
  have hsent := hinv.answered _ hmem
  exact ⟨hmem, hsent, hinv.past _ hsent⟩

theorem active_time_confirmed_first : ∃ p, (routines 10).machine.Reachable p ∧
    p.shared.start = 0 ∧ p.shared.activeChecker.lastAliveTime = 1 ∧ 1 ∈ p.shared.answered := by
  obtain ⟨p, hp, htest⟩ := Routines.exists_of_exec (m := routines 10) (s := { start := 0 })
    [.start .boot, .run 0 .ok, .start .clock, .run 3 .ok, .run 0 .ok, .run 0 .ok, .run 1 .ok,
      .run 1 .ok, .run 2 .ok, .run 2 .ok, .run 0 .ok, .run 0 .ok, .start .checker,
      .run 4 (.act (.recvTime 2))]
    (fun p => p.shared.start = 0 ∧ p.shared.activeChecker.lastAliveTime = 1) ⟨0, rfl⟩
    (by decide)
  obtain ⟨hstart, hlast⟩ := of_decide_eq_true htest
  rcases active_time_confirmed hp with hunset | ⟨hanswered, -⟩
  · rw [hstart, hlast] at hunset
    exact absurd hunset (by decide)
  · exact ⟨p, hp, hstart, hlast, hlast ▸ hanswered⟩

end Tsshd.Client.KeepAlive

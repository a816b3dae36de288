import Mathlib.Data.List.Nodup
import Tsshd.Attach.Stream
import Tsshd.Core.Routines

/-!
# Operations on a stream that is replaced

`replaceableStream` (attach.go) gives the input and output loops of a session one
stream to work on, while clients come and go: `swap` puts the stream of the next
client in place, or none, and `do` repeats an operation whose stream was replaced
under it. `Read`, `Write`, `CloseWrite` and the deadlines all go through `do`, so the
operation is arbitrary here: all that counts is on which stream it ran and whether
it failed. What one `Write` leaves on which stream is `Tsshd.Attach.ExactlyOnce`, for
the same `Replaceable`.

Every access to its fields is made under `mu`, so a critical section is one step.

* `swap_unseen` — an operation fails only because its stream broke on its own or
  the whole was closed, never because of a swap; and a caller never goes back to an
  earlier stream;
* `operation_wakes` — an operation asleep on `cond` finds neither a stream nor the
  end, or it has been woken;
* `streams_accounted` — each stream put in place is the current one or closed, once.
-/

namespace Tsshd.Stream.Replace

/-! ## Calls -/

/-- What `do` returns. -/
inductive Result
  | ok
  /-- The error of the operation on a stream. -/
  | failed (c : Nat)
  | eof
deriving DecidableEq, Repr

/-- `last` is the stream that the caller tried last. -/
inductive Pc
  /-- A call of `do`, in front of its first critical section. -/
  | enter (last : Nat)
  /-- Asleep behind the first `n` broadcasts. -/
  | asleep (last n : Nat)
  /-- The operation on `cur`. -/
  | run (last cur : Nat)
  /-- Behind the operation, in front of the second critical section. -/
  | ran (last cur : Nat) (ok : Bool)
  | returned (last : Nat) (result : Result)
  /-- `swap` of a stream, or of none. -/
  | swap (new : Bool)
  | close
  | closing (c : Nat)
  | done
deriving DecidableEq, Repr

structure Shared extends Replaceable where
  /-- `cond`: the broadcasts so far. Whoever sleeps behind fewer is woken. -/
  broadcasts : Nat := 0
  /-- History: the streams in the order of their `Close`. -/
  closedStreams : List Nat := []
  /-- History: the streams on which an operation failed on its own. -/
  broken : List Nat := []
deriving DecidableEq, Repr

/-- How an operation on a stream ends. -/
inductive Outcome
  | ok
  /-- It fails because the stream is closed under it, or was. -/
  | closed
  /-- It fails on its own: the peer has reset the stream, or ended it. -/
  | broken
deriving DecidableEq, Repr

/-! ## Steps -/

/-- `swap`, with the goroutine that closes the old stream. A stream that comes behind
`Close` is closed by the caller. -/
def swapStep (s : Shared) (new : Bool) : Shared × Pc × List Pc :=
  if s.closed then
    if new then
      ({ s with fresh := s.fresh + 1, retired := s.fresh :: s.retired }, .closing s.fresh, [])
    else (s, .done, [])
  else
    ({ s with toReplaceable := s.toReplaceable.swap new, broadcasts := s.broadcasts + 1 }, .done,
      s.stream.toList.map .closing)

def closeStep (s : Shared) : Shared × Pc :=
  if s.closed then (s, .done)
  else
    ({ s with toReplaceable := s.toReplaceable.close, broadcasts := s.broadcasts + 1 },
      match s.cur with
      | some c => .closing c
      | none => .done)

/-- The first critical section of `do`: a stream to work on, the end, or `cond.Wait`. -/
def enter (s : Shared) (last : Nat) : Pc :=
  if s.closed then .returned last .eof
  else
    match s.cur with
    | some cur => .run last cur
    | none => .asleep last s.broadcasts

/-- The second one: a failed operation whose stream was replaced is repeated. -/
def leave (s : Shared) (cur : Nat) (ok : Bool) : Pc :=
  if ok then .returned cur .ok
  else if s.switched cur then .enter cur
  else .returned cur (.failed cur)

def step (s : Shared) (pc : Pc) (outcome : Outcome) : Option (Shared × Pc × List Pc) :=
  match pc with
  | .enter last => some (s, enter s last, [])
  | .asleep last n => if n < s.broadcasts then some (s, enter s last, []) else none
  | .run last cur =>
    match outcome with
    | .ok => some (s, .ran last cur true, [])
    | .closed => if cur ∈ s.retired then some (s, .ran last cur false, []) else none
    | .broken => some ({ s with broken := s.broken ++ [cur] }, .ran last cur false, [])
  | .ran _ cur ok => some (s, leave s cur ok, [])
  | .returned last _ => some (s, .enter last, [])
  | .swap new => some (swapStep s new)
  | .close => some ((closeStep s).1, (closeStep s).2, [])
  | .closing c => some ({ s with closedStreams := s.closedStreams ++ [c] }, .done, [])
  | .done => none

def start (_ : Shared) (pc : Pc) : Bool :=
  pc = .enter 0 ∨ pc = .swap true ∨ pc = .swap false ∨ pc = .close

def routines : Routines Shared Pc Outcome where
  init s := s = {}
  start := start
  step := step

/-! ## What each call knows -/

variable {s s' : Shared} {pc pc' : Pc} {outcome : Outcome} {forks : List Pc}

/-- No stream before `k` will ever be in place again. -/
def Shared.Past (s : Shared) (k : Nat) : Prop := k < s.fresh ∧ ∀ c, s.stream = some c → k ≤ c

def Pc.Holds (s : Shared) : Pc → Prop
  | .enter last => s.Past last
  | .asleep last n =>
    s.Past last ∧ n ≤ s.broadcasts ∧
      (n = s.broadcasts → s.stream = none ∧ s.closed = false)
  | .run last cur => last ≤ cur ∧ s.Past cur
  | .ran last cur ok => last ≤ cur ∧ s.Past cur ∧
      (ok = false → cur ∈ s.retired ∨ cur ∈ s.broken)
  | .returned last result => s.Past last ∧
      (∀ c, result = .failed c → c ∈ s.broken) ∧ (result = .eof → s.closed = true)
  | _ => True

structure Inv (r : Replaceable) : Prop where
  /-- A stream is not put in place twice. -/
  dropped : ∀ c, r.stream = some c → c ∉ r.retired
  fresh : (∀ c, r.stream = some c → c < r.fresh) ∧ ∀ c ∈ r.retired, c < r.fresh
  first : 0 < r.fresh
  closed : r.closed = true → r.stream = none

/-- What one step does, as the other calls see it. -/
structure Guar (s s' : Shared) : Prop where
  dropped : s.retired ⊆ s'.retired
  broken : s.broken ⊆ s'.broken
  closed : s.closed = true → s'.closed = true
  made : s.fresh ≤ s'.fresh
  /-- Whatever is in place next came later. -/
  later : ∀ c, s'.stream = some c → s.stream = some c ∨ s.fresh ≤ c
  /-- Who changes the place or closes it announces it. -/
  announced : (s'.broadcasts = s.broadcasts ∧ s'.stream = s.stream ∧ s'.closed = s.closed) ∨
    s'.broadcasts = s.broadcasts + 1

theorem Guar.past (g : Guar s s') {k : Nat} (h : s.Past k) : s'.Past k := by
  refine ⟨Nat.lt_of_lt_of_le h.1 g.made, fun c hc => ?_⟩
  rcases g.later c hc with hsame | hnew
  · exact h.2 c hsame
  · exact Nat.le_of_lt (Nat.lt_of_lt_of_le h.1 hnew)

theorem Guar.stable (g : Guar s s') (h : pc.Holds s) : pc.Holds s' := by
  cases pc with
  | enter last => exact g.past h
  | asleep last n =>
    obtain ⟨hpast, hle, hempty⟩ := h
    refine ⟨g.past hpast, ?_⟩
    rcases g.announced with ⟨hb, hstream, hclosed⟩ | hb
    · rw [hb, hstream, hclosed]
      exact ⟨hle, hempty⟩
    · exact ⟨by omega, fun hn => absurd hn (by omega)⟩
  | run last cur => exact ⟨h.1, g.past h.2⟩
  | ran last cur ok =>
    obtain ⟨hlast, hpast, hfailed⟩ := h
    exact ⟨hlast, g.past hpast, fun hok =>
      (hfailed hok).imp (fun hc => g.dropped hc) fun hc => g.broken hc⟩
  | returned last result =>
    obtain ⟨hpast, hfailed, heof⟩ := h
    exact ⟨g.past hpast, fun c hc => g.broken (hfailed c hc), fun hc => g.closed (heof hc)⟩
  | swap | close | closing | done => trivial

/-! ## The steps keep it -/

variable {r : Replaceable}

/-- The current stream is taken out. -/
theorem Inv.drop (h : Inv r) : Inv r.drop := by
  refine ⟨by simp [Replaceable.drop], ⟨by simp [Replaceable.drop], fun c hc => ?_⟩, h.first,
    fun _ => rfl⟩
  rcases List.mem_append.mp hc with hcur | hold
  · exact h.fresh.1 c (by simpa [Option.mem_toList] using hcur)
  · exact h.fresh.2 c hold

/-- A new stream is put in place. -/
theorem Inv.put (h : Inv r) (hopen : r.closed = false) :
    Inv { r with stream := some r.fresh, fresh := r.fresh + 1 } where
  dropped c hc hmem := by
    obtain rfl : r.fresh = c := by simpa using hc
    exact absurd (h.fresh.2 _ hmem) (Nat.lt_irrefl _)
  fresh := ⟨fun c hc => by
      obtain rfl : r.fresh = c := by simpa using hc
      exact Nat.lt_succ_self _,
    fun c hc => Nat.lt_succ_of_lt (h.fresh.2 c hc)⟩
  first := Nat.succ_pos _
  closed hclosed := absurd (hopen.symm.trans hclosed) (by simp)

theorem swapStep_spec (hinv : Inv s.toReplaceable) (new : Bool)
    (h : swapStep s new = (s', pc', forks)) :
    Guar s s' ∧ Inv s'.toReplaceable ∧ pc'.Holds s' ∧ ∀ q ∈ forks, q.Holds s' := by
  unfold swapStep Replaceable.swap at h
  have hmore : s.retired ⊆ s.stream.toList ++ s.retired := List.subset_append_right _ _
  cases hclosed : s.closed with
  | true =>
    have hnone := hinv.closed hclosed
    cases new <;> simp only [hclosed, if_true, Bool.false_eq_true, if_false] at h <;> cases h
    · refine ⟨⟨by simp, by simp, id, le_rfl, fun c hc => .inl hc, .inl ⟨rfl, rfl, rfl⟩⟩, hinv,
        trivial, by simp⟩
    · -- too late: the caller closes its own stream
      refine ⟨⟨List.subset_cons_self _ _, by simp, fun _ => rfl, Nat.le_succ _,
        fun c hc => .inl hc, .inl ⟨rfl, rfl, hclosed.symm⟩⟩,
        ⟨by simp [hnone], ⟨by simp [hnone], fun c hc => ?_⟩, Nat.succ_pos _, fun _ => hnone⟩,
        trivial, by simp⟩
      rcases List.mem_cons.mp hc with rfl | hold
      · exact Nat.lt_succ_self _
      · exact Nat.lt_succ_of_lt (hinv.fresh.2 c hold)
  | false =>
    have hforks : ∀ q ∈ s.stream.toList.map Pc.closing, q.Holds s' := fun q hq => by
      obtain ⟨c, _, rfl⟩ := List.mem_map.mp hq
      trivial
    cases new <;> simp only [hclosed, Bool.false_eq_true, if_true, if_false] at h <;> cases h
    · exact ⟨⟨hmore, by simp, by simp [hclosed], le_rfl, by simp [Replaceable.drop], .inr rfl⟩,
        hinv.drop, trivial, hforks⟩
    · refine ⟨⟨hmore, by simp, by simp [hclosed], Nat.le_succ _, fun c hc => ?_, .inr rfl⟩,
        hinv.drop.put hclosed, trivial, hforks⟩
      obtain rfl : s.fresh = c := by simpa using hc
      exact .inr le_rfl

theorem closeStep_spec (hinv : Inv s.toReplaceable) :
    Guar s (closeStep s).1 ∧ Inv (closeStep s).1.toReplaceable ∧
      (closeStep s).2.Holds (closeStep s).1 := by
  unfold closeStep Replaceable.close
  cases hclosed : s.closed with
  | true =>
    exact ⟨⟨by simp, by simp, id, le_rfl, fun c hc => .inl hc, .inl ⟨rfl, rfl, rfl⟩⟩, hinv, trivial⟩
  | false =>
    have hdrop := hinv.drop
    refine ⟨⟨List.subset_append_right _ _, by simp, fun _ => rfl, le_rfl,
      by simp [Replaceable.drop], .inr rfl⟩,
      ⟨hdrop.dropped, hdrop.fresh, hdrop.first, fun _ => rfl⟩, ?_⟩
    simp only [Bool.false_eq_true, if_false]
    cases s.cur <;> trivial

/-- While the whole is not closed, the stream in place is the one to work on. -/
theorem cur_open (hopen : s.closed = false) : s.cur = s.stream := if_neg (by simp [hopen])

theorem enter_holds (hinv : Inv s.toReplaceable) {last : Nat} (h : s.Past last) :
    (enter s last).Holds s := by
  unfold enter
  split
  · exact ⟨h, by simp, fun _ => ‹_›⟩
  · rename_i hopen
    rw [cur_open (Bool.eq_false_iff.mpr hopen)]
    split
    · rename_i cur hcur
      refine ⟨h.2 cur hcur, hinv.fresh.1 cur hcur, fun c hc => ?_⟩
      obtain rfl : cur = c := Option.some.inj (hcur.symm.trans hc)
      exact le_rfl
    · exact ⟨h, le_rfl, fun _ => ⟨‹_›, by simpa using hopen⟩⟩

/-- A failure that a swap caused finds its stream replaced. -/
theorem leave_holds (hinv : Inv s.toReplaceable) {last cur : Nat} {ok : Bool}
    (h : (Pc.ran last cur ok).Holds s) : (leave s cur ok).Holds s := by
  obtain ⟨-, hpast, hfailed⟩ := h
  unfold leave
  split
  · exact ⟨hpast, by simp, by simp⟩
  · split
    · exact hpast
    · rename_i hok hswitched
      have hcur : s.stream = some cur := by simpa [Replaceable.switched] using hswitched
      refine ⟨hpast, fun c hc => ?_, by simp⟩
      cases hc
      rcases hfailed (by simpa using hok) with hdropped | hbroken
      · exact absurd hdropped (hinv.dropped _ hcur)
      · exact hbroken

theorem step_spec (hinv : Inv s.toReplaceable) (hpc : pc.Holds s)
    (h : step s pc outcome = some (s', pc', forks)) :
    Guar s s' ∧ Inv s'.toReplaceable ∧ pc'.Holds s' ∧ ∀ q ∈ forks, q.Holds s' := by
  have hrefl : Guar s s :=
    ⟨by simp, by simp, id, le_rfl, fun c hc => .inl hc, .inl ⟨rfl, rfl, rfl⟩⟩
  cases pc with
  | enter last =>
    cases h
    exact ⟨hrefl, hinv, enter_holds hinv hpc, by simp⟩
  | asleep last n =>
    simp only [step, Option.ite_none_right_eq_some] at h
    cases h.2
    exact ⟨hrefl, hinv, enter_holds hinv hpc.1, by simp⟩
  | run last cur =>
    obtain ⟨hlast, hpast⟩ := hpc
    cases outcome with
    | ok =>
      cases h
      exact ⟨hrefl, hinv, ⟨hlast, hpast, by simp⟩, by simp⟩
    | closed =>
      simp only [step, Option.ite_none_right_eq_some] at h
      cases h.2
      exact ⟨hrefl, hinv, ⟨hlast, hpast, fun _ => .inl h.1⟩, by simp⟩
    | broken =>
      cases h
      exact ⟨⟨by simp, by simp, id, le_rfl, fun c hc => .inl hc, .inl ⟨rfl, rfl, rfl⟩⟩,
        hinv, ⟨hlast, hpast, fun _ => .inr (by simp)⟩, by simp⟩
  | ran last cur ok =>
    cases h
    exact ⟨hrefl, hinv, leave_holds hinv hpc, by simp⟩
  | returned last result =>
    cases h
    exact ⟨hrefl, hinv, hpc.1, by simp⟩
  | swap new => exact swapStep_spec hinv new (Option.some.inj h)
  | close =>
    cases h
    obtain ⟨hguar, hinv', hholds⟩ := closeStep_spec hinv
    exact ⟨hguar, hinv', hholds, by simp⟩
  | closing c =>
    cases h
    exact ⟨⟨by simp, by simp, id, le_rfl, fun c hc => .inl hc, .inl ⟨rfl, rfl, rfl⟩⟩,
      hinv, trivial, by simp⟩
  | done => exact absurd h (by simp [step])

def outline : Routines.Outline routines fun _ _ => True where
  inv s := Inv s.toReplaceable
  holds s pc := pc.Holds s
  init s h := by
    obtain rfl : s = {} := h
    exact ⟨by simp, ⟨by simp, by simp⟩, Nat.one_pos, by simp⟩
  start s pc hinv h := by
    rcases of_decide_eq_true h with rfl | rfl | rfl | rfl
    · exact ⟨hinv.first, fun c _ => Nat.zero_le c⟩
    all_goals trivial
  own s pc outcome s' pc' forks hinv hpc h := (step_spec hinv hpc h).2
  others s pc outcome s' pc' forks q hinv hpc hq _ h := (step_spec hinv hpc h).1.stable hq

variable {p : Routines.Pool Shared Pc}

theorem within_reachable (hp : routines.machine.Reachable p) : outline.Within p :=
  outline.sound (fun _ _ _ _ _ _ _ _ _ => trivial) hp

/-! ## Who has a stream -/

def Pc.hand : Pc → List Nat
  | .closing c => [c]
  | _ => []

theorem swapStep_hands (new : Bool) (h : swapStep s new = (s', pc', forks)) :
    (s'.fresh = s.fresh ∧ (pc'.hand ++ forks.flatMap Pc.hand ++ (s'.stream.toList ++
      s'.closedStreams)).Perm (s.stream.toList ++ s.closedStreams)) ∨
    (s'.fresh = s.fresh + 1 ∧ (pc'.hand ++ forks.flatMap Pc.hand ++ (s'.stream.toList ++
      s'.closedStreams)).Perm (s.fresh :: (s.stream.toList ++ s.closedStreams))) := by
  unfold swapStep Replaceable.swap at h
  cases hclosed : s.closed <;> simp only [hclosed, if_true, Bool.false_eq_true, if_false] at h <;>
    cases hstream : s.stream <;> cases new <;> cases h <;>
    simp [hclosed, hstream, Pc.hand, Replaceable.drop, List.perm_iff_count, List.count_cons]
  all_goals
    intro a
    omega

theorem hand_enter (s : Shared) (last : Nat) : (enter s last).hand = [] := by
  unfold enter
  repeat' split
  all_goals rfl

theorem hand_leave (s : Shared) (cur : Nat) (ok : Bool) : (leave s cur ok).hand = [] := by
  unfold leave
  repeat' split
  all_goals rfl

def custody : Routines.Custody routines fun s pc => pc.Holds s where
  hand := Pc.hand
  stored s := s.stream.toList ++ s.closedStreams
  made s := s.fresh
  init s h := by
    obtain rfl : s = {} := h
    rfl
  start s pc h := by
    rcases of_decide_eq_true h with rfl | rfl | rfl | rfl <;> rfl
  step s pc outcome s' pc' forks _ h := by
    cases pc with
    | enter | asleep | run | ran | returned | done =>
      simp only [routines, step] at h
      repeat' split at h
      all_goals cases h
      all_goals
        refine .inl ⟨rfl, ?_⟩
        try rw [hand_enter]
        try rw [hand_leave]
        exact .refl _
    | swap new => exact swapStep_hands new (Option.some.inj h)
    | close =>
      cases h
      refine .inl ?_
      unfold closeStep Replaceable.close Replaceable.cur
      split
      · exact ⟨rfl, by simp [Pc.hand]⟩
      · cases hstream : s.stream <;> exact ⟨rfl, by simp [hstream, Pc.hand, Replaceable.drop]⟩
    | closing c =>
      cases h
      refine .inl ⟨rfl, ?_⟩
      simp only [Pc.hand, List.flatMap_nil, List.append_nil, List.nil_append, ← List.append_assoc]
      exact List.perm_append_comm

/-! ## Results -/

/-- **No operation sees a swap.** Whatever streams come and go, an operation that
returns an error has met a stream that failed on its own, or the end of the whole; and
it runs on no stream before the one its caller tried last. -/
theorem swap_unseen (hp : routines.machine.Reachable p) :
    (∀ last c, .returned last (.failed c) ∈ p.threads → c ∈ p.shared.broken) ∧
      (∀ last, .returned last .eof ∈ p.threads → p.shared.closed = true) ∧
      ∀ last cur, .run last cur ∈ p.threads → last ≤ cur := by
  have hw := within_reachable hp
  refine ⟨fun last c hpc => ?_, fun last hpc => ?_, fun last cur hpc => ?_⟩
  · obtain ⟨_, hfailed, _⟩ := hw.threads _ hpc
    exact hfailed c rfl
  · obtain ⟨_, _, heof⟩ := hw.threads _ hpc
    exact heof rfl
  · exact (hw.threads _ hpc).1

/-- The first stream is swapped under an operation, the second one breaks under it. -/
theorem swap_unseen_broken : ∃ p, routines.machine.Reachable p ∧ p.shared.retired = [0] ∧
    .returned 1 (.failed 1) ∈ p.threads ∧ 1 ∈ p.shared.broken := by
  obtain ⟨p, hp, htest⟩ := Routines.exists_of_exec (m := routines)
    [.start (.enter 0), .run 0 .ok, .start (.swap true), .run 1 .ok, .run 0 .closed, .run 0 .ok,
      .run 0 .ok, .run 0 .broken, .run 0 .ok]
    (fun p => p.shared.retired = [0] ∧ .returned 1 (.failed 1) ∈ p.threads) rfl
    (by decide)
  obtain ⟨hdropped, hreturned⟩ := of_decide_eq_true htest
  exact ⟨p, hp, hdropped, hreturned, (swap_unseen hp).1 1 1 hreturned⟩

/-- **No operation sleeps through a swap.** -/
theorem operation_wakes (hp : routines.machine.Reachable p) {last n : Nat}
    (hpc : .asleep last n ∈ p.threads) :
    n < p.shared.broadcasts ∨ (p.shared.stream = none ∧ p.shared.closed = false) := by
  obtain ⟨_, hle, hempty⟩ := (within_reachable hp).threads _ hpc
  rcases Nat.lt_or_eq_of_le hle with hwoken | hasleep
  · exact .inl hwoken
  · exact .inr (hempty hasleep)

/-- A detached session: its input loop sleeps. -/
theorem operation_wakes_detached : ∃ p, routines.machine.Reachable p ∧
    .asleep 0 1 ∈ p.threads ∧ p.shared.broadcasts = 1 ∧ p.shared.stream = none := by
  obtain ⟨p, hp, htest⟩ := Routines.exists_of_exec (m := routines)
    [.start (.swap false), .run 0 .ok, .start (.enter 0), .run 2 .ok]
    (fun p => .asleep 0 1 ∈ p.threads ∧ p.shared.broadcasts = 1) rfl (by decide)
  obtain ⟨hasleep, hbroadcasts⟩ := of_decide_eq_true htest
  rcases operation_wakes hp hasleep with hwoken | ⟨hnone, _⟩
  · omega
  · exact ⟨p, hp, hasleep, hbroadcasts, hnone⟩

/-- **Each stream has one place.** It is in its place, closed, or about to be closed by
one goroutine; and behind `Close` none stays in its place. -/
theorem streams_accounted (hp : routines.machine.Reachable p) :
    (p.threads.flatMap Pc.hand ++ p.shared.stream.toList ++ p.shared.closedStreams).Perm
        (List.range p.shared.fresh) ∧
      p.shared.closedStreams.Nodup ∧
      (p.shared.closed = true → p.shared.stream = none) := by
  have hperm : (p.threads.flatMap Pc.hand ++ (p.shared.stream.toList ++ p.shared.closedStreams)).Perm
      (List.range p.shared.fresh) :=
    custody.accounted (fun _ hq => (within_reachable hq).threads) hp
  rw [← List.append_assoc] at hperm
  have hnodup := hperm.nodup_iff.mpr List.nodup_range
  exact ⟨hperm, List.Nodup.of_append_right hnodup, (within_reachable hp).inv.closed⟩

/-- A stream that comes behind `Close` is closed like the first one. -/
theorem streams_accounted_closed : ∃ p, routines.machine.Reachable p ∧
    p.shared.closedStreams = [0, 1] ∧ p.shared.closedStreams.Nodup ∧ p.shared.stream = none := by
  obtain ⟨p, hp, htest⟩ := Routines.exists_of_exec (m := routines)
    [.start .close, .run 0 .ok, .run 0 .ok, .start (.swap true), .run 1 .ok, .run 1 .ok]
    (fun p => p.shared.closedStreams = [0, 1] ∧ p.shared.closed = true) rfl (by decide)
  obtain ⟨hstreams, hclosed⟩ := of_decide_eq_true htest
  obtain ⟨_, hnodup, hnone⟩ := streams_accounted hp
  exact ⟨p, hp, hstreams, hnodup, hnone hclosed⟩

end Tsshd.Stream.Replace

import Mathlib.Data.List.Basic

/-!
# Labelled transition systems

The temporal frame of the development. A `TSys` says where runs start and
which state an action leads to; every scheduling choice, every fault and every
message arrival is part of the action, so `next` is a function and a concrete
schedule can be evaluated.

* **reachability** — `ReachableVia ok` collects the states of the runs all of
  whose steps meet `ok`; plain `Reachable` puts no condition on the steps;
* **invariants** — `ReachableVia.invariant` is the induction every safety
  theorem goes through: one goal for the initial states, one for a step;
* **paths** — `Path` links two states of one run, for properties that compare
  an earlier state with a later one (`Path.lift`);
* **schedules** — `exec` runs a list of actions, `execWhile` also checks a
  Boolean condition in front of every step.
-/

namespace Tsshd

/-- A labelled transition system. -/
structure TSys (State Act : Type) where
  init : State → Prop
  next : State → Act → Option State

namespace TSys

variable {State Act : Type} {m : TSys State Act} {ok : State → Act → Prop}

/-- The states reached by the runs of `m` whose steps all meet `ok`. -/
inductive ReachableVia (m : TSys State Act) (ok : State → Act → Prop) : State → Prop
  | init {s} : m.init s → ReachableVia m ok s
  | step {s a s'} : ReachableVia m ok s → ok s a → m.next s a = some s' →
      ReachableVia m ok s'

/-- The states reached by any run. -/
def Reachable (m : TSys State Act) : State → Prop := m.ReachableVia fun _ _ => True

/-- `s'` is a later (or the same) state of a run through `s`. -/
inductive Path (m : TSys State Act) (ok : State → Act → Prop) : State → State → Prop
  | refl (s) : Path m ok s s
  | snoc {s t a u} : Path m ok s t → ok t a → m.next t a = some u → Path m ok s u

/-- **The invariant rule.** What the initial states satisfy and every admitted
step out of a reachable state preserves holds in every reachable state. -/
theorem ReachableVia.invariant {inv : State → Prop}
    (hinit : ∀ s, m.init s → inv s)
    (hstep : ∀ s a s', inv s → ok s a → m.next s a = some s' → inv s')
    {s : State} (h : m.ReachableVia ok s) : inv s := by
  induction h with
  | init h0 => exact hinit _ h0
  | step _ hok hn ih => exact hstep _ _ _ ih hok hn

/-- A weaker condition on the steps keeps the run. -/
theorem ReachableVia.mono {ok' : State → Act → Prop} (hok : ∀ s a, ok s a → ok' s a)
    {s : State} (h : m.ReachableVia ok s) : m.ReachableVia ok' s := by
  induction h with
  | init h0 => exact .init h0
  | step _ hs hn ih => exact .step ih (hok _ _ hs) hn

/-- A later state of a run from a reachable state is reachable. -/
theorem Path.reachableVia {s t : State} (hp : m.Path ok s t) (hs : m.ReachableVia ok s) :
    m.ReachableVia ok t := by
  induction hp with
  | refl => exact hs
  | snoc _ hok hn ih => exact .step ih hok hn

/-- A preorder that every admitted step respects holds between any two states
of a run. -/
theorem Path.lift {R : State → State → Prop} (hrefl : ∀ s, R s s)
    (htrans : ∀ {s t u}, R s t → R t u → R s u)
    (hstep : ∀ s a s', ok s a → m.next s a = some s' → R s s')
    {s t : State} (hp : m.Path ok s t) : R s t := by
  induction hp with
  | refl => exact hrefl _
  | snoc _ hok hn ih => exact htrans ih (hstep _ _ _ hok hn)

/-! ## Schedules -/

/-- Run a schedule; `none` when an action is not enabled. -/
def exec (m : TSys State Act) : State → List Act → Option State
  | s, [] => some s
  | s, a :: rest => (m.next s a).bind fun s' => m.exec s' rest

/-- Run a schedule whose actions must also pass `okB`. -/
def execWhile (m : TSys State Act) (okB : State → Act → Bool) :
    State → List Act → Option State
  | s, [] => some s
  | s, a :: rest =>
    if okB s a then (m.next s a).bind fun s' => m.execWhile okB s' rest else none

/-- A schedule that passes the check is a run under the condition the check
decides. -/
theorem Path.execWhile {okB : State → Act → Bool} (hok : ∀ s a, okB s a = true → ok s a)
    {r s t : State} (hs : m.Path ok r s) {acts : List Act}
    (h : m.execWhile okB s acts = some t) : m.Path ok r t := by
  induction acts generalizing s with
  | nil =>
    simp only [TSys.execWhile, Option.some.injEq] at h
    exact h ▸ hs
  | cons a rest ih =>
    simp only [TSys.execWhile] at h
    split at h
    · obtain ⟨s', hn, hrest⟩ := Option.bind_eq_some_iff.mp h
      exact ih (.snoc hs (hok s a ‹_›) hn) hrest
    · exact absurd h (by simp)

theorem ReachableVia.execWhile {okB : State → Act → Bool}
    (hok : ∀ s a, okB s a = true → ok s a) {s t : State} (hs : m.ReachableVia ok s)
    {acts : List Act} (h : m.execWhile okB s acts = some t) : m.ReachableVia ok t :=
  ((Path.refl s).execWhile hok h).reachableVia hs

/-- A schedule leads from a reachable state to a reachable state. -/
theorem Reachable.exec {s t : State} (hs : m.Reachable s) {acts : List Act}
    (h : m.exec s acts = some t) : m.Reachable t := by
  induction acts generalizing s with
  | nil =>
    simp only [TSys.exec, Option.some.injEq] at h
    exact h ▸ hs
  | cons a rest ih =>
    obtain ⟨s', hn, hrest⟩ := Option.bind_eq_some_iff.mp h
    exact ih (.step hs trivial hn) hrest

end TSys

end Tsshd

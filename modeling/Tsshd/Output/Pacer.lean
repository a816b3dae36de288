import Tsshd.Core.TSys
import Mathlib.Algebra.Order.Archimedean.Basic
import Mathlib.Data.Rat.Floor
import Mathlib.Tactic.Linarith
import Mathlib.Tactic.Positivity

/-!
# The wire pacer

`wireRatePacer` (output.go), the token bucket that all session outputs of one
KCP connection share, in exact arithmetic: balances are rational, clock readings
whole nanoseconds.

* **the bucket** — `refill`, `charge`, `pay` and `settle` are the parts of
  `wait`: credit for the time since the last reading, capped at one burst; the
  debit; one round of the deficit loop; the end, which forgives what is left of
  the deficit;
* **the callers** — `wait` holds the mutex from its first line to its last, so
  one call is under way at a time. A caller that queues for the mutex has done
  nothing yet: `lock` is whichever caller gets it;
* **the clock** — time passes between any two steps, and a sleeper wakes when
  its time is over or later.

Forgiven deficits are the one way past the budget (`Ledger`): all that was
granted, the balance included, is at most one burst and what accrued since the
first use, and what was forgiven on top. The loop ends exactly if whole
nanoseconds of sleep leave half a byte of the deficit at most
(`exists_rounds_iff`).
-/

namespace Tsshd.Output.Pacer

/-! ## The bucket -/

/-- A second, in nanoseconds. -/
def second : Nat := 1000000000

/-- `d.Seconds()`. -/
def seconds (d : Nat) : ℚ := (d : ℚ) / (second : ℚ)

def kWireAmpEstimate : ℚ := 26 / 10

def kPacerTokenInterval : Nat := 100000000

def kPacerMaxSleep : Nat := second

structure WireRatePacer where
  rate : ℚ
  burst : ℚ
  tok : ℚ := 0
  /-- The last reading of the clock; `none` before the first use. -/
  last : Option Nat := none

/-- The pacer for a payload rate. -/
def ofRate (rate : ℚ) : WireRatePacer where
  rate := rate
  burst := rate * seconds kPacerTokenInterval

def newWireRatePacer (wireRateBPS : UInt64) : Option WireRatePacer :=
  if wireRateBPS = 0 then none else some (ofRate ((wireRateBPS.toNat : ℚ) / kWireAmpEstimate))

namespace WireRatePacer

def refill (p : WireRatePacer) (now : Nat) : WireRatePacer :=
  match p.last with
  | none => { p with tok := p.burst, last := some now }
  | some last =>
    { p with tok := min (p.tok + seconds (now - last) * p.rate) p.burst, last := some now }

def charge (p : WireRatePacer) (n : Nat) : WireRatePacer := { p with tok := p.tok - (n : ℚ) }

/-- The condition of the deficit loop. -/
def indebted (p : WireRatePacer) : Bool := decide (p.tok < -(1 / 2))

def deficit (p : WireRatePacer) : ℚ := -p.tok

/-- How long a round of the loop sleeps: whole nanoseconds, a second at most. -/
def slice (p : WireRatePacer) : Nat :=
  min ⌊p.deficit / p.rate * (second : ℚ)⌋₊ kPacerMaxSleep

/-- The rest of a round, behind the sleep. -/
def pay (p : WireRatePacer) (now : Nat) : WireRatePacer :=
  { p with tok := p.tok + min (seconds p.slice * p.rate) p.deficit, last := some now }

def settle (p : WireRatePacer) : WireRatePacer :=
  { p with tok := if p.tok < 0 then 0 else p.tok }

/-- What `settle` gives away. -/
def remission (p : WireRatePacer) : ℚ := if p.tok < 0 then p.deficit else 0

/-- The deficit loop, `k` rounds on, with the clock readings of its rounds. -/
def rounds (p : WireRatePacer) (wakes : Nat → Nat) : Nat → WireRatePacer
  | 0 => p
  | k + 1 => (p.rounds wakes k).pay (wakes k)

end WireRatePacer

/-! ## The connection -/

/-- Where the caller is that holds the mutex. -/
inductive Pc
  /-- In front of `time.Now()`. -/
  | start
  /-- At the condition of the deficit loop. -/
  | loop
  /-- In `time.Sleep`. -/
  | asleep (since : Nat) (sleep : Nat)
deriving DecidableEq, Repr

structure Call where
  n : Nat
  pc : Pc
deriving DecidableEq, Repr

structure Sys where
  clock : Nat := 0
  pacer : WireRatePacer
  /-- The call that holds the mutex. -/
  holder : Option Call := none
  /-- History: the time of the first use, the number and the bytes of the calls
  that have returned, and the deficits forgiven. -/
  firstUse : Option Nat := none
  calls : Nat := 0
  returned : Nat := 0
  forgiven : ℚ := 0

inductive Act
  /-- Time passes. -/
  | tick (d : Nat)
  /-- A caller of `wait(n)` gets the mutex. -/
  | lock (n : Nat)
  /-- The holder of the mutex moves. -/
  | step
deriving DecidableEq, Repr

def holderStep (s : Sys) (c : Call) : Option Sys :=
  match c.pc with
  | .start =>
    some { s with
      pacer := (s.pacer.refill s.clock).charge c.n
      holder := some { c with pc := .loop }
      firstUse := some (s.firstUse.getD s.clock) }
  | .loop =>
    if s.pacer.indebted then
      some { s with holder := some { c with pc := .asleep s.clock s.pacer.slice } }
    else
      some { s with
        pacer := s.pacer.settle
        holder := none
        calls := s.calls + 1
        returned := s.returned + c.n
        forgiven := s.forgiven + s.pacer.remission }
  | .asleep since sleep =>
    if since + sleep ≤ s.clock then
      some { s with pacer := s.pacer.pay s.clock, holder := some { c with pc := .loop } }
    else none

def next (s : Sys) : Act → Option Sys
  | .tick d => some { s with clock := s.clock + d }
  | .lock n =>
    if s.holder = none ∧ 0 < n then some { s with holder := some ⟨n, .start⟩ } else none
  | .step =>
    match s.holder with
    | some c => holderStep s c
    | none => none

/-- A connection with a pacer for the given payload rate, not used yet. -/
def machine (rate : ℚ) : TSys Sys Act where
  init s := s.pacer = ofRate rate ∧ s.holder = none ∧ s.firstUse = none ∧ s.calls = 0 ∧
    s.returned = 0 ∧ s.forgiven = 0
  next := next

/-! ## What a step does -/

/-- The bytes that were charged and have not been granted yet. -/
def Sys.owed (s : Sys) : Nat :=
  match s.holder with
  | none => 0
  | some c => if c.pc = .start then 0 else c.n

theorem Sys.owed_idle {s : Sys} (h : s.holder = none) : s.owed = 0 := by
  simp only [Sys.owed, h]

theorem Sys.owed_start {s : Sys} {n : Nat} (h : s.holder = some ⟨n, .start⟩) : s.owed = 0 := by
  simp only [Sys.owed, h, if_true]

theorem Sys.owed_charged {s : Sys} {n : Nat} {pc : Pc} (h : s.holder = some ⟨n, pc⟩)
    (hpc : pc ≠ .start) : s.owed = n := by
  simp only [Sys.owed, h, if_neg hpc]

inductive Step (s : Sys) : Act → Sys → Prop
  | tick (d : Nat) : Step s (.tick d) { s with clock := s.clock + d }
  | lock (n : Nat) (hfree : s.holder = none) (hn : 0 < n) :
      Step s (.lock n) { s with holder := some ⟨n, .start⟩ }
  | start (n : Nat) (hholder : s.holder = some ⟨n, .start⟩) :
      Step s .step { s with
        pacer := (s.pacer.refill s.clock).charge n
        holder := some ⟨n, .loop⟩
        firstUse := some (s.firstUse.getD s.clock) }
  | sleep (n : Nat) (hholder : s.holder = some ⟨n, .loop⟩) (hdebt : s.pacer.indebted = true) :
      Step s .step { s with holder := some ⟨n, .asleep s.clock s.pacer.slice⟩ }
  | finish (n : Nat) (hholder : s.holder = some ⟨n, .loop⟩) (hpaid : s.pacer.indebted = false) :
      Step s .step { s with
        pacer := s.pacer.settle
        holder := none
        calls := s.calls + 1
        returned := s.returned + n
        forgiven := s.forgiven + s.pacer.remission }
  | wake (n since sleep : Nat) (hholder : s.holder = some ⟨n, .asleep since sleep⟩)
      (htime : since + sleep ≤ s.clock) :
      Step s .step { s with pacer := s.pacer.pay s.clock, holder := some ⟨n, .loop⟩ }

section Steps

variable {s s' : Sys} {a : Act}

theorem step_cases (h : next s a = some s') : Step s a s' := by
  cases a with
  | tick d =>
    cases h
    exact .tick d
  | lock n =>
    simp only [next] at h
    split at h
    · rename_i hlock
      cases h
      exact .lock n hlock.1 hlock.2
    · cases h
  | step =>
    simp only [next] at h
    split at h
    · rename_i c hholder
      obtain ⟨n, pc⟩ := c
      cases pc with
      | start =>
        cases h
        exact .start n hholder
      | loop =>
        simp only [holderStep] at h
        split at h
        · rename_i hdebt
          cases h
          exact .sleep n hholder hdebt
        · rename_i hpaid
          cases h
          exact .finish n hholder (Bool.eq_false_iff.mpr hpaid)
      | asleep since sleep =>
        simp only [holderStep] at h
        split at h
        · rename_i htime
          cases h
          exact .wake n since sleep hholder htime
        · cases h
    · cases h

end Steps

/-! ## Balances -/

theorem seconds_nonneg (d : Nat) : 0 ≤ seconds d := by
  unfold seconds second
  positivity

theorem seconds_add (d e : Nat) : seconds (d + e) = seconds d + seconds e := by
  unfold seconds
  push_cast
  ring

theorem seconds_mono {d e : Nat} (h : d ≤ e) : seconds d ≤ seconds e := by
  obtain ⟨k, rfl⟩ := Nat.exists_eq_add_of_le h
  rw [seconds_add]
  exact le_add_of_nonneg_right (seconds_nonneg k)

theorem seconds_eq_mul (k : Nat) : seconds k = k * seconds 1 := by
  unfold seconds
  rw [Nat.cast_one, mul_one_div]

theorem seconds_one_pos : 0 < seconds 1 := by
  unfold seconds second
  norm_num

/-- Three readings of the clock in order. -/
theorem seconds_chain {a b c : Nat} (hab : a ≤ b) (hbc : b ≤ c) :
    seconds (c - a) = seconds (b - a) + seconds (c - b) := by
  rw [← seconds_add]
  congr 1
  omega

namespace WireRatePacer

variable {p : WireRatePacer}

theorem refill_le_burst (p : WireRatePacer) (now : Nat) : (p.refill now).tok ≤ p.burst := by
  unfold refill
  split
  · exact le_refl _
  · exact min_le_right _ _

theorem refill_le {t : Nat} (hlast : p.last = some t) (now : Nat) :
    (p.refill now).tok ≤ p.tok + seconds (now - t) * p.rate := by
  simp only [refill, hlast]
  exact min_le_left _ _

theorem refill_nonneg (hrate : 0 ≤ p.rate) (hburst : 0 ≤ p.burst) (htok : 0 ≤ p.tok) (now : Nat) :
    0 ≤ (p.refill now).tok := by
  unfold refill
  split
  · exact hburst
  · exact le_min (add_nonneg htok (mul_nonneg (seconds_nonneg _) hrate)) hburst

theorem refill_frame (p : WireRatePacer) (now : Nat) :
    (p.refill now).rate = p.rate ∧ (p.refill now).burst = p.burst ∧
      (p.refill now).last = some now := by
  unfold refill
  split <;> exact ⟨rfl, rfl, rfl⟩

theorem settle_tok (p : WireRatePacer) : p.settle.tok = p.tok + p.remission := by
  unfold settle remission deficit
  split <;> ring

/-- A call that returns is forgiven half a byte at most. -/
theorem remission_le (h : p.indebted = false) : p.remission ≤ 1 / 2 := by
  have hle := not_lt.mp (of_decide_eq_false h)
  unfold remission deficit
  split <;> linarith

theorem remission_nonneg (p : WireRatePacer) : 0 ≤ p.remission := by
  unfold remission deficit
  split <;> linarith

theorem settle_nonneg (p : WireRatePacer) : 0 ≤ p.settle.tok := by
  unfold settle
  split
  · exact le_refl _
  · exact not_lt.mp ‹_›

theorem pay_le (p : WireRatePacer) (now : Nat) :
    (p.pay now).tok ≤ p.tok + seconds p.slice * p.rate :=
  add_le_add_right (min_le_left _ _) _

/-- A payment covers the deficit at most. -/
theorem pay_nonpos (p : WireRatePacer) (now : Nat) : (p.pay now).tok ≤ 0 := by
  have hle : (p.pay now).tok ≤ p.tok + p.deficit := add_le_add_right (min_le_right _ _) _
  rwa [deficit, add_neg_cancel] at hle

theorem le_pay (hrate : 0 ≤ p.rate) (hdebt : p.tok ≤ 0) (now : Nat) : p.tok ≤ (p.pay now).tok := by
  refine le_add_of_nonneg_right (le_min (mul_nonneg (seconds_nonneg _) hrate) ?_)
  exact neg_nonneg.mpr hdebt

theorem tok_lt_of_indebted (h : p.indebted = true) : p.tok < -(1 / 2) := of_decide_eq_true h

/-- What a nanosecond of sleep pays. -/
def perNano (p : WireRatePacer) : ℚ := seconds 1 * p.rate

theorem perNano_pos (hrate : 0 < p.rate) : 0 < p.perNano := mul_pos seconds_one_pos hrate

theorem slice_eq (p : WireRatePacer) : p.slice = min ⌊p.deficit / p.perNano⌋₊ kPacerMaxSleep := by
  have hsame : p.deficit / p.rate * (second : ℚ) = p.deficit / p.perNano := by
    rw [perNano, seconds, Nat.cast_one, one_div, mul_comm, div_mul_eq_div_div, div_inv_eq_mul,
      mul_div_assoc, mul_comm]
    ring
  rw [slice, hsame]

/-- A round pays for the time it sleeps, and no more than the deficit. -/
theorem pay_deficit (hrate : 0 < p.rate) (hdebt : 0 ≤ p.deficit) (now : Nat) :
    (p.pay now).deficit = p.deficit - p.slice * p.perNano := by
  have hpay := perNano_pos hrate
  have hpaid : seconds p.slice * p.rate = p.slice * p.perNano := by
    rw [seconds_eq_mul, mul_assoc, perNano]
  have hle : (p.slice : ℚ) * p.perNano ≤ p.deficit := by
    rw [← le_div_iff₀ hpay]
    refine le_trans ?_ (Nat.floor_le (div_nonneg hdebt hpay.le))
    rw [slice_eq]
    exact_mod_cast Nat.min_le_left _ _
  show -(p.tok + min (seconds p.slice * p.rate) p.deficit) = _
  rw [hpaid, min_eq_left hle, deficit]
  ring

end WireRatePacer

/-! ## What holds between the steps -/

structure Inv (rate : ℚ) (s : Sys) : Prop where
  sameRate : s.pacer.rate = rate
  sameBurst : s.pacer.burst = (ofRate rate).burst
  read : ∀ t, s.pacer.last = some t → t ≤ s.clock
  /-- Idle time never yields more than one burst. -/
  cap : s.pacer.tok ≤ s.pacer.burst
  /-- The balance is negative by what a call under way owes at most. -/
  funded : 0 ≤ (s.owed : ℚ) + s.pacer.tok
  positive : ∀ n pc, s.holder = some ⟨n, pc⟩ → 0 < n
  asleep : ∀ n since sleep, s.holder = some ⟨n, .asleep since sleep⟩ →
    s.pacer.indebted = true ∧ sleep = s.pacer.slice ∧ ∀ t, s.pacer.last = some t → t ≤ since
  used : s.firstUse = none ↔ s.pacer.last = none
  pardon : 0 ≤ s.forgiven
  pardoned : s.forgiven ≤ s.calls / 2
  unused : s.pacer.last = none → s.returned = 0 ∧ s.forgiven = 0 ∧ s.owed = 0

theorem burst_nonneg {rate : ℚ} (hrate : 0 < rate) : 0 ≤ (ofRate rate).burst :=
  mul_nonneg hrate.le (seconds_nonneg _)

theorem inv_init {rate : ℚ} (hrate : 0 < rate) {s : Sys} (h : (machine rate).init s) :
    Inv rate s := by
  obtain ⟨hpacer, hholder, hfirst, hcalls, hreturned, hforgiven⟩ := h
  have howed := Sys.owed_idle hholder
  refine ⟨by rw [hpacer]; rfl, by rw [hpacer], ?_, ?_, ?_, ?_, ?_, ?_,
    hforgiven.ge, by rw [hforgiven, hcalls]; norm_num, fun _ => ⟨hreturned, hforgiven, howed⟩⟩
  · intro t ht
    rw [hpacer] at ht
    cases ht
  · rw [hpacer]
    exact burst_nonneg hrate
  · rw [hpacer, howed]
    exact le_of_eq (add_zero _).symm
  · simp [hholder]
  · simp [hholder]
  · rw [hfirst, hpacer]
    exact iff_of_true rfl rfl

theorem Inv.funded_of {rate : ℚ} {s : Sys} (h : Inv rate s) {n : Nat} (howed : s.owed = n) :
    0 ≤ (n : ℚ) + s.pacer.tok := howed ▸ h.funded

/-- A call that was charged has read the clock. -/
theorem Inv.read_of_charged {rate : ℚ} {s : Sys} (h : Inv rate s) {n : Nat} {pc : Pc}
    (hholder : s.holder = some ⟨n, pc⟩) (hpc : pc ≠ .start) : s.pacer.last ≠ none := by
  intro hlast
  have hpos := h.positive n pc hholder
  have howed := (h.unused hlast).2.2
  rw [Sys.owed_charged hholder hpc] at howed
  omega

theorem Inv.next {rate : ℚ} (hrate : 0 < rate) {s s' : Sys} {a : Act} (h : Inv rate s)
    (hstep : Step s a s') : Inv rate s' := by
  have hrate' : 0 ≤ s.pacer.rate := h.sameRate ▸ hrate.le
  have hburst : 0 ≤ s.pacer.burst := h.sameBurst ▸ burst_nonneg hrate
  cases hstep with
  | tick d =>
    refine ⟨h.sameRate, h.sameBurst, ?_, h.cap, h.funded, h.positive, h.asleep, h.used,
      h.pardon, h.pardoned, h.unused⟩
    intro t ht
    exact Nat.le_add_right_of_le (h.read t ht)
  | lock n hfree hn =>
    have howed := Sys.owed_idle hfree
    refine ⟨h.sameRate, h.sameBurst, h.read, h.cap, ?_, ?_, ?_, h.used, h.pardon, h.pardoned, ?_⟩
    · exact h.funded_of howed
    · rintro _ _ ⟨⟩
      exact hn
    · rintro _ _ _ ⟨⟩
    · intro hlast
      obtain ⟨hreturned, hforgiven, -⟩ := h.unused hlast
      exact ⟨hreturned, hforgiven, rfl⟩
  | start n hholder =>
    obtain ⟨hr, hb, hl⟩ := s.pacer.refill_frame s.clock
    have howed := Sys.owed_start hholder
    have htok : 0 ≤ s.pacer.tok := by
      have hfunded := h.funded
      rwa [howed, Nat.cast_zero, zero_add] at hfunded
    refine ⟨hr.trans h.sameRate, hb.trans h.sameBurst, ?_, ?_, ?_, ?_, ?_, ?_, h.pardon, h.pardoned, ?_⟩
    · intro t ht
      exact (Option.some.inj (hl.symm.trans ht)) ▸ le_refl _
    · show (s.pacer.refill s.clock).tok - (n : ℚ) ≤ (s.pacer.refill s.clock).burst
      have hle := s.pacer.refill_le_burst s.clock
      have hn : (0 : ℚ) ≤ n := Nat.cast_nonneg n
      rw [hb]
      linarith
    · show 0 ≤ (n : ℚ) + ((s.pacer.refill s.clock).tok - (n : ℚ))
      have hnonneg := WireRatePacer.refill_nonneg hrate' hburst htok s.clock
      linarith
    · rintro _ _ ⟨⟩
      exact h.positive _ _ hholder
    · rintro _ _ _ ⟨⟩
    · exact iff_of_false (by simp) (by simp [WireRatePacer.charge, hl])
    · intro hlast
      exact absurd (hl.symm.trans hlast) (by simp)
  | sleep n hholder hdebt =>
    have howed := Sys.owed_charged hholder (by simp)
    refine ⟨h.sameRate, h.sameBurst, h.read, h.cap, ?_, ?_, ?_, h.used, h.pardon, h.pardoned, ?_⟩
    · exact h.funded_of howed
    · rintro _ _ ⟨⟩
      exact h.positive _ _ hholder
    · rintro _ _ _ ⟨⟩
      exact ⟨hdebt, rfl, h.read⟩
    · exact fun hlast => howed ▸ h.unused hlast
  | finish n hholder hpaid =>
    refine ⟨h.sameRate, h.sameBurst, h.read, ?_, ?_, ?_, ?_, h.used,
      add_nonneg h.pardon s.pacer.remission_nonneg, ?_, ?_⟩
    · show (if s.pacer.tok < 0 then 0 else s.pacer.tok) ≤ s.pacer.burst
      split
      · exact hburst
      · exact h.cap
    · have hnonneg := s.pacer.settle_nonneg
      show 0 ≤ ((0 : Nat) : ℚ) + s.pacer.settle.tok
      rwa [Nat.cast_zero, zero_add]
    · rintro _ _ ⟨⟩
    · rintro _ _ _ ⟨⟩
    · have hsum := add_le_add h.pardoned (WireRatePacer.remission_le hpaid)
      show s.forgiven + s.pacer.remission ≤ ((s.calls + 1 : Nat) : ℚ) / 2
      push_cast
      linarith
    · intro hlast
      exact absurd hlast (h.read_of_charged hholder (by simp))
  | wake n since sleep hholder htime =>
    obtain ⟨hdebt, -, -⟩ := h.asleep n since sleep hholder
    have hneg : s.pacer.tok ≤ 0 := by
      have hlt := WireRatePacer.tok_lt_of_indebted hdebt
      linarith
    have howed := Sys.owed_charged hholder (by simp)
    refine ⟨h.sameRate, h.sameBurst, ?_, ?_, ?_, ?_, ?_, ?_, h.pardon, h.pardoned, ?_⟩
    · rintro t ⟨⟩
      exact le_refl _
    · exact (s.pacer.pay_nonpos s.clock).trans hburst
    · exact (h.funded_of howed).trans (add_le_add_right (WireRatePacer.le_pay hrate' hneg s.clock) _)
    · rintro _ _ ⟨⟩
      exact h.positive _ _ hholder
    · rintro _ _ _ ⟨⟩
    · refine iff_of_false ?_ (by simp [WireRatePacer.pay])
      intro hfirst
      exact h.read_of_charged hholder (by simp) (h.used.mp hfirst)
    · rintro ⟨⟩

theorem inv_reachable {rate : ℚ} (hrate : 0 < rate) {s : Sys} (h : (machine rate).Reachable s) :
    Inv rate s :=
  h.invariant (fun _ => inv_init hrate) fun _ _ _ hs _ hnext => hs.next hrate (step_cases hnext)

/-! ## The budget -/

/-- All that was ever charged, and the balance. -/
def Sys.granted (s : Sys) : ℚ := (s.returned : ℚ) + (s.owed : ℚ) + s.pacer.tok

/-- What a burst and the time up to `t` pay for. -/
def budget (rate : ℚ) (start t : Nat) : ℚ := (ofRate rate).burst + seconds (t - start) * rate

/-- The account of the time since `start`, when the calls that had returned made
`bytes` bytes and `pardon` had been forgiven: the pacer was not read since, or
what was granted since is within the budget up to the last reading and what was
forgiven since. -/
structure Ledger (rate : ℚ) (start bytes : Nat) (pardon : ℚ) (s : Sys) : Prop where
  forgiven : pardon ≤ s.forgiven
  before : (∀ t, s.pacer.last = some t → t < start) → s.returned = bytes ∧ s.owed = 0
  after : ∀ t, s.pacer.last = some t → start ≤ t →
    s.granted ≤ bytes + budget rate start t + (s.forgiven - pardon)

section Ledger

variable {rate : ℚ} {start bytes : Nat} {pardon : ℚ} {s s' : Sys} {a : Act}

/-- The pacer is read at the start of a call. -/
theorem Ledger.refill (hrate : 0 < rate) (h : Inv rate s) (hl : Ledger rate start bytes pardon s)
    (howed : s.owed = 0) :
    (s.returned : ℚ) + (s.pacer.refill s.clock).tok ≤
      bytes + budget rate start s.clock + (s.forgiven - pardon) := by
  have hcap := s.pacer.refill_le_burst s.clock
  have hpardon := hl.forgiven
  by_cases hread : ∃ t, s.pacer.last = some t ∧ start ≤ t
  · obtain ⟨t, hlast, hle⟩ := hread
    have hafter := hl.after t hlast hle
    have htok := WireRatePacer.refill_le hlast s.clock
    have htime := seconds_chain hle (h.read t hlast)
    simp only [Sys.granted, howed, Nat.cast_zero, add_zero, budget] at hafter
    rw [h.sameRate] at htok
    rw [budget, htime, add_mul]
    linarith
  · have hfresh := (hl.before fun t ht => not_le.mp fun hle => hread ⟨t, ht, hle⟩).1
    have hnonneg : 0 ≤ seconds (s.clock - start) * rate := mul_nonneg (seconds_nonneg _) hrate.le
    rw [h.sameBurst] at hcap
    rw [hfresh, budget]
    linarith

/-- A call that was charged has read the clock since the account was opened. -/
theorem Ledger.read_of_charged (h : Inv rate s) (hl : Ledger rate start bytes pardon s) {n : Nat}
    {pc : Pc} (hholder : s.holder = some ⟨n, pc⟩) (hpc : pc ≠ .start) :
    ∃ t, s.pacer.last = some t ∧ start ≤ t := by
  by_contra hnone
  have hpos := h.positive n pc hholder
  have howed := (hl.before fun t ht => not_le.mp fun hle => hnone ⟨t, ht, hle⟩).2
  rw [Sys.owed_charged hholder hpc] at howed
  omega

/-- A deficit is paid with time that has passed. -/
theorem Ledger.pay (hrate : 0 < rate) (h : Inv rate s) (hl : Ledger rate start bytes pardon s)
    {n since sleep : Nat} (hholder : s.holder = some ⟨n, .asleep since sleep⟩)
    (htime : since + sleep ≤ s.clock) :
    (s.returned : ℚ) + (n : ℚ) + (s.pacer.pay s.clock).tok ≤
      bytes + budget rate start s.clock + (s.forgiven - pardon) := by
  have howed := Sys.owed_charged hholder (by simp)
  obtain ⟨-, rfl, hsince⟩ := h.asleep n since sleep hholder
  obtain ⟨t, hlast, hle⟩ := hl.read_of_charged h hholder (by simp)
  have hslept : seconds s.pacer.slice ≤ seconds (s.clock - t) := by
    have := hsince t hlast
    exact seconds_mono (by omega)
  have hpaid : (s.pacer.pay s.clock).tok ≤ s.pacer.tok + seconds (s.clock - t) * rate := by
    refine (s.pacer.pay_le s.clock).trans ?_
    rw [h.sameRate]
    exact add_le_add_right (mul_le_mul_of_nonneg_right hslept hrate.le) _
  have hafter := hl.after t hlast hle
  simp only [Sys.granted, howed, budget] at hafter
  rw [budget, seconds_chain hle (h.read t hlast), add_mul]
  linarith

theorem Ledger.next (hrate : 0 < rate) (h : Inv rate s) (hl : Ledger rate start bytes pardon s)
    (hstart : start ≤ s.clock) (hstep : Step s a s') : Ledger rate start bytes pardon s' := by
  cases hstep with
  | tick d => exact ⟨hl.forgiven, hl.before, hl.after⟩
  | lock n hfree hn =>
    have howed := Sys.owed_idle hfree
    refine ⟨hl.forgiven, fun hlast => ⟨(hl.before hlast).1, rfl⟩, ?_⟩
    intro t hlast hle
    have hafter := hl.after t hlast hle
    rw [Sys.granted, howed] at hafter
    exact hafter
  | start n hholder =>
    obtain ⟨-, -, hread⟩ := s.pacer.refill_frame s.clock
    have howed := Sys.owed_start hholder
    have hrefill := hl.refill hrate h howed
    refine ⟨hl.forgiven, ?_, ?_⟩
    · intro hlast
      exact absurd (hlast s.clock hread) (not_lt.mpr hstart)
    · intro t hlast _
      obtain rfl : s.clock = t := Option.some.inj (hread.symm.trans hlast)
      show (s.returned : ℚ) + (n : ℚ) + ((s.pacer.refill s.clock).tok - (n : ℚ)) ≤ _
      linarith
  | sleep n hholder hdebt =>
    have howed := Sys.owed_charged hholder (by simp)
    refine ⟨hl.forgiven, ?_, ?_⟩
    · exact fun hlast => howed ▸ hl.before hlast
    · intro t hlast hle
      have hafter := hl.after t hlast hle
      rw [Sys.granted, howed] at hafter
      exact hafter
  | finish n hholder hpaid =>
    have howed := Sys.owed_charged hholder (by simp)
    have hremission := s.pacer.remission_nonneg
    refine ⟨hl.forgiven.trans (le_add_of_nonneg_right hremission), ?_, ?_⟩
    · intro hlast
      obtain ⟨t, ht, hle⟩ := hl.read_of_charged h hholder (by simp)
      exact absurd (hlast t ht) (not_lt.mpr hle)
    · intro t hlast hle
      have hafter := hl.after t hlast hle
      rw [Sys.granted, howed] at hafter
      show ((s.returned + n : Nat) : ℚ) + ((0 : Nat) : ℚ) + s.pacer.settle.tok ≤
        bytes + budget rate start t + (s.forgiven + s.pacer.remission - pardon)
      rw [WireRatePacer.settle_tok]
      push_cast
      linarith
  | wake n since sleep hholder htime =>
    have hpay := hl.pay hrate h hholder htime
    refine ⟨hl.forgiven, ?_, ?_⟩
    · intro hlast
      exact absurd (hlast s.clock rfl) (not_lt.mpr hstart)
    · rintro t ⟨⟩ _
      exact hpay

/-- The bytes that have returned, whatever is under way. -/
theorem Ledger.returned_le (hrate : 0 < rate) (h : Inv rate s)
    (hl : Ledger rate start bytes pardon s) :
    (s.returned : ℚ) ≤ bytes + budget rate start s.clock + (s.forgiven - pardon) := by
  by_cases hread : ∃ t, s.pacer.last = some t ∧ start ≤ t
  · obtain ⟨t, hlast, hle⟩ := hread
    have hafter := hl.after t hlast hle
    have hfunded := h.funded
    have htime : seconds (t - start) * rate ≤ seconds (s.clock - start) * rate :=
      mul_le_mul_of_nonneg_right (seconds_mono (Nat.sub_le_sub_right (h.read t hlast) _)) hrate.le
    simp only [Sys.granted, budget] at hafter
    rw [budget]
    linarith
  · have hfresh := (hl.before fun t ht => not_le.mp fun hle => hread ⟨t, ht, hle⟩).1
    have hnonneg : 0 ≤ seconds (s.clock - start) * rate := mul_nonneg (seconds_nonneg _) hrate.le
    have hburst := burst_nonneg hrate
    have hpardon := hl.forgiven
    rw [hfresh, budget]
    linarith

/-- Between two calls a new account can be opened: there is one burst of credit
at most, however long the pacer was idle. -/
theorem Ledger.open (hrate : 0 < rate) (h : Inv rate s) (hidle : s.holder = none) :
    Ledger rate s.clock s.returned s.forgiven s := by
  have howed := Sys.owed_idle hidle
  refine ⟨le_refl _, fun _ => ⟨rfl, howed⟩, ?_⟩
  intro t _ _
  have hcap := h.cap
  have hnonneg : 0 ≤ seconds (t - s.clock) * rate := mul_nonneg (seconds_nonneg _) hrate.le
  rw [Sys.granted, howed, budget, ← h.sameBurst, Nat.cast_zero, sub_self]
  linarith

end Ledger

/-- The account of the first use is open from the first use on. -/
def Opened (rate : ℚ) (s : Sys) : Prop :=
  ∀ t, s.firstUse = some t → t ≤ s.clock ∧ Ledger rate t 0 0 s

theorem clock_le {s s' : Sys} {a : Act} (hstep : Step s a s') : s.clock ≤ s'.clock := by
  cases hstep with
  | tick d => exact Nat.le_add_right _ _
  | _ => exact Nat.le_refl _

/-- The first use reads the clock and grants one burst. -/
theorem Ledger.first {rate : ℚ} (hrate : 0 < rate) {s : Sys} (h : Inv rate s) {n : Nat}
    (hfirst : s.firstUse = none) (use : Option Nat) :
    Ledger rate s.clock 0 0 { s with
      pacer := (s.pacer.refill s.clock).charge n
      holder := some ⟨n, .loop⟩
      firstUse := use } := by
  obtain ⟨hreturned, hpardon, -⟩ := h.unused (h.used.mp hfirst)
  obtain ⟨-, -, hread⟩ := s.pacer.refill_frame s.clock
  have hcap := s.pacer.refill_le_burst s.clock
  refine ⟨hpardon.ge, ?_, ?_⟩
  · intro hbefore
    exact absurd (hbefore s.clock hread) (lt_irrefl _)
  · intro t ht _
    obtain rfl : s.clock = t := Option.some.inj (hread.symm.trans ht)
    have hnonneg : 0 ≤ seconds (s.clock - s.clock) * rate :=
      mul_nonneg (seconds_nonneg _) hrate.le
    show (s.returned : ℚ) + (n : ℚ) + ((s.pacer.refill s.clock).tok - (n : ℚ)) ≤
      ((0 : Nat) : ℚ) + budget rate s.clock s.clock + (s.forgiven - 0)
    rw [hreturned, hpardon, budget, ← h.sameBurst]
    push_cast
    linarith

theorem Opened.next {rate : ℚ} (hrate : 0 < rate) {s s' : Sys} {a : Act} (h : Inv rate s)
    (ho : Opened rate s) (hstep : Step s a s') : Opened rate s' := by
  intro t ht
  by_cases hused : s.firstUse = some t
  · obtain ⟨hle, hl⟩ := ho t hused
    exact ⟨hle.trans (clock_le hstep), hl.next hrate h hle hstep⟩
  · cases hstep with
    | start n hholder =>
      cases hfirst : s.firstUse with
      | none =>
        simp only [hfirst, Option.getD_none, Option.some.injEq] at ht
        subst ht
        exact ⟨le_refl _, Ledger.first hrate h hfirst _⟩
      | some t' =>
        simp only [hfirst, Option.getD_some] at ht
        exact absurd (hfirst.trans ht) hused
    | _ => exact absurd ht hused

theorem opened_reachable {rate : ℚ} (hrate : 0 < rate) {s : Sys}
    (h : (machine rate).Reachable s) : Opened rate s := by
  induction h with
  | init h0 =>
    intro t ht
    exact absurd (h0.2.2.1.symm.trans ht) (by simp)
  | step hs _ hnext ih => exact ih.next hrate (inv_reachable hrate hs) (step_cases hnext)

/-- An account that is open stays open. -/
theorem Ledger.path {rate : ℚ} (hrate : 0 < rate) {s t : Sys} (h : (machine rate).Reachable s)
    (hidle : s.holder = none) (hpath : (machine rate).Path (fun _ _ => True) s t) :
    Inv rate t ∧ s.clock ≤ t.clock ∧ Ledger rate s.clock s.returned s.forgiven t := by
  have hs := inv_reachable hrate h
  induction hpath with
  | refl => exact ⟨hs, le_refl _, Ledger.open hrate hs hidle⟩
  | snoc _ _ hnext ih =>
    obtain ⟨hinv, hle, hl⟩ := ih
    have hstep := step_cases hnext
    exact ⟨hinv.next hrate hstep, hle.trans (clock_le hstep), hl.next hrate hinv hle hstep⟩

/-! ## Calls that are forgiven nothing -/

/-- The whole nanoseconds of sleep that a deficit is worth. -/
def nanoseconds (rate d : ℚ) : Nat := ⌊d / (seconds 1 * rate)⌋₊

/-- A deficit that is slept off to the last: it is worth whole nanoseconds, and
the slices of a second leave nothing of it or more than half a byte. -/
def SleptOff (rate d : ℚ) : Prop :=
  1 / 2 < rate ∧ d = nanoseconds rate d * (seconds 1 * rate) ∧
    (nanoseconds rate d % second = 0 ∨
      1 / 2 < ((nanoseconds rate d % second : Nat) : ℚ) * (seconds 1 * rate))

instance (rate d : ℚ) : Decidable (SleptOff rate d) := inferInstanceAs (Decidable (_ ∧ _ ∧ _))

/-- A call that starts finds credit for its bytes, or a deficit that is slept off
to the last. -/
def Sys.covered (s : Sys) : Act → Bool
  | .step =>
    match s.holder with
    | some ⟨n, .start⟩ =>
      decide ((n : ℚ) ≤ (s.pacer.refill s.clock).tok ∨
        SleptOff s.pacer.rate (n - (s.pacer.refill s.clock).tok))
    | _ => true
  | _ => true

/-- With whole nanoseconds named. -/
theorem sleptOff_iff {rate d : ℚ} (hrate : 0 < rate) :
    SleptOff rate d ↔ 1 / 2 < rate ∧ ∃ k : Nat, d = k * (seconds 1 * rate) ∧
      (k % second = 0 ∨ 1 / 2 < ((k % second : Nat) : ℚ) * (seconds 1 * rate)) := by
  constructor
  · rintro ⟨hfast, hwhole, hrest⟩
    exact ⟨hfast, _, hwhole, hrest⟩
  · rintro ⟨hfast, k, hwhole, hrest⟩
    have hk : nanoseconds rate d = k := by
      rw [nanoseconds, hwhole, mul_div_cancel_right₀ _ (mul_pos seconds_one_pos hrate).ne',
        Nat.floor_natCast]
    exact ⟨hfast, by rw [hk]; exact hwhole, by rw [hk]; exact hrest⟩

/-- A deficit of this kind is more than half a byte, or none. -/
theorem SleptOff.large {rate d : ℚ} (hrate : 0 < rate) (h : SleptOff rate d) (hd : d ≠ 0) :
    1 / 2 < d := by
  obtain ⟨hfast, k, rfl, hrest⟩ := (sleptOff_iff hrate).mp h
  have hpay : 0 ≤ seconds 1 * rate := (mul_pos seconds_one_pos hrate).le
  rcases hrest with hzero | hrest
  · have hle : second ≤ k := by
      refine Nat.le_of_dvd (Nat.pos_of_ne_zero ?_) (Nat.dvd_of_mod_eq_zero hzero)
      rintro rfl
      exact hd (by rw [Nat.cast_zero, zero_mul])
    have hsecond : (second : ℚ) * (seconds 1 * rate) = rate := by
      rw [← mul_assoc, ← seconds_eq_mul]
      unfold seconds second
      norm_num
    calc 1 / 2 < rate := hfast
      _ = (second : ℚ) * (seconds 1 * rate) := hsecond.symm
      _ ≤ k * (seconds 1 * rate) := mul_le_mul_of_nonneg_right (by exact_mod_cast hle) hpay
  · exact hrest.trans_le (mul_le_mul_of_nonneg_right (by exact_mod_cast Nat.mod_le _ _) hpay)

/-- A round of the loop leaves nothing or a deficit of this kind. -/
theorem SleptOff.pay {p : WireRatePacer} (hrate : 0 < p.rate) (h : SleptOff p.rate p.deficit)
    (now : Nat) : (p.pay now).tok = 0 ∨ SleptOff p.rate (p.pay now).deficit := by
  obtain ⟨hfast, k, hwhole, hrest⟩ := (sleptOff_iff hrate).mp h
  have hpay : 0 < seconds 1 * p.rate := WireRatePacer.perNano_pos hrate
  have hdebt : 0 ≤ p.deficit := hwhole ▸ mul_nonneg (Nat.cast_nonneg k) hpay.le
  have hslice : p.slice = min k second := by
    rw [p.slice_eq, WireRatePacer.perNano, hwhole, mul_div_cancel_right₀ _ hpay.ne',
      Nat.floor_natCast]
    rfl
  have hdeficit : (p.pay now).deficit = ((k - min k second : Nat) : ℚ) * (seconds 1 * p.rate) := by
    rw [WireRatePacer.pay_deficit hrate hdebt, hslice, Nat.cast_sub (Nat.min_le_left _ _), sub_mul,
      ← hwhole, WireRatePacer.perNano]
  by_cases hlong : k ≤ second
  · left
    rw [Nat.min_eq_left hlong, Nat.sub_self, Nat.cast_zero, zero_mul] at hdeficit
    exact neg_eq_zero.mp hdeficit
  · right
    rw [Nat.min_eq_right (Nat.le_of_not_le hlong)] at hdeficit
    refine (sleptOff_iff hrate).mpr ⟨hfast, k - second, hdeficit, ?_⟩
    rwa [← Nat.mod_eq_sub_mod (Nat.le_of_not_le hlong)]

/-- Nothing was forgiven, and what a call under way owes is slept off. -/
structure Unforgiven (s : Sys) : Prop where
  forgiven : s.forgiven = 0
  charged : ∀ n pc, s.holder = some ⟨n, pc⟩ → pc ≠ .start →
    0 ≤ s.pacer.tok ∨ SleptOff s.pacer.rate s.pacer.deficit

theorem Unforgiven.next {rate : ℚ} (hrate : 0 < rate) {s s' : Sys} {a : Act} (hinv : Inv rate s)
    (h : Unforgiven s) (hcovered : s.covered a = true) (hstep : Step s a s') : Unforgiven s' := by
  have hpos : 0 < s.pacer.rate := hinv.sameRate ▸ hrate
  cases hstep with
  | tick d => exact ⟨h.forgiven, h.charged⟩
  | lock n hfree hn =>
    refine ⟨h.forgiven, ?_⟩
    rintro _ _ ⟨⟩ hpc
    exact absurd rfl hpc
  | start n hholder =>
    refine ⟨h.forgiven, ?_⟩
    rintro _ _ ⟨⟩ -
    rw [Sys.covered, hholder] at hcovered
    obtain ⟨hr, -, -⟩ := s.pacer.refill_frame s.clock
    refine (of_decide_eq_true hcovered).imp (fun hcredit => sub_nonneg.mpr hcredit) fun hslept => ?_
    show SleptOff (s.pacer.refill s.clock).rate (-((s.pacer.refill s.clock).tok - (n : ℚ)))
    rwa [hr, neg_sub]
  | sleep n hholder hdebt =>
    refine ⟨h.forgiven, ?_⟩
    rintro _ _ ⟨⟩ -
    exact h.charged n .loop hholder (by simp)
  | finish n hholder hpaid =>
    refine ⟨?_, by rintro _ _ ⟨⟩⟩
    show s.forgiven + s.pacer.remission = 0
    rw [h.forgiven, zero_add, WireRatePacer.remission]
    have hle := not_lt.mp (of_decide_eq_false hpaid)
    rcases h.charged n .loop hholder (by simp) with hcredit | hslept
    · exact if_neg (not_lt.mpr hcredit)
    · -- a deficit of this kind is over when the loop is left
      by_cases hnone : s.pacer.deficit = 0
      · rw [hnone, ite_self]
      · have hlarge := hslept.large hpos hnone
        unfold WireRatePacer.deficit at hlarge
        linarith
  | wake n since sleep hholder htime =>
    refine ⟨h.forgiven, ?_⟩
    rintro _ _ ⟨⟩ -
    obtain ⟨hdebt, -, -⟩ := hinv.asleep n since sleep hholder
    have hlt := WireRatePacer.tok_lt_of_indebted hdebt
    rcases h.charged n _ hholder (by simp) with hcredit | hslept
    · linarith
    · exact (hslept.pay hpos s.clock).imp_left fun hnone => hnone.ge

theorem unforgiven_covered {rate : ℚ} (hrate : 0 < rate) {s : Sys}
    (h : (machine rate).ReachableVia (fun s a => s.covered a = true) s) : Unforgiven s := by
  induction h with
  | init h0 =>
    obtain ⟨-, hholder, -, -, -, hforgiven⟩ := h0
    refine ⟨hforgiven, fun n pc hcall => ?_⟩
    rw [hholder] at hcall
    cases hcall
  | step hs hok hnext ih =>
    exact ih.next hrate (inv_reachable hrate (hs.mono fun _ _ _ => trivial)) hok (step_cases hnext)

/-- **The wire budget.** The bytes of the calls that have returned are at most one
burst, what accrued since the first use, and what the calls were forgiven, half a
byte each at most; and from any moment between two calls on, at most one burst,
what accrues from then on and what is forgiven from then on. Where every call finds
credit or a deficit that is slept off to the last, nothing is forgiven. -/
theorem wire_budget {rate : ℚ} (hrate : 0 < rate) {s : Sys} (h : (machine rate).Reachable s) :
    ((s.firstUse = none → s.returned = 0) ∧
      (∀ t0, s.firstUse = some t0 →
        (s.returned : ℚ) ≤ (ofRate rate).burst + rate * seconds (s.clock - t0) + s.forgiven) ∧
      (∀ r, (machine rate).Reachable r → r.holder = none →
        (machine rate).Path (fun _ _ => True) r s →
          (s.returned : ℚ) - (r.returned : ℚ) ≤ (ofRate rate).burst +
            rate * seconds (s.clock - r.clock) + (s.forgiven - r.forgiven)) ∧
      s.forgiven ≤ s.calls / 2) ∧
    ((machine rate).ReachableVia (fun s a => s.covered a = true) s →
      (∀ t0, s.firstUse = some t0 →
        (s.returned : ℚ) ≤ (ofRate rate).burst + rate * seconds (s.clock - t0)) ∧
      ∀ r, (machine rate).Reachable r → r.holder = none →
        (machine rate).Path (fun _ _ => True) r s →
          (s.returned : ℚ) - (r.returned : ℚ) ≤
            (ofRate rate).burst + rate * seconds (s.clock - r.clock)) := by
  have hinv := inv_reachable hrate h
  have hfirst : ∀ t0, s.firstUse = some t0 →
      (s.returned : ℚ) ≤ (ofRate rate).burst + rate * seconds (s.clock - t0) + s.forgiven := by
    intro t0 hfirst
    have hle := (opened_reachable hrate h t0 hfirst).2.returned_le hrate hinv
    simp only [budget, Nat.cast_zero] at hle
    linarith
  have hwindow : ∀ r, (machine rate).Reachable r → r.holder = none →
      (machine rate).Path (fun _ _ => True) r s →
        (s.returned : ℚ) - (r.returned : ℚ) ≤ (ofRate rate).burst +
          rate * seconds (s.clock - r.clock) + (s.forgiven - r.forgiven) := by
    intro r hr hidle hpath
    obtain ⟨-, -, hl⟩ := Ledger.path hrate hr hidle hpath
    have hle := hl.returned_le hrate hinv
    simp only [budget] at hle
    linarith
  refine ⟨⟨fun hunused => (hinv.unused (hinv.used.mp hunused)).1, hfirst, hwindow,
    hinv.pardoned⟩, fun hcovered => ?_⟩
  have hexact := (unforgiven_covered hrate hcovered).forgiven
  refine ⟨fun t0 ht0 => ?_, fun r hr hidle hpath => ?_⟩
  · have hle := hfirst t0 ht0
    rwa [hexact, add_zero] at hle
  · have hle := hwindow r hr hidle hpath
    have hpardon := (inv_reachable hrate hr).pardon
    rw [hexact] at hle
    linarith

/-- Three bytes at ten bytes a second: one is covered by the burst, the others
are slept off, and nothing is forgiven. -/
theorem wire_budget_debtPaid :
    ∃ s, (machine 10).ReachableVia (fun s a => s.covered a = true) s ∧ s.firstUse = some 0 ∧
      s.returned = 3 ∧ (s.returned : ℚ) ≤ (ofRate 10).burst + 10 * seconds (s.clock - 0) := by
  have hrun : ((machine 10).execWhile Sys.covered { pacer := ofRate 10 }
      [.lock 3, .step, .step, .tick 200000000, .step, .step]).any (fun s =>
        decide (s.firstUse = some 0 ∧ s.returned = 3)) = true := by
    decide +kernel
  obtain ⟨s, hs, hend⟩ := (Option.any_eq_true _ _).mp hrun
  obtain ⟨hfirst, hreturned⟩ := of_decide_eq_true hend
  have hvia : (machine 10).ReachableVia (fun s a => s.covered a = true) s :=
    .execWhile (fun _ _ h => h) (.init ⟨rfl, rfl, rfl, rfl, rfl, rfl⟩) hs
  exact ⟨s, hvia, hfirst, hreturned,
    ((wire_budget (by norm_num) (hvia.mono fun _ _ _ => trivial)).2 hvia).1 0 hfirst⟩

/-- The rate of the documented recipe. A first write of 6731 bytes leaves a
deficit of three thirteenths of a byte, which is forgiven: at the time of the
first use the writes are over the burst. -/
theorem half_byte_over :
    newWireRatePacer 175000 = some (ofRate (175000 / kWireAmpEstimate)) ∧
    ∃ s, (machine (175000 / kWireAmpEstimate)).Reachable s ∧ s.firstUse = some s.clock ∧
      ¬ (s.returned : ℚ) ≤ (ofRate (175000 / kWireAmpEstimate)).burst +
        175000 / kWireAmpEstimate * seconds (s.clock - s.clock) := by
  have hrun : ((machine (175000 / kWireAmpEstimate)).exec
      { pacer := ofRate (175000 / kWireAmpEstimate) } [.lock 6731, .step, .step]).any (fun s =>
        decide (s.firstUse = some s.clock ∧ ¬ (s.returned : ℚ) ≤
          (ofRate (175000 / kWireAmpEstimate)).burst +
            175000 / kWireAmpEstimate * seconds (s.clock - s.clock))) = true := by
    decide +kernel
  obtain ⟨s, hs, hend⟩ := (Option.any_eq_true _ _).mp hrun
  obtain ⟨hfirst, hover⟩ := of_decide_eq_true hend
  refine ⟨rfl, s, ?_, hfirst, hover⟩
  exact TSys.Reachable.exec (.init ⟨rfl, rfl, rfl, rfl, rfl, rfl⟩) hs

/-! ## The deficit loop -/

namespace WireRatePacer

variable {p : WireRatePacer}

/-- What whole nanoseconds of sleep leave of the deficit. -/
def rest (p : WireRatePacer) : ℚ := Int.fract (p.deficit / p.perNano) * p.perNano

theorem rest_le (hrate : 0 < p.rate) (hdebt : 0 ≤ p.deficit) : p.rest ≤ p.deficit := by
  have hpay := perNano_pos hrate
  have hle : Int.fract (p.deficit / p.perNano) ≤ p.deficit / p.perNano := by
    have hfloor : (0 : ℚ) ≤ ⌊p.deficit / p.perNano⌋ :=
      Int.cast_nonneg (Int.floor_nonneg.mpr (div_nonneg hdebt hpay.le))
    rw [Int.fract]
    linarith
  exact (le_div_iff₀ hpay).mp hle

/-- Whole nanoseconds leave the rest as it is. -/
theorem pay_rest (hrate : 0 < p.rate) (hdebt : 0 ≤ p.deficit) (now : Nat) :
    (p.pay now).rest = p.rest := by
  have hpay := perNano_pos hrate
  show Int.fract ((p.pay now).deficit / p.perNano) * p.perNano = p.rest
  rw [pay_deficit hrate hdebt, sub_div, mul_div_cancel_right₀ _ hpay.ne', Int.fract_sub_natCast, rest]

theorem rounds_rate (p : WireRatePacer) (wakes : Nat → Nat) (k : Nat) :
    (p.rounds wakes k).rate = p.rate := by
  induction k with
  | zero => rfl
  | succ k ih => exact ih

theorem rounds_rest (hrate : 0 < p.rate) (hdebt : 0 ≤ p.deficit) (wakes : Nat → Nat) (k : Nat) :
    0 ≤ (p.rounds wakes k).deficit ∧ (p.rounds wakes k).rest = p.rest := by
  induction k with
  | zero => exact ⟨hdebt, rfl⟩
  | succ k ih =>
    have hrate' : 0 < (p.rounds wakes k).rate := (p.rounds_rate wakes k).symm ▸ hrate
    exact ⟨neg_nonneg.mpr (pay_nonpos _ _), (pay_rest hrate' ih.1 _).trans ih.2⟩

/-- A rest of more than half a byte is never paid. -/
theorem rounds_indebted (hrate : 0 < p.rate) (hdebt : 0 ≤ p.deficit) (hrest : 1 / 2 < p.rest)
    (wakes : Nat → Nat) (k : Nat) : (p.rounds wakes k).indebted = true := by
  obtain ⟨hk, hsame⟩ := rounds_rest hrate hdebt wakes k
  have hle := rest_le ((p.rounds_rate wakes k).symm ▸ hrate) hk
  rw [hsame] at hle
  refine decide_eq_true ?_
  unfold deficit at hle
  linarith

/-- With a smaller rest, a round that is begun sleeps. -/
theorem pay_progress (hrate : 0 < p.rate) (hrest : p.rest ≤ 1 / 2) (hdebt : p.indebted = true)
    (now : Nat) : (p.pay now).deficit ≤ p.deficit - p.perNano := by
  have hpay := perNano_pos hrate
  have hlt : 1 / 2 < p.deficit := by
    have := tok_lt_of_indebted hdebt
    unfold deficit
    linarith
  have hnonneg : 0 ≤ p.deficit / p.perNano := div_nonneg (by linarith) hpay.le
  have hfloor : 0 < ⌊p.deficit / p.perNano⌋₊ := by
    by_contra hzero
    have hsmall := Nat.floor_eq_zero.mp (Nat.eq_zero_of_not_pos hzero)
    rw [rest, Int.fract_eq_self.mpr ⟨hnonneg, hsmall⟩, div_mul_cancel₀ _ hpay.ne'] at hrest
    linarith
  have hslice : (1 : ℚ) ≤ p.slice := by
    rw [slice_eq]
    exact_mod_cast Nat.le_min.mpr ⟨hfloor, by decide⟩
  rw [pay_deficit hrate (by linarith) now]
  have hpaid := mul_le_mul_of_nonneg_right hslice hpay.le
  linarith

/-- **The loop from one balance**: it ends exactly if whole nanoseconds of sleep
leave half a byte of the deficit at most. -/
theorem exists_rounds_iff (hrate : 0 < p.rate) (wakes : Nat → Nat) :
    (∃ k, (p.rounds wakes k).indebted = false) ↔ p.indebted = false ∨ p.rest ≤ 1 / 2 := by
  have hdebt (h : p.indebted = true) : 0 ≤ p.deficit := by
    have := tok_lt_of_indebted h
    unfold deficit
    linarith
  constructor
  · rintro ⟨k, hk⟩
    by_contra hnot
    rw [not_or, Bool.not_eq_false, not_le] at hnot
    rw [rounds_indebted hrate (hdebt hnot.1) hnot.2] at hk
    cases hk
  · rintro (hpaid | hrest)
    · exact ⟨0, hpaid⟩
    · by_contra hnever
      have hall (k : Nat) : (p.rounds wakes k).indebted = true :=
        (Bool.eq_false_or_eq_true _).resolve_right fun hpaid => hnever ⟨k, hpaid⟩
      have hpay := perNano_pos hrate
      have hsum (k : Nat) : (p.rounds wakes k).deficit ≤ p.deficit - k * p.perNano := by
        induction k with
        | zero => simp [rounds]
        | succ k ih =>
          have hrate' := p.rounds_rate wakes k
          have hsame := (rounds_rest hrate (hdebt (hall 0)) wakes k).2
          have hround := pay_progress (hrate'.symm ▸ hrate) (hsame.trans_le hrest) (hall k) (wakes k)
          rw [perNano, hrate'] at hround
          rw [perNano] at ih ⊢
          show ((p.rounds wakes k).pay (wakes k)).deficit ≤ _
          push_cast
          linarith
      obtain ⟨k, hk⟩ := exists_nat_gt (p.deficit / p.perNano)
      have hlt := tok_lt_of_indebted (hall k)
      have hle := hsum k
      rw [div_lt_iff₀ hpay] at hk
      rw [deficit] at hle
      linarith

/-- Every round of a loop that ends makes the deficit smaller. -/
theorem rounds_decrease (hrate : 0 < p.rate) (wakes : Nat → Nat)
    (h : p.indebted = false ∨ p.rest ≤ 1 / 2) :
    ∃ k, (p.rounds wakes k).indebted = false ∧ ∀ j < k, (p.rounds wakes j).indebted = true ∧
      (p.rounds wakes (j + 1)).deficit < (p.rounds wakes j).deficit := by
  have hends := (exists_rounds_iff hrate wakes).mpr h
  refine ⟨Nat.find hends, Nat.find_spec hends, fun j hj => ?_⟩
  have hdebt (i : Nat) (hi : i < Nat.find hends) : (p.rounds wakes i).indebted = true :=
    Bool.eq_true_of_not_eq_false (Nat.find_min hends hi)
  have hfirst := hdebt 0 (Nat.zero_lt_of_lt hj)
  have hrest := h.resolve_left (by rw [show p.indebted = true from hfirst]; simp)
  have hnonneg : 0 ≤ p.deficit := by
    have := tok_lt_of_indebted (show p.indebted = true from hfirst)
    unfold deficit
    linarith
  have hrate' : 0 < (p.rounds wakes j).rate := (p.rounds_rate wakes j).symm ▸ hrate
  have hround := pay_progress hrate' ((rounds_rest hrate hnonneg wakes j).2.trans_le hrest)
    (hdebt j hj) (wakes j)
  exact ⟨hdebt j hj, lt_of_le_of_lt hround (sub_lt_self _ (perNano_pos hrate'))⟩

end WireRatePacer

/-! ## The balances of a wire rate

A balance is made of bytes and of what nanoseconds pay, so the rest of a deficit
is that of a number of bytes. -/

/-- Whole nanoseconds of pay and whole bytes. -/
def Grid (rate tok : ℚ) : Prop := ∃ a m : ℤ, tok = a * (seconds 1 * rate) + m

theorem Grid.refill {rate : ℚ} {p : WireRatePacer} (hrate : p.rate = rate)
    (hburst : p.burst = (ofRate rate).burst) (h : Grid rate p.tok) (now : Nat) :
    Grid rate (p.refill now).tok := by
  have hfull : Grid rate p.burst := by
    refine ⟨kPacerTokenInterval, 0, ?_⟩
    rw [hburst, Int.cast_zero, add_zero, ← mul_assoc, Int.cast_natCast, ← seconds_eq_mul, mul_comm]
    rfl
  unfold WireRatePacer.refill
  split
  · exact hfull
  · rename_i last _
    obtain ⟨a, m, htok⟩ := h
    have haccrued : Grid rate (p.tok + seconds (now - last) * p.rate) := by
      refine ⟨a + (now - last : Nat), m, ?_⟩
      rw [htok, hrate, seconds_eq_mul (now - last)]
      push_cast
      ring
    rcases min_choice (p.tok + seconds (now - last) * p.rate) p.burst with heq | heq
    · rw [heq]
      exact haccrued
    · rw [heq]
      exact hfull

theorem Grid.charge {rate : ℚ} {p : WireRatePacer} (h : Grid rate p.tok) (n : Nat) :
    Grid rate (p.charge n).tok := by
  obtain ⟨a, m, htok⟩ := h
  refine ⟨a, m - n, ?_⟩
  show p.tok - (n : ℚ) = _
  rw [htok]
  push_cast
  ring

theorem Grid.next {rate : ℚ} {s s' : Sys} {a : Act} (hinv : Inv rate s)
    (h : Grid rate s.pacer.tok) (hstep : Step s a s') : Grid rate s'.pacer.tok := by
  have hzero : Grid rate 0 := ⟨0, 0, by norm_num⟩
  cases hstep with
  | start n _ => exact (h.refill hinv.sameRate hinv.sameBurst s.clock).charge n
  | finish n _ _ =>
    show Grid rate (if s.pacer.tok < 0 then 0 else s.pacer.tok)
    split
    · exact hzero
    · exact h
  | wake n since sleep _ _ =>
    show Grid rate (s.pacer.tok + min (seconds s.pacer.slice * s.pacer.rate) s.pacer.deficit)
    rcases min_choice (seconds s.pacer.slice * s.pacer.rate) s.pacer.deficit with heq | heq
    · obtain ⟨k, m, htok⟩ := h
      refine ⟨k + s.pacer.slice, m, ?_⟩
      rw [heq, htok, hinv.sameRate, seconds_eq_mul s.pacer.slice]
      push_cast
      ring
    · rw [heq, WireRatePacer.deficit, add_neg_cancel]
      exact hzero
  | _ => exact h

theorem grid_reachable {rate : ℚ} (hrate : 0 < rate) {s : Sys} (h : (machine rate).Reachable s) :
    Grid rate s.pacer.tok := by
  induction h with
  | init h0 => exact ⟨0, 0, by rw [h0.1]; norm_num [ofRate]⟩
  | step hs _ hnext ih => exact ih.next (inv_reachable hrate hs) (step_cases hnext)

/-- The nanoseconds of a second times the wire bytes of a payload byte. -/
def wireScale : Nat := 2600000000

/-- At wire rate `w` a nanosecond pays `w / wireScale` bytes; of `m` bytes that
leaves a multiple of one `wireScale`-th. -/
theorem rest_grid {w : Nat} (hw : 0 < w) {p : WireRatePacer}
    (hrate : p.rate = (w : ℚ) / kWireAmpEstimate) {a m : ℤ}
    (htok : p.tok = a * p.perNano + m) : p.rest = (((-m * wireScale) % w : ℤ) : ℚ) / wireScale := by
  have hw' : (w : ℚ) ≠ 0 := by exact_mod_cast hw.ne'
  have hnano : p.perNano = (w : ℚ) / wireScale := by
    rw [WireRatePacer.perNano, hrate]
    norm_num [seconds, second, kWireAmpEstimate, wireScale]
    ring
  have hdiv : p.deficit / p.perNano = ((-m * wireScale : ℤ) : ℚ) / (w : ℚ) - a := by
    rw [WireRatePacer.deficit, htok, hnano]
    have hscale : (wireScale : ℚ) ≠ 0 := by norm_num [wireScale]
    push_cast
    field_simp
    ring
  rw [WireRatePacer.rest, hdiv, Int.fract_sub_intCast, Int.fract_div_intCast_eq_div_intCast_mod,
    hnano]
  field_simp

theorem newWireRatePacer_rate {wireRateBPS : UInt64} {p : WireRatePacer}
    (hnew : newWireRatePacer wireRateBPS = some p) :
    p = ofRate ((wireRateBPS.toNat : ℚ) / kWireAmpEstimate) ∧ 0 < p.rate := by
  unfold newWireRatePacer at hnew
  split at hnew
  · cases hnew
  · rename_i hne
    cases hnew
    refine ⟨rfl, div_pos ?_ (by norm_num [kWireAmpEstimate])⟩
    have hpos : 0 < wireRateBPS.toNat := Nat.pos_of_ne_zero fun h => hne (UInt64.toNat_inj.mp h)
    exact_mod_cast hpos

/-- The bytes that whole nanoseconds cannot pay are multiples of the common divisor,
so the largest rest is one divisor below a nanosecond's worth. -/
theorem mod_le_sub_gcd {w : Nat} (hw : 0 < w) (m : ℤ) :
    (-m * wireScale) % (w : ℤ) + (Nat.gcd w wireScale : Nat) ≤ w := by
  have hw' : (0 : ℤ) < w := by exact_mod_cast hw
  have hlt := Int.emod_lt_of_pos (-m * wireScale) hw'
  have hw_dvd : ((Nat.gcd w wireScale : Nat) : ℤ) ∣ w :=
    Int.natCast_dvd_natCast.mpr (Nat.gcd_dvd_left _ _)
  have hscale_dvd : ((Nat.gcd w wireScale : Nat) : ℤ) ∣ -m * wireScale :=
    Dvd.dvd.mul_left (Int.natCast_dvd_natCast.mpr (Nat.gcd_dvd_right _ _)) _
  have hmod_dvd : ((Nat.gcd w wireScale : Nat) : ℤ) ∣ (-m * wireScale) % w := by
    rw [Int.emod_def]
    exact dvd_sub hscale_dvd (hw_dvd.mul_right _)
  have hle := Int.le_of_dvd (sub_pos.mpr hlt) (dvd_sub hw_dvd hmod_dvd)
  linarith

/-- And some write, of any size one likes, leaves it. -/
theorem exists_mod_eq_sub_gcd {w : Nat} (hw : Nat.gcd w wireScale < w) (least : Nat) :
    ∃ n, least ≤ n ∧ 0 < n ∧ n * wireScale % w + Nat.gcd w wireScale = w := by
  have hpos : 0 < w := Nat.zero_lt_of_lt hw
  have hgcd : 0 < Nat.gcd w wireScale := Nat.gcd_pos_of_pos_left _ hpos
  obtain ⟨m, -, hm⟩ := Nat.exists_mul_mod_eq_gcd (n := wireScale) (k := w) (by rwa [Nat.gcd_comm])
  rw [Nat.gcd_comm] at hm
  refine ⟨m * (w - 1) + (least + 1) * w, ?_, by positivity, ?_⟩
  · exact (Nat.le_mul_of_pos_right _ hpos).trans (by nlinarith)
  · -- `m` leaves the divisor, so its multiple by `w - 1` leaves what is missing to `w`
    have hmod : (m * (w - 1) + (least + 1) * w) * wireScale % w = wireScale * m * (w - 1) % w := by
      have hsplit : (m * (w - 1) + (least + 1) * w) * wireScale =
          wireScale * m * (w - 1) + w * ((least + 1) * wireScale) := by ring
      rw [hsplit, Nat.add_mul_mod_self_left]
    have hsum : (wireScale * m * (w - 1) % w + Nat.gcd w wireScale) % w = 0 := by
      have hall : wireScale * m * (w - 1) + wireScale * m = w * (wireScale * m) := by
        obtain ⟨v, rfl⟩ := Nat.exists_eq_add_of_lt hpos
        simp only [Nat.zero_add, Nat.add_sub_cancel]
        ring
      rw [← hm, ← Nat.add_mod, hall, Nat.mul_mod_right]
    have hlt := Nat.mod_lt (wireScale * m * (w - 1)) hpos
    rw [hmod]
    obtain ⟨c, hc⟩ := Nat.dvd_of_mod_eq_zero hsum
    have hone : c = 1 := by
      have h1 : w * c < w * 2 := by omega
      have h2 : 0 < w * c := by omega
      have h3 := Nat.lt_of_mul_lt_mul_left h1
      have h4 := Nat.pos_of_mul_pos_left h2
      omega
    rw [hc, hone, Nat.mul_one]

/-- **The deficit loop ends**, from every balance a connection can reach and for
every write, with every round making the deficit smaller, if and only if the wire
rate is at most 1.3 GB/s or over it by less than what it has in common with the
scale of the pacer. -/
theorem deficit_loop_ends {wireRateBPS : UInt64} {p : WireRatePacer}
    (hnew : newWireRatePacer wireRateBPS = some p) :
    (∀ s, (machine p.rate).Reachable s → ∀ n now wakes, 0 < n →
      ∃ k, (((s.pacer.refill now).charge n).rounds wakes k).indebted = false ∧
        ∀ j < k, (((s.pacer.refill now).charge n).rounds wakes j).indebted = true ∧
          (((s.pacer.refill now).charge n).rounds wakes (j + 1)).deficit <
            (((s.pacer.refill now).charge n).rounds wakes j).deficit) ↔
      wireRateBPS.toNat ≤ 1300000000 + Nat.gcd wireRateBPS.toNat 2600000000 := by
  obtain ⟨rfl, hpos⟩ := newWireRatePacer_rate hnew
  generalize wireRateBPS.toNat = w at hpos ⊢
  have hw : 0 < w := by
    rcases Nat.eq_zero_or_pos w with rfl | hw
    · simp [ofRate] at hpos
    · exact hw
  constructor
  · intro hall
    by_contra hfast
    have hlarge : 1300000000 + Nat.gcd w wireScale < w := not_le.mp hfast
    have hproper : Nat.gcd w wireScale < w := by omega
    obtain ⟨n, hleast, hn, hmod⟩ := exists_mod_eq_sub_gcd hproper
      ⌈(ofRate ((w : ℚ) / kWireAmpEstimate)).burst⌉₊
    obtain ⟨k, hk, -⟩ := hall { pacer := ofRate ((w : ℚ) / kWireAmpEstimate) }
      (.init ⟨rfl, rfl, rfl, rfl, rfl, rfl⟩) n 0 (fun _ => 0) hn
    -- the write takes more than the first burst, and leaves the largest rest
    generalize hq : ((ofRate ((w : ℚ) / kWireAmpEstimate)).refill 0).charge n = q at hk
    have hrate : q.rate = (w : ℚ) / kWireAmpEstimate := by rw [← hq]; rfl
    have htok : q.tok = (kPacerTokenInterval : ℤ) * q.perNano + (-(n : ℤ) : ℤ) := by
      rw [WireRatePacer.perNano, hrate, ← mul_assoc, Int.cast_natCast, ← seconds_eq_mul, ← hq]
      show (w : ℚ) / kWireAmpEstimate * seconds kPacerTokenInterval - (n : ℚ) = _
      push_cast
      ring
    have hdebt : 0 ≤ q.deficit := by
      have hburst : (ofRate ((w : ℚ) / kWireAmpEstimate)).burst ≤ n :=
        (Nat.le_ceil _).trans (by exact_mod_cast hleast)
      rw [← hq]
      show 0 ≤ -((ofRate ((w : ℚ) / kWireAmpEstimate)).burst - (n : ℚ))
      linarith
    have hrest : 1 / 2 < q.rest := by
      rw [rest_grid hw hrate htok, neg_neg, lt_div_iff₀ (by norm_num [wireScale])]
      have hmod' : (n : ℤ) * wireScale % w = w - Nat.gcd w wireScale := by
        have hcast : ((n * wireScale % w : Nat) : ℤ) = w - Nat.gcd w wireScale := by omega
        rw [← hcast]
        push_cast
        rfl
      have hcast : (1300000000 + Nat.gcd w wireScale : ℚ) < w := by exact_mod_cast hlarge
      rw [hmod']
      push_cast
      norm_num [wireScale] at hcast ⊢
      linarith
    rw [WireRatePacer.rounds_indebted (hrate.symm ▸ hpos) hdebt hrest] at hk
    cases hk
  · intro hslow s hs n now wakes _
    have hinv := inv_reachable hpos hs
    have hrate : ((s.pacer.refill now).charge n).rate = (w : ℚ) / kWireAmpEstimate :=
      (s.pacer.refill_frame now).1.trans hinv.sameRate
    obtain ⟨a, m, htok⟩ :=
      (((grid_reachable hpos hs).refill hinv.sameRate hinv.sameBurst now).charge n)
    refine WireRatePacer.rounds_decrease (hrate.symm ▸ hpos) wakes (.inr ?_)
    have hnano : ((s.pacer.refill now).charge n).perNano =
        seconds 1 * (ofRate ((w : ℚ) / kWireAmpEstimate)).rate := by
      rw [WireRatePacer.perNano, hrate]
      rfl
    rw [rest_grid hw hrate (hnano.symm ▸ htok), div_le_iff₀ (by norm_num [wireScale])]
    have hle := mod_le_sub_gcd hw m
    have hslow' : (w : ℤ) ≤ 1300000000 + (Nat.gcd w wireScale : Nat) := by exact_mod_cast hslow
    have hsmall : (-m * wireScale) % (w : ℤ) ≤ 1300000000 := by linarith
    have hcast : (((-m * wireScale) % (w : ℤ) : ℤ) : ℚ) ≤ 1300000000 := by exact_mod_cast hsmall
    norm_num [wireScale] at hcast ⊢
    linarith

/-- At the documented rate, a write of a whole read chunk. -/
theorem deficit_loop_ends_recipe :
    ∃ p, newWireRatePacer 175000 = some p ∧ ∃ k,
      (((p.refill 0).charge 32768).rounds (fun _ => 0) k).indebted = false := by
  have hnew : newWireRatePacer 175000 = some (ofRate (175000 / kWireAmpEstimate)) := rfl
  have hstart : (machine (175000 / kWireAmpEstimate)).Reachable
      { pacer := ofRate (175000 / kWireAmpEstimate) } := .init ⟨rfl, rfl, rfl, rfl, rfl, rfl⟩
  obtain ⟨k, hk, -⟩ := (deficit_loop_ends hnew).mpr (by decide) _ hstart 32768 0
    (fun _ => 0) (by decide)
  exact ⟨_, hnew, k, hk⟩

/-- At 2 GB/s of payload a deficit of one byte is worth half a nanosecond: the
round sleeps for no time and pays nothing. -/
theorem deficit_loop_spins :
    ∃ p, newWireRatePacer 5200000000 = some p ∧
      ∀ now wakes k, (((p.refill now).charge 200000001).rounds wakes k).indebted = true := by
  refine ⟨ofRate (5200000000 / kWireAmpEstimate), rfl, fun now wakes k => ?_⟩
  generalize hq : ((ofRate (5200000000 / kWireAmpEstimate)).refill now).charge 200000001 = q
  have hone : q.deficit = 1 := by
    rw [← hq]
    show -(5200000000 / kWireAmpEstimate * seconds kPacerTokenInterval - (200000001 : Nat)) = 1
    norm_num [kWireAmpEstimate, kPacerTokenInterval, seconds, second]
  have hrate : q.rate = 2000000000 := by
    rw [← hq]
    show 5200000000 / kWireAmpEstimate = 2000000000
    norm_num [kWireAmpEstimate]
  have hnano : q.perNano = 2 := by
    rw [WireRatePacer.perNano, hrate]
    norm_num [seconds, second]
  refine WireRatePacer.rounds_indebted (by rw [hrate]; norm_num) (by rw [hone]; norm_num) ?_ wakes k
  rw [WireRatePacer.rest, hone, hnano, Int.fract_eq_self.mpr ⟨by norm_num, by norm_num⟩]
  norm_num

end Tsshd.Output.Pacer

import Tsshd.Proxy.Transport

/-!
# The time-out callback and newer transports

The callback of the client checker looks at `authedAddr`, `clientAddr` and
`clientConn`, sleeps, and clears the three fields with what it saw. A field it
saw non-nil is cleared by `CompareAndSwap`, and no pointer or connection comes
back into a field it has left (`Inv`): whatever was put there since stays. A
field it saw nil is cleared by `Swap`, which takes out anything.

* `cleanup_keeps_newer` — if what it saw nil is nil when it clears it, the
  callback leaves in place everything installed after its look;
* `reconnect_is_removed` — a client that authenticates again while the callback
  sleeps loses its new address.
-/

namespace Tsshd.Proxy.Transport

/-! ## What the fields and the goroutines hold -/

/-- What a callback saw in a field, and when. -/
def Seen.look (seen : Seen) : Part → Option (Look Nat)
  | .authed => seen.authed.map fun l => ⟨l.value.map (·.ref), l.time⟩
  | .client => seen.client.map fun l => ⟨l.value.map (·.ref), l.time⟩
  | .conn => seen.conn

def Routine.seen : Routine → Seen
  | .timeout _ seen => seen
  | _ => {}

/-- The address a promotion has loaded. -/
def Routine.loaded : Routine → Option AddrRef
  | .promote (.install r) => some r
  | _ => none

def Routine.promotes : Routine → Bool
  | .promote _ => true
  | _ => false

/-- The number is in one of the fields, or was seen there. -/
inductive Sys.Public (s : Sys) (n : Nat) : Prop
  | now (part) : s.holds part = some n → s.Public n
  | loaded {i r v} : s.At i r → r.loaded = some v → v.ref = n → s.Public n
  | seen {i r τ} (part) : s.At i r → r.seen.look part = some ⟨some n, τ⟩ → s.Public n

/-- The address is in effect, or a callback has seen it so. -/
inductive Sys.Effective (s : Sys) (n : Nat) : Prop
  | now : s.holds .client = some n → s.Effective n
  | seen {i r τ} : s.At i r → r.seen.look .client = some ⟨some n, τ⟩ → s.Effective n

theorem Sys.Effective.isPublic {s : Sys} {n : Nat} (h : s.Effective n) : s.Public n := by
  cases h with
  | now h => exact .now .client h
  | seen hr h => exact .seen .client hr h

/-- No pointer or connection is put into a field twice. -/
structure Inv (s : Sys) : Prop where
  owned : Owned s
  hidden : ∀ {i r n}, s.At i r → r.owns = some n → ¬ s.Public n
  bounded : ∀ {n}, s.Public n → n < s.fresh
  stamps : ∀ part, s.installedAt part ≤ s.clock
  reader : ∀ {i r}, s.At i r → r.promotes = true → i = 0
  /-- What a callback saw and finds again was never away. -/
  stayed : ∀ {i r n τ part}, s.At i r → r.seen.look part = some ⟨some n, τ⟩ →
    s.holds part = some n → s.installedAt part ≤ τ
  /-- An address that was in effect is not authenticated any more, once its
  promotion is over. -/
  promoted : ∀ {n}, s.Effective n → s.holds .authed = some n → s.At 0 (.promote .clear)
  promoting : ∀ {v : AddrRef}, s.Effective v.ref → ¬ s.At 0 (.promote (.install v))

/-! ## Steps that install nothing -/

/-- Nothing is installed; a goroutine may make a number, load an address to
promote, or look at a field. -/
structure Quiet (s t : Sys) : Prop where
  slots : Shrinks s t
  stamps : t.installedAt = s.installedAt
  clock : s.clock ≤ t.clock
  bound : s.fresh ≤ t.fresh
  owns : ∀ {j q n}, t.At j q → q.owns = some n →
    n = s.fresh ∨ ∃ r, s.At j r ∧ r.owns = some n
  reader : ∀ {j q}, t.At j q → q.promotes = true → j = 0
  loaded : ∀ {j q v}, t.At j q → q.loaded = some v →
    (∃ r, s.At j r ∧ r.loaded = some v) ∨
      s.At 0 (.promote .load) ∧ s.holds .authed = some v.ref
  seen : ∀ {j q n τ part}, t.At j q → q.seen.look part = some ⟨some n, τ⟩ →
    (∃ r, s.At j r ∧ r.seen.look part = some ⟨some n, τ⟩) ∨
      s.holds part = some n ∧ τ = s.clock
  clear : s.At 0 (.promote .clear) → t.At 0 (.promote .clear) ∨ t.holds .authed = none

section
variable {s t : Sys}

theorem Quiet.isPublic (hq : Quiet s t) {n : Nat} (h : t.Public n) : s.Public n := by
  cases h with
  | now part h => exact .now part (hq.slots.holds h)
  | loaded hr h hn =>
    rcases hq.loaded hr h with ⟨r, hr, h⟩ | ⟨-, h⟩
    · exact .loaded hr h hn
    · exact .now .authed (hn ▸ h)
  | seen part hr h =>
    rcases hq.seen hr h with ⟨r, hr, h⟩ | ⟨h, -⟩
    · exact .seen part hr h
    · exact .now part h

theorem Quiet.effective (hq : Quiet s t) {n : Nat} (h : t.Effective n) : s.Effective n := by
  cases h with
  | now h => exact .now (hq.slots.holds h)
  | seen hr h =>
    rcases hq.seen hr h with ⟨r, hr, h⟩ | ⟨h, -⟩
    · exact .seen hr h
    · exact .now h

theorem Routine.eq_of_loaded {r : Routine} {v : AddrRef} (h : r.loaded = some v) :
    r = .promote (.install v) := by
  fun_cases Routine.loaded r <;> simp_all [Routine.loaded]

theorem Inv.quiet (h : Inv s) (hq : Quiet s t) (ho : Owned t) : Inv t where
  owned := ho
  hidden := by
    intro i r n hr hn hp
    rcases hq.owns hr hn with rfl | ⟨q, hq', hqn⟩
    · exact Nat.lt_irrefl _ (h.bounded (hq.isPublic hp))
    · exact h.hidden hq' hqn (hq.isPublic hp)
  bounded hp := Nat.lt_of_lt_of_le (h.bounded (hq.isPublic hp)) hq.bound
  stamps part := by
    rw [hq.stamps]
    exact Nat.le_trans (h.stamps part) hq.clock
  reader := hq.reader
  stayed := by
    intro i r n τ part hr hseen hnow
    rw [hq.stamps]
    rcases hq.seen hr hseen with ⟨q, hq', hseen'⟩ | ⟨-, rfl⟩
    · exact h.stayed hq' hseen' (hq.slots.holds hnow)
    · exact h.stamps part
  promoted := by
    intro n hn hnow
    have hclear := h.promoted (hq.effective hn) (hq.slots.holds hnow)
    rcases hq.clear hclear with hclear | hnone
    · exact hclear
    · rw [hnone] at hnow
      cases hnow
  promoting := by
    intro v hv hload
    rcases hq.loaded hload rfl with ⟨r, hr, hrv⟩ | ⟨hat, hnow⟩
    · exact h.promoting (hq.effective hv) (Routine.eq_of_loaded hrv ▸ hr)
    · -- the loaded address would still be in its promotion
      have hclear := h.promoted (hq.effective hv) hnow
      rw [Sys.At, hat] at hclear
      cases hclear

end

/-! The accesses of the goroutines, seen through the fields. -/

section
variable (s : Sys)

variable (ok : Bool) {r : Routine}

theorem Routine.step_loaded (h : r.installs = false) {v : AddrRef}
    (hv : (r.step s ok).2.loaded = some v) :
    r = .promote .load ∧ s.client.authedAddr = some v := by
  fun_cases Routine.step s ok r <;> simp_all [Routine.step, Routine.loaded] <;>
    grind [Routine.loaded]

theorem Routine.step_promotes (h : (r.step s ok).2.promotes = true) : r.promotes = true := by
  fun_cases Routine.step s ok r <;> simp_all [Routine.step, Routine.promotes] <;>
    grind [Routine.promotes]

/-- What a callback has seen after a step it saw before, or sees now. -/
theorem Routine.step_seen {part : Part} {l : Look Nat}
    (h : (r.step s ok).2.seen.look part = some l) :
    r.seen.look part = some l ∨ l = ⟨s.holds part, s.clock⟩ := by
  fun_cases Routine.step s ok r <;> cases part <;>
    simp_all [Routine.step, Routine.seen, Seen.look, Sys.holds] <;>
    grind [Routine.seen]

end

section
variable {s t : Sys}

/-- A step of a goroutine that installs nothing. -/
theorem quiet_run {i : Nat} {ok : Bool} {r : Routine} (hr : s.At i r) (h : r.installs = false)
    (hreader : ∀ {j q}, s.At j q → q.promotes = true → j = 0)
    (hn : next s (.run i ok) = some t) : Quiet s t := by
  obtain ⟨r', hr', rfl⟩ := next_run hn
  cases Option.some.inj (hr.symm.trans hr')
  obtain ⟨hslots, hstamps⟩ := r.step_slots s ok h
  constructor
  case slots => exact hslots
  case stamps => exact hstamps
  case clock => exact Nat.le_succ _
  case bound => exact r.step_fresh s ok
  case owns =>
    intro j q n hq hqn
    rcases at_set hq with ⟨rfl, rfl⟩ | ⟨-, hq⟩
    · rcases Routine.step_owns s ok r hqn with ⟨hown, -⟩ | ⟨rfl, -⟩
      · exact .inr ⟨r, hr, hown⟩
      · exact .inl rfl
    · exact .inr ⟨q, hq, hqn⟩
  case reader =>
    intro j q hq hp
    rcases at_set hq with ⟨rfl, rfl⟩ | ⟨-, hq⟩
    · exact hreader hr (Routine.step_promotes s ok hp)
    · exact hreader hq hp
  case loaded =>
    intro j q v hq hv
    rcases at_set hq with ⟨rfl, rfl⟩ | ⟨-, hq⟩
    · obtain ⟨rfl, hnow⟩ := Routine.step_loaded s ok h hv
      cases hreader hr rfl
      exact .inr ⟨hr, by rw [Sys.holds, hnow]; rfl⟩
    · exact .inl ⟨q, hq, hv⟩
  case seen =>
    intro j q n τ part hq hn
    rcases at_set hq with ⟨rfl, rfl⟩ | ⟨-, hq⟩
    · rcases Routine.step_seen s ok hn with hsaw | hnow
      · exact .inl ⟨r, hr, hsaw⟩
      · obtain ⟨hheld, rfl⟩ := Look.mk.inj hnow
        exact .inr ⟨hheld.symm, rfl⟩
    · exact .inl ⟨q, hq, hn⟩
  case clear =>
    intro hclear
    by_cases hi : i = 0
    · subst hi
      cases Option.some.inj (hr.symm.trans hclear)
      exact .inr rfl
    · refine .inl ?_
      show (s.routines.set i _)[0]? = _
      rw [List.getElem?_set_ne hi]
      exact hclear

theorem Routine.blank_holds {r : Routine} (h : r.blank = true) :
    r.seen = {} ∧ r.loaded = none ∧ (r.promotes = true → r = .promote .load) := by
  fun_cases Routine.blank r <;>
    simp_all [Routine.blank, Routine.seen, Routine.loaded, Routine.promotes]

/-- A goroutine that begins holds nothing but a connection. -/
theorem Began.quiet {k : Nat} {r : Routine} (hb : Began s t k r)
    (hreader : ∀ {j q}, s.At j q → q.promotes = true → j = 0) : Quiet s t := by
  obtain ⟨hseen, hloaded, hpromotes⟩ := Routine.blank_holds hb.blank
  constructor
  case slots => exact shrinks_refl s (by rw [hb.frame])
  case stamps => rw [hb.frame]
  case clock => exact Nat.le_of_eq (by rw [hb.frame])
  case bound => exact hb.bound
  case owns =>
    intro j q n hq hqn
    rcases hb.others hq with hq | ⟨rfl, rfl⟩
    · exact .inr ⟨q, hq, hqn⟩
    · rcases hb.owns hqn with hdrawn | ⟨hn, -⟩
      · exact .inr ⟨_, hdrawn, rfl⟩
      · exact .inl hn
  case reader =>
    intro j q hq hp
    rcases hb.others hq with hq | ⟨rfl, rfl⟩
    · exact hreader hq hp
    · exact hb.reader (hpromotes hp)
  case loaded =>
    intro j q v hq hv
    rcases hb.others hq with hq | ⟨-, rfl⟩
    · exact .inl ⟨q, hq, hv⟩
    · rw [hloaded] at hv
      cases hv
  case seen =>
    intro j q n τ part hq hn
    rcases hb.others hq with hq | ⟨-, rfl⟩
    · exact .inl ⟨q, hq, hn⟩
    · rw [hseen] at hn
      cases part <;> cases hn
  case clear => exact fun h => .inl (hb.still h rfl)

/-! ## Installations -/

/-- After goroutine `i` has moved on to `r'`, the others are where they were. -/
structure Moved (s t : Sys) (i : Nat) (r' : Routine) : Prop where
  self : t.At i r'
  others : ∀ {j q}, t.At j q → j = i ∧ q = r' ∨ j ≠ i ∧ s.At j q
  still : ∀ {j q}, j ≠ i → s.At j q → t.At j q
  bound : t.fresh = s.fresh
  clock : t.clock = s.clock + 1

/-- A goroutine installs the number it made. -/
theorem Inv.install (h : Inv s) (ho : Owned t) {i n : Nat} {r : Routine} {part : Part}
    (hr : s.At i r) (hown : r.owns = some n) (hpart : part ≠ .client)
    (hmoved : Moved s t i .done) (hnow : t.holds part = some n)
    (hrest : ∀ other, other ≠ part → t.holds other = s.holds other)
    (hstamps : t.installedAt = Function.update s.installedAt part s.clock) : Inv t := by
  -- the goroutine that has moved holds nothing any more
  have hat : ∀ {j q}, t.At j q → q = .done ∨ j ≠ i ∧ s.At j q := by
    intro j q hq
    rcases hmoved.others hq with ⟨-, hq⟩ | hq
    · exact .inl hq
    · exact .inr hq
  have hseen : ∀ {j q part' m τ}, t.At j q → q.seen.look part' = some ⟨some m, τ⟩ → s.At j q := by
    intro j q part' m τ hq hm
    rcases hat hq with rfl | ⟨-, hq⟩
    · cases part' <;> cases hm
    · exact hq
  have hpublic : ∀ {m}, t.Public m → m = n ∨ s.Public m := by
    intro m hm
    cases hm with
    | now other hm =>
      by_cases hother : other = part
      · subst hother
        exact .inl (Option.some.inj (hm.symm.trans hnow))
      · exact .inr (.now other (hrest other hother ▸ hm))
    | loaded hq hv hm =>
      rcases hat hq with rfl | ⟨-, hq⟩
      · cases hv
      · exact .inr (.loaded hq hv hm)
    | seen other hq hm => exact .inr (.seen other (hseen hq hm) hm)
  have heffective : ∀ {m}, t.Effective m → s.Effective m := by
    intro m hm
    cases hm with
    | now hm => exact .now (hrest .client (Ne.symm hpart) ▸ hm)
    | seen hq hm => exact .seen (hseen hq hm) hm
  have hhidden : ¬ s.Public n := h.hidden hr hown
  constructor
  case owned => exact ho
  case hidden =>
    intro j q m hq hm hp
    rcases hat hq with rfl | ⟨hj, hq⟩
    · cases hm
    · rcases hpublic hp with rfl | hp
      · exact hj (h.owned.once hq hr hm hown)
      · exact h.hidden hq hm hp
  case bounded =>
    intro m hm
    rw [hmoved.bound]
    rcases hpublic hm with rfl | hm
    · exact h.owned.lt hr hown
    · exact h.bounded hm
  case stamps =>
    intro other
    rw [hstamps, hmoved.clock, Function.update_apply]
    split
    · exact Nat.le_succ _
    · exact Nat.le_succ_of_le (h.stamps other)
  case reader =>
    intro j q hq hp
    rcases hat hq with rfl | ⟨-, hq⟩
    · cases hp
    · exact h.reader hq hp
  case stayed =>
    intro j q m τ other hq hm hheld
    by_cases hother : other = part
    · subst hother
      cases Option.some.inj (hheld.symm.trans hnow)
      exact absurd (.seen other (hseen hq hm) hm) hhidden
    · rw [hstamps, Function.update_of_ne hother]
      exact h.stayed (hseen hq hm) hm (hrest other hother ▸ hheld)
  case promoted =>
    intro m hm hheld
    by_cases hother : part = .authed
    · subst hother
      cases Option.some.inj (hheld.symm.trans hnow)
      exact absurd (heffective hm).isPublic hhidden
    · have hclear := h.promoted (heffective hm) (hrest _ (Ne.symm hother) ▸ hheld)
      by_cases hi : i = 0
      · subst hi
        cases Option.some.inj (hr.symm.trans hclear)
        cases hown
      · exact hmoved.still (Ne.symm hi) hclear
  case promoting =>
    intro v hv hload
    rcases hat hload with hload | ⟨-, hload⟩
    · cases hload
    · exact h.promoting (heffective hv) hload

/-- The reader puts the address it loaded into effect. -/
theorem Inv.promote (h : Inv s) (ho : Owned t) {v : AddrRef} (hr : s.At 0 (.promote (.install v)))
    (hmoved : Moved s t 0 (.promote .clear)) (hnow : t.holds .client = some v.ref)
    (hrest : ∀ other, other ≠ .client → t.holds other = s.holds other)
    (hstamps : t.installedAt = Function.update s.installedAt .client s.clock) : Inv t := by
  have hseen : ∀ {j q part m τ}, t.At j q → q.seen.look part = some ⟨some m, τ⟩ → s.At j q := by
    intro j q part m τ hq hm
    rcases hmoved.others hq with ⟨-, rfl⟩ | ⟨-, hq⟩
    · cases part <;> cases hm
    · exact hq
  have hpublic : ∀ {m}, t.Public m → s.Public m := by
    intro m hm
    cases hm with
    | now other hm =>
      by_cases hother : other = .client
      · subst hother
        exact .loaded hr rfl (Option.some.inj (hnow.symm.trans hm))
      · exact .now other (hrest other hother ▸ hm)
    | loaded hq hw hm =>
      rcases hmoved.others hq with ⟨-, rfl⟩ | ⟨-, hq⟩
      · cases hw
      · exact .loaded hq hw hm
    | seen other hq hm => exact .seen other (hseen hq hm) hm
  constructor
  case owned => exact ho
  case hidden =>
    intro j q m hq hm hp
    rcases hmoved.others hq with ⟨-, rfl⟩ | ⟨-, hq⟩
    · cases hm
    · exact h.hidden hq hm (hpublic hp)
  case bounded =>
    intro m hm
    rw [hmoved.bound]
    exact h.bounded (hpublic hm)
  case stamps =>
    intro other
    rw [hstamps, hmoved.clock, Function.update_apply]
    split
    · exact Nat.le_succ _
    · exact Nat.le_succ_of_le (h.stamps other)
  case reader =>
    intro j q hq hp
    rcases hmoved.others hq with ⟨rfl, -⟩ | ⟨-, hq⟩
    · rfl
    · exact h.reader hq hp
  case stayed =>
    intro j q m τ other hq hm hheld
    by_cases hother : other = .client
    · -- a callback that has seen the address would have seen it in effect
      subst hother
      cases Option.some.inj (hheld.symm.trans hnow)
      exact absurd hr (h.promoting (.seen (hseen hq hm) hm))
    · rw [hstamps, Function.update_of_ne hother]
      exact h.stayed (hseen hq hm) hm (hrest other hother ▸ hheld)
  case promoted => exact fun _ _ => hmoved.self
  case promoting =>
    intro w _ hload
    cases Option.some.inj (hload.symm.trans hmoved.self)

theorem moved_run {i : Nat} {ok : Bool} {r : Routine} (hr : s.At i r)
    (hfresh : (r.step s ok).1.fresh = s.fresh) (hn : next s (.run i ok) = some t) :
    Moved s t i (r.step s ok).2 := by
  obtain ⟨r', hr', rfl⟩ := next_run hn
  cases Option.some.inj (hr.symm.trans hr')
  constructor
  case self => exact at_set_self hr
  case others => exact fun hq => at_set hq
  case still =>
    intro j q hj hq
    show (s.routines.set i _)[j]? = _
    rw [List.getElem?_set_ne (Ne.symm hj)]
    exact hq
  case bound => exact hfresh
  case clock => rfl

/-! ## Every run -/

theorem Inv.run (h : Inv s) {i : Nat} {ok : Bool} (hn : next s (.run i ok) = some t) : Inv t := by
  have ho : Owned t := h.owned.next hn
  obtain ⟨r, hr, ht⟩ := next_run hn
  by_cases hinstalls : r.installs = true
  · rcases r with ⟨pc, addr, serial⟩ | _ | pc | _ | ⟨pc, conn, serial⟩ | _ | _ | _ | _ <;>
      try cases hinstalls
    · rcases pc with _ | _ | _ | old | ref <;> try cases hinstalls
      refine h.install ho hr rfl (show Part.authed ≠ .client by decide) (moved_run hr rfl hn)
        ?_ ?_ ?_
      · rw [ht]; rfl
      · intro other hother
        rw [ht]
        cases other
        · exact absurd rfl hother
        · rfl
        · rfl
      · rw [ht]; rfl
    · rcases pc with _ | v | _ <;> try cases hinstalls
      cases h.reader hr rfl
      refine h.promote ho hr (moved_run hr rfl hn) ?_ ?_ ?_
      · rw [ht]; rfl
      · intro other hother
        rw [ht]
        cases other
        · rfl
        · exact absurd rfl hother
        · rfl
      · rw [ht]; rfl
    · rcases pc with _ | _ | old | _ | _ <;> try cases hinstalls
      refine h.install ho hr rfl (show Part.conn ≠ .client by decide) (moved_run hr rfl hn) ?_ ?_ ?_
      · rw [ht]; rfl
      · intro other hother
        rw [ht]
        cases other
        · rfl
        · rfl
        · exact absurd rfl hother
      · rw [ht]; rfl
  · exact h.quiet (quiet_run hr (Bool.eq_false_iff.mpr hinstalls) h.reader hn) ho

theorem Inv.next {a : Act} (h : Inv s) (hn : next s a = some t) : Inv t := by
  rcases next_cases hn with ⟨i, ok, rfl⟩ | ⟨k, r, hb⟩
  · exact h.run hn
  · exact h.quiet (hb.quiet h.reader) (h.owned.next hn)

theorem Inv.init (h : machine.init s) : Inv s := by
  have ho : Owned s := owned_init h
  obtain ⟨args, rfl⟩ := h
  have hholds : ∀ part, Sys.holds { client := newClientState args } part = none := by
    intro part
    cases part <;> rfl
  constructor
  case owned => exact ho
  case hidden =>
    intro i r n hr hn
    rw [done_of_init hr] at hn
    cases hn
  case bounded =>
    intro n hn
    cases hn with
    | now part hn =>
      rw [hholds] at hn
      cases hn
    | loaded hr hv =>
      rw [done_of_init hr] at hv
      cases hv
    | seen part hr hn =>
      rw [done_of_init hr] at hn
      cases part <;> cases hn
  case stamps => exact fun _ => Nat.le_refl _
  case reader =>
    intro i r hr hp
    rw [done_of_init hr] at hp
    cases hp
  case stayed =>
    intro i r n τ part _ _ hn
    rw [hholds] at hn
    cases hn
  case promoted =>
    intro n _ hn
    rw [hholds] at hn
    cases hn
  case promoting =>
    intro v _ hload
    cases done_of_init hload

theorem inv_reachable (h : machine.Reachable s) : Inv s :=
  TSys.ReachableVia.invariant (fun _ h => .init h) (fun _ _ _ h _ hn => h.next hn) h

end

/-! ## The callback -/

/-- A step of a callback leaves in place what was installed after its look at
the field. -/
structure KeepsNewer (seen : Seen) (s t : Sys) : Prop where
  authed : ∀ {l v}, seen.authed = some l → l.time < s.installedAt .authed →
    s.client.authedAddr = some v → t.client.authedAddr = some v
  client : ∀ {l v}, seen.client = some l → l.time < s.installedAt .client →
    s.client.clientAddr = some v → t.client.clientAddr = some v
  conn : ∀ {l n}, seen.conn = some l → l.time < s.installedAt .conn →
    s.client.clientConn = some n → t.client.clientConn = some n ∧ t.closedConns = s.closedConns

/-- A callback clears a field it saw nil only while the field is nil. -/
def calm (s : Sys) : Act → Bool
  | .run i _ =>
    match s.routines[i]? with
    | some (.timeout .clearAuthed seen) =>
      (seen.authed.bind (·.value)).isSome || s.client.authedAddr.isNone
    | some (.timeout .clearClient seen) =>
      (seen.client.bind (·.value)).isSome || s.client.clientAddr.isNone
    | some (.timeout .clearConn seen) =>
      (seen.conn.bind (·.value)).isSome || s.client.clientConn.isNone
    | _ => true
  | _ => true

/-- `CompareAndSwap` and `Swap` leave alone what they were not given, unless
they were given nothing. -/
theorem swapAddr_ne {c : Client} {slot : Slot} {old new : Option AddrRef} (hold : old ≠ none)
    (h : c.get slot ≠ old) : c.swapAddr slot old new = c := by
  simp only [Client.swapAddr, hold, h, or_self, if_false]

theorem swapConn_ne {c : Client} {old : Option Nat} (new : Option Nat) (hold : old ≠ none)
    (h : c.clientConn ≠ old) : c.swapConn old new = c ∧ c.replacedConn old = none := by
  simp only [Client.swapConn, Client.replacedConn, hold, h, or_self, if_false, and_self]

/-- What a callback saw is no longer in the field when the field is newer. -/
theorem Inv.newer_ne {s : Sys} (h : Inv s) {i n τ : Nat} {pc : TimeoutPc} {seen : Seen}
    {part : Part} (hr : s.At i (.timeout pc seen)) (hlook : seen.look part = some ⟨some n, τ⟩)
    (hnewer : τ < s.installedAt part) : s.holds part ≠ some n := by
  intro hnow
  have := h.stayed hr hlook hnow
  omega

theorem setAuthedAddr_frame (s : Sys) (old : Option AddrRef) :
    (s.setAuthedAddr old none).client.clientAddr = s.client.clientAddr ∧
      (s.setAuthedAddr old none).client.clientConn = s.client.clientConn := by
  unfold Sys.setAuthedAddr Client.swapAddr
  dsimp only
  split <;> exact ⟨rfl, rfl⟩

theorem setClientAddr_frame (s : Sys) (old : Option AddrRef) :
    (s.setClientAddr old none).client.authedAddr = s.client.authedAddr ∧
      (s.setClientAddr old none).client.clientConn = s.client.clientConn := by
  unfold Sys.setClientAddr Client.swapAddr
  dsimp only
  split <;> exact ⟨rfl, rfl⟩

theorem setClientConn_frame (s : Sys) (old : Option Nat) :
    (s.setClientConn old none).client.authedAddr = s.client.authedAddr ∧
      (s.setClientConn old none).client.clientAddr = s.client.clientAddr := by
  unfold Sys.setClientConn Client.swapConn
  dsimp only
  split <;> exact ⟨rfl, rfl⟩

/-- **The cleanup spares a client that is back.** A step of the time-out
callback, in any state the goroutines can reach, leaves in place what was
installed in a field after the callback looked at it, and closes no newer
connection, unless it clears a field that it saw nil and that has a value by
now. -/
theorem cleanup_keeps_newer {s t : Sys} {i : Nat} {ok : Bool} {pc : TimeoutPc} {seen : Seen}
    (h : machine.Reachable s) (hr : s.At i (.timeout pc seen)) (hcalm : calm s (.run i ok) = true)
    (hn : machine.next s (.run i ok) = some t) : KeepsNewer seen s t := by
  have hinv := inv_reachable h
  obtain ⟨r, hr', rfl⟩ := next_run hn
  cases Option.some.inj (hr.symm.trans hr')
  simp only [calm, (show s.routines[i]? = some _ from hr)] at hcalm
  cases pc with
  | authed => exact ⟨fun _ _ h => h, fun _ _ h => h, fun _ _ h => ⟨h, rfl⟩⟩
  | client => exact ⟨fun _ _ h => h, fun _ _ h => h, fun _ _ h => ⟨h, rfl⟩⟩
  | conn => exact ⟨fun _ _ h => h, fun _ _ h => h, fun _ _ h => ⟨h, rfl⟩⟩
  | sleep => exact ⟨fun _ _ h => h, fun _ _ h => h, fun _ _ h => ⟨h, rfl⟩⟩
  | clearAuthed =>
    obtain ⟨hclient, hconn⟩ := setAuthedAddr_frame s (seen.authed.bind (·.value))
    refine ⟨?_, fun _ _ h => hclient.trans h, fun _ _ h => ⟨hconn.trans h, rfl⟩⟩
    intro l v hl hnewer hv
    show (s.client.swapAddr .authed (seen.authed.bind (·.value)) none).authedAddr = some v
    cases hw : l.value with
    | none => simp [hl, hw, hv] at hcalm
    | some w =>
      have hlook : seen.look .authed = some ⟨some w.ref, l.time⟩ := by
        simp only [Seen.look, hl, hw, Option.map_some]
      have hne : s.client.get .authed ≠ some w := by
        intro hnow
        apply hinv.newer_ne hr hlook hnewer
        simp only [Sys.holds, show s.client.authedAddr = some w from hnow, Option.map_some]
      rw [hl, Option.bind_some, hw, swapAddr_ne (Option.some_ne_none w) hne]
      exact hv
  | clearClient =>
    obtain ⟨hauthed, hconn⟩ := setClientAddr_frame s (seen.client.bind (·.value))
    refine ⟨fun _ _ h => hauthed.trans h, ?_, fun _ _ h => ⟨hconn.trans h, rfl⟩⟩
    intro l v hl hnewer hv
    show (s.client.swapAddr .client (seen.client.bind (·.value)) none).clientAddr = some v
    cases hw : l.value with
    | none => simp [hl, hw, hv] at hcalm
    | some w =>
      have hlook : seen.look .client = some ⟨some w.ref, l.time⟩ := by
        simp only [Seen.look, hl, hw, Option.map_some]
      have hne : s.client.get .client ≠ some w := by
        intro hnow
        apply hinv.newer_ne hr hlook hnewer
        simp only [Sys.holds, show s.client.clientAddr = some w from hnow, Option.map_some]
      rw [hl, Option.bind_some, hw, swapAddr_ne (Option.some_ne_none w) hne]
      exact hv
  | clearConn =>
    obtain ⟨hauthed, hclient⟩ := setClientConn_frame s (seen.conn.bind (·.value))
    refine ⟨fun _ _ h => hauthed.trans h, fun _ _ h => hclient.trans h, ?_⟩
    intro l n hl hnewer hconn
    show (s.client.swapConn (seen.conn.bind (·.value)) none).clientConn = some n ∧
      (s.client.replacedConn (seen.conn.bind (·.value))).toList ++ s.closedConns = s.closedConns
    cases hm : l.value with
    | none => simp [hl, hm, hconn] at hcalm
    | some m =>
      have hlook : seen.look .conn = some ⟨some m, l.time⟩ := by
        rw [Seen.look, hl, ← hm]
      have hne : s.client.clientConn ≠ some m := hinv.newer_ne hr hlook hnewer
      obtain ⟨hswap, hout⟩ := swapConn_ne none (Option.some_ne_none m) hne
      rw [hl, Option.bind_some, hm, hswap, hout]
      exact ⟨hconn, rfl⟩

/-- A client on TCP reconnects while the callback sleeps. -/
def reconnectTcp : List Act :=
  accepts 1 0 1 ++ runs 1 5 ++ [.spawn, .start 2 (.timeout .authed {})] ++ runs 2 3 ++
    accepts 3 1 2 ++ runs 3 5 ++ runs 2 3

theorem cleanup_keeps_newer_conn :
    ∃ s t seen l, machine.Reachable s ∧ s.At 2 (.timeout .clearConn seen) ∧
      seen.conn = some l ∧ l.value = some 0 ∧ l.time < s.installedAt .conn ∧
      s.client.clientConn = some 1 ∧ machine.next s (.run 2 true) = some t ∧
      KeepsNewer seen s t := by
  have hrun : (machine.exec { client := newClientState ⟨true, true, true, 1, 0⟩ } reconnectTcp).any
      (fun s => s.routines[2]? = some (.timeout .clearConn
          { authed := some ⟨none, 5⟩, client := some ⟨none, 6⟩, conn := some ⟨some 0, 7⟩ }) &&
        decide (7 < s.installedAt .conn) && s.client.clientConn = some 1 &&
        (machine.next s (.run 2 true)).isSome) = true := by
    decide
  obtain ⟨s, hs, hend⟩ := (Option.any_eq_true _ _).mp hrun
  simp only [Bool.and_eq_true, decide_eq_true_eq] at hend
  obtain ⟨⟨⟨hr, hnewer⟩, hconn⟩, hnext⟩ := hend
  obtain ⟨t, ht⟩ := Option.isSome_iff_exists.mp hnext
  have hreach : machine.Reachable s := .exec (.init ⟨_, rfl⟩) hs
  refine ⟨s, t, _, _, hreach, hr, rfl, rfl, hnewer, hconn, ht, cleanup_keeps_newer hreach hr ?_ ht⟩
  simp only [calm, hr]
  rfl

/-- A client authenticates from a new address while the callback sleeps. -/
def reconnectUdp : List Act :=
  [.start 0 (.auth .closed { port := 1 } 1)] ++ runs 0 6 ++ [.start 0 (.promote .load)] ++
    runs 0 3 ++ [.spawn, .start 1 (.timeout .authed {})] ++ runs 1 3 ++
    [.start 0 (.auth .closed { port := 2 } 2)] ++ runs 0 6 ++ runs 1 1

/-- The callback saw no authenticated address, and takes out the one that has
come since. -/
theorem reconnect_is_removed :
    ∃ s t seen l v, machine.Reachable s ∧ s.At 1 (.timeout .clearAuthed seen) ∧
      seen.authed = some l ∧ l.value = none ∧ l.time < s.installedAt .authed ∧
      s.client.authedAddr = some v ∧ machine.next s (.run 1 true) = some t ∧
      t.client.authedAddr = none ∧ ¬ KeepsNewer seen s t := by
  have hrun : (machine.exec { client := newClientState ⟨true, true, false, 1, 0⟩ } reconnectUdp).any
      (fun s => s.routines[1]? = some (.timeout .clearAuthed
          { authed := some ⟨none, 9⟩, client := some ⟨some ⟨0, { port := 1 }, 1⟩, 10⟩,
            conn := some ⟨none, 11⟩ }) &&
        decide (9 < s.installedAt .authed) &&
        s.client.authedAddr = some ⟨1, { port := 2 }, 2⟩ &&
        (machine.next s (.run 1 true)).any fun t => t.client.authedAddr.isNone) = true := by
    decide
  obtain ⟨s, hs, hend⟩ := (Option.any_eq_true _ _).mp hrun
  simp only [Bool.and_eq_true, decide_eq_true_eq] at hend
  obtain ⟨⟨⟨hr, hnewer⟩, haddr⟩, hnext⟩ := hend
  obtain ⟨t, ht, hgone⟩ := (Option.any_eq_true _ _).mp hnext
  have hgone : t.client.authedAddr = none := Option.isNone_iff_eq_none.mp hgone
  refine ⟨s, t, _, _, _, .exec (.init ⟨_, rfl⟩) hs, hr, rfl, rfl, hnewer, haddr, ht, hgone, ?_⟩
  intro hkeeps
  have := hkeeps.authed rfl hnewer haddr
  rw [hgone] at this
  cases this

end Tsshd.Proxy.Transport

import Tsshd.Proxy.Transport

/-!
# The newest connection of a client

A `handshake` is accepted when it wins the `CompareAndSwap` of the serial number
and installed when it swaps its connection in. In between it writes the
acknowledgement to the network, and nothing keeps another handshake from
overtaking it there.

* `newest_wins` — if each accepted handshake installs before the next one is
  accepted, the connection in use is the one with the highest serial number,
  and no connection gives way to an older one;
* `older_replaces_newer` — otherwise the older of two connections can end up in
  use, and the newer one is closed.
-/

namespace Tsshd.Proxy.Transport

/-- A connection whose handshake is not accepted yet. -/
def Routine.waits : Routine → Option Nat
  | .handshake .closed c _ | .handshake .load c _ | .handshake (.swap _) c _ | .drawn c => some c
  | _ => none

/-- The connection and serial number of a handshake that is accepted and not
yet installed. -/
def Routine.accepted : Routine → Option (Nat × Nat)
  | .handshake .ack c n | .handshake .install c n => some (c, n)
  | _ => none

/-- A serial number that is about to be swapped in is not below the one that
was loaded. -/
def Routine.ordered : Routine → Prop
  | .auth (.swap old) _ n => old < n
  | .handshake (.swap old) _ n => old < n
  | .refresh n (some old) => old ≤ n
  | _ => True

theorem Routine.owns_of_waits {r : Routine} {c : Nat} (h : r.waits = some c) :
    r.owns = some c := by
  fun_cases Routine.waits r <;> simp_all [Routine.waits, Routine.owns]

theorem Routine.step_ordered (s : Sys) (ok : Bool) (r : Routine) : (r.step s ok).2.ordered := by
  fun_cases Routine.step s ok r <;> simp only [Routine.ordered] <;> grind [Routine.ordered]

/-! ## What a step means for the race -/

inductive Race (s t : Sys) (ok : Bool) : Routine → Routine → Prop
  | won {c n} (hn : s.client.serialNumber < n) (hwinners : t.winners = s.winners ++ [(c, n)])
      (hconn : t.client.clientConn = s.client.clientConn) (hserial : t.client.serialNumber = n) :
      Race s t ok (.handshake (.swap s.client.serialNumber) c n) (.handshake .ack c n)
  | failed {c n} (hok : ok = false) (hconn : t.client.clientConn = s.client.clientConn) :
      Race s t ok (.handshake .ack c n) .done
  | installed {c n} (hwinners : t.winners = s.winners) (hconn : t.client.clientConn = some c)
      (hserial : t.client.serialNumber = s.client.serialNumber) :
      Race s t ok (.handshake .install c n) .done
  | other {r r'} (hwinners : t.winners = s.winners)
      (hconn : t.client.clientConn = s.client.clientConn ∨ t.client.clientConn = none)
      (hserial : s.client.serialNumber ≤ t.client.serialNumber)
      (hwaits : ∀ {c}, r'.waits = some c → r.waits = some c)
      (haccepted : r'.accepted = r.accepted) : Race s t ok r r'

theorem casSerial_le {c : Client} {old new : Nat} (h : old ≤ new) :
    c.serialNumber ≤ (c.casSerial old new).serialNumber := by
  unfold Client.casSerial
  split
  · rename_i heq
    exact heq ▸ h
  · exact Nat.le_refl _

theorem swapAddr_frame (c : Client) (slot : Slot) (old new : Option AddrRef) :
    (c.swapAddr slot old new).serialNumber = c.serialNumber ∧
      (c.swapAddr slot old new).clientConn = c.clientConn := by
  unfold Client.swapAddr
  split
  · cases slot <;> cases new <;> exact ⟨rfl, rfl⟩
  · exact ⟨rfl, rfl⟩

@[simp] theorem swapConn_serialNumber (c : Client) (old new : Option Nat) :
    (c.swapConn old new).serialNumber = c.serialNumber := by
  unfold Client.swapConn
  split <;> rfl

/-- An access that leaves the connection alone or clears it, by a goroutine that
is no handshake. -/
theorem Race.idle {s t : Sys} {ok : Bool} {r r' : Routine} (hwinners : t.winners = s.winners)
    (hconn : t.client.clientConn = s.client.clientConn ∨ t.client.clientConn = none)
    (hserial : s.client.serialNumber ≤ t.client.serialNumber) (hwaits : r'.waits = none)
    (haccepted : r'.accepted = none) (h : r.accepted = none) : Race s t ok r r' := by
  refine .other hwinners hconn hserial ?_ (haccepted.trans h.symm)
  intro c hc
  rw [hwaits] at hc
  cases hc

theorem casSerial_conn (c : Client) (old new : Nat) :
    (c.casSerial old new).clientConn = c.clientConn := by
  unfold Client.casSerial
  split <;> rfl

theorem Race.congr {s t u : Sys} {ok : Bool} {r r' : Routine} (h : Race s t ok r r')
    (hwinners : u.winners = t.winners) (hclient : u.client = t.client) : Race s u ok r r' := by
  cases h with
  | won hn hw hc hs =>
    exact .won hn (hwinners.trans hw) (hclient ▸ hc) (hclient ▸ hs)
  | failed hok hc => exact .failed hok (hclient ▸ hc)
  | installed hw hc hs => exact .installed (hwinners.trans hw) (hclient ▸ hc) (hclient ▸ hs)
  | other hw hc hs hwaits haccepted =>
    exact .other (hwinners.trans hw) (hclient ▸ hc) (hclient ▸ hs) hwaits haccepted

/-- Only a handshake wins a serial number and installs a connection. -/
theorem Routine.step_race (s : Sys) (ok : Bool) (r : Routine) (h : r.ordered) :
    Race s (r.step s ok).1 ok r (r.step s ok).2 := by
  cases r with
  | handshake pc c n =>
    cases pc with
    | closed =>
      simp only [Routine.step]
      split
      · exact .idle rfl (.inl rfl) (Nat.le_refl _) rfl rfl rfl
      · exact .other rfl (.inl rfl) (Nat.le_refl _) id rfl
    | load =>
      simp only [Routine.step]
      split
      · exact .other rfl (.inl rfl) (Nat.le_refl _) id rfl
      · exact .idle rfl (.inl rfl) (Nat.le_refl _) rfl rfl rfl
    | swap old =>
      simp only [Routine.step]
      split
      · rename_i heq
        subst heq
        refine .won h rfl (casSerial_conn _ _ _) ?_
        simp only [Sys.modify, Client.casSerial, if_true]
      · exact .idle rfl (.inl rfl) (Nat.le_refl _) rfl rfl rfl
    | ack =>
      simp only [Routine.step]
      split
      · exact .other rfl (.inl rfl) (Nat.le_refl _) (fun h => by cases h) rfl
      · rename_i hok
        exact .failed (Bool.eq_false_iff.mpr hok) rfl
    | install => exact .installed rfl rfl rfl
  | auth pc addr n =>
    cases pc with
    | closed | load =>
      simp only [Routine.step]
      split <;> exact .idle rfl (.inl rfl) (Nat.le_refl _) rfl rfl rfl
    | swap old =>
      simp only [Routine.step]
      split
      · exact .idle rfl (.inl (casSerial_conn _ _ _)) (casSerial_le (Nat.le_of_lt h)) rfl rfl rfl
      · exact .idle rfl (.inl rfl) (Nat.le_refl _) rfl rfl rfl
    | _ => exact .idle rfl (.inl rfl) (Nat.le_refl _) rfl rfl rfl
  | refresh n old =>
    cases old with
    | none =>
      simp only [Routine.step]
      split <;> exact .idle rfl (.inl rfl) (Nat.le_refl _) rfl rfl rfl
    | some old => exact .idle rfl (.inl (casSerial_conn _ _ _)) (casSerial_le h) rfl rfl rfl
  | promote pc =>
    cases pc with
    | load =>
      simp only [Routine.step]
      split <;> exact .idle rfl (.inl rfl) (Nat.le_refl _) rfl rfl rfl
    | _ => exact .idle rfl (.inl rfl) (Nat.le_refl _) rfl rfl rfl
  | mismatch => exact .idle rfl (.inl rfl) (Nat.le_refl _) rfl rfl rfl
  | timeout pc seen =>
    cases pc with
    | sleep =>
      simp only [Routine.step]
      split <;> exact .idle rfl (.inl rfl) (Nat.le_refl _) rfl rfl rfl
    | clearAuthed =>
      have hframe := swapAddr_frame s.client .authed (seen.authed.bind (·.value)) none
      exact .idle rfl (.inl hframe.2) (Nat.le_of_eq hframe.1.symm) rfl rfl rfl
    | clearClient =>
      have hframe := swapAddr_frame s.client .client (seen.client.bind (·.value)) none
      exact .idle rfl (.inl hframe.2) (Nat.le_of_eq hframe.1.symm) rfl rfl rfl
    | clearConn =>
      exact .idle rfl (shrinks_setClientConn s _ .conn)
        (by simp [Routine.step, Sys.setClientConn]) rfl rfl rfl
    | _ => exact .idle rfl (.inl rfl) (Nat.le_refl _) rfl rfl rfl
  | close pc =>
    cases pc with
    | closed =>
      simp only [Routine.step]
      split <;> exact .idle rfl (.inl rfl) (Nat.le_refl _) rfl rfl rfl
    | conn => exact .idle rfl (.inr rfl) (Nat.le_refl _) rfl rfl rfl
    | _ => exact .idle rfl (.inl rfl) (Nat.le_refl _) rfl rfl rfl
  | drop conn =>
    exact .idle rfl (shrinks_setClientConn s _ .conn) (by simp [Routine.step, Sys.setClientConn])
      rfl rfl rfl
  | drawn n => exact .other rfl (.inl rfl) (Nat.le_refl _) id rfl
  | done => exact .idle rfl (.inl rfl) (Nat.le_refl _) rfl rfl rfl

/-! ## The conditions -/

/-- No connection fails: acknowledgements go out, and no step leaves the client
without a connection it had. -/
def unfailing (s : Sys) : Act → Bool
  | .run i ok =>
    (match s.routines[i]? with
      | some (.handshake .ack _ _) => ok
      | _ => true) &&
    (s.client.clientConn.isNone || (next s (.run i ok)).all (·.client.clientConn.isSome))
  | _ => true

/-- A handshake is accepted only when every handshake accepted before it has
installed its connection. -/
def inOrder (s : Sys) : Act → Bool
  | .run i _ =>
    match s.routines[i]? with
    | some (.handshake (.swap old) _ _) =>
      s.client.serialNumber ≠ old || s.routines.all (·.accepted.isNone)
    | _ => true
  | _ => true

/-! ## The invariant -/

/-- The connection in use is that of the last accepted handshake, or of the one
before while that is on its way. -/
inductive Sys.Current (s : Sys) : Prop
  | settled (hnone : ∀ {i r}, s.At i r → r.accepted = none)
      (hconn : s.client.clientConn = s.winners.getLast?.map Prod.fst) : s.Current
  | installing {i r w ws} (hr : s.At i r) (hw : r.accepted = some w)
      (honly : ∀ {j q}, s.At j q → q.accepted ≠ none → j = i) (hwinners : s.winners = ws ++ [w])
      (hconn : s.client.clientConn = ws.getLast?.map Prod.fst) : s.Current

structure Order (s : Sys) : Prop where
  owned : Owned s
  ordered : ∀ {i r}, s.At i r → r.ordered
  sorted : s.winners.Pairwise (·.2 < ·.2)
  distinct : s.winners.Pairwise (·.1 ≠ ·.1)
  top : ∀ w ∈ s.winners, w.2 ≤ s.client.serialNumber
  waits : ∀ {i r c}, s.At i r → r.waits = some c → ∀ w ∈ s.winners, w.1 ≠ c
  known : ∀ w ∈ s.winners, w.1 < s.fresh
  current : s.Current

section
variable {s t : Sys}

theorem Order.won (h : Order s) (ho : Owned t) {i c n : Nat} {old : Nat}
    (hr : s.At i (.handshake (.swap old) c n)) (hall : ∀ {j q}, s.At j q → q.accepted = none)
    (hn : s.client.serialNumber < n) (hwinners : t.winners = s.winners ++ [(c, n)])
    (hconn : t.client.clientConn = s.client.clientConn) (hserial : t.client.serialNumber = n)
    (hfresh : s.fresh ≤ t.fresh) (hself : t.At i (.handshake .ack c n))
    (hothers : ∀ {j q}, t.At j q → j = i ∧ q = .handshake .ack c n ∨ j ≠ i ∧ s.At j q) :
    Order t := by
  have hnew : ∀ w ∈ s.winners, w.1 ≠ c := h.waits hr rfl
  constructor
  case owned => exact ho
  case ordered =>
    intro j q hq
    rcases hothers hq with ⟨-, rfl⟩ | ⟨-, hq⟩
    · trivial
    · exact h.ordered hq
  case sorted =>
    rw [hwinners, List.pairwise_append]
    refine ⟨h.sorted, List.pairwise_singleton _ _, ?_⟩
    intro w hw v hv
    rw [List.mem_singleton] at hv
    subst hv
    exact Nat.lt_of_le_of_lt (h.top w hw) hn
  case distinct =>
    rw [hwinners, List.pairwise_append]
    refine ⟨h.distinct, List.pairwise_singleton _ _, ?_⟩
    intro w hw v hv
    rw [List.mem_singleton] at hv
    subst hv
    exact hnew w hw
  case top =>
    intro w hw
    rw [hserial]
    rw [hwinners, List.mem_append, List.mem_singleton] at hw
    rcases hw with hw | rfl
    · exact Nat.le_of_lt (Nat.lt_of_le_of_lt (h.top w hw) hn)
    · exact Nat.le_refl _
  case waits =>
    intro j q d hq hd w hw
    rcases hothers hq with ⟨-, rfl⟩ | ⟨hj, hq⟩
    · cases hd
    · rw [hwinners, List.mem_append, List.mem_singleton] at hw
      rcases hw with hw | rfl
      · exact h.waits hq hd w hw
      · -- two handshakes have different connections
        rintro rfl
        exact hj (h.owned.once hq hr (Routine.owns_of_waits hd) rfl)
  case known =>
    intro w hw
    refine Nat.lt_of_lt_of_le ?_ hfresh
    rw [hwinners, List.mem_append, List.mem_singleton] at hw
    rcases hw with hw | rfl
    · exact h.known w hw
    · exact h.owned.lt hr rfl
  case current =>
    refine .installing hself rfl ?_ hwinners ?_
    · intro j q hq hne
      rcases hothers hq with ⟨rfl, -⟩ | ⟨-, hq⟩
      · rfl
      · exact absurd (hall hq) hne
    · rw [hconn]
      cases h.current with
      | settled _ hsettled => exact hsettled
      | installing hq hw =>
        rw [hall hq] at hw
        cases hw

/-- Steps that neither win nor install. -/
theorem Order.frame (h : Order s) (ho : Owned t) (hwinners : t.winners = s.winners)
    (hconn : t.client.clientConn = s.client.clientConn)
    (hserial : s.client.serialNumber ≤ t.client.serialNumber) (hfresh : s.fresh ≤ t.fresh)
    (hordered : ∀ {j q}, t.At j q → q.ordered)
    (hwaits : ∀ {j q c}, t.At j q → q.waits = some c →
      s.fresh ≤ c ∨ ∃ r, s.At j r ∧ r.waits = some c)
    (haccepted : ∀ {j q w}, t.At j q → q.accepted = some w → ∃ r, s.At j r ∧ r.accepted = some w)
    (hstays : ∀ {j r w}, s.At j r → r.accepted = some w → ∃ q, t.At j q ∧ q.accepted = some w) :
    Order t := by
  constructor
  case owned => exact ho
  case ordered => exact hordered
  case sorted => exact hwinners ▸ h.sorted
  case distinct => exact hwinners ▸ h.distinct
  case top =>
    intro w hw
    exact Nat.le_trans (h.top w (hwinners ▸ hw)) hserial
  case waits =>
    intro j q c hq hc w hw
    rcases hwaits hq hc with hle | ⟨r, hr, hrc⟩
    · have := h.known w (hwinners ▸ hw)
      omega
    · exact h.waits hr hrc w (hwinners ▸ hw)
  case known =>
    intro w hw
    exact Nat.lt_of_lt_of_le (h.known w (hwinners ▸ hw)) hfresh
  case current =>
    cases h.current with
    | settled hnone hsettled =>
      refine .settled ?_ (by rw [hconn, hsettled, hwinners])
      intro j q hq
      cases hw : q.accepted with
      | none => rfl
      | some w =>
        obtain ⟨r, hr, hrw⟩ := haccepted hq hw
        rw [hnone hr] at hrw
        cases hrw
    | installing hr hw honly hws hsettled =>
      obtain ⟨q, hq, hqw⟩ := hstays hr hw
      refine .installing hq hqw ?_ (hwinners.trans hws) (hconn.trans hsettled)
      intro j p hp hne
      obtain ⟨v, hv⟩ := Option.ne_none_iff_exists'.mp hne
      obtain ⟨r', hr', hrv⟩ := haccepted hp hv
      exact honly hr' (by rw [hrv]; exact Option.some_ne_none v)

theorem Order.installed (h : Order s) (ho : Owned t) {i c n : Nat}
    (hr : s.At i (.handshake .install c n)) (hwinners : t.winners = s.winners)
    (hconn : t.client.clientConn = some c)
    (hserial : t.client.serialNumber = s.client.serialNumber) (hfresh : s.fresh ≤ t.fresh)
    (hothers : ∀ {j q}, t.At j q → j = i ∧ q = .done ∨ j ≠ i ∧ s.At j q) : Order t := by
  constructor
  case owned => exact ho
  case ordered =>
    intro j q hq
    rcases hothers hq with ⟨-, rfl⟩ | ⟨-, hq⟩
    · trivial
    · exact h.ordered hq
  case sorted => exact hwinners ▸ h.sorted
  case distinct => exact hwinners ▸ h.distinct
  case top => exact hwinners ▸ hserial ▸ h.top
  case waits =>
    intro j q d hq hd
    rcases hothers hq with ⟨-, rfl⟩ | ⟨-, hq⟩
    · cases hd
    · exact hwinners ▸ h.waits hq hd
  case known =>
    intro w hw
    exact Nat.lt_of_lt_of_le (h.known w (hwinners ▸ hw)) hfresh
  case current =>
    cases h.current with
    | settled hnone => cases hnone hr
    | installing hq hw honly hws _ =>
      have hi := honly hr (by intro hnone; cases hnone)
      subst hi
      cases Option.some.inj (hr.symm.trans hq)
      cases Option.some.inj hw
      refine .settled ?_ (by rw [hconn, hwinners, hws]; simp)
      intro j q hq
      rcases hothers hq with ⟨-, rfl⟩ | ⟨hj, hq⟩
      · rfl
      · by_contra hne
        exact hj (honly hq hne)

theorem inOrder_swap {i old c n : Nat} {ok : Bool} (h : inOrder s (.run i ok) = true)
    (hr : s.At i (.handshake (.swap old) c n)) (hold : s.client.serialNumber = old) {j : Nat}
    {q : Routine} (hq : s.At j q) : q.accepted = none := by
  simp only [inOrder, (show s.routines[i]? = _ from hr), hold, ne_eq, not_true, decide_false,
    Bool.false_or, List.all_eq_true] at h
  exact Option.isNone_iff_eq_none.mp (h q (List.mem_of_getElem? hq))

/-- A connection that is not cleared stays. -/
theorem unfailing_conn {i : Nat} {ok : Bool} (h : unfailing s (.run i ok) = true)
    (hn : next s (.run i ok) = some t)
    (hconn : t.client.clientConn = s.client.clientConn ∨ t.client.clientConn = none) :
    t.client.clientConn = s.client.clientConn := by
  rcases hconn with hconn | hnone
  · exact hconn
  · simp only [unfailing, Bool.and_eq_true, Bool.or_eq_true, hn, Option.all_some, hnone,
      Option.isSome_none, Bool.false_eq_true, or_false] at h
    rw [hnone, Option.isNone_iff_eq_none.mp h.2]

theorem Order.run (h : Order s) {i : Nat} {ok : Bool} (hun : unfailing s (.run i ok) = true)
    (hin : inOrder s (.run i ok) = true) (hn : next s (.run i ok) = some t) : Order t := by
  have ho : Owned t := h.owned.next hn
  obtain ⟨r, hr, ht⟩ := next_run hn
  have hself : t.At i (r.step s ok).2 := by
    rw [ht]
    exact at_set_self hr
  have hothers : ∀ {j q}, t.At j q → j = i ∧ q = (r.step s ok).2 ∨ j ≠ i ∧ s.At j q := by
    intro j q hq
    rw [ht] at hq
    exact at_set hq
  have hstill : ∀ {j q}, j ≠ i → s.At j q → t.At j q := by
    intro j q hj hq
    rw [ht]
    show (s.routines.set i _)[j]? = _
    rw [List.getElem?_set_ne (Ne.symm hj)]
    exact hq
  have hfresh : s.fresh ≤ t.fresh := by
    rw [ht]
    exact r.step_fresh s ok
  have hordered := r.step_ordered s ok
  have hrace : Race s t ok r (r.step s ok).2 := by
    refine (r.step_race s ok (h.ordered hr)).congr ?_ ?_ <;> rw [ht]
  generalize (r.step s ok).2 = r' at hself hothers hordered hrace
  cases hrace with
  | won hlt hwinners hconn hserial =>
    exact h.won ho hr (inOrder_swap hin hr rfl) hlt hwinners hconn hserial hfresh hself hothers
  | failed hok =>
    simp [unfailing, (show s.routines[i]? = _ from hr), hok] at hun
  | installed hwinners hconn hserial =>
    exact h.installed ho hr hwinners hconn hserial hfresh hothers
  | other hwinners hconn hserial hwaits haccepted =>
    refine h.frame ho hwinners (unfailing_conn hun hn hconn) hserial hfresh ?_ ?_ ?_ ?_
    · intro j q hq
      rcases hothers hq with ⟨-, rfl⟩ | ⟨-, hq⟩
      · exact hordered
      · exact h.ordered hq
    · intro j q c hq hc
      rcases hothers hq with ⟨rfl, rfl⟩ | ⟨-, hq⟩
      · exact .inr ⟨r, hr, hwaits hc⟩
      · exact .inr ⟨q, hq, hc⟩
    · intro j q w hq hw
      rcases hothers hq with ⟨rfl, rfl⟩ | ⟨-, hq⟩
      · exact ⟨r, hr, haccepted ▸ hw⟩
      · exact ⟨q, hq, hw⟩
    · intro j q w hq hw
      by_cases hj : j = i
      · subst hj
        cases Option.some.inj (hr.symm.trans hq)
        exact ⟨r', hself, haccepted.trans hw⟩
      · exact ⟨q, hstill hj hq, hw⟩

theorem Routine.blank_race {r : Routine} (h : r.blank = true) :
    r.ordered ∧ r.accepted = none ∧ ∀ {c}, r.waits = some c → r.owns = some c := by
  suffices hr : r.ordered ∧ r.accepted = none from ⟨hr.1, hr.2, Routine.owns_of_waits⟩
  cases r with
  | auth pc => cases pc <;> first | exact ⟨trivial, rfl⟩ | cases h
  | refresh _ old => cases old <;> first | exact ⟨trivial, rfl⟩ | cases h
  | handshake pc => cases pc <;> first | exact ⟨trivial, rfl⟩ | cases h
  | _ => exact ⟨trivial, rfl⟩

theorem Routine.accepted_of_idle {r : Routine} (h : r.idle = true) : r.accepted = none := by
  fun_cases Routine.idle r <;> simp_all [Routine.idle, Routine.accepted]

/-- A goroutine that begins is at most a handshake with a connection nobody has
seen. -/
theorem Order.began (h : Order s) (ho : Owned t) {k : Nat} {r : Routine} (hb : Began s t k r) :
    Order t := by
  obtain ⟨hordered, haccepted, hwaits⟩ := Routine.blank_race hb.blank
  refine h.frame ho (by rw [hb.frame]) (by rw [hb.frame]) (Nat.le_of_eq (by rw [hb.frame]))
    hb.bound ?_ ?_ ?_ ?_
  · intro j q hq
    rcases hb.others hq with hq | ⟨-, rfl⟩
    · exact h.ordered hq
    · exact hordered
  · intro j q c hq hc
    rcases hb.others hq with hq | ⟨rfl, rfl⟩
    · exact .inr ⟨q, hq, hc⟩
    · rcases hb.owns (hwaits hc) with hdrawn | ⟨hfresh, -⟩
      · exact .inr ⟨_, hdrawn, rfl⟩
      · exact .inl (Nat.le_of_eq hfresh.symm)
  · intro j q w hq hw
    rcases hb.others hq with hq | ⟨-, rfl⟩
    · exact ⟨q, hq, hw⟩
    · rw [haccepted] at hw
      cases hw
  · intro j q w hq hw
    refine ⟨q, hb.still hq (Bool.eq_false_iff.mpr fun hidle => ?_), hw⟩
    rw [Routine.accepted_of_idle hidle] at hw
    cases hw

theorem Order.next {a : Act} (h : Order s) (hun : unfailing s a = true) (hin : inOrder s a = true)
    (hn : next s a = some t) : Order t := by
  rcases next_cases hn with ⟨i, ok, rfl⟩ | ⟨k, r, hb⟩
  · exact h.run hun hin hn
  · exact h.began (h.owned.next hn) hb

theorem Order.init (h : machine.init s) : Order s := by
  have ho : Owned s := owned_init h
  obtain ⟨args, rfl⟩ := h
  constructor
  case owned => exact ho
  case ordered =>
    intro i r hr
    rw [done_of_init hr]
    trivial
  case sorted => exact .nil
  case distinct => exact .nil
  case top => exact fun w hw => absurd hw List.not_mem_nil
  case waits => exact fun _ _ w hw => absurd hw List.not_mem_nil
  case known => exact fun w hw => absurd hw List.not_mem_nil
  case current =>
    refine .settled ?_ rfl
    intro i r hr
    rw [done_of_init hr]
    rfl

theorem order_reachable
    (h : machine.ReachableVia (fun s a => unfailing s a = true ∧ inOrder s a = true) s) :
    Order s :=
  TSys.ReachableVia.invariant (fun _ h => .init h) (fun _ _ _ h hok hn => h.next hok.1 hok.2 hn) h

end

/-! ## The result -/

def Routine.handshakes : Routine → Bool
  | .handshake _ _ _ => true
  | _ => false

theorem Routine.accepted_of_finished {r : Routine} (h : r.handshakes = false) :
    r.accepted = none := by
  fun_cases Routine.handshakes r <;> simp_all [Routine.handshakes, Routine.accepted]

/-- The last of a list sorted by serial number has the highest. -/
theorem le_last {l : List (Nat × Nat)} (h : l.Pairwise (·.2 < ·.2)) {w : Nat × Nat} (hw : w ∈ l) :
    ∃ top ∈ l, l.getLast? = some top ∧ w.2 ≤ top.2 := by
  obtain ⟨ws, top, rfl⟩ := List.eq_nil_or_concat l |>.resolve_left (List.ne_nil_of_mem hw)
  rw [List.concat_eq_append] at *
  refine ⟨top, by simp, by simp, ?_⟩
  rw [List.pairwise_append] at h
  rw [List.mem_append, List.mem_singleton] at hw
  rcases hw with hw | rfl
  · exact Nat.le_of_lt (h.2.2 w hw top (by simp))
  · exact Nat.le_refl _

/-- A step that exchanges the connection is the installation of the handshake
accepted last. -/
theorem exchange_installs {s t : Sys} {a : Act} {old new : Nat} (h : Order s)
    (hn : machine.next s a = some t) (hold : s.client.clientConn = some old)
    (hnew : t.client.clientConn = some new) (hne : old ≠ new) :
    ∃ ws n, s.winners = ws ++ [(new, n)] := by
  have hsame : t.client.clientConn ≠ s.client.clientConn := by
    rw [hold, hnew]
    exact fun h => hne (Option.some.inj h).symm
  rcases next_cases hn with ⟨i, ok, rfl⟩ | ⟨k, r, hb⟩
  case inr => exact absurd (by rw [hb.frame]) hsame
  case inl =>
    obtain ⟨r, hr, ht⟩ := next_run hn
    have hrace : Race s t ok r (r.step s ok).2 := by
      refine (r.step_race s ok (h.ordered hr)).congr ?_ ?_ <;> rw [ht]
    generalize (r.step s ok).2 = r' at hrace
    cases hrace with
    | won _ _ hconn => exact absurd hconn hsame
    | failed _ hconn => exact absurd hconn hsame
    | other _ hconn =>
      rcases hconn with hconn | hconn
      · exact absurd hconn hsame
      · rw [hnew] at hconn
        cases hconn
    | installed _ hconn =>
      rw [hnew] at hconn
      cases hconn
      cases h.current with
      | settled hnone => cases hnone hr
      | installing hq hw honly hws =>
        have hi := honly hr (by intro hnone; cases hnone)
        subst hi
        cases Option.some.inj (hr.symm.trans hq)
        cases Option.some.inj hw
        exact ⟨_, _, hws⟩

/-- **The newest handshake wins.** In every run in which the acknowledgements
can be written and no handshake is accepted while another installs: once no
handshake is under way, the client's connection is the accepted one with the
highest serial number, and whenever one connection replaces another it has the
higher number. -/
theorem newest_wins {s : Sys}
    (h : machine.ReachableVia (fun s a => unfailing s a = true ∧ inOrder s a = true) s) :
    ((∀ r ∈ s.routines, r.handshakes = false) →
      (s.winners = [] → s.client.clientConn = none) ∧
      ∀ w ∈ s.winners, ∃ top ∈ s.winners, s.client.clientConn = some top.1 ∧ w.2 ≤ top.2) ∧
    ∀ {a t old new m n}, machine.next s a = some t → s.client.clientConn = some old →
      t.client.clientConn = some new → old ≠ new →
      (old, m) ∈ s.winners → (new, n) ∈ s.winners → m < n := by
  have hinv := order_reachable h
  constructor
  · intro hfinished
    have hconn : s.client.clientConn = s.winners.getLast?.map Prod.fst := by
      cases hinv.current with
      | settled _ hconn => exact hconn
      | installing hr hw =>
        rw [Routine.accepted_of_finished (hfinished _ (List.mem_of_getElem? hr))] at hw
        cases hw
    constructor
    · intro hnil
      rw [hconn, hnil]
      rfl
    · intro w hw
      obtain ⟨top, hmem, hlast, hle⟩ := le_last hinv.sorted hw
      exact ⟨top, hmem, by rw [hconn, hlast]; rfl, hle⟩
  · intro a t old new m n hn hold hnew hne hm hn'
    obtain ⟨ws, k, hws⟩ := exchange_installs hinv hn hold hnew hne
    have hsorted := hinv.sorted
    have hdistinct := hinv.distinct
    rw [hws, List.pairwise_append] at hsorted hdistinct
    rw [hws, List.mem_append, List.mem_singleton] at hm hn'
    -- the new connection was accepted once, last of all
    have hk : n = k := by
      rcases hn' with hn' | hn'
      · exact absurd rfl (hdistinct.2.2 _ hn' (new, k) (List.mem_singleton_self _))
      · exact congrArg Prod.snd hn'
    rcases hm with hm | hm
    · exact hk ▸ hsorted.2.2 _ hm _ (List.mem_singleton_self _)
    · exact absurd (congrArg Prod.fst hm) hne

theorem newest_wins_reconnect :
    ∃ s, machine.ReachableVia (fun s a => unfailing s a = true ∧ inOrder s a = true) s ∧
      (∀ r ∈ s.routines, r.handshakes = false) ∧ s.winners = [(0, 1), (1, 2)] ∧
      ∃ top ∈ s.winners, s.client.clientConn = some top.1 ∧ 2 ≤ top.2 := by
  have hrun : (machine.execWhile (fun s a => unfailing s a && inOrder s a)
      { client := newClientState ⟨true, true, true, 1, 0⟩ }
      (accepts 1 0 1 ++ accepts 2 1 2 ++ runs 1 5 ++ runs 2 5)).any
      (fun s => s.routines.all (!·.handshakes) && s.winners = [(0, 1), (1, 2)]) = true := by
    decide
  obtain ⟨s, hs, hend⟩ := (Option.any_eq_true _ _).mp hrun
  simp only [Bool.and_eq_true, decide_eq_true_eq, List.all_eq_true, Bool.not_eq_true'] at hend
  obtain ⟨hfinished, hwinners⟩ := hend
  have hreach : machine.ReachableVia (fun s a => unfailing s a = true ∧ inOrder s a = true) s :=
    .execWhile (fun _ _ h => (Bool.and_eq_true _ _).mp h) (.init ⟨_, rfl⟩) hs
  refine ⟨s, hreach, hfinished, hwinners, ?_⟩
  exact ((newest_wins hreach).1 hfinished).2 (1, 2) (by rw [hwinners]; decide)

/-- Two handshakes are accepted in order and install in the other order. -/
theorem older_replaces_newer :
    ∃ s, machine.ReachableVia (fun s a => unfailing s a = true) s ∧
      (∀ r ∈ s.routines, r = .done) ∧ s.winners = [(0, 1), (1, 2)] ∧
      s.client.clientConn = some 0 ∧ s.closedConns = [1] := by
  have hrun : (machine.execWhile unfailing { client := newClientState ⟨true, true, true, 1, 0⟩ }
      (accepts 1 0 1 ++ accepts 2 1 2 ++ runs 1 3 ++ runs 2 5 ++ runs 1 2)).any
      (fun s => s.routines = [.done, .done, .done] && s.winners = [(0, 1), (1, 2)] &&
        s.client.clientConn = some 0 && s.closedConns = [1]) = true := by
    decide
  obtain ⟨s, hs, hend⟩ := (Option.any_eq_true _ _).mp hrun
  simp only [Bool.and_eq_true, decide_eq_true_eq] at hend
  obtain ⟨⟨⟨hdone, hwinners⟩, hconn⟩, hclosed⟩ := hend
  refine ⟨s, .execWhile (fun _ _ h => h) (.init ⟨_, rfl⟩) hs, ?_, hwinners, hconn, hclosed⟩
  intro r hr
  rw [hdone] at hr
  simpa using hr

end Tsshd.Proxy.Transport

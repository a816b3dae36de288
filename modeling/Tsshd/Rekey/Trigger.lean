import Tsshd.Rekey.Machine

/-!
# The byte counter starts rekeys

The `ClientSide` of `Tsshd.Rekey.Machine` by itself, with whatever answers: `consumeBytes`
schedules a `startRekey` when the counter reaches the threshold, once for every
key (`bytesTriggered`); the ticker calls `startRekey` as well; a `doRekey` that
fails gives `rekeyInFlight` back, and the bus calls `handleClientRekey` for every
answer of the server (rekey.go).

The two flags are what the counter relies on:

* `bytesTriggered` says that a `startRekey` is scheduled, or that one has come
  too late because a rekey was in flight already;
* `rekeyInFlight` says that a `doRekey` runs or that its request will be answered.

Both stay set on error paths, and then nothing stands behind them any more.
-/

namespace Tsshd.Rekey.Trigger

/-! ## The machine -/

structure Sys extends ClientSide where
  /-- The `startRekey` that `consumeBytes` has scheduled and that have not run. -/
  scheduled : Nat := 0
  /-- The requests sent for which no answer has come. -/
  unanswered : Nat := 0
deriving DecidableEq, Repr

inductive Act
  | consumeBytes (n : Nat)
  /-- A scheduled `startRekey` runs, or the ticker's. -/
  | scheduled (since : Nat)
  | tick (since : Nat)
  /-- A `doRekey` goes on; `ok` says how its call ends. -/
  | doRekey (goroutine : Nat) (ok : Bool)
  /-- An answer comes in, to a request or unasked, with a public key that is a point
  of the curve or not. -/
  | answer (serverPub : Nat) (ok : Bool)
  /-- `handleClientRekey` goes on. -/
  | handle (ok : Bool)
  | close
deriving DecidableEq, Repr

/-- `consumeBytes` schedules a rekey. -/
def triggers (r : Crypto) (n : Nat) : Bool :=
  r.bytesThreshold != 0 && !r.bytesTriggered && r.bytesThreshold ≤ r.bytesConsumed + n

def startRekey (s : Sys) (since : Nat) : Sys :=
  { s with toClientSide := s.toClientSide.startRekey since }

/-- One step of a `doRekey`. -/
def doRekeyStep (s : Sys) (k : Nat) (ok : Bool) : Option Sys :=
  (s.toClientSide.doRekey k ok).map fun (c, sent) =>
    { s with toClientSide := c, unanswered := s.unanswered + sent.toList.length }

/-- One step of `handleClientRekey`. -/
def handleClientRekey (s : Sys) (ok : Bool) : Option Sys :=
  (s.toClientSide.handleClientRekey ok).map ({ s with toClientSide := · })

def next (s : Sys) : Act → Option Sys
  | .consumeBytes n =>
    some { s with
      client := s.client.consumeBytes n
      scheduled := if triggers s.client n then s.scheduled + 1 else s.scheduled }
  | .scheduled since =>
    if s.scheduled = 0 then none
    else some (startRekey { s with scheduled := s.scheduled - 1 } since)
  | .tick since => some (startRekey s since)
  | .doRekey k ok => doRekeyStep s k ok
  | .answer b ok =>
    if s.clientPc = .idle then
      some { s with
        unanswered := s.unanswered - 1
        clientPc := if ok then .load b else .idle }
    else none
  | .handle ok => handleClientRekey s ok
  | .close => some { s with client := { s.client with closed := true } }

def machine (timeThreshold bytesThreshold : Nat) : TSys Sys Act where
  init s := s = { client := { timeThreshold, bytesThreshold } }
  next := next

/-- `handleClientRekey` has not come to the new key. -/
def Sys.answering (s : Sys) : Bool :=
  match s.clientPc with
  | .load _ | .install _ _ => true
  | _ => false

/-- A rekey is scheduled or running, or its request is unanswered. -/
def Sys.Underway (s : Sys) : Prop :=
  s.scheduled ≠ 0 ∨ s.doRekeys ≠ [] ∨ s.unanswered ≠ 0 ∨ s.answering = true

/-- No answer is refused, and when a failed `doRekey` gives `rekeyInFlight` back
the byte counter has not triggered, or its `startRekey` is still to come. -/
def Rearmed (s : Sys) : Act → Prop
  | .doRekey k _ =>
    s.doRekeys[k]? = some .failed → s.client.bytesTriggered = false ∨ s.scheduled ≠ 0
  | .answer _ ok => ok = true
  | .handle ok =>
    match s.clientPc with
    | .load _ => s.client.clientPriKey ≠ none
    | .install _ _ => ok = true
    | _ => True
  | _ => True

/-! ## What the flags stand for -/

variable {s s' : Sys} {a : Act}

structure Inv (bytesThreshold : Nat) (s : Sys) : Prop where
  threshold : s.client.bytesThreshold = bytesThreshold
  triggered : s.client.bytesTriggered = true ↔ bytesThreshold ≤ s.client.bytesConsumed
  armed : s.client.closed = false → s.client.bytesTriggered = true →
    s.scheduled ≠ 0 ∨ s.client.rekeyInFlight = true
  inFlight : s.client.rekeyInFlight = true → s.doRekeys ≠ [] ∨ s.unanswered ≠ 0 ∨ s.answering = true

variable {bytesThreshold : Nat}

/-- A key that was just installed has no bytes against it. -/
theorem Inv.of_reset (hpos : 0 < bytesThreshold)
    (hthreshold : s.client.bytesThreshold = bytesThreshold) (hconsumed : s.client.bytesConsumed = 0)
    (htriggered : s.client.bytesTriggered = false) (hflight : s.client.rekeyInFlight = false) :
    Inv bytesThreshold s := by
  refine ⟨hthreshold, ?_, ?_, ?_⟩
  · rw [htriggered, hconsumed]
    simp only [Bool.false_eq_true, false_iff]
    omega
  · intro _ hover
    exact absurd (htriggered.symm.trans hover) Bool.false_ne_true
  · intro hbusy
    exact absurd (hflight.symm.trans hbusy) Bool.false_ne_true

/-- The counter triggers once for every key. -/
theorem triggers_triggered {r : Crypto} (h : r.bytesTriggered = true) (n : Nat) :
    triggers r n = false := by
  simp [triggers, h]

theorem Inv.consumeBytes (hpos : 0 < bytesThreshold) (h : Inv bytesThreshold s) (n : Nat) :
    Inv bytesThreshold { s with
      client := s.client.consumeBytes n
      scheduled := if triggers s.client n then s.scheduled + 1 else s.scheduled } := by
  obtain ⟨hthreshold, htriggered, harmed, hinFlight⟩ := h
  have hne : ¬s.client.bytesThreshold = 0 := by omega
  refine ⟨?_, ?_, ?_, ?_⟩
  · simp only [Crypto.consumeBytes, hne, if_false]
    exact hthreshold
  · simp only [Crypto.consumeBytes, hne, if_false, Bool.or_eq_true, decide_eq_true_eq]
    rw [htriggered]
    omega
  · simp only [Crypto.consumeBytes, hne, if_false, Bool.or_eq_true, decide_eq_true_eq]
    intro hopen hnow
    by_cases hbefore : s.client.bytesTriggered = true
    · rw [triggers_triggered hbefore]
      exact harmed hopen hbefore
    · have hfires : triggers s.client n = true := by
        have hreached := hnow.resolve_left hbefore
        simp [triggers, hbefore, hne, hreached]
      rw [hfires]
      exact .inl (Nat.succ_ne_zero _)
  · simp only [Crypto.consumeBytes, hne, if_false]
    exact hinFlight

/-- A `startRekey` that runs while the counter is over the threshold leaves a
rekey in flight: one that was, or its own. -/
theorem Inv.startRekey (h : Inv bytesThreshold s) (scheduled since : Nat) :
    Inv bytesThreshold (startRekey { s with scheduled := scheduled } since) := by
  obtain ⟨hthreshold, htriggered, -, hinFlight⟩ := h
  unfold Trigger.startRekey ClientSide.startRekey
  split
  case isTrue =>
    refine ⟨hthreshold, htriggered, fun _ _ => .inr rfl, fun _ => .inl ?_⟩
    exact List.append_ne_nil_of_right_ne_nil _ (List.cons_ne_nil _ _)
  case isFalse hskipped =>
    refine ⟨hthreshold, htriggered, ?_, hinFlight⟩
    intro hopen hover
    refine .inr ?_
    have hreached : bytesThreshold ≤ s.client.bytesConsumed := htriggered.mp hover
    have hopen' : s.client.closed = false := hopen
    have hnot : ¬s.client.bytesConsumed < s.client.bytesThreshold := by omega
    by_contra hidle
    refine hskipped ?_
    simp only [Crypto.rekeyAllowed, hopen', hnot, Bool.not_eq_true] at hidle ⊢
    simp [hidle]

theorem Inv.doRekey (h : Inv bytesThreshold s) {k : Nat} {ok : Bool}
    (hok : Rearmed s (.doRekey k ok)) (hstep : doRekeyStep s k ok = some s') :
    Inv bytesThreshold s' := by
  obtain ⟨hthreshold, htriggered, harmed, hinFlight⟩ := h
  have hset : ∀ x, s.doRekeys[k]? ≠ none → s.doRekeys.set k x ≠ [] := by
    intro x hk hnil
    rw [List.set_eq_nil_iff] at hnil
    rw [hnil] at hk
    exact hk rfl
  obtain ⟨⟨c, sent⟩, hside, rfl⟩ := Option.map_eq_some_iff.mp hstep
  unfold ClientSide.doRekey at hside
  split at hside
  case h_1 => cases hside
  case h_2 hk =>
    split at hside <;> cases hside <;>
      exact ⟨hthreshold, htriggered, harmed, fun _ => .inl (hset _ (by rw [hk]; simp))⟩
  case h_3 hk =>
    split at hside
    · cases hside
      exact ⟨hthreshold, htriggered, harmed, fun _ => .inr (.inl (Nat.succ_ne_zero _))⟩
    · cases hside
      exact ⟨hthreshold, htriggered, harmed, fun _ => .inl (hset _ (by rw [hk]; simp))⟩
  case h_4 hk =>
    cases hside
    refine ⟨hthreshold, htriggered, ?_, fun h => absurd h Bool.false_ne_true⟩
    intro _ hover
    rcases hok hk with hnot | hscheduled
    · exact absurd (hnot.symm.trans hover) Bool.false_ne_true
    · exact .inl hscheduled

theorem Inv.handleClientRekey (hpos : 0 < bytesThreshold) (h : Inv bytesThreshold s) {ok : Bool}
    (hok : Rearmed s (.handle ok)) (hstep : handleClientRekey s ok = some s') :
    Inv bytesThreshold s' := by
  obtain ⟨hthreshold, htriggered, harmed, hinFlight⟩ := h
  obtain ⟨c, hside, rfl⟩ := Option.map_eq_some_iff.mp hstep
  unfold ClientSide.handleClientRekey at hside
  unfold Rearmed at hok
  split at hside
  case h_1 => cases hside
  case h_2 b hhandler =>
    simp only [hhandler] at hok
    split at hside
    · cases hside
      exact ⟨hthreshold, htriggered, harmed, fun _ => .inr (.inr rfl)⟩
    · exact absurd ‹_› hok
  case h_3 pri b hhandler =>
    simp only [hhandler] at hok
    rw [if_pos hok] at hside
    cases hside
    exact .of_reset hpos hthreshold rfl rfl rfl
  case h_4 pri hhandler =>
    cases hside
    have hanswering : s.answering = false := by
      unfold Sys.answering
      rw [hhandler]
    have hinFlight' : s.client.rekeyInFlight = true → s.doRekeys ≠ [] ∨ s.unanswered ≠ 0 := by
      intro hflight
      rcases hinFlight hflight with h | h | h
      · exact .inl h
      · exact .inr h
      · exact absurd (hanswering.symm.trans h) Bool.false_ne_true
    dsimp only
    split <;>
      exact ⟨hthreshold, htriggered, harmed, fun h => (hinFlight' h).imp (fun h => h) .inl⟩

theorem Inv.next (hpos : 0 < bytesThreshold) (h : Inv bytesThreshold s) (hok : Rearmed s a)
    (hnext : next s a = some s') : Inv bytesThreshold s' := by
  cases a with
  | consumeBytes n =>
    cases hnext
    exact h.consumeBytes hpos n
  | scheduled since =>
    simp only [Trigger.next] at hnext
    split at hnext
    · cases hnext
    · cases hnext
      exact h.startRekey _ since
  | tick since =>
    cases hnext
    exact h.startRekey s.scheduled since
  | doRekey k ok => exact h.doRekey hok hnext
  | answer b ok =>
    have hgood : ok = true := hok
    subst hgood
    simp only [Trigger.next] at hnext
    split at hnext
    · cases hnext
      exact ⟨h.threshold, h.triggered, h.armed, fun _ => .inr (.inr rfl)⟩
    · cases hnext
  | handle ok => exact h.handleClientRekey hpos hok hnext
  | close =>
    cases hnext
    exact ⟨h.threshold, h.triggered, fun hopen => absurd hopen.symm Bool.false_ne_true, h.inFlight⟩

theorem inv_reachable {timeThreshold : Nat} (hpos : 0 < bytesThreshold)
    (hs : (machine timeThreshold bytesThreshold).ReachableVia Rearmed s) : Inv bytesThreshold s := by
  refine TSys.ReachableVia.invariant ?_ ?_ hs
  · rintro s rfl
    exact .of_reset hpos rfl rfl rfl rfl
  · intro s a s' h hok hnext
    exact h.next hpos hok hnext

/-! ## Rekeying by bytes -/

/-- **Byte-based rekeying stays on**, as long as no answer is refused and no
`doRekey` fails behind the counter's back: over the threshold a rekey is always
under way. -/
theorem rekey_underway {timeThreshold : Nat} (hpos : 0 < bytesThreshold)
    (hs : (machine timeThreshold bytesThreshold).ReachableVia Rearmed s)
    (hopen : s.client.closed = false) (hover : bytesThreshold ≤ s.client.bytesConsumed) :
    s.Underway := by
  have h := inv_reachable hpos hs
  rcases h.armed hopen (h.triggered.mpr hover) with hscheduled | hflight
  · exact .inl hscheduled
  · exact .inr (h.inFlight hflight)

instance (s : Sys) : Decidable s.Underway := inferInstanceAs (Decidable (_ ∨ _))

instance (s : Sys) (a : Act) : Decidable (Rearmed s a) :=
  match a with
  | .doRekey _ _ => inferInstanceAs (Decidable (_ → _))
  | .answer _ ok => inferInstanceAs (Decidable (ok = true))
  | .handle ok =>
    match h : s.clientPc with
    | .load _ => decidable_of_iff (s.client.clientPriKey ≠ none) (by simp [Rearmed, h])
    | .install _ _ => decidable_of_iff (ok = true) (by simp [Rearmed, h])
    | .idle | .forget _ => .isTrue (by simp [Rearmed, h])
  | .consumeBytes _ | .scheduled _ | .tick _ | .close => inferInstanceAs (Decidable True)

/-- The first rekey of the ticker fails, and the counter starts the next one,
which is answered; the counter runs full again. -/
def failedThenCounted : List Act :=
  [Act.tick 9, .doRekey 0 true, .doRekey 0 false, .doRekey 0 true, .consumeBytes 5, .scheduled 0,
    .doRekey 0 true, .doRekey 0 true, .answer 0 true, .handle true, .handle true, .handle true,
    .consumeBytes 6]

theorem rekey_underway_failedThenCounted :
    ∃ s, (machine 9 5).ReachableVia Rearmed s ∧ 5 ≤ s.client.bytesConsumed ∧
      s.client.gcmList.length = 2 ∧ s.Underway := by
  have hrun : ((machine 9 5).execWhile (fun s a => decide (Rearmed s a))
      { client := { timeThreshold := 9, bytesThreshold := 5 } } failedThenCounted).any (fun s =>
        decide (s.client.closed = false ∧ 5 ≤ s.client.bytesConsumed ∧
          s.client.gcmList.length = 2)) = true := by
    decide
  obtain ⟨s, hs, hend⟩ := (Option.any_eq_true _ _).mp hrun
  obtain ⟨hopen, hover, hkeys⟩ := of_decide_eq_true hend
  have hreach : (machine 9 5).ReachableVia Rearmed s :=
    TSys.ReachableVia.execWhile (fun _ _ h => of_decide_eq_true h) (.init rfl) hs
  exact ⟨s, hreach, hover, hkeys, rekey_underway (by decide) hreach hopen hover⟩

/-- The send of the counter's rekey fails. -/
def sendFailed : List Act :=
  [Act.consumeBytes 5, .scheduled 0, .doRekey 0 true, .doRekey 0 false, .doRekey 0 true]

/-- The server's answer is refused. -/
def answerRefused : List Act :=
  [Act.consumeBytes 5, .scheduled 0, .doRekey 0 true, .doRekey 0 true, .answer 0 false]

theorem startRekey_inFlight (h : s.client.rekeyInFlight = true) (since : Nat) :
    startRekey s since = s := by
  simp [startRekey, ClientSide.startRekey, Crypto.rekeyAllowed, h]

/-- After a failed send no traffic starts a rekey any more; after a refused answer
the ticker does not either. -/
theorem rekey_switched_off :
    (∃ s, (machine 9 5).Reachable s ∧ s.client.closed = false ∧ 5 ≤ s.client.bytesConsumed ∧
      ¬s.Underway ∧ ∀ n, ∃ s', (machine 9 5).next s (.consumeBytes n) = some s' ∧ ¬s'.Underway) ∧
    (∃ s, (machine 9 5).Reachable s ∧ s.client.closed = false ∧ 5 ≤ s.client.bytesConsumed ∧
      ¬s.Underway ∧ ∀ since, (machine 9 5).next s (.tick since) = some s) := by
  constructor
  · have hrun : ((machine 9 5).exec { client := { timeThreshold := 9, bytesThreshold := 5 } }
        sendFailed).any (fun s => decide (s.client.closed = false ∧ 5 ≤ s.client.bytesConsumed ∧
          ¬s.Underway ∧ s.client.bytesTriggered = true)) = true := by
      decide
    obtain ⟨s, hs, hend⟩ := (Option.any_eq_true _ _).mp hrun
    obtain ⟨hopen, hover, hnone, htriggered⟩ := of_decide_eq_true hend
    refine ⟨s, TSys.Reachable.exec (.init rfl) hs, hopen, hover, hnone, ?_⟩
    intro n
    refine ⟨_, rfl, ?_⟩
    rw [triggers_triggered htriggered]
    exact hnone
  · have hrun : ((machine 9 5).exec { client := { timeThreshold := 9, bytesThreshold := 5 } }
        answerRefused).any (fun s => decide (s.client.closed = false ∧
          5 ≤ s.client.bytesConsumed ∧ ¬s.Underway ∧ s.client.rekeyInFlight = true)) = true := by
      decide
    obtain ⟨s, hs, hend⟩ := (Option.any_eq_true _ _).mp hrun
    obtain ⟨hopen, hover, hnone, hflight⟩ := of_decide_eq_true hend
    refine ⟨s, TSys.Reachable.exec (.init rfl) hs, hopen, hover, hnone, ?_⟩
    intro since
    exact congrArg some (startRekey_inFlight hflight since)

end Tsshd.Rekey.Trigger

import Tsshd.Output.Cells

/-!
# Cached output is flushed after a reconnect

A handler that caches output has seen the client silent. From then on it relies
on being told: whatever makes the checker report the client back spawns an
`onReconnected`, which flushes at once or, when a handler owns the token, leaves
`reconnectPending` for that handler's `endProcessing`.

* `Due` — if the client is back, a notification is on its way or pending;
* `Promise` — what the owner of the token owes at each point of its code: from
  an observed time-out on it relies on `Due`, inside `flushOutput` on nothing;
* `cache_not_stranded` — when nobody owns the token, nobody is about to be
  told and the client is there, the cache is empty.
-/

namespace Tsshd.Output

/-! ## Reconnects of other checkers -/

/-- A step of the session, or a checker that is not the session's reports its
client back, of which the session is not told. -/
inductive SessionAct
  | step (a : Act)
  | elsewhere (client : Nat)
deriving DecidableEq, Repr

def sessionNext (cfg : Config) (s : Sys) : SessionAct → Option Sys
  | .step a => next cfg s a
  | .elsewhere c =>
    if s.timedOut c && s.checker ≠ some c then
      some { s with timedOut := Function.update s.timedOut c false }
    else none

def sessionMachine (cfg : Config) : TSys Sys SessionAct where
  init s := s = start cfg
  next := sessionNext cfg

/-! ## The invariant -/

/-- If the client is back, somebody will flush. -/
def Sys.Due (s : Sys) : Prop :=
  s.isTimeout = false → 0 < s.notifications ∨ s.f.reconnectPending = true

/-- Nothing is cached, or somebody will flush. -/
def Sys.Settled (s : Sys) : Prop := s.f.cacheLines = [] ∨ s.Due

/-- What the owner of the token relies on, by its position. -/
def Promise (s : Sys) : Pc → Prop
  -- it will look at the checker itself
  | .flushBegin _ | .flushRedraw _ | .redrawStore _ | .redrawResize _ | .flushClear _
  | .flushWarn _ | .flushLine .. | .flushSend .. | .flushTimeout .. | .flushReturned ..
  | .flushWait .. => True
  -- it has seen the client silent and may cache
  | .checkKeep _ | .splitKeep _ | .sendKeep .. | .pullBack .. | .enqueue ..
  | .enqueueReturned .. | .enqueueWait .. | .errorReconnect => s.Due
  -- it will cache what remains
  | .send _ remaining | .sendTimeout _ remaining | .sendReconnect _ remaining
  | .sendReturned _ remaining | .sendWait _ remaining | .cacheRemaining remaining =>
    s.Settled ∧ (remaining = [] ∨ s.Due)
  | _ => s.Settled

structure Wakeful (s : Sys) : Prop where
  promise : Promise s s.pc
  idle : s.pc = .idle → s.f.reconnectPending = false
  owned : s.pc = .idle ↔ s.f.processing = false

section
variable {s t : Sys}

theorem Sys.due_of_timeout (h : s.isTimeout = true) : s.Due := by
  intro hback
  rw [h] at hback
  cases hback

/-- Whether a handler is running. -/
def Pc.busy : Pc → Bool
  | .idle => false
  | _ => true

theorem Pc.busy_ne_idle {pc : Pc} (h : pc.busy = true) : pc ≠ .idle := by
  intro hidle
  rw [hidle] at h
  cases h

/-- A step of the owner that keeps the token. -/
theorem Wakeful.owner (h : Wakeful s) (hpc : s.pc ≠ .idle) (hpc' : t.pc.busy = true)
    (hprocessing : t.f.processing = s.f.processing) (hp : Promise t t.pc) : Wakeful t where
  promise := hp
  idle hidle := absurd hidle (Pc.busy_ne_idle hpc')
  owned := by
    rw [hprocessing, ← h.owned]
    exact iff_of_false (Pc.busy_ne_idle hpc') hpc

/-- The token is taken. -/
theorem Wakeful.taken (hpc : t.pc.busy = true) (hprocessing : t.f.processing = true)
    (hp : Promise t t.pc) : Wakeful t where
  promise := hp
  idle hidle := absurd hidle (Pc.busy_ne_idle hpc)
  owned := iff_of_false (Pc.busy_ne_idle hpc) (by simp [hprocessing])

theorem promise_ret (ret : Ret) (h : s.Settled) : Promise s ret.pc := by
  cases ret <;> exact h

theorem Ret.pc_busy (ret : Ret) : ret.pc.busy = true := by
  cases ret <;> rfl

/-! ## The owner of the token -/

/-- Caching does not touch what has been promised. -/
theorem Sys.Due.cache (h : s.Due) (cfg : Config) (buf : Text) : (s.cache cfg buf).Due := by
  intro hback
  rcases h hback with hn | hp
  · exact .inl hn
  · exact .inr (by simpa [Sys.cache] using hp)

/-- `enqueueWhileDisconnected` starts behind an observed time-out. -/
theorem Wakeful.splitPulled (h : Wakeful s) (hne : s.pc ≠ .idle) (ht : t.Due)
    (hprocessing : t.f.processing = s.f.processing) (buf : Buf) (remaining : Text) :
    Wakeful (t.splitPulled buf remaining) := by
  unfold Sys.splitPulled
  split
  · split <;> exact h.owner hne rfl hprocessing ht
  · exact h.owner hne rfl hprocessing ht

theorem Wakeful.afterEnqueue (h : Wakeful s) (hne : s.pc ≠ .idle) (ht : t.Due)
    (hprocessing : t.f.processing = s.f.processing) (cfg : Config) (after : After)
    (remaining : Text) : Wakeful (t.afterEnqueue cfg after remaining) := by
  cases after with
  | count => exact h.owner hne rfl hprocessing ⟨.inr ht, .inr ht⟩
  | start => exact h.owner hne rfl hprocessing ⟨.inr ht, .inr ht⟩
  | left text =>
    simp only [Sys.afterEnqueue]
    split
    · exact h.owner hne rfl hprocessing ⟨.inr ht, .inr ht⟩
    · have hcached := ht.cache cfg text
      exact h.owner hne rfl (by simpa [Sys.cache, Sys.goto] using hprocessing)
        ⟨.inr hcached, .inr hcached⟩

/-- The steps of `handleBuffer`. What it caches it caches behind an observed
time-out, or flushes at once. -/
theorem Wakeful.bufferStep {cfg : Config} {ok : Bool} (h : Wakeful s)
    (hrole : s.pc.role = .buffer) (hret : s.f.returned = false) (herr : s.f.writeError = false)
    (hstep : ownerStep cfg ok s = some t) : Wakeful t := by
  have hne : s.pc ≠ .idle := by
    intro hidle
    rw [hidle] at hrole
    cases hrole
  have hp := h.promise
  unfold Output.ownerStep at hstep
  cases hpc : s.pc <;> rw [hpc] at hrole hp <;> simp only [hpc] at hstep
  case swapMarker buf =>
    split at hstep <;> cases hstep <;> exact h.owner hne rfl rfl hp
  case stopDiscard marker buf =>
    cases hstep
    exact h.owner hne rfl rfl hp
  case clearForMarker marker buf =>
    cases hstep
    exact h.owner hne rfl rfl (.inl rfl)
  case takeDiscard buf =>
    split at hstep <;> cases hstep <;> exact h.owner hne rfl rfl hp
  case clearForDiscard buf =>
    cases hstep
    exact h.owner hne rfl rfl (.inl rfl)
  case checkTimeout buf =>
    split at hstep <;> cases hstep
    · rename_i hseen
      have htimeout : s.isTimeout = true := ((Bool.and_eq_true _ _).mp hseen).2
      exact h.owner hne rfl rfl (s.due_of_timeout htimeout)
    · exact h.owner hne rfl rfl hp
  case checkKeep buf =>
    split at hstep <;> cases hstep
    · exact h.owner hne rfl (by simp [Sys.cache, Sys.goto]) (.inr (hp.cache cfg buf))
    · exact h.owner hne rfl rfl (.inr hp)
  case checkCache buf =>
    split at hstep <;> cases hstep
    · exact h.owner hne rfl rfl hp
    · exact h.owner hne rfl (by simp [Sys.cache, Sys.goto]) trivial
  case splitTimeout buf =>
    split at hstep <;> cases hstep
    · rename_i hseen
      exact h.owner hne rfl rfl (s.due_of_timeout hseen)
    · exact h.owner hne rfl rfl ⟨hp, .inl rfl⟩
  case splitKeep buf =>
    split at hstep
    · cases hstep
      exact h.owner hne rfl rfl ⟨.inr hp, .inl rfl⟩
    · split at hstep
      · cases hstep
        exact h.owner hne rfl rfl ⟨.inr hp, .inr hp⟩
      · split at hstep <;> cases hstep
        · exact h.owner hne rfl rfl ⟨.inr hp, .inl rfl⟩
        · refine h.owner hne rfl (by simp [Sys.cache, Sys.goto]) (.inr ?_)
          exact Sys.Due.cache (s := { s with f := { s.f with chHasNewLine := true } }) hp cfg buf
  case send buf remaining =>
    simp only [Sys.trySend] at hstep
    split at hstep <;> cases hstep <;> exact h.owner hne rfl rfl hp
  case sendTimeout buf remaining =>
    split at hstep <;> cases hstep
    · rename_i hseen
      exact h.owner hne rfl rfl (s.due_of_timeout hseen)
    · exact h.owner hne rfl rfl hp
  case sendKeep buf remaining =>
    split at hstep <;> cases hstep
    · exact h.owner hne rfl rfl ⟨.inr hp, .inr hp⟩
    · exact h.owner hne rfl rfl hp
  case pullBack buf remaining =>
    split at hstep <;> cases hstep
    · refine h.splitPulled hne ?_ ?_ _ _
      · exact hp
      · rfl
    · exact h.splitPulled hne hp rfl _ _
  case sendReturned buf remaining =>
    simp only [hret, herr, Bool.or_self, Bool.false_eq_true, if_false] at hstep
    cases hstep
    exact h.owner hne rfl rfl hp
  case enqueue buf after remaining =>
    simp only [Sys.trySend] at hstep
    split at hstep <;> cases hstep
    · refine h.afterEnqueue hne ?_ ?_ cfg after remaining
      · exact hp
      · rfl
    · exact h.owner hne rfl rfl hp
  case enqueueReturned buf after remaining =>
    simp only [hret, herr, Bool.or_self, Bool.false_eq_true, if_false] at hstep
    cases hstep
    exact h.owner hne rfl rfl hp
  case cacheRemaining remaining =>
    cases hstep
    split
    · exact h.owner hne rfl rfl hp.1
    · rename_i hrest
      have hdue := hp.2.resolve_left fun hnil => hrest (by rw [hnil]; rfl)
      exact h.owner hne rfl (by simp [Sys.cache, Sys.goto]) (.inr (hdue.cache cfg remaining))
  all_goals first | cases hrole; done | cases hstep

/-- The steps of `flushOutput`: it leaves with an empty cache or behind an
observed time-out. -/
theorem Wakeful.flushStep {cfg : Config} {ok : Bool} {ret : Ret} (h : Wakeful s)
    (hrole : s.pc.role = .flush ret) (hret : s.f.returned = false)
    (herr : s.f.writeError = false) (hstep : ownerStep cfg ok s = some t) : Wakeful t := by
  have hne : s.pc ≠ .idle := by
    intro hidle
    rw [hidle] at hrole
    cases hrole
  unfold Output.ownerStep at hstep
  cases hpc : s.pc <;> rw [hpc] at hrole <;> simp only [hpc] at hstep <;> cases hrole
  case flushBegin =>
    split at hstep
    · rename_i hleave
      cases hstep
      refine h.owner hne ret.pc_busy rfl (promise_ret ret ?_)
      rcases (Bool.or_eq_true _ _).mp hleave with hempty | htimeout
      · exact .inl (List.isEmpty_iff.mp hempty)
      · exact .inr (s.due_of_timeout htimeout)
    · split at hstep <;> cases hstep <;> exact h.owner hne rfl rfl trivial
  case flushRedraw =>
    split at hstep
    · cases hstep
      exact h.owner hne rfl rfl trivial
    · split at hstep <;> cases hstep <;> exact h.owner hne rfl rfl trivial
  case redrawStore =>
    cases hstep
    exact h.owner hne rfl rfl trivial
  case redrawResize =>
    split at hstep <;> cases hstep <;> exact h.owner hne rfl rfl trivial
  case flushClear =>
    cases hstep
    exact h.owner hne ret.pc_busy rfl (promise_ret ret (.inl rfl))
  case flushWarn =>
    cases hstep
    exact h.owner hne rfl rfl trivial
  case flushLine i =>
    split at hstep
    · cases hstep
      exact h.owner hne ret.pc_busy rfl (promise_ret ret (.inl rfl))
    · split at hstep <;> cases hstep <;> exact h.owner hne rfl rfl trivial
  case flushSend i line =>
    simp only [Sys.trySend] at hstep
    split at hstep <;> cases hstep
    · cases i <;> exact h.owner hne rfl rfl trivial
    · exact h.owner hne rfl rfl trivial
  case flushTimeout i line =>
    split at hstep <;> cases hstep
    · rename_i hseen
      have hdue := s.due_of_timeout hseen
      cases i <;> exact h.owner hne ret.pc_busy rfl (promise_ret ret (.inr hdue))
    · exact h.owner hne rfl rfl trivial
  case flushReturned i line =>
    simp only [hret, herr, Bool.or_self, Bool.false_eq_true, if_false] at hstep
    cases hstep
    exact h.owner hne rfl rfl trivial
  case flushWait i line => cases hstep

/-- The steps of `handleError`. -/
theorem Wakeful.errorStep {cfg : Config} {ok : Bool} (h : Wakeful s)
    (hrole : s.pc.role = .error) (hstep : ownerStep cfg ok s = some t) : Wakeful t := by
  have hne : s.pc ≠ .idle := by
    intro hidle
    rw [hidle] at hrole
    cases hrole
  have hp := h.promise
  unfold Output.ownerStep at hstep
  cases hpc : s.pc <;> rw [hpc] at hrole hp <;> simp only [hpc] at hstep <;> try cases hrole
  case errorLoop =>
    split at hstep <;> cases hstep <;> exact h.owner hne rfl rfl hp
  case errorTimeout =>
    split at hstep <;> cases hstep
    · rename_i hseen
      exact h.owner hne rfl rfl (s.due_of_timeout hseen)
    · exact h.owner hne rfl rfl trivial
  case errorReconnect => cases hstep

/-- `endProcessing` flushes for a pending notification before it gives the
token back. -/
theorem Wakeful.finishStep {cfg : Config} {ok : Bool} (h : Wakeful s) (hpc : s.pc = .endLoop)
    (hret : s.f.returned = false) (hstep : ownerStep cfg ok s = some t) : Wakeful t := by
  have hp := h.promise
  rw [hpc] at hp
  simp only [Output.ownerStep, hpc, hret, Bool.not_false, Bool.and_true] at hstep
  split at hstep <;> cases hstep
  · exact h.owner (by simp [hpc]) rfl rfl trivial
  · rename_i hnone
    exact ⟨hp, fun _ => Bool.eq_false_iff.mpr hnone, ⟨fun _ => rfl, fun _ => rfl⟩⟩

theorem Wakeful.ownerStep {cfg : Config} {ok : Bool} (h : Wakeful s)
    (hret : s.f.returned = false) (herr : s.f.writeError = false)
    (hstep : ownerStep cfg ok s = some t) : Wakeful t := by
  cases hrole : s.pc.role with
  | buffer => exact h.bufferStep hrole hret herr hstep
  | flush ret => exact h.flushStep hrole hret herr hstep
  | error => exact h.errorStep hrole hstep
  | finish =>
    have hpc : s.pc = .endLoop := by cases hp : s.pc <;> simp [hp, Pc.role] at hrole ⊢
    exact h.finishStep hpc hret hstep
  | idle =>
    have hpc : s.pc = .idle := by cases hp : s.pc <;> simp [hp, Pc.role] at hrole ⊢
    simp [Output.ownerStep, hpc] at hstep

/-- A wait ends, in what it waited for or, when the checker is closed, in the
end of the handler. -/
theorem Wakeful.wakeOwner {failed : Bool} (h : Wakeful s) (hstep : wakeOwner failed s = some t) :
    Wakeful t := by
  have hp := h.promise
  unfold Output.wakeOwner Output.wakeOwner.reconnected at hstep
  cases hpc : s.pc <;> rw [hpc] at hp <;> simp only [hpc] at hstep <;> try cases hstep
  case sendWait buf remaining =>
    split at hstep <;> cases hstep
    exact h.owner (by simp [hpc]) rfl rfl hp
  case enqueueWait buf after remaining =>
    split at hstep <;> cases hstep
    exact h.owner (by simp [hpc]) rfl rfl hp
  case flushWait ret i line =>
    split at hstep <;> cases hstep
    exact h.owner (by simp [hpc]) rfl rfl trivial
  case sendReconnect buf remaining =>
    split at hstep
    · split at hstep
      · split at hstep <;> cases hstep
        exact h.owner (by simp [hpc]) rfl rfl hp.1
      · cases hstep
    · split at hstep <;> cases hstep
      exact h.owner (by simp [hpc]) rfl rfl hp
  case errorReconnect =>
    split at hstep
    · split at hstep
      · split at hstep <;> cases hstep
        exact h.owner (by simp [hpc]) rfl rfl (.inr hp)
      · cases hstep
    · split at hstep <;> cases hstep
      exact h.owner (by simp [hpc]) rfl rfl trivial

/-! ## Everybody else -/

/-- A step beside the owner keeps every promise if the client's return is
announced. -/
theorem Wakeful.beside (h : Wakeful s) (hpc : t.pc = s.pc) (hlines : t.f.cacheLines = s.f.cacheLines)
    (hpending : s.pc = .idle → t.f.reconnectPending = s.f.reconnectPending)
    (hprocessing : t.f.processing = s.f.processing) (hdue : s.Due → t.Due) : Wakeful t := by
  have hsettled : s.Settled → t.Settled := by
    rintro (hempty | hd)
    · exact .inl (hlines.trans hempty)
    · exact .inr (hdue hd)
  constructor
  · have hp := h.promise
    rw [hpc]
    revert hp
    generalize s.pc = pc
    cases pc <;>
      first
        | exact fun hp => hsettled hp
        | exact fun hp => hdue hp
        | exact fun hp => ⟨hsettled hp.1, hp.2.imp id hdue⟩
        | exact fun _ => trivial
  · intro hidle
    rw [hpc] at hidle
    rw [hpending hidle]
    exact h.idle hidle
  · rw [hpc, hprocessing]
    exact h.owned

/-- A step that does not bring the client back. -/
theorem Sys.Due.mono (h : s.Due) (hback : t.isTimeout = false → s.isTimeout = false)
    (hnotifications : t.notifications = s.notifications)
    (hpending : t.f.reconnectPending = s.f.reconnectPending) : t.Due := by
  intro ht
  rw [hnotifications, hpending]
  exact h (hback ht)

/-- A time-out does not bring the client back. -/
theorem isTimeout_update (s : Sys) (c : Nat) :
    Sys.isTimeout { s with timedOut := Function.update s.timedOut c true } = false ↔
      s.checker ≠ some c ∧ s.isTimeout = false := by
  cases hchecker : s.checker with
  | none => simp [Sys.isTimeout, hchecker]
  | some d =>
    by_cases hd : d = c
    · subst hd
      simp [Sys.isTimeout, hchecker]
    · simp [Sys.isTimeout, hchecker, hd]

theorem Wakeful.opStep {cfg : Config} {ok : Bool} (h : Wakeful s)
    (hstep : opStep cfg ok s = some t) : Wakeful t := by
  unfold Output.opStep at hstep
  cases hop : s.op <;> simp only [hop] at hstep
  case free => cases hstep
  case detachChecker =>
    cases hstep
    exact h.beside rfl rfl (fun _ => rfl) rfl fun _ => Sys.due_of_timeout rfl
  case attachChecker client =>
    cases hstep
    exact h.beside rfl rfl (fun _ => rfl) rfl fun _ _ => .inl (Nat.succ_pos _)
  case attachRedraw client size =>
    split at hstep <;> cases hstep <;> exact h.beside rfl rfl (fun _ => rfl) rfl fun hd => hd
  case resizeStore size redraw marker =>
    split at hstep
    · cases hstep
      exact h.beside rfl rfl (fun _ => rfl) rfl fun hd => hd
    · split at hstep <;> cases hstep <;> exact h.beside rfl rfl (fun _ => rfl) rfl fun hd => hd
  all_goals
    cases hstep
    exact h.beside rfl rfl (fun _ => rfl) rfl fun hd => hd

/-- Without an owner the cache is settled. -/
theorem Wakeful.settled (h : Wakeful s) (hfree : s.f.processing = false) : s.Settled := by
  have hp := h.promise
  rw [h.owned.mpr hfree] at hp
  exact hp

theorem Wakeful.onReconnected {cfg : Config} (h : Wakeful s) (hret : s.f.returned = false)
    (hstep : next cfg s .onReconnected = some t) : Wakeful t := by
  simp only [next, hret, Bool.false_eq_true, if_false] at hstep
  split at hstep
  · cases hstep
  · split at hstep <;> cases hstep
    · rename_i hbusy
      refine h.beside rfl rfl ?_ rfl fun _ _ => .inr rfl
      intro hidle
      rw [h.owned.mp hidle] at hbusy
      cases hbusy
    · exact Wakeful.taken rfl rfl trivial

theorem Wakeful.next {cfg : Config} {a : Act} (h : Wakeful s) (hret : s.f.returned = false)
    (herr : s.f.writeError = false) (hstep : next cfg s a = some t) :
    t.f.returned = true ∨ t.f.writeError = true ∨ Wakeful t := by
  cases a with
  | owner ok => exact .inr (.inr (h.ownerStep hret herr hstep))
  | wake failed => exact .inr (.inr (h.wakeOwner hstep))
  | op ok => exact .inr (.inr (h.opStep hstep))
  | onReconnected => exact .inr (.inr (h.onReconnected hret hstep))
  | read bytes eof =>
    simp only [Output.next] at hstep
    split at hstep
    · split at hstep <;> cases hstep <;>
        exact .inr (.inr (h.beside rfl rfl (fun _ => rfl) rfl fun hd => hd))
    · cases hstep
  | begin =>
    simp only [Output.next] at hstep
    split at hstep
    · cases hstep
    · rename_i hfree
      have hsettled := h.settled (Bool.eq_false_iff.mpr hfree)
      split at hstep <;> cases hstep <;> exact .inr (.inr (Wakeful.taken rfl rfl hsettled))
  | shutdown =>
    simp only [Output.next] at hstep
    split at hstep
    · split at hstep <;> cases hstep
      exact .inl rfl
    · split at hstep <;> cases hstep
      exact .inr (.inr (h.beside rfl rfl (fun _ => rfl) rfl fun hd => hd))
    · cases hstep
  | dequeue =>
    simp only [Output.next] at hstep
    split at hstep <;> cases hstep
    exact .inr (.inr (h.beside rfl rfl (fun _ => rfl) rfl fun hd => hd))
  | write =>
    simp only [Output.next] at hstep
    split at hstep <;> cases hstep
    exact .inr (.inr (h.beside rfl rfl (fun _ => rfl) rfl fun hd => hd))
  | writeFail =>
    simp only [Output.next] at hstep
    split at hstep <;> cases hstep
    exact .inr (.inl rfl)
  | timeout c =>
    cases hstep
    refine .inr (.inr (h.beside rfl rfl (fun _ => rfl) rfl fun hd => hd.mono ?_ rfl rfl))
    intro hback
    rw [isTimeout_update] at hback
    exact hback.2
  | reconnect c =>
    simp only [Output.next] at hstep
    split at hstep <;> cases hstep
    exact .inr (.inr (h.beside rfl rfl (fun _ => rfl) rfl fun _ _ => .inl (Nat.succ_pos _)))
  | closeChecker c =>
    cases hstep
    exact .inr (.inr (h.beside rfl rfl (fun _ => rfl) rfl fun hd => hd))
  | setKeep c on =>
    cases hstep
    exact .inr (.inr (h.beside rfl rfl (fun _ => rfl) rfl fun hd => hd))
  | detach =>
    simp only [Output.next] at hstep
    split at hstep <;> cases hstep
    exact .inr (.inr (h.beside rfl rfl (fun _ => rfl) rfl fun hd => hd))
  | attach c size =>
    simp only [Output.next] at hstep
    split at hstep <;> cases hstep
    exact .inr (.inr (h.beside rfl rfl (fun _ => rfl) rfl fun hd => hd))
  | resize c size redraw marker =>
    simp only [Output.next] at hstep
    split at hstep <;> cases hstep
    exact .inr (.inr (h.beside rfl rfl (fun _ => rfl) rfl fun hd => hd))
  | closeSession =>
    cases hstep
    exact .inr (.inr (h.beside rfl rfl (fun _ => rfl) rfl fun hd => hd))
  | siblingRedraw =>
    simp only [Output.next] at hstep
    split at hstep <;> cases hstep
    exact .inr (.inr (h.beside rfl rfl (fun _ => rfl) rfl fun hd => hd))

/-- The forwarder does not return twice, and a write error stays. -/
theorem next_flags {cfg : Config} {a : Act} (hstep : next cfg s a = some t) :
    (s.f.returned = true → t.f.returned = true) ∧
      (s.f.writeError = true → t.f.writeError = true) := by
  cases a with
  | owner ok =>
    have henv := ownerStep_env hstep
    rw [henv.returned, henv.writeError]
    exact ⟨id, id⟩
  | wake failed =>
    obtain ⟨pc, rfl, -⟩ := wakeOwner_goto hstep
    exact ⟨id, id⟩
  | op ok =>
    simp only [Output.next, Output.opStep] at hstep
    repeat' split at hstep
    all_goals cases hstep
    all_goals exact ⟨id, id⟩
  | onReconnected =>
    simp only [Output.next] at hstep
    repeat' split at hstep
    all_goals cases hstep
    all_goals exact ⟨id, id⟩
  | shutdown =>
    simp only [Output.next] at hstep
    repeat' split at hstep
    all_goals cases hstep
    · exact ⟨fun _ => rfl, id⟩
    · exact ⟨id, id⟩
  | writeFail =>
    simp only [Output.next] at hstep
    split at hstep <;> cases hstep
    exact ⟨id, fun _ => rfl⟩
  | _ =>
    simp only [Output.next] at hstep
    repeat' split at hstep
    all_goals cases hstep
    all_goals exact ⟨id, id⟩

theorem Wakeful.elsewhere {cfg : Config} {c : Nat} (h : Wakeful s)
    (hstep : sessionNext cfg s (.elsewhere c) = some t) : Wakeful t := by
  simp only [sessionNext] at hstep
  split at hstep <;> cases hstep
  rename_i hother
  have hchecker : s.checker ≠ some c := of_decide_eq_true ((Bool.and_eq_true _ _).mp hother).2
  refine h.beside rfl rfl (fun _ => rfl) rfl fun hd => hd.mono ?_ rfl rfl
  intro hback
  cases hnow : s.checker with
  | none => simp [Sys.isTimeout, hnow] at hback
  | some d =>
    have hd : d ≠ c := fun h => hchecker (h ▸ hnow)
    simpa [Sys.isTimeout, hnow, hd] using hback

end

/-! ## Every run -/

/-- The promises hold until the forwarder returns or a write fails. -/
def Sys.Awake (s : Sys) : Prop := s.f.returned = true ∨ s.f.writeError = true ∨ Wakeful s

theorem Sys.Awake.next {cfg : Config} {s t : Sys} {a : SessionAct} (h : s.Awake)
    (hstep : sessionNext cfg s a = some t) : t.Awake := by
  have hflags : (s.f.returned = true → t.f.returned = true) ∧
      (s.f.writeError = true → t.f.writeError = true) := by
    cases a with
    | step a => exact next_flags hstep
    | elsewhere c =>
      simp only [sessionNext] at hstep
      split at hstep <;> cases hstep
      exact ⟨id, id⟩
  rcases h with hret | herr | hw
  · exact .inl (hflags.1 hret)
  · exact .inr (.inl (hflags.2 herr))
  · cases a with
    | elsewhere c => exact .inr (.inr (hw.elsewhere hstep))
    | step a =>
      cases hret : s.f.returned with
      | true => exact .inl (hflags.1 hret)
      | false =>
        cases herr : s.f.writeError with
        | true => exact .inr (.inl (hflags.2 herr))
        | false => exact hw.next hret herr hstep

theorem awake_reachable {cfg : Config} {s : Sys} (h : (sessionMachine cfg).Reachable s) :
    s.Awake := by
  refine TSys.ReachableVia.invariant ?_ (fun _ _ _ hs _ hstep => hs.next hstep) h
  rintro s rfl
  exact .inr (.inr ⟨.inl rfl, fun _ => rfl, ⟨fun _ => rfl, fun _ => rfl⟩⟩)

/-- Nothing stays in the cache once the client is back: while the forwarder
runs and no write failed, with no handler at work, no notification outstanding
and the client there, no line is cached. -/
theorem cache_not_stranded {cfg : Config} {s : Sys} (h : (sessionMachine cfg).Reachable s)
    (hret : s.f.returned = false) (herr : s.f.writeError = false)
    (hfree : s.f.processing = false) (hnone : s.notifications = 0)
    (hback : s.isTimeout = false) : s.f.cacheLines = [] := by
  rcases awake_reachable h with h | h | h
  · rw [h] at hret
    cases hret
  · rw [h] at herr
    cases herr
  · rcases h.settled hfree with hempty | hdue
    · exact hempty
    · rcases hdue hback with hn | hpending
      · omega
      · rw [h.idle (h.owned.mpr hfree)] at hpending
        cases hpending

/-- A line is queued; the client times out; the next chunk is cached; the
client returns and the notification flushes the cache. -/
def reconnectRun : List Act :=
  [Act.read (ascii "a\n") false, .begin] ++ handler 8 ++
    [Act.timeout 0, .read (ascii "b\nc\n") false, .begin] ++ handler 13 ++
    [Act.reconnect 0, .dequeue, .write, .onReconnected] ++ handler 7 ++
    [Act.dequeue, .write, .wake false] ++ handler 3

theorem cache_not_stranded_reconnect :
    ∃ s, (sessionMachine {}).Reachable s ∧ s.f.returned = false ∧ s.f.writeError = false ∧
      s.f.processing = false ∧ s.notifications = 0 ∧ s.isTimeout = false ∧
      s.input = plain (ascii "a\nb\nc\n") ∧ s.f.cacheLines = [] := by
  have hrun : ((sessionMachine {}).exec (start {}) (reconnectRun.map .step)).any (fun s =>
      s.f.returned = false ∧ s.f.writeError = false ∧ s.f.processing = false ∧
      s.notifications = 0 ∧ s.isTimeout = false ∧
      s.input = plain (ascii "a\nb\nc\n")) = true := by
    decide
  obtain ⟨s, hs, hend⟩ := (Option.any_eq_true _ _).mp hrun
  obtain ⟨hret, herr, hfree, hnone, hback, hinput⟩ := of_decide_eq_true hend
  have hreach : (sessionMachine {}).Reachable s := .exec (.init rfl) hs
  exact ⟨s, hreach, hret, herr, hfree, hnone, hback, hinput,
    cache_not_stranded hreach hret herr hfree hnone hback⟩

end Tsshd.Output

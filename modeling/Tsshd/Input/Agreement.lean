import Tsshd.Input.Discard

/-!
# The marker the server waits for is on its way

A session of the server that discards its input does so until it meets its
marker. The marker must therefore still be coming: its message is in flight, or
the client has it for the next input, or it is in the input stream.

The messages are sent by one goroutine each and nothing orders them. When the
message of an older marker arrives last, the client answers with a marker the
server no longer waits for, and the input of the session is swallowed
(`marker_overtaken`). Where they arrive in the order in which the markers were
drawn, the server's marker is always on its way (`marker_on_its_way`).
-/

namespace Tsshd.Input

/-! ## The input stream of a session -/

/-- What the client has taken in hand to write. -/
def ClientPc.hand : ClientPc → Text
  | .send (some m) buf => m.cells ++ buf
  | .send none buf => buf
  | _ => []

/-- What the server has read and not yet looked at. -/
def ServerPc.chunk : ServerPc → Text
  | .got chunk => chunk
  | .loaded _ chunk => chunk
  | _ => []

namespace Session

/-- The input in front of the server's next read. -/
def ahead (x : Session) : Text := x.wire ++ x.client.hand

/-- The whole input stream, from the input the server keeps for its search to
what the client has in hand. -/
def pipe (x : Session) : Text := x.discardedInput ++ x.server.chunk ++ x.ahead

/-- The marker is in the input stream, or the server has just found it there. -/
def InStream (x : Session) (m : Marker) : Prop :=
  m.cells <:+: x.pipe ∨ x.server = .clearing m

instance (x : Session) (m : Marker) : Decidable (x.InStream m) :=
  inferInstanceAs (Decidable (_ ∨ _))

end Session

/-- The server is going to look for `m` in what it has read. A loop that loaded
another marker, or none, is not. -/
def ServerPc.Seeks (m : Marker) : ServerPc → Prop
  | .loaded marker _ => marker = some m
  | _ => True

/-- `m` is in the stream at a place where the server will look for it. -/
def Session.Coming (x : Session) (m : Marker) : Prop :=
  x.server = .clearing m ∨ m.cells <:+: x.ahead ∨
    (m.cells <:+: x.pipe ∧ x.server.Seeks m)

theorem Session.Coming.inStream {x : Session} {m : Marker} (h : x.Coming m) : x.InStream m := by
  rcases h with h | h | ⟨h, _⟩
  · exact .inr h
  · exact .inl (h.trans (List.suffix_append _ _).isInfix)
  · exact .inl h

/-! ## One session -/

section

variable {x y : Session} {m : Marker}

/-- Steps of the client only lengthen the stream. -/
theorem Session.Coming.clientStep {drop : Bool} (h : x.Coming m)
    (hstep : x.clientStep drop = some y) :
    y.Coming m ∧ y.discardMarker = x.discardMarker := by
  have hmono : ∀ rest, y.ahead = x.ahead ++ rest → y.server = x.server →
      y.discardedInput = x.discardedInput → y.Coming m := by
    intro rest hahead hserver hdisc
    have hpipe : y.pipe = x.pipe ++ rest := by
      simp only [Session.pipe, hahead, hserver, hdisc, List.append_assoc]
    rcases h with h | h | ⟨h, hseeks⟩
    · exact .inl (hserver.trans h)
    · exact .inr (.inl (hahead ▸ h.trans (List.prefix_append _ _).isInfix))
    · exact .inr (.inr ⟨hpipe ▸ h.trans (List.prefix_append _ _).isInfix, hserver ▸ hseeks⟩)
  unfold Session.clientStep at hstep
  split at hstep
  case h_1 | h_2 => exact absurd hstep (by simp)
  case h_3 buf hpc =>
    split at hstep <;> cases hstep
    · exact ⟨hmono [] (by simp [Session.ahead, ClientPc.hand, hpc]) rfl rfl, rfl⟩
    · refine ⟨hmono (ClientPc.hand (.send x.inputMarker buf)) ?_ rfl rfl, rfl⟩
      simp [Session.ahead, ClientPc.hand, hpc]
  case h_4 m' buf hpc =>
    cases hstep
    exact ⟨hmono [] (by simp [Session.ahead, ClientPc.hand, hpc]) rfl rfl, rfl⟩
  case h_5 buf hpc =>
    cases hstep
    exact ⟨hmono [] (by simp [Session.ahead, ClientPc.hand, hpc]) rfl rfl, rfl⟩

/-- The server looks for the marker that is stored, or for an older one, which
cannot stand behind it. -/
theorem Session.Coming.serverStep (h : x.Coming m) (hm : x.discardMarker = some m)
    (hstep : x.serverStep none = some y) :
    y.discardMarker = none ∨ (y.discardMarker = some m ∧ y.Coming m) := by
  unfold Session.serverStep at hstep
  split at hstep
  case h_1 | h_2 => exact absurd hstep (by simp)
  case h_3 chunk hpc =>
    cases hstep
    refine .inr ⟨hm, ?_⟩
    rcases h with h | h | ⟨h, _⟩
    · exact absurd (hpc.symm.trans h) (by simp)
    · exact .inr (.inl h)
    · refine .inr (.inr ⟨?_, hm⟩)
      simpa [Session.pipe, ServerPc.chunk, Session.ahead, hpc] using h
  case h_4 marker chunk hpc =>
    cases hstep
    have hahead : x.pipe = (x.discardedInput ++ chunk) ++ x.ahead := by
      simp [Session.pipe, ServerPc.chunk, hpc]
    unfold Session.discardPendingInput
    dsimp only
    split
    · refine .inr ⟨hm, .inr ?_⟩
      rcases h with h | h | ⟨h, _⟩
      · exact absurd (hpc.symm.trans h) (by simp)
      · exact .inl h
      · refine .inr ⟨?_, trivial⟩
        rw [hahead] at h
        simpa [Session.pipe, ServerPc.chunk, Session.ahead] using h
    · refine .inr ⟨hm, ?_⟩
      rcases h with h | h | ⟨_, hseeks⟩
      · exact absurd (hpc.symm.trans h) (by simp)
      · exact .inr (.inl h)
      · rw [hpc] at hseeks
        obtain rfl : marker = m := by simpa [ServerPc.Seeks] using hseeks
        exact .inl rfl
  case h_5 chunk hpc =>
    cases hstep
    refine .inr ⟨hm, ?_⟩
    rcases h with h | h | ⟨_, hseeks⟩
    · exact absurd (hpc.symm.trans h) (by simp)
    · exact .inr (.inl h)
    · exact absurd hseeks (by simp [ServerPc.Seeks, hpc])
  case h_6 marker hpc =>
    cases hstep
    by_cases heq : x.discardMarker = some marker
    · exact .inl (by simp [heq])
    · refine .inr ⟨by simp only [if_neg heq]; exact hm, ?_⟩
      rcases h with h | h | ⟨h, _⟩
      · rw [hpc, ServerPc.clearing.injEq] at h
        exact absurd (h ▸ hm) heq
      · exact .inr (.inl h)
      · refine .inr (.inr ⟨?_, trivial⟩)
        simpa [Session.pipe, ServerPc.chunk, Session.ahead, hpc] using h

/-- No write fails in this step. -/
def Session.Event.succeeds : Session.Event → Bool
  | .clientFail _ => false
  | .server (some _) => false
  | _ => true

theorem Session.Coming.step {e : Session.Event} (h : x.Coming m) (hm : x.discardMarker = some m)
    (hok : e.succeeds = true) (hstep : x.step e = some y) :
    y.discardMarker = none ∨ (y.discardMarker = some m ∧ y.Coming m) := by
  cases e with
  | register =>
    simp only [Session.step, Option.ite_none_right_eq_some, Option.some.injEq] at hstep
    obtain ⟨_, rfl⟩ := hstep
    exact .inr ⟨hm, h⟩
  | start =>
    simp only [Session.step, Option.ite_none_right_eq_some, Option.some.injEq] at hstep
    obtain ⟨_, rfl⟩ := hstep
    exact .inr ⟨hm, h⟩
  | type bytes =>
    simp only [Session.step, Option.ite_none_right_eq_some, Option.some.injEq] at hstep
    obtain ⟨⟨_, hpc, _⟩, rfl⟩ := hstep
    refine .inr ⟨hm, ?_⟩
    simpa [Session.Coming, Session.pipe, Session.ahead, ClientPc.hand, hpc] using h
  | client drop =>
    obtain ⟨hy, hym⟩ := h.clientStep hstep
    exact .inr ⟨hym.trans hm, hy⟩
  | clientFail n => exact absurd hok (by simp [Session.Event.succeeds])
  | read n =>
    simp only [Session.step, Option.ite_none_right_eq_some, Option.some.injEq] at hstep
    obtain ⟨⟨_, hpc, _, _⟩, rfl⟩ := hstep
    refine .inr ⟨hm, .inr (.inr ⟨?_, trivial⟩)⟩
    -- reading moves a piece of the stream to the server
    have hpipe : x.pipe = x.discardedInput ++ x.wire.take n ++ (x.wire.drop n ++ x.client.hand) := by
      simp only [Session.pipe, ServerPc.chunk, Session.ahead, hpc, List.append_nil,
        List.append_assoc, ← List.append_assoc (x.wire.take n), List.take_append_drop]
    rcases h with h | h | ⟨h, _⟩
    · exact absurd (hpc.symm.trans h) (by simp)
    · have hp := h.trans (List.suffix_append (x.discardedInput ++ x.server.chunk) _).isInfix
      exact hpipe.subst hp
    · exact hpipe.subst h
  | server fail =>
    cases fail with
    | none => exact h.serverStep hm hstep
    | some n => exact absurd hok (by simp [Session.Event.succeeds])

end

/-- What a step of one session does to the fields that other steps read. -/
structure Session.Frame (x y : Session) : Prop where
  opened : y.opened = x.opened
  armed : y.armed = x.armed
  registered : y.registered = x.registered ∨ (x.opened = true ∧ y.registered = true)
  inputMarker : y.inputMarker = x.inputMarker ∨
    (y.inputMarker = none ∧ ∃ buf, y.client = .send x.inputMarker buf)
  discardMarker : y.discardMarker = x.discardMarker ∨ y.discardMarker = none

theorem Session.step_frame {x y : Session} {e : Session.Event} (h : x.step e = some y) :
    Session.Frame x y := by
  cases e with
  | register =>
    simp only [Session.step, Option.ite_none_right_eq_some, Option.some.injEq] at h
    obtain ⟨⟨hopened, _⟩, rfl⟩ := h
    exact ⟨rfl, rfl, .inr ⟨hopened, rfl⟩, .inl rfl, .inl rfl⟩
  | start | type _ | read _ =>
    simp only [Session.step, Option.ite_none_right_eq_some, Option.some.injEq] at h
    obtain ⟨_, rfl⟩ := h
    exact ⟨rfl, rfl, .inl rfl, .inl rfl, .inl rfl⟩
  | client drop =>
    simp only [Session.step, Session.clientStep] at h
    split at h
    case h_1 | h_2 => exact absurd h (by simp)
    case h_3 buf hpc =>
      split at h <;> cases h
      · exact ⟨rfl, rfl, .inl rfl, .inl rfl, .inl rfl⟩
      · exact ⟨rfl, rfl, .inl rfl, .inr ⟨rfl, buf, rfl⟩, .inl rfl⟩
    all_goals cases h; exact ⟨rfl, rfl, .inl rfl, .inl rfl, .inl rfl⟩
  | clientFail n =>
    simp only [Session.step, Session.clientFail] at h
    split at h
    case h_3 => exact absurd h (by simp)
    all_goals cases h; exact ⟨rfl, rfl, .inl rfl, .inl rfl, .inl rfl⟩
  | server fail =>
    simp only [Session.step, Session.serverStep] at h
    split at h
    case h_1 | h_2 => exact absurd h (by simp)
    case h_3 => cases h; exact ⟨rfl, rfl, .inl rfl, .inl rfl, .inl rfl⟩
    case h_4 marker chunk _ =>
      cases h
      unfold Session.discardPendingInput
      dsimp only
      split
      · exact ⟨rfl, rfl, .inl rfl, .inl rfl, .inl rfl⟩
      · cases fail <;> exact ⟨rfl, rfl, .inl rfl, .inl rfl, .inl rfl⟩
    case h_5 => cases h; cases fail <;> exact ⟨rfl, rfl, .inl rfl, .inl rfl, .inl rfl⟩
    case h_6 marker _ =>
      cases h
      refine ⟨rfl, rfl, .inl rfl, .inl rfl, ?_⟩
      dsimp only
      split
      · exact .inr rfl
      · exact .inl rfl

/-! ## The connection -/

/-- Messages arrive in the order in which their markers were drawn, every message
is sent, and no write fails. -/
def inOrder (_ : Sys) : Act → Bool
  | .deliver i => i = 0
  | .sendFailed _ => false
  | .session _ e => e.succeeds
  | _ => true

/-- The marker a session of the server waits for is the youngest drawn, and it is
on its way. -/
structure Awaited (bus : List Marker) (drawn : Nat) (x : Session) : Prop where
  opened : x.registered = true → x.opened = true
  registered : ∀ m, x.discardMarker = some m → x.registered = true
  youngest : ∀ m, x.discardMarker = some m → ∀ m' ∈ bus, m'.id ≤ m.id
  delivered : ∀ m, x.inputMarker = some m → m.id < drawn ∧ ∀ m' ∈ bus, m.id < m'.id
  coming : ∀ m, x.discardMarker = some m →
    m ∈ bus ∨ x.inputMarker = some m ∨ x.Coming m

structure Agrees (s : Sys) : Prop where
  drawn : ∀ m ∈ s.bus, m.id < s.drawn
  sorted : s.bus.Pairwise (·.id < ·.id)
  sessions : ∀ j, Awaited s.bus s.drawn (s.sessions j)

theorem Agrees.init {s : Sys} (h : machine.init s) : Agrees s := by
  obtain ⟨index, rfl⟩ := h
  refine ⟨by simp, by simp, ?_⟩
  intro j
  exact ⟨by simp, by simp, by simp, by simp, by simp⟩

theorem Awaited.step {bus : List Marker} {drawn : Nat} {x y : Session} {e : Session.Event}
    (h : Awaited bus drawn x) (hok : e.succeeds = true) (hstep : x.step e = some y) :
    Awaited bus drawn y := by
  have hf := Session.step_frame hstep
  have hback : ∀ m, y.discardMarker = some m → x.discardMarker = some m := by
    intro m hm
    rcases hf.discardMarker with hd | hd
    · exact hd.symm.trans hm
    · exact absurd (hd.symm.trans hm) (by simp)
  refine ⟨?_, ?_, ?_, ?_, ?_⟩
  · intro hr
    rw [hf.opened]
    rcases hf.registered with hx | ⟨hopened, _⟩
    · exact h.opened (hx.symm.trans hr)
    · exact hopened
  · intro m hm
    rcases hf.registered with hx | ⟨_, hr⟩
    · exact hx.trans (h.registered m (hback m hm))
    · exact hr
  · intro m hm
    exact h.youngest m (hback m hm)
  · intro m hm
    rcases hf.inputMarker with hi | ⟨hi, _⟩
    · exact h.delivered m (hi.symm.trans hm)
    · exact absurd (hi.symm.trans hm) (by simp)
  · intro m hm
    rcases h.coming m (hback m hm) with hbus | hi | hcoming
    · exact .inl hbus
    · -- the client still has the marker, or it has just taken it in hand
      rcases hf.inputMarker with hsame | ⟨_, buf, hpc⟩
      · exact .inr (.inl (hsame.trans hi))
      · refine .inr (.inr (.inr (.inl ?_)))
        rw [Session.ahead, hpc, hi]
        exact ⟨y.wire, buf, by simp [ClientPc.hand]⟩
    · rcases hcoming.step (hback m hm) hok hstep with hnone | ⟨_, hy⟩
      · exact absurd (hnone.symm.trans hm) (by simp)
      · exact .inr (.inr hy)

/-- Drawing a marker: it is the youngest, and its message is in flight. -/
theorem Agrees.reconnect {s : Sys} (h : Agrees s) : Agrees s.enablePendingInputDiscard := by
  unfold Sys.enablePendingInputDiscard
  split
  · exact h
  have hnew : ∀ m ∈ s.bus, m.id < s.nextMarker.id := h.drawn
  refine ⟨?_, ?_, ?_⟩
  · intro m hm
    show m.id < s.drawn + 1
    rcases List.mem_append.mp hm with hm | hm
    · exact Nat.lt_succ_of_lt (h.drawn m hm)
    · rw [List.mem_singleton.mp hm]
      exact Nat.lt_succ_self _
  · refine List.pairwise_append.mpr ⟨h.sorted, List.pairwise_singleton _ _, ?_⟩
    intro m hm m' hm'
    rw [List.mem_singleton.mp hm']
    exact hnew m hm
  intro j
  have hx := h.sessions j
  have hdelivered : ∀ m, (s.sessions j).inputMarker = some m →
      m.id < s.drawn + 1 ∧ ∀ m' ∈ s.bus ++ [s.nextMarker], m.id < m'.id := by
    intro m hm
    obtain ⟨hlt, hbus⟩ := hx.delivered m hm
    refine ⟨Nat.lt_succ_of_lt hlt, ?_⟩
    intro m' hm'
    rcases List.mem_append.mp hm' with hm' | hm'
    · exact hbus m' hm'
    · rw [List.mem_singleton.mp hm']
      exact hlt
  dsimp only
  by_cases hreg : (s.sessions j).registered = true
  · rw [if_pos hreg]
    refine ⟨hx.opened, fun _ _ => hreg, ?_, hdelivered, ?_⟩
    · intro m hm m' hm'
      obtain rfl : s.nextMarker = m := by simpa using hm
      rcases List.mem_append.mp hm' with hm' | hm'
      · exact Nat.le_of_lt (hnew m' hm')
      · rw [List.mem_singleton.mp hm']
    · intro m hm
      obtain rfl : s.nextMarker = m := by simpa using hm
      exact .inl (by simp)
  · rw [if_neg hreg]
    have hnone : ∀ m, (s.sessions j).discardMarker ≠ some m := fun m hm =>
      hreg (hx.registered m hm)
    exact ⟨hx.opened, hx.registered, fun m hm => absurd hm (hnone m), hdelivered,
      fun m hm => absurd hm (hnone m)⟩

/-- The oldest message arrives. A session whose marker is already with the
client has no message in flight, so nothing is overwritten. -/
theorem Agrees.deliver {s : Sys} {m : Marker} {rest : List Marker} (h : Agrees s)
    (hbus : s.bus = m :: rest) : Agrees { s.handleDiscardEvent m with bus := rest } := by
  have hsorted := h.sorted
  rw [hbus] at hsorted
  obtain ⟨hfirst, hrest⟩ := List.pairwise_cons.mp hsorted
  have hsub : ∀ m' ∈ rest, m' ∈ s.bus := fun m' hm' => hbus ▸ List.mem_cons_of_mem m hm'
  refine ⟨fun m' hm' => h.drawn m' (hsub m' hm'), hrest, ?_⟩
  intro j
  have hx := h.sessions j
  have hyoungest : ∀ m', (s.sessions j).discardMarker = some m' → ∀ m'' ∈ rest, m''.id ≤ m'.id :=
    fun m' hm' m'' hm'' => hx.youngest m' hm' m'' (hsub m'' hm'')
  dsimp only [Sys.handleDiscardEvent]
  by_cases hopen : (s.sessions j).opened = true
  · rw [if_pos hopen]
    refine ⟨hx.opened, hx.registered, hyoungest, ?_, ?_⟩
    · intro m' hm'
      obtain rfl : m = m' := by simpa using hm'
      exact ⟨h.drawn m (by rw [hbus]; exact List.mem_cons_self), hfirst⟩
    · intro m' hm'
      rcases hx.coming m' hm' with hin | hin | hcoming
      · rw [hbus] at hin
        rcases List.mem_cons.mp hin with rfl | hin
        · exact .inr (.inl rfl)
        · exact .inl hin
      · have hle := hx.youngest m' hm' m (by rw [hbus]; exact List.mem_cons_self)
        have hlt := (hx.delivered m' hin).2 m (by rw [hbus]; exact List.mem_cons_self)
        omega
      · exact .inr (.inr hcoming)
  · rw [if_neg hopen]
    have hnone : ∀ m', (s.sessions j).discardMarker ≠ some m' := fun m' hm' =>
      hopen (hx.opened (hx.registered m' hm'))
    refine ⟨hx.opened, hx.registered, hyoungest, ?_, fun m' hm' => absurd hm' (hnone m')⟩
    intro m' hm'
    exact ⟨(hx.delivered m' hm').1, fun m'' hm'' => (hx.delivered m' hm').2 m'' (hsub m'' hm'')⟩

theorem Agrees.update {s : Sys} {j : Nat} {y : Session} (h : Agrees s)
    (hy : Awaited s.bus s.drawn y) : Agrees (s.update j y) := by
  refine ⟨h.drawn, h.sorted, ?_⟩
  intro k
  by_cases hk : k = j
  · subst hk
    simpa [Sys.update] using hy
  · simpa [Sys.update, Function.update_of_ne hk] using h.sessions k

theorem Agrees.next {s t : Sys} {a : Act} (h : Agrees s) (hok : inOrder s a = true)
    (hn : next s a = some t) : Agrees t := by
  cases a with
  | newSession =>
    simp only [Input.next, Option.some.injEq] at hn
    subst hn
    have hs : Agrees { s with sessionID := s.sessionID + 1 } := ⟨h.drawn, h.sorted, h.sessions⟩
    have hx := h.sessions s.sessionID
    exact hs.update ⟨fun _ => rfl, hx.registered, hx.youngest, hx.delivered, hx.coming⟩
  | setKeep on =>
    simp only [Input.next, Option.some.injEq] at hn
    subst hn
    exact ⟨h.drawn, h.sorted, h.sessions⟩
  | reconnect =>
    simp only [Input.next, Option.some.injEq] at hn
    exact hn ▸ h.reconnect
  | deliver i =>
    obtain rfl : i = 0 := by simpa [inOrder] using hok
    obtain ⟨m, hm, rfl⟩ := Option.map_eq_some_iff.mp hn
    cases hbus : s.bus with
    | nil => exact absurd hm (by simp [hbus])
    | cons m' rest =>
      obtain rfl : m' = m := by simpa [hbus] using hm
      exact h.deliver hbus
  | sendFailed i => exact absurd hok (by simp [inOrder])
  | session j e =>
    obtain ⟨y, hy, rfl⟩ := Option.map_eq_some_iff.mp hn
    exact h.update ((h.sessions j).step hok hy)

/-- When no discard message is in flight, the marker a session of the server
waits for is the one the client puts in front of its next input, or is in the
input stream. -/
theorem marker_on_its_way {s : Sys}
    (h : machine.ReachableVia (fun s a => inOrder s a = true) s) (hbus : s.bus = []) {j : Nat}
    {m : Marker} (hm : (s.sessions j).discardMarker = some m) :
    (s.sessions j).inputMarker = some m ∨ (s.sessions j).InStream m := by
  have hs : Agrees s :=
    h.invariant (fun _ => Agrees.init) fun _ _ _ hs hok hn => hs.next hok hn
  rcases (hs.sessions j).coming m hm with hin | hin | hcoming
  · rw [hbus] at hin
    exact absurd hin (by simp)
  · exact .inl hin
  · exact .inr hcoming.inStream

/-- The client opens session 0, and the server starts it. -/
def opening : List Act := [.newSession, .session 0 .register, .session 0 .start]

/-- Two reconnects whose messages arrive in order, then the user types; the
marker is taken in hand, and half of it is read. -/
def answered : List Act :=
  opening ++ [Act.reconnect, .reconnect, .deliver 0, .deliver 0, .session 0 (.type [97]),
    .session 0 (.client false), .session 0 (.client false), .session 0 (.read 4)]

theorem marker_on_its_way_typed :
    ∃ s, machine.execWhile inOrder {} answered = some s ∧ s.bus = [] ∧
      (s.sessions 0).discardMarker = some ⟨1, 2⟩ ∧ (s.sessions 0).inputMarker = none ∧
      (s.sessions 0).InStream ⟨1, 2⟩ := by
  have hrun : (machine.execWhile inOrder {} answered).any (fun s =>
      s.bus = [] ∧ (s.sessions 0).discardMarker = some ⟨1, 2⟩ ∧
        (s.sessions 0).inputMarker = none) = true := by
    decide
  obtain ⟨s, hs, hend⟩ := (Option.any_eq_true _ _).mp hrun
  obtain ⟨hbus, hdiscard, hinput⟩ := of_decide_eq_true hend
  have hreach : machine.ReachableVia (fun s a => inOrder s a = true) s :=
    .execWhile (fun _ _ h => h) (.init ⟨0, rfl⟩) hs
  refine ⟨s, hs, hbus, hdiscard, hinput, ?_⟩
  rcases marker_on_its_way hreach hbus hdiscard with h | h
  · exact absurd (hinput.symm.trans h) (by simp)
  · exact h

/-! ## Messages out of order -/

/-- The message of the second marker arrives before that of the first. -/
def overtaken : List Act := opening ++ [Act.reconnect, .reconnect, .deliver 1, .deliver 0]

/-- The server waits for the second marker; the client has the first one, and
no message is in flight. -/
theorem marker_overtaken :
    ∃ s, machine.Reachable s ∧ s.bus = [] ∧ (s.sessions 0).discardMarker = some ⟨1, 2⟩ ∧
      (s.sessions 0).inputMarker = some ⟨0, 1⟩ ∧ ¬ (s.sessions 0).InStream ⟨1, 2⟩ := by
  have hrun : (machine.exec {} overtaken).any (fun s =>
      s.bus = [] ∧ (s.sessions 0).discardMarker = some ⟨1, 2⟩ ∧
        (s.sessions 0).inputMarker = some ⟨0, 1⟩ ∧ ¬ (s.sessions 0).InStream ⟨1, 2⟩) = true := by
    decide
  obtain ⟨s, hs, hend⟩ := (Option.any_eq_true _ _).mp hrun
  obtain ⟨hbus, hdiscard, hinput, hstream⟩ := of_decide_eq_true hend
  exact ⟨s, .exec (.init ⟨0, rfl⟩) hs, hbus, hdiscard, hinput, hstream⟩

end Tsshd.Input

import Tsshd.Proxy.Packet

/-!
# One connection, read call by call

The abstract side of the TCP de-multiplexer: one connection on which
`recvUdpPacket` is called again and again, at the grain of single `Read` calls.
Nothing here knows of goroutines, signals or other connections.

* a `Track` is the connection with the point reached in the current call;
* `Track.Step` lists what can happen to it, its removal by others included;
* `Track.Sound` ties it to `recvPackets`: what has been returned is what
  `recvPackets` returns on the whole stream, and the call that is under way will
  end as `recvUdpPacket` does. Every step keeps it (`Sound.step`).
-/

namespace Tsshd.Proxy

/-- Why a frame is not returned. -/
inductive FrameError
  | shortBuffer
  | io (e : IoError)
deriving DecidableEq, Repr

/-- Where the current call is. -/
inductive View
  /-- Nothing of the next frame has been read. -/
  | fresh
  | header (got : List UInt8)
  /-- The header is read. -/
  | length (n : Nat)
  | body (size n : Nat) (got : List UInt8)
  | result (size : Nat) (res : Except FrameError (List UInt8))
  /-- No further call. -/
  | over

/-- A connection and what has been read from it. -/
structure Track where
  stream : Stream
  closed : Bool
  view : View
  /-- The frames returned, each with the size of the buffer. -/
  frames : List (Nat × List UInt8)
  /-- Somebody has taken the connection out of use. -/
  removed : Bool
  /-- The size of the buffer of the call that failed. -/
  failed : Option Nat

/-- One round of `io.ReadFull` on a connection. -/
def connRound (closed : Bool) (need : Nat) (got : List UInt8) (s : Stream) :
    Stream.Round × Stream :=
  if closed then (Stream.round need got [] (some .closed), s) else s.readRound need got

namespace Track

def readHeader (t : Track) (got : List UInt8) : Track :=
  match connRound t.closed 2 got t.stream with
  | (.more got', s) => { t with stream := s, view := .header got' }
  | (.full got', s) => { t with stream := s, view := .length (beNat got') }
  | (.failed _, s) => { t with stream := s, view := .over }

/-- The buffer of the call is known. -/
def take (t : Track) (size n : Nat) : Track :=
  { t with view := if size < n then .result size (.error .shortBuffer) else .body size n [] }

def readBody (t : Track) (size n : Nat) (got : List UInt8) : Track :=
  if n ≤ got.length then { t with view := .result size (.ok got) }
  else
    match connRound t.closed n got t.stream with
    | (.more got', s) => { t with stream := s, view := .body size n got' }
    | (.full got', s) => { t with stream := s, view := .result size (.ok got') }
    | (.failed e, s) => { t with stream := s, view := .result size (.error (.io e)) }

/-- The call returns. -/
def finish (t : Track) (size : Nat) : Except FrameError (List UInt8) → Track
  | .ok frame => { t with view := .fresh, frames := t.frames ++ [(size, frame)] }
  | .error _ => { t with view := .over, failed := some size }

/-- What can happen. -/
inductive Step (t : Track) : Track → Prop
  | same : Step t t
  | remove : Step t { t with removed := true }
  | close (h : t.removed = true ∨ t.view = .over) : Step t { t with closed := true }
  | enter (h : t.view = .fresh) : Step t { t with view := .header [] }
  | leave (h : t.view = .fresh) (hremoved : t.removed = true) : Step t { t with view := .over }
  | header {got : List UInt8} (h : t.view = .header got) : Step t (t.readHeader got)
  | take (size : Nat) {n : Nat} (h : t.view = .length n) : Step t (t.take size n)
  | body {size n : Nat} {got : List UInt8} (h : t.view = .body size n got) :
      Step t (t.readBody size n got)
  | finish {size : Nat} {res : Except FrameError (List UInt8)} (h : t.view = .result size res) :
      Step t (t.finish size res)

/-- The next call fails, with a buffer of this size. -/
def Fails (s : Stream) (size : Nat) : Prop := ∃ e, (recvUdpPacket size s).1 = .error e

/-- Where the connection stands when the current call began at `before`. -/
def At (t : Track) (before : Stream) : Prop :=
  match t.view with
  | .fresh => t.stream = before
  | .header got => got.length < 2 ∧ t.stream.resume 2 got = before.readFull 2
  | .length n => ∃ buf, before.readFull 2 = (.ok buf, t.stream) ∧ n = beNat buf
  | .body size n got => ∃ buf mid, before.readFull 2 = (.ok buf, mid) ∧ n = beNat buf ∧ n ≤ size ∧
      got.length ≤ n ∧ t.stream.resume n got = mid.readFull n
  | .result size (.ok frame) => recvUdpPacket size before = (.ok frame, t.stream)
  | .result size (.error _) => t.removed = true ∨ Fails before size
  | .over => t.removed = true ∨ (∀ size, Fails before size) ∨
      ∃ size, t.failed = some size ∧ Fails before size

/-- The connection is read as `recvPackets` reads it alone. -/
structure Sound (all : Stream) (t : Track) : Prop where
  closed : t.closed = true → t.removed = true ∨ t.view = .over
  ended : t.failed ≠ none → t.view = .over
  alone : ∃ before, recvPackets (t.frames.map Prod.fst) all = (t.frames.map Prod.snd, none, before) ∧
    t.At before

end Track

/-! ## `recvPackets` call by call -/

theorem recvPackets_concat {sizes : List Nat} {all before after : Stream}
    {packets : List (List UInt8)} {data : List UInt8} {size : Nat}
    (h : recvPackets sizes all = (packets, none, before))
    (hnext : recvUdpPacket size before = (.ok data, after)) :
    recvPackets (sizes ++ [size]) all = (packets ++ [data], none, after) := by
  induction sizes generalizing all packets with
  | nil =>
    obtain ⟨rfl, rfl⟩ : [] = packets ∧ all = before := by
      simpa [recvPackets] using h
    simp only [List.nil_append, recvPackets, hnext]
  | cons k sizes ih =>
    simp only [List.cons_append, recvPackets] at h ⊢
    generalize recvUdpPacket k all = r at h ⊢
    obtain ⟨res, s'⟩ := r
    cases res with
    | error e => simp at h
    | ok first =>
      dsimp only at h ⊢
      generalize hrest : recvPackets sizes s' = rest at h
      obtain ⟨packets', ending⟩ := rest
      obtain ⟨rfl, rfl⟩ : first :: packets' = packets ∧ ending = (none, before) := by
        simpa using h
      rw [ih hrest]
      rfl

section OneCall

variable {before mid after : Stream} {buf : List UInt8} {size : Nat}

theorem recvUdpPacket_done {data : List UInt8} (hheader : before.readFull 2 = (.ok buf, mid))
    (hsize : beNat buf ≤ size) (hbody : mid.readFull (beNat buf) = (.ok data, after)) :
    recvUdpPacket size before = (.ok data, after) := by
  simp only [recvUdpPacket, hheader, Nat.not_lt.mpr hsize, if_false, hbody]

theorem fails_of_header {e : IoError} (hheader : before.readFull 2 = (.error e, mid))
    (size : Nat) : Track.Fails before size :=
  ⟨.io e, by simp only [recvUdpPacket, hheader]⟩

theorem fails_of_short (hheader : before.readFull 2 = (.ok buf, mid)) (hsize : size < beNat buf) :
    Track.Fails before size :=
  ⟨.outOfRange (beNat buf) size, by simp only [recvUdpPacket, hheader, hsize, if_true]⟩

theorem fails_of_body {e : IoError} (hheader : before.readFull 2 = (.ok buf, mid))
    (hsize : beNat buf ≤ size) (hbody : mid.readFull (beNat buf) = (.error e, after)) :
    Track.Fails before size :=
  ⟨.io e, by simp only [recvUdpPacket, hheader, Nat.not_lt.mpr hsize, if_false, hbody]⟩

end OneCall

/-! ## One round -/

/-- Rounds go on only while something is missing. -/
theorem round_more {need : Nat} {got got' bs : List UInt8} {err : Option IoError}
    (h : Stream.round need got bs err = .more got') : got'.length < need := by
  unfold Stream.round at h
  split at h
  · cases h
  · rename_i hshort
    cases err with
    | some e => cases h
    | none =>
      cases h
      exact Nat.lt_of_not_le hshort

/-- What a round does to a connection in the middle of `io.ReadFull`: it fails
because the connection is closed, or it takes the loop one round further. -/
theorem connRound_cases (closed : Bool) (s : Stream) {need : Nat} {got : List UInt8}
    (hlt : got.length < need) :
    (closed = true ∧ ∃ e, connRound closed need got s = (.failed e, s)) ∨
    (∃ got' s', connRound closed need got s = (.more got', s') ∧ got'.length < need ∧
      s.resume need got = s'.resume need got') ∨
    (∃ got' s', connRound closed need got s = (.full got', s') ∧
      s.resume need got = (.ok got', s')) ∨
    (∃ e s', connRound closed need got s = (.failed e, s') ∧ s.resume need got = (.error e, s')) := by
  cases closed with
  | true =>
    refine .inl ⟨rfl, .closed, ?_⟩
    simp [connRound, Stream.round, Nat.not_le.mpr hlt]
  | false =>
    right
    have hresume := s.resume_round hlt
    have hmore : ∀ got', (s.readRound need got).1 = .more got' → got'.length < need :=
      fun got' h => round_more h
    simp only [connRound, Bool.false_eq_true, if_false]
    generalize s.readRound need got = r at hresume hmore ⊢
    obtain ⟨res, s'⟩ := r
    cases res with
    | more got' => exact .inl ⟨got', s', rfl, hmore got' rfl, hresume⟩
    | full got' => exact .inr (.inl ⟨got', s', rfl, hresume⟩)
    | failed e => exact .inr (.inr ⟨e, s', rfl, hresume⟩)

/-! ## Steps -/

namespace Track

variable {t u : Track} {before all : Stream}

theorem At.remove (h : t.At before) : At { t with removed := true } before := by
  unfold At at h ⊢
  cases hview : t.view with
  | result size res =>
    rw [hview] at h
    cases res with
    | ok frame => exact h
    | error e => exact .inl rfl
  | fresh | header | length | body =>
    rw [hview] at h
    exact h
  | _ => exact .inl rfl

theorem At.close (h : t.At before) : At { t with closed := true } before := h

theorem At.enter (hview : t.view = .fresh) (h : t.At before) :
    At { t with view := .header [] } before := by
  simp only [At, hview] at h
  refine ⟨by decide, ?_⟩
  rw [Stream.resume_nil, h]

theorem At.header {got : List UInt8} (hclosed : t.closed = true → t.removed = true)
    (hview : t.view = .header got) (h : t.At before) : (t.readHeader got).At before := by
  simp only [At, hview] at h
  obtain ⟨hlt, hresume⟩ := h
  unfold readHeader
  obtain ⟨hc, e, hr⟩ | ⟨got', s', hr, hlt', hs⟩ | ⟨got', s', hr, hs⟩ | ⟨e, s', hr, hs⟩ :=
    connRound_cases t.closed t.stream hlt
  · rw [hr]
    exact .inl (hclosed hc)
  · rw [hr]
    exact ⟨hlt', hs.symm.trans hresume⟩
  · rw [hr]
    exact ⟨got', hresume.symm.trans hs, rfl⟩
  · rw [hr]
    exact .inr (.inl (fails_of_header (hresume.symm.trans hs)))

theorem At.take (size : Nat) {n : Nat} (hview : t.view = .length n) (h : t.At before) :
    (t.take size n).At before := by
  simp only [At, hview] at h
  obtain ⟨buf, hheader, rfl⟩ := h
  unfold Track.take At
  by_cases hsize : size < beNat buf
  · simp only [hsize, if_true]
    exact .inr (fails_of_short hheader hsize)
  · simp only [hsize, if_false]
    exact ⟨buf, t.stream, hheader, rfl, Nat.le_of_not_lt hsize, Nat.zero_le _, rfl⟩

theorem At.body {size n : Nat} {got : List UInt8} (hclosed : t.closed = true → t.removed = true)
    (hview : t.view = .body size n got) (h : t.At before) : (t.readBody size n got).At before := by
  simp only [At, hview] at h
  obtain ⟨buf, mid, hheader, rfl, hsize, -, hresume⟩ := h
  unfold readBody
  by_cases hfull : beNat buf ≤ got.length
  · have hdone : t.stream.resume (beNat buf) got = (.ok got, t.stream) := by
      simp only [Stream.resume, Stream.readLoop_done (Nat.not_lt.mpr hfull), hfull, if_true]
    rw [if_pos hfull]
    exact recvUdpPacket_done hheader hsize (hresume.symm.trans hdone)
  · rw [if_neg hfull]
    obtain ⟨hc, e, hr⟩ | ⟨got', s', hr, hlt', hs⟩ | ⟨got', s', hr, hs⟩ | ⟨e, s', hr, hs⟩ :=
      connRound_cases t.closed t.stream (Nat.lt_of_not_le hfull)
    · rw [hr]
      exact .inl (hclosed hc)
    · rw [hr]
      exact ⟨buf, mid, hheader, rfl, hsize, Nat.le_of_lt hlt', hs.symm.trans hresume⟩
    · rw [hr]
      exact recvUdpPacket_done hheader hsize (hresume.symm.trans hs)
    · rw [hr]
      exact .inr (fails_of_body hheader hsize (hresume.symm.trans hs))

theorem readHeader_frame (t : Track) (got : List UInt8) :
    (t.readHeader got).closed = t.closed ∧ (t.readHeader got).removed = t.removed ∧
    (t.readHeader got).failed = t.failed ∧ (t.readHeader got).frames = t.frames := by
  unfold readHeader
  split <;> exact ⟨rfl, rfl, rfl, rfl⟩

theorem readBody_frame (t : Track) (size n : Nat) (got : List UInt8) :
    (t.readBody size n got).closed = t.closed ∧ (t.readBody size n got).removed = t.removed ∧
    (t.readBody size n got).failed = t.failed ∧ (t.readBody size n got).frames = t.frames := by
  unfold readBody
  split
  · exact ⟨rfl, rfl, rfl, rfl⟩
  · split <;> exact ⟨rfl, rfl, rfl, rfl⟩

/-- A connection that is still read stays in line when the step changes neither
what it has returned nor what has become of it. -/
theorem Sound.frame (h : Sound all t) (hview : t.view ≠ .over) (hclosed : u.closed = t.closed)
    (hremoved : u.removed = t.removed) (hfailed : u.failed = t.failed) (hframes : u.frames = t.frames)
    (hat : ∀ before, t.At before → u.At before) : Sound all u := by
  obtain ⟨before, halone, h0⟩ := h.alone
  refine ⟨fun hc => .inl ?_, fun hf => absurd (h.ended (hfailed ▸ hf)) hview, before, ?_, hat before h0⟩
  · rw [hremoved]
    exact (h.closed (hclosed ▸ hc)).resolve_right hview
  · rw [hframes]
    exact halone

/-- **One connection.** Every step keeps the connection in line with what
`recvPackets` does alone. -/
theorem Sound.step (h : Sound all t) (hstep : t.Step u) : Sound all u := by
  have hgone : t.view ≠ .over → t.closed = true → t.removed = true :=
    fun hview hc => (h.closed hc).resolve_right hview
  obtain ⟨before, halone, h0⟩ := h.alone
  cases hstep with
  | same => exact h
  | remove => exact ⟨fun _ => .inl rfl, h.ended, before, halone, h0.remove⟩
  | close hout => exact ⟨fun _ => hout, h.ended, before, halone, h0.close⟩
  | enter hview => exact h.frame (by simp [hview]) rfl rfl rfl rfl fun _ hat => hat.enter hview
  | leave hview hremoved =>
    exact ⟨fun _ => .inr rfl, fun _ => rfl, before, halone, .inl hremoved⟩
  | @header got hview =>
    have hlive : t.view ≠ .over := by simp [hview]
    obtain ⟨hc, hr, he, hf⟩ := t.readHeader_frame got
    exact h.frame hlive hc hr he hf fun _ hat => hat.header (hgone hlive) hview
  | take size hview => exact h.frame (by simp [hview]) rfl rfl rfl rfl fun _ hat => hat.take size hview
  | @body size n got hview =>
    have hlive : t.view ≠ .over := by simp [hview]
    obtain ⟨hc, hr, he, hf⟩ := t.readBody_frame size n got
    exact h.frame hlive hc hr he hf fun _ hat => hat.body (hgone hlive) hview
  | @finish size res hview =>
    have hlive : t.view ≠ .over := by simp [hview]
    simp only [At, hview] at h0
    cases res with
    | ok frame =>
      refine ⟨fun hc => .inl (hgone hlive hc), fun hf => absurd (h.ended hf) hlive, t.stream, ?_, rfl⟩
      simp only [Track.finish, List.map_append, List.map_cons, List.map_nil]
      exact recvPackets_concat halone h0
    | error e =>
      refine ⟨fun _ => .inr rfl, fun _ => rfl, before, halone, ?_⟩
      obtain hremoved | hfails := h0
      · exact .inl hremoved
      · exact .inr (.inr ⟨size, rfl, hfails⟩)

end Track

end Tsshd.Proxy

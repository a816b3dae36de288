import Tsshd.Input.Agreement
import Tsshd.Input.Blocks

/-!
# Only what the user typed reaches the program

The client puts a marker into the input of all its sessions, the server expects
it in the sessions it knew when it drew the marker. A session that the client
has opened and the server has not yet registered gets a marker nobody removes,
and the program reads it (`marker_reaches_program`).

Where every session the client has was armed with the marker that arrives,
messages arrive in order, the user types none of the bytes that markers begin
with, and the index is below its limit, a program gets a subsequence of what
the user typed (`stdin_is_typed`).
-/

namespace Tsshd.Input

/-- What the client has read from the user and not yet taken in hand. -/
def ClientPc.buffered : ClientPc → Text
  | .got buf => buf
  | _ => []

def Cell.isTyped (c : Cell) : Bool := c.origin.isNone

/-- The markers of a session in the order in which they were drawn: those in its
stream, then the one the client has, then those on the bus. The server waits for
one that is not older than any of them that was meant for the session. -/
structure Queue (known : Marker → Prop) (bus : List Marker) (pipe : Text)
    (inputMarker discardMarker : Option Marker) (armed : List Nat) : Prop where
  stream : Stream known pipe
  input : ∀ m, inputMarker = some m →
    known m ∧ (∀ m', Has pipe m' → m'.id < m.id) ∧ ∀ m' ∈ bus, m.id < m'.id
  early : ∀ m, Has pipe m → ∀ m' ∈ bus, m.id < m'.id
  due : ∀ m, Has pipe m ∨ inputMarker = some m ∨ (m ∈ bus ∧ m.id ∈ armed) →
    ∃ l, discardMarker = some l ∧ m.id ≤ l.id
  stored : ∀ m, discardMarker = some m → known m

abbrev Session.Queue (known : Marker → Prop) (bus : List Marker) (x : Session) : Prop :=
  Input.Queue known bus x.pipe x.inputMarker x.discardMarker x.armed

/-- A marker of the session that the server has not met. -/
def Session.Pending (bus : List Marker) (x : Session) (m : Marker) : Prop :=
  Has x.pipe m ∨ x.inputMarker = some m ∨ (m ∈ bus ∧ m.id ∈ x.armed)

/-- A loop that has loaded `marker` looks at nothing that was drawn later. -/
structure Loaded (known : Marker → Prop) (x : Session) (marker : Option Marker) (chunk : Text) :
    Prop where
  known : ∀ l, marker = some l → known l ∧ x.discardMarker ≠ none
  bound : ∀ m, Has (x.discardedInput ++ chunk) m → ∃ l, marker = some l ∧ m.id ≤ l.id
  nothing : marker = none → x.discardedInput = []

structure Guarded (known : Marker → Prop) (bus : List Marker) (x : Session) : Prop where
  queue : x.Queue known bus
  whole : x.client ≠ .returned → Whole x.pipe
  plain : Plain x.client.buffered
  kept : x.discardMarker = none → x.discardedInput = []
  loaded : ∀ marker chunk, x.server = .loaded marker chunk → Loaded known x marker chunk
  clearing : ∀ l, x.server = .clearing l →
    known l ∧ x.discardedInput = [] ∧ ∀ m, x.Pending bus m → l.id < m.id
  stdin : ∀ c ∈ x.stdin, c.isTyped = true
  typed : ((x.stdin ++ x.pipe).filter Cell.isTyped ++ x.client.buffered).Sublist x.typed

variable {known : Marker → Prop} {bus : List Marker} {x y : Session}

/-! ## Queues -/

section

variable {pipe pipe' : Text} {inputMarker discardMarker : Option Marker} {armed : List Nat}

theorem Queue.within (h : Queue known bus pipe inputMarker discardMarker armed)
    (hp : pipe' <:+: pipe) : Queue known bus pipe' inputMarker discardMarker armed := by
  have hhas : ∀ m, Has pipe' m → Has pipe m := fun m hm => hm.subset hp.subset
  refine ⟨h.stream.within hp, ?_, ?_, ?_, h.stored⟩
  · intro m hm
    obtain ⟨hk, hpipe, hbus⟩ := h.input m hm
    exact ⟨hk, fun m' hm' => hpipe m' (hhas m' hm'), hbus⟩
  · intro m hm
    exact h.early m (hhas m hm)
  · intro m hm
    rcases hm with hm | hm
    · exact h.due m (.inl (hhas m hm))
    · exact h.due m (.inr hm)

/-- Messages disappear from the bus. -/
theorem Queue.fewer {bus' : List Marker} (h : Queue known bus pipe inputMarker discardMarker armed)
    (hb : bus' ⊆ bus) : Queue known bus' pipe inputMarker discardMarker armed := by
  refine ⟨h.stream, ?_, ?_, ?_, h.stored⟩
  · intro m hm
    obtain ⟨hk, hpipe, hbus⟩ := h.input m hm
    exact ⟨hk, hpipe, fun m' hm' => hbus m' (hb hm')⟩
  · intro m hm m' hm'
    exact h.early m hm m' (hb hm')
  · intro m hm
    rcases hm with hm | hm | ⟨hm, ha⟩
    · exact h.due m (.inl hm)
    · exact h.due m (.inr (.inl hm))
    · exact h.due m (.inr (.inr ⟨hb hm, ha⟩))

/-- The client takes its marker in hand, with the buffer it read. -/
theorem Queue.swap {buf : Text} (h : Queue known bus pipe inputMarker discardMarker armed)
    (hwhole : Whole pipe) (hbuf : Plain buf) :
    Queue known bus (pipe ++ ClientPc.hand (.send inputMarker buf)) none discardMarker armed ∧
      Whole (pipe ++ ClientPc.hand (.send inputMarker buf)) := by
  cases inputMarker with
  | none =>
    have hhas : ∀ m, Has (pipe ++ buf) m → Has pipe m := by
      intro m hm
      rcases has_append.mp hm with hm | hm
      · exact hm
      · exact absurd hm hbuf.not_has
    refine ⟨⟨?_, by simp, ?_, ?_, h.stored⟩, hwhole.append hbuf.whole⟩
    · exact h.stream.append hbuf.stream hwhole hbuf.starts fun _ _ m' hm' => absurd hm' hbuf.not_has
    · intro m hm
      exact h.early m (hhas m hm)
    · intro m hm
      rcases hm with hm | hm | hm
      · exact h.due m (.inl (hhas m hm))
      · exact absurd hm (by simp)
      · exact h.due m (.inr (.inr hm))
  | some l =>
    obtain ⟨hl, hpipe, hbus⟩ := h.input l rfl
    have hhas : ∀ m, Has (pipe ++ (l.cells ++ buf)) m → Has pipe m ∨ m = l := by
      intro m hm
      rcases has_append.mp hm with hm | hm
      · exact .inl hm
      · rcases has_append.mp hm with hm | hm
        · exact .inr (Marker.has_cells.mp hm)
        · exact absurd hm hbuf.not_has
    have hblock : Stream known (l.cells ++ buf) :=
      (Marker.stream_cells hl).append hbuf.stream Marker.whole_cells hbuf.starts
        fun _ _ m' hm' => absurd hm' hbuf.not_has
    have hstarts : ∀ c ∈ (l.cells ++ buf).head?, c.Starts := by
      intro c hc
      exact Marker.starts_cells c (by simpa [Marker.cells, Marker.bytes] using hc)
    refine ⟨⟨?_, by simp, ?_, ?_, h.stored⟩, hwhole.append (Marker.whole_cells.append hbuf.whole)⟩
    · refine h.stream.append hblock hwhole hstarts ?_
      intro m hm m' hm'
      rcases has_append.mp hm' with hm' | hm'
      · exact Marker.has_cells.mp hm' ▸ hpipe m hm
      · exact absurd hm' hbuf.not_has
    · intro m hm
      rcases hhas m hm with hm | rfl
      · exact h.early m hm
      · exact hbus
    · intro m hm
      rcases hm with hm | hm | hm
      · rcases hhas m hm with hm | rfl
        · exact h.due m (.inl hm)
        · exact h.due m (.inr (.inl rfl))
      · exact absurd hm (by simp)
      · exact h.due m (.inr (.inr hm))

end

/-! ## One session: the client -/

/-- A step of the client leaves the server's half alone. -/
theorem Guarded.ofClient (h : Guarded known bus x) (hserver : y.server = x.server)
    (hdisc : y.discardedInput = x.discardedInput) (hmarker : y.discardMarker = x.discardMarker)
    (hstdin : y.stdin = x.stdin) (hqueue : y.Queue known bus)
    (hpending : ∀ m, y.Pending bus m → x.Pending bus m)
    (hwhole : y.client ≠ .returned → Whole y.pipe) (hplain : Plain y.client.buffered)
    (htyped : ((x.stdin ++ y.pipe).filter Cell.isTyped ++ y.client.buffered).Sublist y.typed) :
    Guarded known bus y := by
  refine ⟨hqueue, hwhole, hplain, ?_, ?_, ?_, ?_, ?_⟩
  · rw [hmarker, hdisc]
    exact h.kept
  · intro marker chunk hs
    obtain ⟨h1, h2, h3⟩ := h.loaded marker chunk (hserver.symm.trans hs)
    exact ⟨by rw [hmarker]; exact h1, by rw [hdisc]; exact h2, by rw [hdisc]; exact h3⟩
  · intro l hl
    obtain ⟨h1, h2, h3⟩ := h.clearing l (hserver.symm.trans hl)
    exact ⟨h1, hdisc.trans h2, fun m hm => h3 m (hpending m hm)⟩
  · rw [hstdin]
    exact h.stdin
  · rw [hstdin]
    exact htyped

/-- A step of the client that leaves the stream as it is. -/
theorem Guarded.ofPipe (h : Guarded known bus x) (hserver : y.server = x.server)
    (hdisc : y.discardedInput = x.discardedInput) (hmarker : y.discardMarker = x.discardMarker)
    (hstdin : y.stdin = x.stdin) (hpipe : y.pipe = x.pipe) (hinput : y.inputMarker = x.inputMarker)
    (harmed : y.armed = x.armed) (hreturned : x.client ≠ .returned)
    (hplain : Plain y.client.buffered)
    (htyped : ((x.stdin ++ x.pipe).filter Cell.isTyped ++ y.client.buffered).Sublist y.typed) :
    Guarded known bus y := by
  refine h.ofClient hserver hdisc hmarker hstdin ?_ ?_ ?_ hplain (hpipe ▸ htyped)
  · rw [Session.Queue, hpipe, hinput, hmarker, harmed]
    exact h.queue
  · intro m hm
    rwa [Session.Pending, hpipe, hinput, harmed] at hm
  · intro _
    rw [hpipe]
    exact h.whole hreturned

theorem Guarded.clientStep {drop : Bool} (h : Guarded known bus x)
    (hstep : x.clientStep drop = some y) : Guarded known bus y := by
  unfold Session.clientStep at hstep
  split at hstep
  case h_1 | h_2 => exact absurd hstep (by simp)
  case h_3 buf hpc =>
    have htyped := h.typed
    have hplain := h.plain
    rw [hpc] at htyped hplain
    split at hstep <;> cases hstep
    · refine h.ofPipe rfl rfl rfl rfl ?_ rfl rfl (by simp [hpc]) Plain.nil ?_
      · simp [Session.pipe, Session.ahead, ClientPc.hand, hpc]
      · exact (List.sublist_append_left _ _).trans (by simpa [ClientPc.buffered] using htyped)
    · -- the marker goes to the end of the stream, with the buffer behind it
      have hpipe : Session.pipe { x with client := .send x.inputMarker buf, inputMarker := none } =
          x.pipe ++ ClientPc.hand (.send x.inputMarker buf) := by
        simp [Session.pipe, Session.ahead, ClientPc.hand, hpc]
      obtain ⟨hqueue, hwhole⟩ := h.queue.swap (h.whole (by simp [hpc])) hplain
      refine h.ofClient rfl rfl rfl rfl ?_ ?_ ?_ Plain.nil ?_
      · rw [Session.Queue, hpipe]
        exact hqueue
      · intro m hm
        rcases hm with hm | hm | hm
        · rw [hpipe] at hm
          rcases has_append.mp hm with hm | hm
          · exact .inl hm
          · cases hi : x.inputMarker with
            | none =>
              rw [hi] at hm
              exact absurd hm hplain.not_has
            | some l =>
              rw [hi] at hm
              rcases has_append.mp hm with hm | hm
              · exact .inr (.inl (by rw [hi, Marker.has_cells.mp hm]))
              · exact absurd hm hplain.not_has
        · exact absurd hm (by simp)
        · exact .inr (.inr hm)
      · intro _
        rw [hpipe]
        exact hwhole
      · rw [hpipe]
        have hcells : ∀ m : Marker, m.cells.filter Cell.isTyped = [] := by
          intro m
          simp [Marker.cells, Marker.bytes, Cell.isTyped]
        have hbuf : buf.filter Cell.isTyped = buf := by
          refine List.filter_eq_self.mpr ?_
          intro c hc
          simp [Cell.isTyped, (hplain c hc).1]
        have hhand : (ClientPc.hand (.send x.inputMarker buf)).filter Cell.isTyped = buf := by
          cases x.inputMarker <;> simp [ClientPc.hand, hcells, hbuf]
        rw [← List.append_assoc, List.filter_append, hhand]
        simpa [ClientPc.buffered] using htyped
  case h_4 m buf hpc =>
    cases hstep
    refine h.ofPipe rfl rfl rfl rfl ?_ rfl rfl (by simp [hpc]) Plain.nil ?_
    · simp [Session.pipe, Session.ahead, ClientPc.hand, hpc]
    · simpa [ClientPc.buffered, hpc] using h.typed
  case h_5 buf hpc =>
    cases hstep
    refine h.ofPipe rfl rfl rfl rfl ?_ rfl rfl (by simp [hpc]) Plain.nil ?_
    · simp [Session.pipe, Session.ahead, ClientPc.hand, hpc]
    · simpa [ClientPc.buffered, hpc] using h.typed

/-- A write that fails leaves a front part of what was in hand. -/
theorem Guarded.clientFail {n : Nat} (h : Guarded known bus x)
    (hstep : x.clientFail n = some y) : Guarded known bus y := by
  have hfail : ∀ part rest, x.client.hand = part ++ rest → x.client.buffered = [] →
      Guarded known bus { x with wire := x.wire ++ part, client := .returned } := by
    intro part rest hhand hbuf
    have hx : x.pipe = x.discardedInput ++ x.server.chunk ++ (x.wire ++ (part ++ rest)) := by
      rw [Session.pipe, Session.ahead, hhand]
    have hpre : Session.pipe { x with wire := x.wire ++ part, client := .returned } <+: x.pipe :=
      ⟨rest, by rw [hx]; simp [Session.pipe, Session.ahead, ClientPc.hand]⟩
    refine h.ofClient rfl rfl rfl rfl (h.queue.within hpre.isInfix) ?_ (fun hne => absurd rfl hne)
      Plain.nil ?_
    · intro m hm
      rcases hm with hm | hm
      · exact .inl (hm.subset hpre.subset)
      · exact .inr hm
    · have htyped := h.typed
      rw [hbuf, List.append_nil] at htyped
      simp only [ClientPc.buffered, List.append_nil]
      exact (((List.prefix_append_right_inj x.stdin).mpr hpre).sublist.filter _).trans htyped
  unfold Session.clientFail at hstep
  split at hstep
  case h_1 m buf hpc =>
    cases hstep
    refine hfail (m.cells.take n) (m.cells.drop n ++ buf) ?_ (by simp [ClientPc.buffered, hpc])
    simp [ClientPc.hand, hpc, ← List.append_assoc]
  case h_2 buf hpc =>
    cases hstep
    exact hfail (buf.take n) (buf.drop n) (by simp [ClientPc.hand, hpc])
      (by simp [ClientPc.buffered, hpc])
  case h_3 => exact absurd hstep (by simp)

theorem Guarded.type {bytes : List UInt8} (h : Guarded known bus x)
    (hpc : x.client = .reading) (hbytes : bytes.all plainByte = true) :
    Guarded known bus
      { x with typed := x.typed ++ Input.typed bytes, client := .got (Input.typed bytes) } := by
  have htyped := h.typed
  rw [hpc] at htyped
  refine h.ofPipe rfl rfl rfl rfl ?_ rfl rfl (by simp [hpc]) ?_ ?_
  · simp [Session.pipe, Session.ahead, ClientPc.hand, hpc]
  · intro c hc
    obtain ⟨b, hb, rfl⟩ := List.mem_map.mp hc
    exact ⟨rfl, List.all_eq_true.mp hbytes b hb⟩
  · exact List.Sublist.append (by simpa [ClientPc.buffered] using htyped) (List.Sublist.refl _)

/-! ## One session: the server -/

/-- What the server has met leaves the stream at its front; `out` goes to the
program, `next` is the loop's next step. -/
theorem Guarded.consume (h : Guarded known bus x) (out : Text) (next : ServerPc)
    (hout : ∀ c ∈ out, c.isTyped = true)
    (htyped : (out ++ x.ahead).Sublist (x.pipe)) (hchunk : next.chunk = [])
    (hloaded : ∀ marker chunk, next ≠ .loaded marker chunk)
    (hclearing : ∀ l, next = .clearing l →
      known l ∧ ∀ m, Has x.ahead m ∨ x.inputMarker = some m ∨ (m ∈ bus ∧ m.id ∈ x.armed) →
        l.id < m.id) :
    Guarded known bus { x with discardedInput := [], stdin := x.stdin ++ out, server := next } := by
  have hpipe : Session.pipe { x with discardedInput := [], stdin := x.stdin ++ out, server := next } =
      x.ahead := by simp [Session.pipe, Session.ahead, hchunk]
  have hsuffix : x.ahead <:+ x.pipe := List.suffix_append _ _
  refine ⟨?_, ?_, h.plain, fun _ => rfl, ?_, ?_, ?_, ?_⟩
  · rw [Session.Queue, hpipe]
    exact h.queue.within hsuffix.isInfix
  · intro hne
    rw [hpipe]
    exact (h.whole hne).suffix hsuffix
  · intro marker chunk hs
    exact absurd hs (hloaded marker chunk)
  · intro l hl
    obtain ⟨hk, hlt⟩ := hclearing l hl
    refine ⟨hk, rfl, ?_⟩
    intro m hm
    rw [Session.Pending, hpipe] at hm
    exact hlt m hm
  · intro c hc
    rcases List.mem_append.mp hc with hc | hc
    · exact h.stdin c hc
    · exact hout c hc
  · rw [hpipe]
    refine List.Sublist.trans ?_ h.typed
    refine List.Sublist.append ?_ (List.Sublist.refl _)
    rw [List.append_assoc]
    exact (List.Sublist.append (List.Sublist.refl _) htyped).filter _

/-- The loop moves on and nothing leaves the stream. -/
theorem Guarded.advance {next : ServerPc} {discarded : Text} (h : Guarded known bus x)
    (hpipe : discarded ++ next.chunk = x.discardedInput ++ x.server.chunk)
    (hkept : x.discardMarker = none → discarded = [])
    (hloaded : ∀ marker chunk, next = .loaded marker chunk →
      Loaded known { x with discardedInput := discarded, server := next } marker chunk)
    (hclearing : ∀ l, next ≠ .clearing l) :
    Guarded known bus { x with discardedInput := discarded, server := next } := by
  have hsame : Session.pipe { x with discardedInput := discarded, server := next } = x.pipe := by
    show discarded ++ next.chunk ++ x.ahead = x.discardedInput ++ x.server.chunk ++ x.ahead
    rw [hpipe]
  refine ⟨?_, ?_, h.plain, hkept, hloaded, ?_, h.stdin, ?_⟩
  · rw [Session.Queue, hsame]
    exact h.queue
  · rw [hsame]
    exact h.whole
  · intro l hl
    exact absurd hl (hclearing l)
  · rw [hsame]
    exact h.typed

/-- The search has found its marker: what is left of the buffer is typed text,
and everything still to come was drawn later. -/
theorem Guarded.discard {l : Marker} {chunk : Text} {fail : Option Nat} (h : Guarded known bus x)
    (hlow : ∀ m, known m → m.idx < indexLimit)
    (hinj : ∀ m m', known m → known m' → m.idx = m'.idx → m = m')
    (hpc : x.server = .loaded (some l) chunk) :
    Guarded known bus (x.discardPendingInput l chunk fail) := by
  have hl := h.loaded _ _ hpc
  have hpipe : x.pipe = (x.discardedInput ++ chunk) ++ x.ahead := by
    simp [Session.pipe, ServerPc.chunk, hpc]
  have hstream := h.queue.stream
  rw [hpipe] at hstream
  unfold Session.discardPendingInput
  dsimp only
  split
  · refine h.advance ?_ ?_ (by simp) (by simp)
    · simp [ServerPc.chunk, hpc]
    · intro hnone
      exact absurd hnone (hl.known l rfl).2
  · rename_i pos hpos
    obtain ⟨m, hm, hidx, hsplit⟩ :=
      (hstream.within (List.prefix_append _ _).isInfix).find hlow (hlow l (hl.known l rfl).1) hpos
    obtain rfl := hinj m l hm (hl.known l rfl).1 hidx
    generalize (x.discardedInput ++ chunk).drop (pos + m.bytes.length) = after at hsplit ⊢
    generalize (x.discardedInput ++ chunk).take pos = before at hsplit
    have hlater : ∀ m', Has (after ++ x.ahead) m' → m.id < m'.id := by
      rw [hsplit, List.append_assoc] at hstream
      exact fun m' hm' => hstream.behind_block hm'
    have hafter : ∀ c ∈ after, c.isTyped = true := by
      intro c hc
      cases ho : c.origin with
      | none => simp [Cell.isTyped, ho]
      | some mk =>
        have hhas : Has after mk.1 := ⟨c, hc, mk.2, ho⟩
        have hlt := hlater mk.1 (hhas.subset (List.subset_append_left _ _))
        obtain ⟨l', hl', hle⟩ := hl.bound mk.1 (by
          rw [hsplit]
          exact hhas.subset (List.subset_append_right _ _))
        obtain rfl : m = l' := by simpa using hl'
        omega
    have hfound : Has x.pipe m := by
      rw [hpipe, hsplit]
      refine (Marker.has_cells.mpr rfl : Has m.cells m).subset ?_
      intro c hc
      simp [hc]
    have hsub : (after ++ x.ahead).Sublist x.pipe := by
      rw [hpipe, hsplit]
      exact (List.sublist_append_right _ _).append (List.Sublist.refl _)
    cases fail with
    | none =>
      refine h.consume _ _ hafter hsub rfl (by simp) ?_
      intro l' hl'
      obtain rfl : m = l' := by simpa using hl'
      refine ⟨hm, ?_⟩
      intro m' hm'
      rcases hm' with hm' | hm' | ⟨hm', _⟩
      · exact hlater m' (hm'.subset (List.subset_append_right _ _))
      · exact (h.queue.input m' hm').2.1 m hfound
      · exact h.queue.early m hfound m' hm'
    | some n =>
      refine h.consume _ .returned (fun c hc => hafter c (List.mem_of_mem_take hc)) ?_ rfl
        (by simp) (by simp)
      exact ((List.take_sublist n after).append (List.Sublist.refl _)).trans hsub

theorem Guarded.serverStep {fail : Option Nat} (h : Guarded known bus x)
    (hlow : ∀ m, known m → m.idx < indexLimit)
    (hinj : ∀ m m', known m → known m' → m.idx = m'.idx → m = m')
    (hstep : x.serverStep fail = some y) : Guarded known bus y := by
  unfold Session.serverStep at hstep
  split at hstep
  case h_1 | h_2 => exact absurd hstep (by simp)
  case h_3 chunk hpc =>
    cases hstep
    refine h.advance (by simp [ServerPc.chunk, hpc]) h.kept ?_ (by simp)
    intro marker chunk' heq
    obtain ⟨rfl, rfl⟩ : x.discardMarker = marker ∧ chunk = chunk' := by simpa using heq
    refine ⟨?_, ?_, h.kept⟩
    · intro l hl
      exact ⟨h.queue.stored l hl, by simp [hl]⟩
    · intro m hm
      refine h.queue.due m (.inl (hm.subset ?_))
      simp [Session.pipe, ServerPc.chunk, hpc]
  case h_4 l chunk hpc =>
    cases hstep
    exact h.discard hlow hinj hpc
  case h_5 chunk hpc =>
    cases hstep
    have hl := h.loaded _ _ hpc
    have hempty := hl.nothing rfl
    have hchunk : ∀ c ∈ chunk, c.isTyped = true := by
      intro c hc
      cases ho : c.origin with
      | none => simp [Cell.isTyped, ho]
      | some mk =>
        obtain ⟨l, hl', _⟩ := hl.bound mk.1 ⟨c, by simp [hc], mk.2, ho⟩
        exact absurd hl' (by simp)
    have hpipe : x.pipe = chunk ++ x.ahead := by simp [Session.pipe, ServerPc.chunk, hpc, hempty]
    cases fail with
    | none =>
      have := h.consume chunk .reading hchunk (hpipe ▸ List.Sublist.refl _) rfl (by simp) (by simp)
      rwa [← hempty] at this
    | some n =>
      have := h.consume (chunk.take n) .returned
        (fun c hc => hchunk c (List.mem_of_mem_take hc))
        (hpipe ▸ (List.take_sublist n chunk).append (List.Sublist.refl _)) rfl (by simp) (by simp)
      rwa [← hempty] at this
  case h_6 l hpc =>
    cases hstep
    obtain ⟨_, hempty, hlater⟩ := h.clearing l hpc
    by_cases heq : x.discardMarker = some l
    · -- the marker was the youngest, and nothing older is left
      have hnone : ∀ m, ¬ x.Pending bus m := by
        intro m hm
        obtain ⟨l', hl', hle⟩ := h.queue.due m hm
        obtain rfl : l = l' := by simpa [heq] using hl'
        have := hlater m hm
        omega
      have hpipe : Session.pipe { x with discardMarker := none, server := .reading } = x.pipe := by
        simp [Session.pipe, ServerPc.chunk, Session.ahead, hpc]
      rw [if_pos heq]
      refine ⟨?_, ?_, h.plain, fun _ => hempty, by simp, by simp, h.stdin, ?_⟩
      · rw [Session.Queue, hpipe]
        exact ⟨h.queue.stream, h.queue.input, h.queue.early, fun m hm => absurd hm (hnone m),
          by simp⟩
      · rw [hpipe]
        exact h.whole
      · rw [hpipe]
        exact h.typed
    · rw [if_neg heq]
      exact h.advance (by simp [ServerPc.chunk, hpc]) h.kept (by simp) (by simp)

/-- The server reads a piece of the stream. -/
theorem Guarded.read {n : Nat} (h : Guarded known bus x) (hpc : x.server = .reading) :
    Guarded known bus { x with server := .got (x.wire.take n), wire := x.wire.drop n } := by
  have hpipe : Session.pipe { x with server := .got (x.wire.take n), wire := x.wire.drop n } =
      x.pipe := by
    simp only [Session.pipe, ServerPc.chunk, Session.ahead, hpc, List.append_nil,
      List.append_assoc, ← List.append_assoc (x.wire.take n), List.take_append_drop]
  refine ⟨?_, ?_, h.plain, h.kept, by simp, by simp, h.stdin, ?_⟩
  · rw [Session.Queue, hpipe]
    exact h.queue
  · rw [hpipe]
    exact h.whole
  · rw [hpipe]
    exact h.typed

/-- The user types only bytes that no marker begins with. -/
def Session.Event.plain : Session.Event → Bool
  | .type bytes => bytes.all plainByte
  | _ => true

theorem Guarded.step {e : Session.Event} (h : Guarded known bus x)
    (hlow : ∀ m, known m → m.idx < indexLimit)
    (hinj : ∀ m m', known m → known m' → m.idx = m'.idx → m = m')
    (hok : e.plain = true) (hstep : x.step e = some y) : Guarded known bus y := by
  cases e with
  | register | start =>
    simp only [Session.step, Option.ite_none_right_eq_some, Option.some.injEq] at hstep
    obtain ⟨_, rfl⟩ := hstep
    exact ⟨h.queue, h.whole, h.plain, h.kept,
      fun marker chunk hs => ⟨(h.loaded marker chunk hs).known, (h.loaded marker chunk hs).bound,
        (h.loaded marker chunk hs).nothing⟩, h.clearing, h.stdin, h.typed⟩
  | type bytes =>
    simp only [Session.step, Option.ite_none_right_eq_some, Option.some.injEq] at hstep
    obtain ⟨⟨_, hpc, _⟩, rfl⟩ := hstep
    exact h.type hpc hok
  | client drop => exact h.clientStep hstep
  | clientFail n => exact h.clientFail hstep
  | read n =>
    simp only [Session.step, Option.ite_none_right_eq_some, Option.some.injEq] at hstep
    obtain ⟨⟨_, hpc, _, _⟩, rfl⟩ := hstep
    exact h.read hpc
  | server fail => exact h.serverStep hlow hinj hstep

/-! ## The bus -/

/-- A message is lost. -/
theorem Guarded.fewer {bus' : List Marker} (h : Guarded known bus x) (hb : bus' ⊆ bus) :
    Guarded known bus' x := by
  refine ⟨h.queue.fewer hb, h.whole, h.plain, h.kept, h.loaded, ?_, h.stdin, h.typed⟩
  intro l hl
  obtain ⟨h1, h2, h3⟩ := h.clearing l hl
  refine ⟨h1, h2, ?_⟩
  intro m hm
  rcases hm with hm | hm | ⟨hm, ha⟩
  · exact h3 m (.inl hm)
  · exact h3 m (.inr (.inl hm))
  · exact h3 m (.inr (.inr ⟨hb hm, ha⟩))

/-- The oldest message arrives at a session that was armed with its marker. -/
theorem Guarded.deliver {m : Marker} {rest : List Marker} (h : Guarded known (m :: rest) x)
    (hm : known m) (hfirst : ∀ m' ∈ rest, m.id < m'.id) (harmed : m.id ∈ x.armed) :
    Guarded known rest { x with inputMarker := some m } := by
  have hr := h.fewer (List.subset_cons_self m rest)
  have hpending : ∀ m', Session.Pending rest { x with inputMarker := some m } m' →
      x.Pending (m :: rest) m' := by
    intro m' hm'
    rcases hm' with hm' | hm' | ⟨hm', ha⟩
    · exact .inl hm'
    · obtain rfl : m = m' := by simpa using hm'
      exact .inr (.inr ⟨List.mem_cons_self, harmed⟩)
    · exact .inr (.inr ⟨List.mem_cons_of_mem m hm', ha⟩)
  refine ⟨⟨h.queue.stream, ?_, hr.queue.early, ?_, h.queue.stored⟩, h.whole, h.plain, h.kept, ?_, ?_,
    h.stdin, h.typed⟩
  · intro m' hm'
    obtain rfl : m = m' := by simpa using hm'
    exact ⟨hm, fun m' hm' => h.queue.early m' hm' m List.mem_cons_self, hfirst⟩
  · intro m' hm'
    exact h.queue.due m' (hpending m' hm')
  · intro marker chunk hs
    obtain ⟨h1, h2, h3⟩ := h.loaded marker chunk hs
    exact ⟨h1, h2, h3⟩
  · intro l hl
    obtain ⟨h1, h2, h3⟩ := h.clearing l hl
    exact ⟨h1, h2, fun m' hm' => h3 m' (hpending m' hm')⟩

section

variable {index drawn : Nat} {new : Marker}

/-- A marker is drawn, and the session is not armed with it. -/
theorem Guarded.passed (h : Guarded (Drawn index drawn) bus x) (hnew : new.id = drawn)
    (harmed : ∀ n ∈ x.armed, n < drawn) : Guarded (Drawn index (drawn + 1)) (bus ++ [new]) x := by
  have hmono : ∀ m, Drawn index drawn m → Drawn index (drawn + 1) m :=
    fun m hm => hm.mono (Nat.le_succ drawn)
  have hlater : ∀ m : Marker, m.id < drawn → (∀ m' ∈ bus, m.id < m'.id) →
      ∀ m' ∈ bus ++ [new], m.id < m'.id := by
    intro m hlt hbus m' hm'
    rcases List.mem_append.mp hm' with hm' | hm'
    · exact hbus m' hm'
    · rw [List.mem_singleton.mp hm', hnew]
      exact hlt
  have hpending : ∀ m, x.Pending (bus ++ [new]) m → x.Pending bus m := by
    intro m hm
    rcases hm with hm | hm | ⟨hm, ha⟩
    · exact .inl hm
    · exact .inr (.inl hm)
    · rcases List.mem_append.mp hm with hm | hm
      · exact .inr (.inr ⟨hm, ha⟩)
      · rw [List.mem_singleton.mp hm, hnew] at ha
        exact absurd (harmed drawn ha) (Nat.lt_irrefl _)
  refine ⟨⟨h.queue.stream.mono hmono, ?_, ?_, ?_, fun m hm => hmono m (h.queue.stored m hm)⟩,
    h.whole, h.plain, h.kept, ?_, ?_, h.stdin, h.typed⟩
  · intro m hm
    obtain ⟨hk, hpipe, hbus⟩ := h.queue.input m hm
    exact ⟨hmono m hk, hpipe, hlater m hk.lt hbus⟩
  · intro m hm
    exact hlater m (h.queue.stream.known_of_has hm).lt (h.queue.early m hm)
  · intro m hm
    exact h.queue.due m (hpending m hm)
  · intro marker chunk hs
    obtain ⟨h1, h2, h3⟩ := h.loaded marker chunk hs
    exact ⟨fun l hl => ⟨hmono l (h1 l hl).1, (h1 l hl).2⟩, h2, h3⟩
  · intro l hl
    obtain ⟨h1, h2, h3⟩ := h.clearing l hl
    exact ⟨hmono l h1, h2, fun m hm => h3 m (hpending m hm)⟩

/-- A marker is drawn, and the session is armed with it. -/
theorem Guarded.arm (h : Guarded (Drawn index drawn) bus x) (hid : new.id = drawn)
    (hnew : Drawn index (drawn + 1) new) (harmed : ∀ n ∈ x.armed, n < drawn)
    (hbus : ∀ m ∈ bus, Drawn index drawn m) :
    Guarded (Drawn index (drawn + 1)) (bus ++ [new])
      { x with discardMarker := some new, armed := drawn :: x.armed } := by
  have hp := h.passed hid harmed
  have hdue : ∀ m, Session.Pending (bus ++ [new])
      { x with discardMarker := some new, armed := drawn :: x.armed } m →
      x.Pending bus m ∨ m = new := by
    intro m hm
    rcases hm with hm | hm | ⟨hm, ha⟩
    · exact .inl (.inl hm)
    · exact .inl (.inr (.inl hm))
    · rcases List.mem_append.mp hm with hm | hm
      · rcases List.mem_cons.mp ha with ha | ha
        · exact absurd ha (hbus m hm).lt.ne
        · exact .inl (.inr (.inr ⟨hm, ha⟩))
      · exact .inr (List.mem_singleton.mp hm)
  have hlt : ∀ m, x.Pending bus m → m.id < drawn := by
    intro m hm
    rcases hm with hm | hm | ⟨hm, _⟩
    · exact (h.queue.stream.known_of_has hm).lt
    · exact (h.queue.input m hm).1.lt
    · exact (hbus m hm).lt
  refine ⟨⟨hp.queue.stream, hp.queue.input, hp.queue.early, ?_, ?_⟩, hp.whole, hp.plain, by simp,
    ?_, ?_, hp.stdin, hp.typed⟩
  · intro m hm
    refine ⟨new, rfl, ?_⟩
    rcases hdue m hm with hm | rfl
    · rw [hid]
      exact (hlt m hm).le
    · exact Nat.le_refl _
  · intro m hm
    obtain rfl : new = m := by simpa using hm
    exact hnew
  · intro marker chunk hs
    obtain ⟨h1, h2, h3⟩ := hp.loaded marker chunk hs
    exact ⟨fun l hl => ⟨(h1 l hl).1, by simp⟩, h2, h3⟩
  · intro l hl
    obtain ⟨h1, h2, h3⟩ := h.clearing l hl
    refine ⟨h1.mono (Nat.le_succ drawn), h2, ?_⟩
    intro m hm
    rcases hdue m hm with hm | rfl
    · exact h3 m hm
    · rw [hid]
      exact h1.lt

end

/-! ## The connection -/

/-- A message arrives in order and at sessions that were armed with its marker
only, the user types plain bytes, and the index stays below its limit. -/
def agreed (s : Sys) : Act → Bool
  | .deliver i => i = 0 && s.bus.head?.all fun m =>
    (List.range s.sessionID).all fun j => !(s.sessions j).opened || m.id ∈ (s.sessions j).armed
  | .session _ e => e.plain
  | .reconnect => s.nextMarker.idx < indexLimit
  | _ => true

structure Orderly (index : Nat) (s : Sys) : Prop where
  current : s.discardMarkerCurrentIndex = getNextDiscardMarkerIndex^[s.drawn] index
  low : ∀ n < s.drawn, indexOf index n < indexLimit
  bus : ∀ m ∈ s.bus, Drawn index s.drawn m
  sorted : s.bus.Pairwise (·.id < ·.id)
  opened : ∀ j, (s.sessions j).opened = true → j < s.sessionID
  armed : ∀ j, ∀ n ∈ (s.sessions j).armed, n < s.drawn
  sessions : ∀ j, Guarded (Drawn index s.drawn) s.bus (s.sessions j)

theorem Guarded.fresh : Guarded known [] {} := by
  refine ⟨⟨Plain.nil.stream, by simp, by simp, ?_, by simp⟩, fun _ => Plain.nil.whole, Plain.nil,
    by simp, by simp, by simp, by simp, by simp [Session.pipe, Session.ahead, ClientPc.hand,
      ServerPc.chunk, ClientPc.buffered]⟩
  intro m hm
  rcases hm with hm | hm | hm
  · exact absurd hm Plain.nil.not_has
  · exact absurd hm (by simp)
  · exact absurd hm.1 (by simp)

theorem Orderly.init {s : Sys} (h : machine.init s) : ∃ index, Orderly index s := by
  obtain ⟨index, rfl⟩ := h
  exact ⟨index, rfl, by simp, by simp, by simp, by simp, by simp, fun _ => Guarded.fresh⟩

theorem Orderly.update {index j : Nat} {s : Sys} (h : Orderly index s)
    (hopened : y.opened = true → j < s.sessionID) (harmed : y.armed = (s.sessions j).armed)
    (hy : Guarded (Drawn index s.drawn) s.bus y) : Orderly index (s.update j y) := by
  have hsessions : ∀ k, (s.update j y).sessions k = if k = j then y else s.sessions k := by
    intro k
    simp [Sys.update, Function.update_apply]
  refine ⟨h.current, h.low, h.bus, h.sorted, ?_, ?_, ?_⟩ <;> intro k <;> rw [hsessions k] <;> split
  · subst_vars
    exact hopened
  · exact h.opened k
  · subst_vars
    rw [harmed]
    exact h.armed _
  · exact h.armed k
  · exact hy
  · exact h.sessions k

theorem Orderly.reconnect {index : Nat} {s : Sys} (h : Orderly index s)
    (hlow : s.nextMarker.idx < indexLimit) : Orderly index s.enablePendingInputDiscard := by
  have hidx : s.nextMarker.idx = indexOf index s.drawn := by
    rw [Sys.nextMarker, indexOf, h.current, Function.iterate_succ_apply']
  have hnew : Drawn index (s.drawn + 1) s.nextMarker := ⟨Nat.lt_succ_self s.drawn, hidx⟩
  unfold Sys.enablePendingInputDiscard
  split
  · exact h
  refine ⟨hidx, ?_, ?_, ?_, ?_, ?_, ?_⟩
  · intro n hn
    rcases Nat.lt_succ_iff_lt_or_eq.mp hn with hn | rfl
    · exact h.low n hn
    · exact hidx ▸ hlow
  · intro m hm
    rcases List.mem_append.mp hm with hm | hm
    · exact (h.bus m hm).mono (Nat.le_succ _)
    · exact List.mem_singleton.mp hm ▸ hnew
  · refine List.pairwise_append.mpr ⟨h.sorted, List.pairwise_singleton _ _, ?_⟩
    intro m hm m' hm'
    rw [List.mem_singleton.mp hm']
    exact (h.bus m hm).lt
  · intro j
    dsimp only
    split <;> exact h.opened j
  · intro j n hn
    dsimp only at hn
    split at hn
    · rcases List.mem_cons.mp hn with rfl | hn
      · exact Nat.lt_succ_self _
      · exact Nat.lt_succ_of_lt (h.armed j n hn)
    · exact Nat.lt_succ_of_lt (h.armed j n hn)
  · intro j
    dsimp only
    split
    · exact (h.sessions j).arm rfl hnew (h.armed j) h.bus
    · exact (h.sessions j).passed rfl (h.armed j)

theorem Orderly.deliver {index : Nat} {s : Sys} {m : Marker} {rest : List Marker}
    (h : Orderly index s) (hbus : s.bus = m :: rest)
    (hagreed : ∀ j, (s.sessions j).opened = true → m.id ∈ (s.sessions j).armed) :
    Orderly index { s.handleDiscardEvent m with bus := rest } := by
  have hsorted := h.sorted
  have hknown := h.bus
  have hsessions := h.sessions
  rw [hbus] at hsorted hknown hsessions
  obtain ⟨hfirst, hrest⟩ := List.pairwise_cons.mp hsorted
  refine ⟨h.current, h.low, fun m' hm' => hknown m' (List.mem_cons_of_mem m hm'), hrest, ?_, ?_, ?_⟩
  · intro j
    dsimp only [Sys.handleDiscardEvent]
    split <;> exact h.opened j
  · intro j
    dsimp only [Sys.handleDiscardEvent]
    split <;> exact h.armed j
  · intro j
    dsimp only [Sys.handleDiscardEvent]
    split
    · exact (hsessions j).deliver (hknown m List.mem_cons_self) hfirst (hagreed j ‹_›)
    · exact (hsessions j).fewer (List.subset_cons_self m rest)

theorem Orderly.next {index : Nat} {s t : Sys} {a : Act} (h : Orderly index s)
    (hok : agreed s a = true) (hn : next s a = some t) : Orderly index t := by
  have hlow : ∀ m, Drawn index s.drawn m → m.idx < indexLimit :=
    fun m hm => hm.idx ▸ h.low m.id hm.lt
  have hinj : ∀ m m', Drawn index s.drawn m → Drawn index s.drawn m' → m.idx = m'.idx → m = m' :=
    fun m m' hm hm' => hm.eq_of_idx h.low hm'
  cases a with
  | newSession =>
    simp only [Input.next, Option.some.injEq] at hn
    subst hn
    have hs : Orderly index { s with sessionID := s.sessionID + 1 } :=
      ⟨h.current, h.low, h.bus, h.sorted, fun j hj => Nat.lt_succ_of_lt (h.opened j hj), h.armed,
        h.sessions⟩
    refine hs.update (fun _ => Nat.lt_succ_self s.sessionID) rfl ?_
    have hx := h.sessions s.sessionID
    exact ⟨hx.queue, hx.whole, hx.plain, hx.kept,
      fun marker chunk hs => ⟨(hx.loaded marker chunk hs).known,
        (hx.loaded marker chunk hs).bound, (hx.loaded marker chunk hs).nothing⟩,
      hx.clearing, hx.stdin, hx.typed⟩
  | setKeep on =>
    simp only [Input.next, Option.some.injEq] at hn
    subst hn
    exact ⟨h.current, h.low, h.bus, h.sorted, h.opened, h.armed, h.sessions⟩
  | reconnect =>
    simp only [Input.next, Option.some.injEq] at hn
    exact hn ▸ h.reconnect (by simpa [agreed] using hok)
  | deliver i =>
    simp only [agreed, Bool.and_eq_true, decide_eq_true_eq] at hok
    obtain ⟨rfl, hall⟩ := hok
    obtain ⟨m, hm, rfl⟩ := Option.map_eq_some_iff.mp hn
    cases hbus : s.bus with
    | nil => exact absurd hm (by simp [hbus])
    | cons m' rest =>
      obtain rfl : m' = m := by simpa [hbus] using hm
      refine h.deliver hbus ?_
      intro j hj
      simp only [hbus, List.head?_cons, Option.all_some, List.all_eq_true, List.mem_range,
        Bool.or_eq_true, Bool.not_eq_true', decide_eq_true_eq] at hall
      rcases hall j (h.opened j hj) with hclosed | harmed
      · exact absurd (hclosed.symm.trans hj) (by simp)
      · exact harmed
  | sendFailed i =>
    obtain ⟨m, hm, rfl⟩ := Option.map_eq_some_iff.mp hn
    have hsub : (s.bus.eraseIdx i).Sublist s.bus := List.eraseIdx_sublist _ _
    exact ⟨h.current, h.low, fun m' hm' => h.bus m' (hsub.subset hm'), h.sorted.sublist hsub,
      h.opened, h.armed, fun j => (h.sessions j).fewer hsub.subset⟩
  | session j e =>
    obtain ⟨y, hy, rfl⟩ := Option.map_eq_some_iff.mp hn
    have hf := Session.step_frame hy
    exact h.update (fun ho => h.opened j (hf.opened.symm.trans ho)) hf.armed
      ((h.sessions j).step hlow hinj hok hy)

/-- The bytes a program gets are a subsequence of the bytes typed into its
session, and none of them belongs to a marker. -/
theorem stdin_is_typed {s : Sys} (h : machine.ReachableVia (fun s a => agreed s a = true) s)
    (j : Nat) :
    ((s.sessions j).stdin.map Cell.byte).Sublist ((s.sessions j).typed.map Cell.byte) ∧
      ∀ c ∈ (s.sessions j).stdin, c.origin = none := by
  obtain ⟨index, hs⟩ : ∃ index, Orderly index s := by
    refine h.invariant (fun _ => Orderly.init) ?_
    rintro s a s' ⟨index, hs⟩ hok hn
    exact ⟨index, hs.next hok hn⟩
  have hx := hs.sessions j
  have hstdin : (s.sessions j).stdin.filter Cell.isTyped = (s.sessions j).stdin :=
    List.filter_eq_self.mpr hx.stdin
  constructor
  · have htyped := hx.typed
    rw [List.filter_append, hstdin, List.append_assoc] at htyped
    exact ((List.sublist_append_left _ _).trans htyped).map Cell.byte
  · intro c hc
    simpa [Cell.isTyped] using hx.stdin c hc

/-- `x` is under way when the client reconnects; then `y` is typed. -/
def pendingDiscarded : List Act :=
  opening ++ [Act.session 0 (.type [120]), .session 0 (.client false), .session 0 (.client false),
    .reconnect, .deliver 0, .session 0 (.type [121]), .session 0 (.client false),
    .session 0 (.client false), .session 0 (.client false), .session 0 (.read 10),
    .session 0 (.server none), .session 0 (.server none), .session 0 (.server none)]

theorem stdin_is_typed_discarded :
    ∃ s, machine.execWhile agreed {} pendingDiscarded = some s ∧
      (s.sessions 0).discardMarker = none ∧
      (s.sessions 0).stdin.map Cell.byte = [121] ∧
      (s.sessions 0).typed.map Cell.byte = [120, 121] ∧
      ((s.sessions 0).stdin.map Cell.byte).Sublist ((s.sessions 0).typed.map Cell.byte) := by
  have hrun : (machine.execWhile agreed {} pendingDiscarded).any (fun s =>
      (s.sessions 0).discardMarker = none ∧ (s.sessions 0).stdin.map Cell.byte = [121] ∧
        (s.sessions 0).typed.map Cell.byte = [120, 121]) = true := by
    decide
  obtain ⟨s, hs, hend⟩ := (Option.any_eq_true _ _).mp hrun
  obtain ⟨hmarker, hstdin, htyped⟩ := of_decide_eq_true hend
  have hreach : machine.ReachableVia (fun s a => agreed s a = true) s :=
    .execWhile (fun _ _ h => h) (.init ⟨0, rfl⟩) hs
  exact ⟨s, hs, hmarker, hstdin, htyped, (stdin_is_typed hreach 0).1⟩

/-! ## A session the server does not know yet -/

/-- The client opens session 1. The server, which knows session 0 only, draws a
marker; its message reaches both sessions of the client. Then session 1 starts,
and its user types `a`. -/
def openedEarly : List Act :=
  opening ++ [Act.newSession, .reconnect, .deliver 0, .session 1 .register, .session 1 .start,
    .session 1 (.type [97]), .session 1 (.client false), .session 1 (.client false),
    .session 1 (.client false), .session 1 (.read 9), .session 1 (.server none),
    .session 1 (.server none)]

/-- The program of session 1 reads the marker. -/
theorem marker_reaches_program :
    ∃ s, machine.Reachable s ∧ (s.sessions 1).typed.map Cell.byte = [97] ∧
      (s.sessions 1).stdin.map Cell.byte = [0xFF, 0xC0, 0xC1, 0xFF, 0, 0, 0, 1, 97] ∧
      ¬ ((s.sessions 1).stdin.map Cell.byte).Sublist ((s.sessions 1).typed.map Cell.byte) := by
  have hrun : (machine.exec {} openedEarly).any (fun s =>
      (s.sessions 1).typed.map Cell.byte = [97] ∧
        (s.sessions 1).stdin.map Cell.byte = [0xFF, 0xC0, 0xC1, 0xFF, 0, 0, 0, 1, 97]) = true := by
    decide
  obtain ⟨s, hs, hend⟩ := (Option.any_eq_true _ _).mp hrun
  obtain ⟨htyped, hstdin⟩ := of_decide_eq_true hend
  refine ⟨s, .exec (.init ⟨0, rfl⟩) hs, htyped, hstdin, ?_⟩
  rw [hstdin, htyped]
  intro hsub
  exact absurd hsub.length_le (by decide)

end Tsshd.Input

import Tsshd.Output.Handed
import Tsshd.Output.Place

/-!
# Caching starts behind a complete line

While the client is away, the forwarder queues output up to an LF and caches
what follows, so that what it may drop later starts on a line of its own;
without an LF it gives up after three chunks. `chHasNewLine` and
`noNewLineCount` are to remember that across calls.

* `Standing` — what the two fields say about the bytes handed over, at each
  program counter;
* `caching_behind_line` — an empty cache takes its first byte behind an LF, or
  behind three chunks without one, in the runs in which the fields still
  describe the queue when a disconnection begins and count a chunk once;
* the condition — only the flush of a non-empty cache resets the fields. A
  disconnection that caches nothing leaves `chHasNewLine` behind, and the next
  one caches in the middle of a line (`caching_inside_line`).
-/

namespace Tsshd.Output

/-! ## The fields -/

/-- The cache and the two fields that decide when it is used. -/
structure Marks where
  cacheLines : List Text
  chHasNewLine : Bool
  noNewLineCount : Nat

def Forwarder.marks (f : Forwarder) : Marks :=
  ⟨f.cacheLines, f.chHasNewLine, f.noNewLineCount⟩

/-- Nothing is remembered. -/
structure Marks.Clear (m : Marks) : Prop where
  newLine : m.chHasNewLine = false
  count : m.noNewLineCount = 0

/-- The last byte handed over ends a line, or there was none. -/
def Record.atLine (w : Record) : Bool := w.handed.getLast?.all Cell.isLF

/-- Where caching may start. -/
def Record.Ready (w : Record) : Prop := w.atLine = true ∨ 3 ≤ w.quiet

/-- The text ends a line. -/
def EndsLine (t : Text) : Prop := ∃ init x, t = init ++ [x] ∧ x.isLF = true

/-- `t` is handed over. -/
def Record.hand (w : Record) (t : Text) : Record := { w with handed := w.handed ++ t }

@[simp] theorem Record.hand_nil (w : Record) : w.hand [] = w := by
  rw [Record.hand, List.append_nil]

@[simp] theorem Record.hand_ended (w : Record) (t : Text) : (w.hand t).ended = w.ended := rfl

theorem EndsLine.atLine {t : Text} (h : EndsLine t) (w : Record) : (w.hand t).atLine = true := by
  obtain ⟨init, x, rfl, hx⟩ := h
  rw [Record.atLine, Record.hand]
  simp [hx]

theorem EndsLine.any {t : Text} (h : EndsLine t) : t.any Cell.isLF = true := by
  obtain ⟨init, x, rfl, hx⟩ := h
  simp [hx]

theorem endsLine_cut {t a b : Text} (h : cutAfter Cell.isLF t = some (a, b)) : EndsLine a := by
  obtain ⟨-, init, x, ha, hx, -⟩ := cutAfter_eq_some h
  exact ⟨init, x, ha, hx⟩

theorem any_of_cut {t : Text} (h : cutAfter Cell.isLF t = none) : t.any Cell.isLF = false := by
  rw [List.any_eq_false]
  intro x hx
  simp [cutAfter_eq_none.mp h x hx]

theorem Record.ended_free {w : Record} {t : Text} (hchunk : w.chunk = some t)
    (hfree : t.any Cell.isLF = false) : w.ended = w.quiet + 1 := by
  simp [Record.ended, hchunk, hfree]

/-! ## What the code relies on -/

/-- While the client is away and nothing is cached, the fields describe what was
handed over; `q` chunks without LF are behind. -/
def Describes (m : Marks) (down : Bool) (w : Record) (q : Nat) : Prop :=
  down = true → m.cacheLines = [] →
    (m.chHasNewLine = true → w.atLine = true ∨ 3 ≤ q) ∧
    (m.chHasNewLine = false → m.noNewLineCount ≤ q)

/-- What `handleBuffer` is about to send. -/
inductive Sending (m : Marks) (w : Record) (fresh : Prop) (buf remaining : Text) : Prop
  /-- A chunk up to its first LF. -/
  | line (hbuf : EndsLine buf) (hnew : m.chHasNewLine = true)
  /-- A chunk without LF that has been counted. -/
  | counted (hrest : remaining = []) (hended : w.ended = w.quiet + 1)
      (hnew : m.chHasNewLine = false) (hpos : 1 ≤ m.noNewLineCount)
      (hcount : m.noNewLineCount ≤ w.quiet + 1)
  /-- The chunk as it was read, of a client that was there. -/
  | straight (hrest : remaining = []) (hchunk : w.chunk = some buf) (hfresh : fresh)

/-- What `enqueueWhileDisconnected` is about to queue. -/
def Enqueuing (m : Marks) (w : Record) (buf : Buf) (remaining : Text) : After → Prop
  | .left _ => EndsLine buf.text
  | .count => remaining = [] ∧ w.ended = w.quiet + 1 ∧ m.Clear
  | .start =>
    remaining = [] ∧ w.ended = w.quiet + 1 ∧ m.chHasNewLine = false ∧ 3 ≤ m.noNewLineCount ∧
      m.noNewLineCount ≤ w.quiet + 1

/-- What holds at each program counter. From an observed time-out on, nothing
depends on whether the client is still away. -/
def Standing (m : Marks) (down : Bool) (w : Record) : Pc → Prop
  | .swapMarker buf | .takeDiscard buf | .checkTimeout buf =>
    w.chunk = some buf ∧ Describes m down w w.quiet
  | .checkKeep buf =>
    w.chunk = some buf ∧ (m.cacheLines = [] → m.chHasNewLine = true ∧ w.Ready)
  | .checkCache buf =>
    w.chunk = some buf ∧ (m.cacheLines = [] → down = true →
      m.chHasNewLine = false ∧ m.noNewLineCount ≤ w.quiet)
  | .splitTimeout buf =>
    w.chunk = some buf ∧ m.cacheLines = [] ∧
      (down = true → m.chHasNewLine = false ∧ m.noNewLineCount ≤ w.quiet)
  | .splitKeep buf =>
    w.chunk = some buf ∧ m.cacheLines = [] ∧
      m.chHasNewLine = false ∧ m.noNewLineCount ≤ w.quiet
  | .send buf remaining | .sendTimeout buf remaining | .sendReturned buf remaining
  | .sendWait buf remaining =>
    m.cacheLines = [] ∧ Sending m w (down = true → m.Clear) buf remaining
  | .sendKeep buf remaining | .pullBack buf remaining =>
    m.cacheLines = [] ∧ Sending m w m.Clear buf remaining
  | .enqueue buf after remaining | .enqueueReturned buf after remaining
  | .enqueueWait buf after remaining => m.cacheLines = [] ∧ Enqueuing m w buf remaining after
  | .cacheRemaining remaining =>
    (remaining ≠ [] → m.cacheLines = [] → w.atLine = true) ∧ Describes m down w w.ended
  | .flushRedraw _ | .redrawStore _ | .redrawResize _ | .flushWarn _ | .flushLine .. =>
    m.cacheLines ≠ []
  | .flushSend _ i _ | .flushTimeout _ i _ | .flushReturned _ i _ | .flushWait _ i _ =>
    m.cacheLines ≠ [] ∧ ∀ k ∈ i, k < m.cacheLines.length
  | .flushClear _ => True
  -- no request to discard, and no keep mode
  | .stopDiscard .. | .clearForMarker .. | .clearForDiscard _ | .sendReconnect .. => False
  | .idle | .flushBegin _ | .errorLoop | .errorTimeout | .errorReconnect | .endLoop =>
    Describes m down w w.ended

section Marks

variable {m : Marks} {down down' : Bool} {w w' : Record} {q q' : Nat}

theorem Marks.Clear.describes (h : m.Clear) : Describes m down w q := by
  intro _ _
  refine ⟨fun hnew => ?_, fun _ => ?_⟩
  · rw [h.newLine] at hnew
    cases hnew
  · rw [h.count]
    exact Nat.zero_le q

theorem describes_cached (h : m.cacheLines ≠ []) : Describes m down w q :=
  fun _ hempty => absurd hempty h

/-! ## A disconnection begins or ends -/

/-- The fields are fit for a new disconnection. -/
def Marks.Fresh (m : Marks) : Prop := m.cacheLines ≠ [] ∨ m.Clear

theorem Marks.Fresh.describes (h : m.Fresh) : Describes m down w q :=
  h.elim describes_cached Marks.Clear.describes

theorem Marks.Fresh.clear (h : m.Fresh) (hempty : m.cacheLines = []) : m.Clear :=
  h.resolve_left fun hne => hne hempty

/-- The client is back, or stays as it is. -/
theorem Standing.back {pc : Pc} (h : Standing m down w pc) (hdown : down' = true → down = true) :
    Standing m down' w pc := by
  cases pc with
  | swapMarker _ | takeDiscard _ | checkTimeout _ | cacheRemaining _ =>
    exact ⟨h.1, fun hd => h.2 (hdown hd)⟩
  | idle | flushBegin _ | errorLoop | errorTimeout | errorReconnect | endLoop =>
    exact fun hd => h (hdown hd)
  | checkCache _ => exact ⟨h.1, fun hempty hd => h.2 hempty (hdown hd)⟩
  | splitTimeout _ => exact ⟨h.1, h.2.1, fun hd => h.2.2 (hdown hd)⟩
  | send _ _ | sendTimeout _ _ | sendReturned _ _ | sendWait _ _ =>
    refine ⟨h.1, ?_⟩
    cases h.2 with
    | line hbuf hnew => exact .line hbuf hnew
    | counted hrest hended hnew hpos hcount => exact .counted hrest hended hnew hpos hcount
    | straight hrest hchunk hfresh => exact .straight hrest hchunk fun hd => hfresh (hdown hd)
  | _ => exact h

/-- A disconnection begins: the chunks before it do not count. -/
theorem Standing.away {pc : Pc} (h : Standing m down w pc) (hfresh : m.Fresh) :
    Standing m true { w with quiet := 0 } pc := by
  have hstale {P : Prop} (hnew : m.chHasNewLine = true) (hempty : m.cacheLines = []) : P := by
    rw [(hfresh.clear hempty).newLine] at hnew
    cases hnew
  have hzero (hempty : m.cacheLines = []) : m.noNewLineCount ≤ 0 :=
    Nat.le_of_eq (hfresh.clear hempty).count
  have hsending {fresh fresh' : Prop} {buf remaining : Text} (hempty : m.cacheLines = [])
      (hs : Sending m w fresh buf remaining) (hcase : m.Clear → fresh') :
      Sending m { w with quiet := 0 } fresh' buf remaining := by
    cases hs with
    | line hbuf hnew => exact hstale hnew hempty
    | counted hrest hended hnew hpos hcount =>
      have := hzero hempty
      omega
    | straight hrest hchunk _ => exact .straight hrest hchunk (hcase (hfresh.clear hempty))
  have henqueuing {buf : Buf} {remaining : Text} {after : After} (hempty : m.cacheLines = [])
      (he : Enqueuing m w buf remaining after) :
      Enqueuing m { w with quiet := 0 } buf remaining after := by
    cases after with
    | left _ => exact he
    | count =>
      refine ⟨he.1, ?_, he.2.2⟩
      have := he.2.1
      unfold Record.ended at this ⊢
      cases hchunk : w.chunk with
      | none => simp [hchunk] at this
      | some t =>
        simp only [hchunk] at this ⊢
        split <;> simp_all
    | start =>
      have := hzero hempty
      have := he.2.2.2.1
      omega
  cases pc with
  | swapMarker _ | takeDiscard _ | checkTimeout _ | cacheRemaining _ =>
    exact ⟨h.1, hfresh.describes⟩
  | idle | flushBegin _ | errorLoop | errorTimeout | errorReconnect | endLoop =>
    exact hfresh.describes
  | checkKeep _ => exact ⟨h.1, fun hempty => hstale (h.2 hempty).1 hempty⟩
  | checkCache _ =>
    exact ⟨h.1, fun hempty _ => ⟨(hfresh.clear hempty).newLine, hzero hempty⟩⟩
  | splitTimeout _ =>
    exact ⟨h.1, h.2.1, fun _ => ⟨(hfresh.clear h.2.1).newLine, hzero h.2.1⟩⟩
  | splitKeep _ => exact ⟨h.1, h.2.1, h.2.2.1, hzero h.2.1⟩
  | send _ _ | sendTimeout _ _ | sendReturned _ _ | sendWait _ _ =>
    exact ⟨h.1, hsending h.1 h.2 fun hclear _ => hclear⟩
  | sendKeep _ _ | pullBack _ _ => exact ⟨h.1, hsending h.1 h.2 id⟩
  | enqueue _ _ _ | enqueueReturned _ _ _ | enqueueWait _ _ _ =>
    exact ⟨h.1, henqueuing h.1 h.2⟩
  | _ => exact h

end Marks

/-! ## The invariant -/

structure Tidy (s : Sys) (w : Record) : Prop where
  standing : Standing s.f.marks s.isTimeout w s.pc
  chunk : w.chunk.isSome = s.main.calls
  filled : ∀ t, w.chunk = some t → t ≠ []
  waiting : ∀ buf eof, s.main = .wantBuffer buf eof → buf ≠ []
  owned : s.pc = .idle ↔ s.f.processing = false
  calling : s.main.calls = true → s.f.processing = true
  reading : s.pc.role = .buffer → s.main.calls = true
  returned : s.f.returned = true → s.main = .closing ∨ s.main = .closed

/-- A step keeps the invariant, and an empty cache takes its first byte only where
caching may start. -/
structure Orderly (s : Sys) (w : Record) (t : Sys) : Prop where
  tidy : Tidy t (w.step s t)
  behind : s.f.cacheLines = [] → t.f.cacheLines ≠ [] → (w.step s t).Ready

section Steps

variable {cfg : Config} {s t : Sys} {w : Record}

/-- Nothing is put into an empty cache. -/
theorem Orderly.recorded {w' : Record} (hrecord : w.step s t = w') (htidy : Tidy t w')
    (hempty : s.f.cacheLines = [] → t.f.cacheLines = []) : Orderly s w t := by
  refine ⟨?_, fun h0 h1 => absurd (hempty h0) h1⟩
  rw [hrecord]
  exact htidy

/-- Within a call, or outside of one, only what is handed over is recorded. -/
theorem Record.step_hand (hmain : t.main = s.main) (hdown : t.isTimeout = s.isTimeout)
    (hchunk : w.chunk.isSome = s.main.calls) : w.step s t = w.hand (handedOver s t) := by
  unfold Record.step Record.hand
  rw [hmain, hdown]
  cases hm : s.main with
  | inBuffer eof => cases s.isTimeout <;> simp [Main.calls]
  | _ =>
    have hnone : w.chunk = none := by simpa [hm, Main.calls] using hchunk
    cases s.isTimeout <;> simp [Main.calls, hnone]

theorem Tidy.notReturned (h : Tidy s w) (hrole : s.pc.role = .buffer)
    (herr : s.f.writeError = false) : (s.f.returned || s.f.writeError) = false := by
  rw [herr, Bool.or_false, Bool.eq_false_iff]
  intro hret
  have hcalls := h.reading hrole
  rcases h.returned hret with hm | hm <;> rw [hm] at hcalls <;> cases hcalls

/-- Who calls into the forwarder holds the token. -/
theorem Tidy.outside (h : Tidy s w) (hfree : s.f.processing = false) : s.main.calls = false := by
  rw [Bool.eq_false_iff]
  intro hc
  rw [h.calling hc] at hfree
  cases hfree

theorem Tidy.busy {pc : Pc} (h : Tidy s w) (hpc : s.pc = pc) (hne : pc ≠ .idle) :
    s.f.processing = true := by
  rw [← Bool.not_eq_false, ← h.owned, hpc]
  exact hne

/-- The owner of the token moves on; the reader stays where it is. -/
theorem Tidy.moves (h : Tidy s w) (hproc : s.f.processing = true) (hbusy : t.pc ≠ .idle)
    (hmain : t.main = s.main) (hprocessing : t.f.processing = s.f.processing)
    (hret : t.f.returned = s.f.returned) (hrole : t.pc.role = .buffer → s.pc.role = .buffer)
    (hdown : t.isTimeout = s.isTimeout)
    (hstanding : Standing t.f.marks s.isTimeout (w.hand (handedOver s t)) t.pc) :
    Tidy t (w.step s t) := by
  rw [Record.step_hand hmain hdown h.chunk]
  refine ⟨hdown ▸ hstanding, ?_, h.filled, ?_, ?_, ?_, ?_, ?_⟩
  · rw [hmain]
    exact h.chunk
  · rw [hmain]
    exact h.waiting
  · rw [hprocessing, hproc]
    exact iff_of_false hbusy (by simp)
  · rw [hprocessing]
    exact fun _ => hproc
  · rw [hmain]
    exact fun hr => h.reading (hrole hr)
  · rw [hmain, hret]
    exact h.returned

/-- A step of the owner before the end of its handler. -/
theorem Tidy.owner {ok : Bool} (h : Tidy s w) (hstep : ownerStep cfg ok s = some t)
    (hend : s.pc ≠ .endLoop) (hbusy : t.pc ≠ .idle) (hdown : t.isTimeout = s.isTimeout)
    (hstanding : Standing t.f.marks s.isTimeout (w.hand (handedOver s t)) t.pc) :
    Tidy t (w.step s t) := by
  have hframe := ownerStep_frame hend hstep
  have hne : s.pc ≠ .idle := by
    intro hidle
    rw [ownerStep, hidle] at hstep
    cases hstep
  exact h.moves (h.busy rfl hne) hbusy hframe.main hframe.processing hframe.returned
    (ownerStep_role hstep) hdown hstanding

theorem Standing.unhanded {m : Marks} {down : Bool} {pc : Pc} (h : Standing m down w pc)
    (hhanded : handedOver s t = []) : Standing m down (w.hand (handedOver s t)) pc := by
  rw [hhanded, Record.hand_nil]
  exact h

/-- It hands nothing over and puts nothing into an empty cache. -/
theorem Tidy.stays {ok : Bool} (h : Tidy s w) (hstep : ownerStep cfg ok s = some t)
    (hend : s.pc ≠ .endLoop) (hbusy : t.pc ≠ .idle) (hdown : t.isTimeout = s.isTimeout)
    (hslot : handedOver s t = []) (hempty : s.f.cacheLines = [] → t.f.cacheLines = [])
    (hstanding : Standing t.f.marks s.isTimeout w t.pc) : Orderly s w t := by
  exact ⟨h.owner hstep hend hbusy hdown (hstanding.unhanded hslot),
    fun h0 h1 => absurd (hempty h0) h1⟩

/-- It moves on within its call, and neither the queue nor the cache changes. -/
theorem Tidy.goesOn {ok : Bool} {f : Forwarder} {pc : Pc} (h : Tidy s w)
    (hstep : ownerStep cfg ok s = some { s with f := f, pc := pc }) (hend : s.pc ≠ .endLoop)
    (hbusy : pc ≠ .idle) (hslot : f.writeBufCh = s.f.writeBufCh)
    (hcache : f.cacheLines = s.f.cacheLines) (hstanding : Standing f.marks s.isTimeout w pc) :
    Orderly s w { s with f := f, pc := pc } :=
  h.stays hstep hend hbusy rfl (handedOver_same hslot) hcache.trans hstanding

/-- It caches something where caching may start. -/
theorem Tidy.caches {ok : Bool} (h : Tidy s w) (hstep : ownerStep cfg ok s = some t)
    (hend : s.pc ≠ .endLoop) (hbusy : t.pc ≠ .idle) (hdown : t.isTimeout = s.isTimeout)
    (hready : s.f.cacheLines = [] → (w.hand (handedOver s t)).Ready)
    (hstanding : Standing t.f.marks s.isTimeout (w.hand (handedOver s t)) t.pc) :
    Orderly s w t := by
  refine ⟨h.owner hstep hend hbusy hdown hstanding, fun hempty _ => ?_⟩
  rw [Record.step_hand (ownerStep_frame hend hstep).main hdown h.chunk]
  exact hready hempty

/-! ## The steps of `handleBuffer` -/

/-- What a pull-back puts together. -/
def Sys.pulledText (s : Sys) (buf : Text) : Text :=
  (s.f.writeBufCh.map Buf.text).getD [] ++ buf

/-- What a run has to keep clear of: requests to discard, the keep mode, write
errors, and a pull-back that counts a counted chunk again. -/
structure Calm (s : Sys) : Prop where
  discardOutput : s.f.discardOutput = false
  discardMarker : s.f.discardMarker = none
  keep : s.isKeepPendingOutput = false
  writeError : s.f.writeError = false
  once : ∀ buf remaining, s.pc = .pullBack buf remaining →
    (s.pulledText buf).any Cell.isLF = true ∨ s.f.noNewLineCount = 0 ∨ 3 ≤ s.f.noNewLineCount

theorem Sys.cache_handedOver (s : Sys) (cfg : Config) (buf : Text) (pc : Pc) :
    handedOver s ((s.cache cfg buf).goto pc) = [] :=
  handedOver_same (by simp [Sys.cache, Sys.goto])

theorem Sys.splitPulled_isTimeout (s : Sys) (buf : Buf) (remaining : Text) :
    (s.splitPulled buf remaining).isTimeout = s.isTimeout := by
  unfold Sys.splitPulled
  split
  · split <;> rfl
  · rfl

theorem Sys.afterEnqueue_left (cfg : Config) (s : Sys) (text remaining : Text) :
    (s.afterEnqueue cfg (.left text) remaining).pc = .cacheRemaining remaining ∧
      (s.afterEnqueue cfg (.left text) remaining).f.chHasNewLine = true ∧
      (s.afterEnqueue cfg (.left text) remaining).isTimeout = s.isTimeout := by
  unfold Sys.afterEnqueue
  dsimp only
  split <;> exact ⟨rfl, rfl, rfl⟩

/-- Behind a pull-back: the first line is queued, a fresh chunk is counted, and
the third one starts the cache. -/
theorem Standing.splitPulled {buf remaining : Text} {b : Buf} {u : Sys} {down : Bool}
    (hst : Standing s.f.marks down w (.pullBack buf remaining)) (hmarks : u.f.marks = s.f.marks)
    (hb : ∃ front, b.text = front ++ buf)
    (honce : b.text.any Cell.isLF = true ∨ s.f.noNewLineCount = 0 ∨ 3 ≤ s.f.noNewLineCount) :
    Standing (u.splitPulled b remaining).f.marks down w (u.splitPulled b remaining).pc ∧
      (u.splitPulled b remaining).pc ≠ .idle ∧
      (u.splitPulled b remaining).f.cacheLines = [] := by
  obtain ⟨hempty, hsending⟩ := hst
  have hlines : u.f.cacheLines = [] := (congrArg Marks.cacheLines hmarks).trans hempty
  have hcount : u.f.noNewLineCount = s.f.noNewLineCount := congrArg Marks.noNewLineCount hmarks
  unfold Sys.splitPulled
  split
  · rename_i hcut
    have hfree := any_of_cut hcut
    have honce' := honce.resolve_left (by rw [hfree]; simp)
    have hbuf : buf.any Cell.isLF = false := by
      obtain ⟨front, hfront⟩ := hb
      rw [hfront, List.any_append, Bool.or_eq_false_iff] at hfree
      exact hfree.2
    rw [hcount]
    cases hsending with
    | line hline _ =>
      rw [hline.any] at hbuf
      cases hbuf
    | counted hrest hended hnew hpos hle =>
      have hpos' : 1 ≤ s.f.noNewLineCount := hpos
      rw [if_neg (by omega)]
      refine ⟨⟨hlines, hrest, hended, ?_, ?_, ?_⟩, by simp [Sys.goto], hlines⟩
      · exact (congrArg Marks.chHasNewLine hmarks).trans hnew
      · show 3 ≤ u.f.noNewLineCount
        omega
      · show u.f.noNewLineCount ≤ w.quiet + 1
        rw [hcount]
        exact hle
    | straight hrest hchunk hclear =>
      have hzero : s.f.noNewLineCount = 0 := hclear.count
      rw [if_pos (by omega)]
      refine ⟨⟨hlines, hrest, Record.ended_free hchunk hbuf, ?_⟩, by simp [Sys.goto], hlines⟩
      show u.f.marks.Clear
      rw [hmarks]
      exact hclear
  · rename_i line left hcut
    refine ⟨⟨hlines, ?_⟩, by simp [Sys.goto], hlines⟩
    show EndsLine (b.take line.length).text
    rw [Buf.text_take, ← cutAfter_append hcut, List.take_left]
    exact endsLine_cut hcut

/-- Behind a successful `enqueueWhileDisconnected` of `buf`. -/
theorem Tidy.enqueued {ok : Bool} {buf : Buf} {after : After} {remaining : Text} (h : Tidy s w)
    (hpc : s.pc = .enqueue buf after remaining) (hfree : s.f.writeBufCh = none)
    (hown : ownerStep cfg ok s =
      some (Sys.afterEnqueue cfg { s with f := { s.f with writeBufCh := some buf } } after remaining)) :
    Orderly s w
      (Sys.afterEnqueue cfg { s with f := { s.f with writeBufCh := some buf } } after remaining) := by
  have hend : s.pc ≠ .endLoop := by simp [hpc]
  have hst := h.standing
  rw [hpc] at hst
  obtain ⟨hempty, henqueuing⟩ := hst
  cases after with
  | count =>
    obtain ⟨hrest, hended, hclear⟩ := henqueuing
    refine ⟨h.owner hown hend (by simp [Sys.afterEnqueue, Sys.goto]) rfl ?_,
      fun _ hne => absurd hempty hne⟩
    refine ⟨fun hne => absurd hrest hne, fun _ _ => ⟨fun hnew => ?_, fun _ => ?_⟩⟩
    · exact absurd (hclear.newLine.symm.trans hnew) (by simp)
    · have hzero : s.f.noNewLineCount = 0 := hclear.count
      show s.f.noNewLineCount + 1 ≤ _
      rw [Record.hand_ended, hended]
      omega
  | start =>
    obtain ⟨hrest, hended, -, hthree, hle⟩ := henqueuing
    refine ⟨h.owner hown hend (by simp [Sys.afterEnqueue, Sys.goto]) rfl ?_,
      fun _ hne => absurd hempty hne⟩
    refine ⟨fun hne => absurd hrest hne, fun _ _ => ⟨fun _ => .inr ?_, fun hnew => ?_⟩⟩
    · rw [Record.hand_ended, hended]
      omega
    · cases hnew
  | left text =>
    -- the queued part ends with the LF behind which caching starts
    have hline : EndsLine buf.text := henqueuing
    obtain ⟨hpc', hnew, hdown⟩ := Sys.afterEnqueue_left cfg
      { s with f := { s.f with writeBufCh := some buf } } text remaining
    have hhanded := handedOver_sent hfree (Sys.afterEnqueue_writeBufCh
      { s with f := { s.f with writeBufCh := some buf } } cfg (.left text) remaining)
    refine h.caches hown hend (by rw [hpc']; simp) hdown (fun _ => .inl ?_) ?_
    · rw [hhanded]
      exact hline.atLine w
    · rw [hpc', hhanded]
      exact ⟨fun _ _ => hline.atLine w, fun _ _ => ⟨fun _ => .inl (hline.atLine w),
        fun hnew' => absurd (hnew.symm.trans hnew') (by simp)⟩⟩

/-- The chunk goes to the writer. -/
theorem Tidy.sent {ok : Bool} {buf remaining : Text} (h : Tidy s w)
    (hpc : s.pc = .send buf remaining) (hfree : s.f.writeBufCh = none)
    (hown : ownerStep cfg ok s = some (Sys.goto
      { s with f := { s.f with writeBufCh := some { raw := buf } } } (.cacheRemaining remaining))) :
    Orderly s w (Sys.goto
      { s with f := { s.f with writeBufCh := some { raw := buf } } }
      (.cacheRemaining remaining)) := by
  have hend : s.pc ≠ .endLoop := by simp [hpc]
  have hst := h.standing
  rw [hpc] at hst
  obtain ⟨hempty, hsending⟩ := hst
  refine ⟨h.owner hown hend (by simp [Sys.goto]) rfl ?_, fun _ hne => absurd hempty hne⟩
  rw [handedOver_sent hfree rfl]
  have htext : Buf.text { raw := buf } = buf := by simp [Buf.text, Buf.frontText]
  rw [htext]
  cases hsending with
  | line hline hnew =>
    exact ⟨fun _ _ => hline.atLine w, fun _ _ => ⟨fun _ => .inl (hline.atLine w),
      fun hnew' => absurd (hnew.symm.trans hnew') (by simp)⟩⟩
  | counted hrest hended hnew hpos hle =>
    refine ⟨fun hne => absurd hrest hne, fun _ _ => ⟨fun hnew' => ?_, fun _ => ?_⟩⟩
    · exact absurd (hnew.symm.trans hnew') (by simp)
    · rw [Record.hand_ended, hended]
      exact hle
  | straight hrest hchunk hfresh =>
    exact ⟨fun hne => absurd hrest hne, fun hd => (hfresh hd).describes hd⟩

/-- The chunk is put behind what the queue still holds. -/
theorem Tidy.pulledBack {ok : Bool} {buf remaining : Text} (h : Tidy s w)
    (hpc : s.pc = .pullBack buf remaining)
    (honce : (s.pulledText buf).any Cell.isLF = true ∨ s.f.noNewLineCount = 0 ∨
      3 ≤ s.f.noNewLineCount)
    (hown : ownerStep cfg ok s = some t) : Orderly s w t := by
  have hend : s.pc ≠ .endLoop := by simp [hpc]
  have hst := h.standing
  rw [hpc] at hst
  have hstep := hown
  simp only [ownerStep, hpc] at hstep
  unfold Sys.pulledText at honce
  split at hstep <;> cases hstep <;> rename_i hslot
  · rename_i b
    have hpulled : (b.append buf).text.any Cell.isLF = true ∨ s.f.noNewLineCount = 0 ∨
        3 ≤ s.f.noNewLineCount := by simpa [hslot] using honce
    obtain ⟨hstanding, hbusy, hempty⟩ := Standing.splitPulled
      (u := { s with f := { s.f with writeBufCh := none } }) hst rfl ⟨b.text, Buf.text_append b buf⟩
      hpulled
    exact h.stays hown hend hbusy (Sys.splitPulled_isTimeout _ _ _)
      (handedOver_none (Sys.splitPulled_writeBufCh _ _ _)) (fun _ => hempty) hstanding
  · have hpulled : Buf.text { raw := buf } = buf := by simp [Buf.text, Buf.frontText]
    obtain ⟨hstanding, hbusy, hempty⟩ := Standing.splitPulled (b := { raw := buf }) (u := s)
      hst rfl ⟨[], hpulled⟩ (by simpa [hslot, hpulled] using honce)
    exact h.stays hown hend hbusy (Sys.splitPulled_isTimeout _ _ _)
      (handedOver_same (Sys.splitPulled_writeBufCh _ _ _)) (fun _ => hempty) hstanding

theorem Pc.ne_endLoop {pc : Pc} {role : Role} (hrole : pc.role = role)
    (hne : Pc.role .endLoop ≠ role) : pc ≠ .endLoop := by
  rintro rfl
  exact hne hrole

/-- The steps of `handleBuffer`. -/
theorem Tidy.bufferStep {ok : Bool} (h : Tidy s w) (hcalm : Calm s)
    (hrole : s.pc.role = .buffer) (hown : ownerStep cfg ok s = some t) : Orderly s w t := by
  have hend := Pc.ne_endLoop hrole (by simp [Pc.role])
  have hreturned := h.notReturned hrole hcalm.writeError
  have hst := h.standing
  have hstep := hown
  unfold ownerStep at hstep
  cases hpc : s.pc <;> rw [hpc] at hrole hst <;> simp only [hpc] at hstep
  case swapMarker buf =>
    rw [hcalm.discardMarker] at hstep
    cases hstep
    exact h.goesOn hown hend (by simp) rfl rfl hst
  case takeDiscard buf =>
    rw [hcalm.discardOutput] at hstep
    cases hstep
    exact h.goesOn hown hend (by simp) rfl rfl hst
  case checkTimeout buf =>
    split at hstep <;> cases hstep
    · rename_i hseen
      obtain ⟨hnew, hdown⟩ := Bool.and_eq_true_iff.mp hseen
      refine h.goesOn hown hend (by simp) rfl rfl ⟨hst.1, ?_⟩
      exact fun hempty => ⟨hnew, (hst.2 hdown hempty).1 hnew⟩
    · rename_i hseen
      refine h.goesOn hown hend (by simp) rfl rfl ⟨hst.1, ?_⟩
      intro hempty hdown
      have hnew : s.f.chHasNewLine = false := by simpa [hdown] using hseen
      exact ⟨hnew, (hst.2 hdown hempty).2 hnew⟩
  case checkKeep buf =>
    rw [if_pos (by rw [hcalm.keep]; rfl)] at hstep
    cases hstep
    have hfilled := h.filled buf hst.1
    refine h.caches hown hend (by simp [Sys.goto]) rfl ?_ ?_
    · rw [Sys.cache_handedOver, Record.hand_nil]
      exact fun hempty => (hst.2 hempty).2
    · exact describes_cached (cacheOutput_ne_nil _ _ (.inr hfilled))
  case checkCache buf =>
    split at hstep <;> cases hstep
    · rename_i hempty
      have hempty' := List.isEmpty_iff.mp hempty
      exact h.goesOn hown hend (by simp) rfl rfl ⟨hst.1, hempty', hst.2 hempty'⟩
    · rename_i hcached
      have hcached' : s.f.cacheLines ≠ [] := by simpa using hcached
      refine h.caches hown hend (by simp [Sys.goto]) rfl (fun hempty => absurd hempty hcached') ?_
      exact describes_cached (cacheOutput_ne_nil _ _ (.inl hcached'))
  case splitTimeout buf =>
    obtain ⟨hchunk, hempty, hdown⟩ := hst
    split at hstep <;> cases hstep
    · rename_i hseen
      exact h.goesOn hown hend (by simp) rfl rfl ⟨hchunk, hempty, hdown hseen⟩
    · rename_i hseen
      exact h.goesOn hown hend (by simp) rfl rfl
        ⟨hempty, .straight rfl hchunk fun hd => absurd hd hseen⟩
  case splitKeep buf =>
    obtain ⟨hchunk, hempty, hnew, hle⟩ := hst
    rw [if_neg (by rw [hcalm.keep]; simp)] at hstep
    split at hstep
    · rename_i line remaining hcut
      cases hstep
      exact h.goesOn hown hend (by simp) rfl rfl ⟨hempty, .line (endsLine_cut hcut) rfl⟩
    · rename_i hcut
      have hended := Record.ended_free hchunk (any_of_cut hcut)
      split at hstep <;> cases hstep
      · exact h.goesOn hown hend (by simp) rfl rfl
          ⟨hempty, .counted rfl hended hnew (Nat.le_add_left 1 _) (Nat.succ_le_succ hle)⟩
      · rename_i hthree
        have hquiet : 3 ≤ w.quiet := Nat.le_trans (Nat.le_of_not_lt hthree) hle
        refine h.caches hown hend (by simp [Sys.goto]) rfl (fun _ => .inr hquiet) ?_
        exact describes_cached (cacheOutput_ne_nil _ _ (.inr (h.filled buf hchunk)))
  case send buf remaining =>
    obtain ⟨hempty, hsending⟩ := hst
    simp only [Sys.trySend] at hstep
    split at hstep <;> cases hstep
    · exact h.sent hpc ‹_› hown
    · exact h.goesOn hown hend (by simp) rfl rfl ⟨hempty, hsending⟩
  case sendTimeout buf remaining =>
    obtain ⟨hempty, hsending⟩ := hst
    split at hstep <;> cases hstep
    · rename_i hdown
      refine h.goesOn hown hend (by simp) rfl rfl ⟨hempty, ?_⟩
      cases hsending with
      | line hline hnew => exact .line hline hnew
      | counted hrest hended hnew hpos hle => exact .counted hrest hended hnew hpos hle
      | straight hrest hchunk hfresh => exact .straight hrest hchunk (hfresh hdown)
    · exact h.goesOn hown hend (by simp) rfl rfl ⟨hempty, hsending⟩
  case sendKeep buf remaining =>
    rw [if_neg (by rw [hcalm.keep]; simp)] at hstep
    cases hstep
    exact h.goesOn hown hend (by simp) rfl rfl hst
  case pullBack buf remaining =>
    exact h.pulledBack hpc (hcalm.once buf remaining hpc) hown
  case sendReturned buf remaining =>
    rw [hreturned] at hstep
    cases hstep
    exact h.goesOn hown hend (by simp) rfl rfl hst
  case enqueue buf after remaining =>
    simp only [Sys.trySend] at hstep
    split at hstep <;> cases hstep
    · exact h.enqueued hpc ‹_› hown
    · exact h.goesOn hown hend (by simp) rfl rfl hst
  case enqueueReturned buf after remaining =>
    rw [hreturned] at hstep
    cases hstep
    exact h.goesOn hown hend (by simp) rfl rfl hst
  case cacheRemaining remaining =>
    cases hstep
    split
    · rename_i hrest
      rw [if_pos hrest] at hown
      exact h.goesOn hown hend (by simp) rfl rfl hst.2
    · rename_i hrest
      rw [if_neg hrest] at hown
      have hrest' : remaining ≠ [] := by simpa using hrest
      refine h.caches hown hend (by simp [Sys.goto]) rfl ?_ ?_
      · rw [Sys.cache_handedOver, Record.hand_nil]
        exact fun hempty => .inl (hst.1 hrest' hempty)
      · exact describes_cached (cacheOutput_ne_nil _ _ (.inr hrest'))
  all_goals first | cases hrole; done | exact hst.elim | cases hstep

/-! ## The other steps -/

theorem Standing.toCaller {m : Marks} {down : Bool} (ret : Ret) (h : Describes m down w w.ended) :
    Standing m down w ret.pc := by
  cases ret <;> exact h

theorem Ret.pc_ne_idle (ret : Ret) : ret.pc ≠ .idle := by
  cases ret <;> simp [Ret.pc]

/-- The steps of `flushOutput`: until it has emptied the cache, the fields have
nothing to say. -/
theorem Tidy.flushStep {ok : Bool} {ret : Ret} (h : Tidy s w) (hrole : s.pc.role = .flush ret)
    (hown : ownerStep cfg ok s = some t) : Orderly s w t := by
  have hend := Pc.ne_endLoop hrole (by simp [Pc.role])
  have hst := h.standing
  have hstep := hown
  unfold ownerStep at hstep
  cases hpc : s.pc <;> rw [hpc] at hrole hst <;> simp only [hpc] at hstep <;> cases hrole
  case flushBegin =>
    split at hstep
    · cases hstep
      exact h.goesOn hown hend ret.pc_ne_idle rfl rfl (.toCaller ret hst)
    · rename_i hcached
      have hcached' : s.f.cacheLines ≠ [] := by
        intro hempty
        simp [hempty] at hcached
      split at hstep <;> cases hstep <;>
        exact h.goesOn hown hend (by simp) rfl rfl hcached'
  case flushRedraw =>
    split at hstep
    · cases hstep
      exact h.goesOn hown hend (by simp) rfl rfl trivial
    · split at hstep <;> cases hstep <;>
        exact h.goesOn hown hend (by simp) rfl rfl hst
  case redrawStore =>
    cases hstep
    exact h.goesOn hown hend (by simp) rfl rfl hst
  case redrawResize =>
    split at hstep <;> cases hstep
    · exact h.goesOn hown hend (by simp) rfl rfl trivial
    · exact h.goesOn hown hend (by simp) rfl rfl hst
  case flushClear =>
    cases hstep
    have hclear : (s.clear.goto ret.pc).f.marks.Clear := ⟨rfl, rfl⟩
    exact h.stays hown hend ret.pc_ne_idle rfl (handedOver_same rfl) (fun _ => rfl)
      (.toCaller ret hclear.describes)
  case flushWarn =>
    cases hstep
    exact h.goesOn hown hend (by simp) rfl rfl ⟨hst, by simp⟩
  case flushLine i =>
    split at hstep
    · cases hstep
      exact h.stays hown hend ret.pc_ne_idle rfl (handedOver_same rfl) (fun _ => rfl)
        (.toCaller ret (Marks.Clear.describes ⟨rfl, rfl⟩))
    · rename_i line hline
      split at hstep <;> cases hstep
      · exact h.stays hown hend (by simp [Sys.flushNext, Sys.goto]) rfl (handedOver_same rfl) id hst
      · refine h.goesOn hown hend (by simp) rfl rfl ⟨hst, ?_⟩
        rintro k ⟨⟩
        exact (List.getElem?_eq_some_iff.mp hline).1
  case flushSend i line =>
    simp only [Sys.trySend] at hstep
    split at hstep <;> cases hstep
    · refine ⟨h.owner hown hend ?_ ?_ ?_, fun hempty => absurd hempty hst.1⟩
      · cases i <;> simp [Sys.flushSent, Sys.flushNext, Sys.goto]
      · cases i <;> rfl
      · cases i <;> exact hst.1
    · exact h.goesOn hown hend (by simp) rfl rfl hst
  case flushTimeout i line =>
    split at hstep <;> cases hstep
    · cases i with
      | none =>
        exact h.goesOn hown hend ret.pc_ne_idle rfl rfl (.toCaller ret (describes_cached hst.1))
      | some i =>
        have hkept : s.f.cacheLines.drop i ≠ [] := by
          intro hnil
          exact absurd (List.drop_eq_nil_iff.mp hnil) (Nat.not_le_of_lt (hst.2 i rfl))
        exact h.stays hown hend ret.pc_ne_idle rfl (handedOver_same rfl)
          (fun hempty => absurd hempty hst.1) (.toCaller ret (describes_cached hkept))
    · exact h.goesOn hown hend (by simp) rfl rfl hst
  case flushReturned i line =>
    split at hstep <;> cases hstep
    · exact h.goesOn hown hend ret.pc_ne_idle rfl rfl (.toCaller ret (describes_cached hst.1))
    · exact h.goesOn hown hend (by simp) rfl rfl hst
  case flushWait => cases hstep

/-- The steps of `handleError`. -/
theorem Tidy.errorStep {ok : Bool} (h : Tidy s w) (hrole : s.pc.role = .error)
    (hown : ownerStep cfg ok s = some t) : Orderly s w t := by
  have hend := Pc.ne_endLoop hrole (by simp [Pc.role])
  have hst := h.standing
  have hstep := hown
  unfold ownerStep at hstep
  cases hpc : s.pc <;> rw [hpc] at hrole hst <;> simp only [hpc] at hstep <;> cases hrole
  case errorLoop =>
    split at hstep <;> cases hstep <;>
      exact h.goesOn hown hend (by simp) rfl rfl hst
  case errorTimeout =>
    split at hstep <;> cases hstep <;>
      exact h.goesOn hown hend (by simp) rfl rfl hst
  case errorReconnect => cases hstep

theorem Sys.endProcessing_calls (s : Sys) : s.endProcessing.main.calls = false := by
  unfold Sys.endProcessing
  cases hm : s.main with
  | inBuffer eof => cases eof <;> rfl
  | _ => rfl

/-- A call ends: from here on its chunk is one of those behind. -/
theorem Record.step_endProcessing (hchunk : w.chunk.isSome = s.main.calls) :
    w.step s s.endProcessing = { w with chunk := none, quiet := w.ended } := by
  have hdown : s.endProcessing.isTimeout = s.isTimeout := rfl
  have hhanded : handedOver s s.endProcessing = [] := handedOver_same rfl
  have hquiet : (if s.main.calls && !false then w.ended else w.quiet) = w.ended := by
    cases hm : s.main.calls with
    | true => rfl
    | false =>
      have hnone : w.chunk = none := by simpa [hm] using hchunk
      simp [Record.ended, hnone]
  unfold Record.step
  rw [hdown, hhanded, s.endProcessing_calls, hquiet]
  cases s.isTimeout <;> simp

/-- The end of a handler. -/
theorem Tidy.finishStep {ok : Bool} (h : Tidy s w) (hpc : s.pc = .endLoop)
    (hown : ownerStep cfg ok s = some t) : Orderly s w t := by
  have hst := h.standing
  rw [hpc] at hst
  rcases ownerStep_endLoop hpc hown with rfl | rfl
  · have hflush : Standing s.f.marks s.isTimeout w (.flushBegin .endProcessing) := hst
    exact ⟨h.moves (h.busy hpc (by simp)) (by simp) rfl rfl rfl (by simp [Pc.role]) rfl
      (hflush.unhanded (handedOver_same rfl)), fun hempty hne => absurd hempty hne⟩
  · refine .recorded (Record.step_endProcessing h.chunk) ?_ id
    have hcalls := s.endProcessing_calls
    refine ⟨hst, ?_, ?_, ?_, ?_, ?_, ?_, ?_⟩
    · rw [hcalls]
      rfl
    · intro t ht
      cases ht
    · intro buf eof hm
      unfold Sys.endProcessing at hm
      cases hm' : s.main with
      | inBuffer eof' => cases eof' <;> simp [hm'] at hm
      | wantBuffer buf' eof' =>
        rw [hm'] at hm
        exact h.waiting buf eof (hm'.trans hm)
      | _ => simp [hm'] at hm
    · simp [Sys.endProcessing]
    · rw [hcalls]
      simp
    · simp [Sys.endProcessing, Pc.role]
    · intro hret
      rcases h.returned hret with hm | hm <;> simp [Sys.endProcessing, hm]

theorem Tidy.ownerStep {ok : Bool} (h : Tidy s w) (hcalm : Calm s)
    (hown : ownerStep cfg ok s = some t) : Orderly s w t := by
  cases hrole : s.pc.role with
  | buffer => exact h.bufferStep hcalm hrole hown
  | flush ret => exact h.flushStep hrole hown
  | error => exact h.errorStep hrole hown
  | finish =>
    refine h.finishStep ?_ hown
    cases hpc : s.pc <;> rw [hpc] at hrole <;> first | rfl | cases hrole
  | idle =>
    have hpc : s.pc = .idle := by
      cases hpc : s.pc <;> rw [hpc] at hrole <;> first | rfl | cases hrole
    rw [Output.ownerStep, hpc] at hown
    cases hown

/-- A wait goes back to the code it is part of. -/
theorem Tidy.wakeOwner {failed : Bool} (h : Tidy s w) (hstep : wakeOwner failed s = some t) :
    Orderly s w t := by
  have hst := h.standing
  have hback := hstep
  obtain ⟨pc, rfl, hne, hrole⟩ := wakeOwner_goto hstep
  suffices hpc : Standing s.f.marks s.isTimeout w pc ∧ pc ≠ .idle from
    ⟨h.moves (h.busy rfl hne) hpc.2 rfl rfl rfl hrole rfl (hpc.1.unhanded (handedOver_same rfl)),
      fun hempty hne => absurd hempty hne⟩
  unfold Output.wakeOwner Output.wakeOwner.reconnected at hback
  have hgoto {pc' : Pc} (heq : some (s.goto pc') = some (s.goto pc)) : pc = pc' :=
    (congrArg Sys.pc (Option.some.inj heq)).symm
  cases hpc : s.pc <;> rw [hpc] at hst <;> simp only [hpc] at hback
  case sendWait | enqueueWait | flushWait =>
    split at hback
    · cases hback
    · obtain rfl := hgoto hback
      exact ⟨hst, by simp⟩
  case errorReconnect =>
    repeat' split at hback
    all_goals first | cases hback; done | obtain rfl := hgoto hback; exact ⟨hst, by simp⟩
  case sendReconnect => exact hst.elim
  all_goals cases hback

/-- The record beside a step of the others. -/
theorem Record.step_side (hside : Side s t) (hchunk : w.chunk.isSome = s.main.calls) :
    w.step s t = if !s.isTimeout && t.isTimeout then { w with quiet := 0 } else w := by
  unfold Record.step
  rw [hside.handed, hside.calls, List.append_nil]
  cases hm : s.main with
  | inBuffer eof => cases s.isTimeout <;> cases t.isTimeout <;> simp [Main.calls]
  | _ =>
    have hnone : w.chunk = none := by simpa [hm, Main.calls] using hchunk
    cases s.isTimeout <;> cases t.isTimeout <;> simp [Main.calls, ← hnone]

/-- The clients, the writer and the reader move. -/
theorem Tidy.beside (h : Tidy s w) (hside : Side s t)
    (hfresh : s.isTimeout = false → t.isTimeout = true → s.f.marks.Fresh)
    (hwaiting : ∀ buf eof, t.main = .wantBuffer buf eof → buf ≠ [])
    (hreturned : t.f.returned = true → t.main = .closing ∨ t.main = .closed) : Orderly s w t := by
  have hmarks : t.f.marks = s.f.marks := by
    rw [Forwarder.marks, hside.cacheLines, hside.chHasNewLine, hside.noNewLineCount]
    rfl
  have hstep := Record.step_side hside h.chunk
  have hchunk : (w.step s t).chunk = w.chunk := by
    rw [hstep]
    split <;> rfl
  refine ⟨⟨?_, ?_, ?_, hwaiting, ?_, ?_, ?_, hreturned⟩, fun hempty hne => ?_⟩
  · rw [hmarks, hside.pc, hstep]
    split
    · rename_i hbegins
      simp only [Bool.and_eq_true, Bool.not_eq_true'] at hbegins
      rw [hbegins.2]
      exact h.standing.away (hfresh hbegins.1 hbegins.2)
    · rename_i hstays
      refine h.standing.back fun hd => ?_
      simpa [hd] using hstays
  · rw [hchunk, hside.calls]
    exact h.chunk
  · rw [hchunk]
    exact h.filled
  · rw [hside.pc, hside.processing]
    exact h.owned
  · rw [hside.calls, hside.processing]
    exact h.calling
  · rw [hside.pc, hside.calls]
    exact h.reading
  · rw [hside.cacheLines] at hne
    exact absurd hempty hne

/-- The record where a call begins. -/
theorem Record.step_begin {buf : Text} {eof eof' : Bool} (hs : s.main = .wantBuffer buf eof)
    (ht : t.main = .inBuffer eof') (hdown : t.isTimeout = s.isTimeout)
    (hhanded : handedOver s t = []) : w.step s t = { w with chunk := some buf } := by
  unfold Record.step
  rw [hs, ht, hdown, hhanded, List.append_nil]
  cases s.isTimeout <;> simp [Main.calls]

/-- The record outside of the calls. -/
theorem Record.step_outside (hs : s.main.calls = false) (ht : t.main.calls = false)
    (hchunk : w.chunk = none) (hdown : t.isTimeout = s.isTimeout)
    (hhanded : handedOver s t = []) : w.step s t = w := by
  unfold Record.step
  rw [hs, ht, hdown, hhanded, List.append_nil]
  cases s.isTimeout <;> simp [← hchunk]

/-- The reader takes the free token for the next chunk. -/
theorem Tidy.begin {buf : Text} {eof : Bool} (h : Tidy s w) (hfree : s.f.processing = false)
    (hm : s.main = .wantBuffer buf eof) :
    Orderly s w ({ s with main := .inBuffer eof }.takeToken (.swapMarker buf)) := by
  have hst := h.standing
  rw [h.owned.mpr hfree] at hst
  have hnone : w.chunk = none := by simpa [hm, Main.calls] using h.chunk
  have hended : w.ended = w.quiet := by simp [Record.ended, hnone]
  refine .recorded (Record.step_begin hm rfl rfl (handedOver_same rfl)) ?_ id
  refine ⟨⟨rfl, ?_⟩, rfl, ?_, ?_, by simp [Sys.takeToken], fun _ => rfl, fun _ => rfl, ?_⟩
  · have hdescribes : Describes s.f.marks s.isTimeout w w.ended := hst
    rw [hended] at hdescribes
    exact hdescribes
  · rintro t ⟨⟩
    exact h.waiting buf eof hm
  · simp [Sys.takeToken]
  · intro hret
    rcases h.returned hret with hm' | hm' <;> exact absurd (hm.symm.trans hm') (by simp)

/-- The free token is taken where the reader is not in a call. -/
theorem Tidy.taken {main : Main} {pc : Pc} (h : Tidy s w) (hfree : s.f.processing = false)
    (hst : Describes s.f.marks s.isTimeout w w.ended → Standing s.f.marks s.isTimeout w pc)
    (hpc : pc ≠ .idle) (hrole : pc.role ≠ .buffer) (hcalls : main.calls = false)
    (hwaiting : ∀ buf eof, main = .wantBuffer buf eof → buf ≠ [])
    (hreturned : s.f.returned = true → main = .closing ∨ main = .closed) {n : Nat} :
    Orderly s w ({ s with main := main, notifications := n }.takeToken pc) := by
  have hidle := h.standing
  rw [h.owned.mpr hfree] at hidle
  have hscalls := h.outside hfree
  have hnone : w.chunk = none := by simpa [hscalls] using h.chunk
  refine .recorded (Record.step_outside hscalls hcalls hnone rfl (handedOver_same rfl)) ?_ id
  refine ⟨hst hidle, ?_, h.filled, hwaiting, ?_, fun _ => rfl, fun hr => absurd hr hrole, hreturned⟩
  · rw [hnone]
    exact hcalls.symm
  · exact iff_of_false hpc (by simp [Sys.takeToken])

/-- **The step lemma.** -/
theorem Tidy.next {a : Act} (h : Tidy s w) (hcalm : ∀ ok, a = .owner ok → Calm s)
    (hfresh : s.isTimeout = false → t.isTimeout = true → s.f.marks.Fresh)
    (hstep : next cfg s a = some t) : Orderly s w t := by
  cases a with
  | owner ok => exact h.ownerStep (hcalm ok rfl) hstep
  | wake failed => exact h.wakeOwner hstep
  | begin =>
    simp only [Output.next] at hstep
    split at hstep
    · cases hstep
    · rename_i hfree
      have hfree' : s.f.processing = false := by simpa using hfree
      split at hstep <;> cases hstep
      · exact h.begin hfree' ‹_›
      · rename_i hm
        refine h.taken hfree' id (by simp) (by simp [Pc.role]) rfl (by simp) ?_
        intro hret
        rcases h.returned hret with hm' | hm' <;> exact absurd (hm.symm.trans hm') (by simp)
  | onReconnected =>
    simp only [Output.next] at hstep
    split at hstep
    · cases hstep
    · split at hstep
      · cases hstep
        exact h.beside (.same rfl rfl rfl) hfresh h.waiting h.returned
      · split at hstep <;> cases hstep
        · exact h.beside (.same rfl rfl rfl) hfresh h.waiting h.returned
        · rename_i hfree
          have hfree' : s.f.processing = false := by simpa using hfree
          exact h.taken hfree' id (by simp) (by simp [Pc.role]) (h.outside hfree') h.waiting
            h.returned
  | read bytes eof =>
    have hside := next_side rfl (.inr ⟨by simp, by simp⟩) hstep
    simp only [Output.next] at hstep
    split at hstep
    · rename_i hm
      have hnot : s.f.returned = true → False := by
        intro hret
        rcases h.returned hret with hm' | hm' <;> exact absurd (hm.symm.trans hm') (by simp)
      split at hstep <;> cases hstep
      · refine h.beside hside hfresh ?_ fun hret => (hnot hret).elim
        cases eof <;> simp
      · rename_i hbytes
        refine h.beside hside hfresh ?_ fun hret => (hnot hret).elim
        rintro buf eof ⟨⟩
        simpa [plain] using hbytes
    · cases hstep
  | shutdown =>
    have hside := next_side rfl (.inr ⟨by simp, by simp⟩) hstep
    simp only [Output.next] at hstep
    split at hstep
    · split at hstep <;> cases hstep
      exact h.beside hside hfresh (by simp) fun _ => .inl rfl
    · split at hstep <;> cases hstep
      exact h.beside hside hfresh (by simp) fun _ => .inr rfl
    · cases hstep
  | op ok =>
    have hside := next_side rfl (.inr ⟨by simp, by simp⟩) hstep
    simp only [Output.next, opStep] at hstep
    repeat' split at hstep
    all_goals cases hstep
    all_goals exact h.beside hside hfresh h.waiting h.returned
  | _ =>
    have hside := next_side rfl (.inr ⟨by simp, by simp⟩) hstep
    simp only [Output.next] at hstep
    repeat' split at hstep
    all_goals cases hstep
    all_goals exact h.beside hside hfresh h.waiting h.returned

theorem tidy_start (cfg : Config) : Tidy (start cfg) {} where
  standing := Marks.Clear.describes ⟨rfl, rfl⟩
  chunk := rfl
  filled _ ht := by cases ht
  waiting := by simp [start]
  owned := by simp [start]
  calling := by simp [start, Main.calls]
  reading := by simp [start, Pc.role]
  returned := by simp [start]

end Steps

/-! ## The runs -/

/-- No request to discard output is pending, and the keep mode is off. -/
def Sys.undisturbed (s : Sys) : Bool :=
  !s.f.discardOutput && s.f.discardMarker.isNone && !s.isKeepPendingOutput

/-- The fields are fit for what `a` does: when a disconnection begins they are
reset or something is cached, a pull-back does not count a counted chunk, and
the writer has not failed. -/
def Sys.fits (cfg : Config) (s : Sys) (a : Act) : Bool :=
  !s.f.writeError &&
  ((next cfg s a).all fun t => s.isTimeout || !t.isTimeout || !s.f.cacheLines.isEmpty ||
    (!s.f.chHasNewLine && s.f.noNewLineCount == 0)) &&
  match a, s.pc with
  | .owner _, .pullBack buf _ =>
    (s.pulledText buf).any Cell.isLF || s.f.noNewLineCount == 0 ||
      decide (3 ≤ s.f.noNewLineCount)
  | _, _ => true

theorem Sys.fits_fresh {cfg : Config} {s t : Sys} {a : Act} (h : s.fits cfg a = true)
    (hstep : next cfg s a = some t) (hback : s.isTimeout = false) (haway : t.isTimeout = true) :
    s.f.marks.Fresh := by
  simp only [Sys.fits, hstep, Option.all_some, hback, haway, Bool.and_eq_true, Bool.or_eq_true,
    Bool.not_eq_true', Bool.false_eq_true, Bool.not_true, false_or, beq_iff_eq,
    List.isEmpty_eq_false_iff] at h
  exact h.1.2.imp_right fun hclear => ⟨hclear.1, hclear.2⟩

theorem Sys.fits_calm {cfg : Config} {s : Sys} {ok : Bool} (hquiet : s.undisturbed = true)
    (h : s.fits cfg (.owner ok) = true) : Calm s := by
  simp only [Sys.undisturbed, Bool.and_eq_true, Bool.not_eq_true', Option.isNone_iff_eq_none]
    at hquiet
  simp only [Sys.fits, Bool.and_eq_true, Bool.not_eq_true'] at h
  refine ⟨hquiet.1.1, hquiet.1.2, hquiet.2, h.1.1, fun buf remaining hpc => ?_⟩
  have honce := h.2
  rw [hpc] at honce
  simpa [or_assoc] using honce

/-- **Caching starts behind a complete line.** In a run without requests to
discard and without the keep mode, in which the two fields fit: where a step puts
the first byte into an empty cache, the last byte handed to the writer is an LF,
or nothing was handed over, or the last three chunks or more had no LF and were
handled since the disconnection began. -/
theorem caching_behind_line {cfg : Config} {s t : Sys × Record} {a : Act}
    (h : (recorded cfg).ReachableVia
      (fun s a => (s.1.undisturbed && s.1.fits cfg a) = true) s)
    (hok : (s.1.undisturbed && s.1.fits cfg a) = true)
    (hstep : (recorded cfg).next s a = some t)
    (hempty : s.1.f.cacheLines = []) (hplaced : t.1.f.cacheLines ≠ []) :
    t.2.atLine = true ∨ 3 ≤ t.2.quiet := by
  have horderly {s t : Sys × Record} {a : Act} (htidy : Tidy s.1 s.2)
      (hok : (s.1.undisturbed && s.1.fits cfg a) = true)
      (hstep : (recorded cfg).next s a = some t) :
      Orderly s.1 s.2 t.1 ∧ t.2 = s.2.step s.1 t.1 := by
    obtain ⟨hnext, hrecord⟩ := recorded_next hstep
    obtain ⟨hquiet, hfits⟩ := Bool.and_eq_true_iff.mp hok
    refine ⟨htidy.next (fun ok ha => ?_) (Sys.fits_fresh hfits hnext) hnext, hrecord⟩
    subst ha
    exact Sys.fits_calm hquiet hfits
  have htidy : Tidy s.1 s.2 := by
    clear hok hstep hempty hplaced
    induction h with
    | init h0 =>
      rw [h0]
      exact tidy_start cfg
    | step _ hok hstep ih =>
      obtain ⟨hgoes, hrecord⟩ := horderly ih hok hstep
      rw [hrecord]
      exact hgoes.tidy
  obtain ⟨hgoes, hrecord⟩ := horderly htidy hok hstep
  rw [hrecord]
  exact hgoes.behind hempty hplaced

/-- A chunk is read and handled for `n` steps. -/
def handleChunk (chunk : String) (n : Nat) : List Act :=
  [.read (ascii chunk) false, .begin] ++ handler n

theorem caching_behind_line_first :
    ∃ s t, (recorded {}).ReachableVia (fun s a => (s.1.undisturbed && s.1.fits {} a) = true) s ∧
      (recorded {}).next s (.owner true) = some t ∧ s.1.f.cacheLines = [] ∧
      t.1.f.cacheLines = [plain (ascii "b")] ∧ t.2.handed = plain (ascii "a\n") ∧
      (t.2.atLine = true ∨ 3 ≤ t.2.quiet) := by
  have hrun : ((recorded {}).execWhile (fun s a => s.1.undisturbed && s.1.fits {} a)
      (start {}, {}) (.timeout 0 :: handleChunk "a\nb" 7)).any
      (fun s => decide (s.1.f.cacheLines = []) && (s.1.undisturbed && s.1.fits {} (.owner true)) &&
        ((recorded {}).next s (.owner true)).any fun t =>
          decide (t.1.f.cacheLines = [plain (ascii "b")] ∧ t.2.handed = plain (ascii "a\n"))) =
        true := by
    decide
  obtain ⟨s, hs, hend⟩ := (Option.any_eq_true _ _).mp hrun
  obtain ⟨hboth, hnext⟩ := Bool.and_eq_true_iff.mp hend
  obtain ⟨hempty, hok⟩ := Bool.and_eq_true_iff.mp hboth
  obtain ⟨t, ht, hplaced⟩ := (Option.any_eq_true _ _).mp hnext
  obtain ⟨hcached, hhanded⟩ := of_decide_eq_true hplaced
  have hreach := TSys.ReachableVia.execWhile (fun _ _ h => h) (.init rfl) hs
  exact ⟨s, t, hreach, ht, of_decide_eq_true hempty, hcached, hhanded,
    caching_behind_line hreach hok ht (of_decide_eq_true hempty) (by rw [hcached]; simp)⟩

/-- A disconnection in which one complete line is queued and nothing is cached, a
reconnect, and half a line for the client that is back. -/
def halfLine : List Act :=
  [.timeout 0] ++ handleChunk "a\n" 9 ++ [.dequeue, .write, .reconnect 0, .onReconnected] ++
    handler 2 ++ handleChunk "half" 8 ++ [.dequeue, .write]

/-- The next disconnection finds `chHasNewLine` set and caches the other half at
once. -/
theorem caching_inside_line :
    ∃ s t, (recorded {}).ReachableVia (fun s _ => s.1.undisturbed = true) s ∧
      s.1.undisturbed = true ∧ (recorded {}).next s (.owner true) = some t ∧
      s.1.f.cacheLines = [] ∧ t.1.f.cacheLines = [plain (ascii " line\n")] ∧
      t.2.handed = plain (ascii "a\nhalf") ∧ t.2.quiet = 0 := by
  have hrun : ((recorded {}).execWhile (fun s _ => s.1.undisturbed) (start {}, {})
      (halfLine ++ [.timeout 0] ++ handleChunk " line\n" 3)).any
      (fun s => decide (s.1.f.cacheLines = []) && s.1.undisturbed &&
        ((recorded {}).next s (.owner true)).any fun t =>
          decide (t.1.f.cacheLines = [plain (ascii " line\n")] ∧
            t.2.handed = plain (ascii "a\nhalf") ∧ t.2.quiet = 0)) = true := by
    decide
  obtain ⟨s, hs, hend⟩ := (Option.any_eq_true _ _).mp hrun
  obtain ⟨hboth, hnext⟩ := Bool.and_eq_true_iff.mp hend
  obtain ⟨hempty, hok⟩ := Bool.and_eq_true_iff.mp hboth
  obtain ⟨t, ht, hplaced⟩ := (Option.any_eq_true _ _).mp hnext
  obtain ⟨hcached, hhanded, hquiet⟩ := of_decide_eq_true hplaced
  have hreach := TSys.ReachableVia.execWhile (fun _ _ h => h) (.init rfl) hs
  exact ⟨s, t, hreach, hok, ht, of_decide_eq_true hempty, hcached, hhanded, hquiet⟩

end Tsshd.Output

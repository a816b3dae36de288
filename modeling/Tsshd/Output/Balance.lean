import Tsshd.Output.Machine
import Tsshd.Output.Cache

/-!
# The balance of the output stream

Where the output is at any time: in this order, what the writer has dequeued,
what is queued, the run of dropped lines, the cached lines a flush has not sent
yet, and the bytes a handler holds in hand (`account`). A queued buffer is the
program's own bytes, except that a flushed line was filtered and a warning
stands for the run of lines it counts (`Flushed.Exact`); so there are two ways
to read the account, as what is sent and as what it stands for.

Each program counter is tied to what the code has established there (`PcFacts`)
and to the stage of the reader (`Stage`); the latter is what excludes the early
returns of a shutdown while lines are still cached.
-/

namespace Tsshd.Output

/-! ## What is where -/

/-- The cached lines the current flush has already handed over. -/
def Pc.flushed : Pc → Nat
  | .flushLine _ i => i
  | .flushSend _ (some i) _ | .flushTimeout _ (some i) _ | .flushReturned _ (some i) _
  | .flushWait _ (some i) _ => i
  | _ => 0

/-- What is behind an enqueue: the part that will be cached. -/
def After.text : After → Text
  | .left t => t
  | _ => []

/-- What a handler holds outside queue and cache, with `v` for a flushed piece. -/
def Pc.holding (v : Flushed → Text) : Pc → Text
  | .swapMarker buf | .takeDiscard buf | .clearForDiscard buf | .checkTimeout buf
  | .checkKeep buf | .checkCache buf | .splitTimeout buf | .splitKeep buf => buf
  | .stopDiscard marker buf | .clearForMarker marker buf => marker ++ buf
  | .send buf remaining | .sendTimeout buf remaining | .sendKeep buf remaining
  | .sendReconnect buf remaining | .pullBack buf remaining | .sendReturned buf remaining
  | .sendWait buf remaining => buf ++ remaining
  | .enqueue buf after remaining | .enqueueReturned buf after remaining
  | .enqueueWait buf after remaining => buf.stands v ++ after.text ++ remaining
  | .cacheRemaining remaining => remaining
  | _ => []

/-- The program output a handler holds outside queue and cache. -/
def Pc.hand (pc : Pc) : Text := pc.holding Flushed.source

/-- The buffer pulled back from the queue, while a handler holds it. -/
def Pc.pulled : Pc → List Buf
  | .enqueue buf _ _ | .enqueueReturned buf _ _ | .enqueueWait buf _ _ => [buf]
  | _ => []

/-- The chunk `forward` has read and not yet passed to `handleBuffer`. -/
def Main.hand : Main → Text
  | .wantBuffer buf _ => buf
  | _ => []

namespace Sys

/-- The buffers the writer loop has dequeued. -/
def dequeued (s : Sys) : List Buf :=
  s.output.map Prod.snd ++
    match s.writer with
    | .holding b => [b]
    | _ => []

/-- What has been handed to the writer: dequeued, then queued. -/
def handed (s : Sys) : List Buf := s.dequeued ++ s.f.writeBufCh.toList

/-- The cached lines that are still to be sent. -/
def pendingLines (s : Sys) : List Text := s.f.cacheLines.drop s.pc.flushed

/-- The chunk in hand, of the handler or of `forward`. -/
def inHand (s : Sys) : Text := s.pc.hand ++ s.main.hand

end Sys

/-- `text` warns of the dropped lines: it announces how many lines and bytes they
are, in plain text or as one line that tmux reads back as it. -/
def Warns (text : Text) (run : List Text) : Prop :=
  run ≠ [] ∧ (∀ l ∈ run, LineShape l) ∧ ∃ cacheLines,
    Announces text (warningText (warningNewline cacheLines) run.length run.flatten.length)

/-- A flushed line is a cached one, and a warning warns of the run it stands for. -/
def Flushed.Exact : Flushed → Prop
  | .line l => LineShape l
  | .warn text run => Warns text run

/-- The flushed piece of the buffer, if any, is exact. -/
def Buf.Exact (b : Buf) : Prop := ∀ p ∈ b.front, p.Exact

/-- The flushed piece of the buffer has an LF at most at its end. -/
def Buf.Sealed (b : Buf) : Prop := OnlyAtEnd Cell.isLF b.frontText

/-! ## What the code has established at each program counter -/

/-- Facts about cache and dropped run at each program counter. -/
def PcFacts (f : Forwarder) : Pc → Prop
  | .splitTimeout _ | .splitKeep _ | .send .. | .sendTimeout .. | .sendKeep ..
  | .sendReconnect .. | .pullBack .. | .sendReturned .. | .sendWait .. | .enqueue ..
  | .enqueueReturned .. | .enqueueWait .. => f.cacheLines = []
  | .flushRedraw _ | .redrawStore _ | .redrawResize _ | .flushWarn _ =>
    f.cacheLines ≠ [] ∧ f.dropped ≠ []
  | .flushLine _ i => f.cacheLines ≠ [] ∧ f.dropped = [] ∧ i ≤ f.cacheLines.length
  | .flushSend _ none line | .flushTimeout _ none line | .flushReturned _ none line
  | .flushWait _ none line =>
    f.cacheLines ≠ [] ∧ f.dropped ≠ [] ∧ line = .warn (flushWarning f) f.dropped
  | .flushSend _ (some i) line | .flushTimeout _ (some i) line | .flushReturned _ (some i) line
  | .flushWait _ (some i) line =>
    f.dropped = [] ∧ ∃ l, f.cacheLines[i]? = some l ∧ line = .line l
  | _ => True

/-- Which code a program counter belongs to. -/
inductive Role
  | idle
  | buffer
  | flush (ret : Ret)
  | error
  | finish
deriving DecidableEq

def Pc.role : Pc → Role
  | .idle => .idle
  | .flushBegin ret | .flushRedraw ret | .redrawStore ret | .redrawResize ret | .flushClear ret
  | .flushWarn ret | .flushLine ret _ | .flushSend ret _ _ | .flushTimeout ret _ _
  | .flushReturned ret _ _ | .flushWait ret _ _ => .flush ret
  | .errorLoop | .errorTimeout | .errorReconnect => .error
  | .endLoop => .finish
  | _ => .buffer

/-- The owner of the token as seen from the reader. Once `handleError` is over
the cache is empty for good. -/
def Stage (cacheLines : List Text) (role : Role) : Main → Prop
  | .reading | .wantBuffer .. | .wantError =>
    role = .idle ∨ role = .flush .endProcessing ∨ role = .finish
  | .inBuffer _ => role = .buffer ∨ role = .flush .endProcessing ∨ role = .finish
  | .inError =>
    role = .error ∨ role = .flush .handleError ∨
      ((role = .flush .endProcessing ∨ role = .finish) ∧ cacheLines = [])
  | .exiting | .closing | .closed =>
    (role = .idle ∨ role = .flush .endProcessing ∨ role = .finish) ∧ cacheLines = []

/-- What the owner of the token accounts for: queue, dropped run, cache, hand. -/
def account (v : Flushed → Text) (f : Forwarder) (pc : Pc) : Text :=
  f.writeBufCh.toList.flatMap (Buf.stands v) ++ f.dropped.flatten ++
    (f.cacheLines.drop pc.flushed).flatten ++ pc.holding v

/-! ## Small facts about the parts -/

/-- The fields no step of the owner touches in the runs considered here. -/
structure SameFlags (f g : Forwarder) : Prop where
  processing : f.processing = g.processing
  returned : f.returned = g.returned
  writeError : f.writeError = g.writeError
  discardOutput : f.discardOutput = g.discardOutput
  discardMarker : f.discardMarker = g.discardMarker

theorem CacheInv.congr {f g : Forwarder} (h : CacheInv f) (hc : g.cacheLines = f.cacheLines)
    (hd : g.dropped = f.dropped) (hl : g.discardLines = f.discardLines)
    (hb : g.discardBytes = f.discardBytes) (ht : g.tmuxOutputPrefix = f.tmuxOutputPrefix) :
    CacheInv g :=
  ⟨by rw [hc]; exact h.shaped, by rw [hd]; exact h.droppedShaped, by rw [hl, hd]; exact h.lines,
    by rw [hb, hd]; exact h.bytes, by rw [hc, hd]; exact h.kept, by rw [ht]; exact h.tmux,
    by rw [ht]; exact h.pane⟩

theorem Stage.congr {c c' : List Text} {r : Role} {m : Main} (h : Stage c r m)
    (hc : c = [] → c' = []) : Stage c' r m := by
  cases m with
  | inError => exact h.imp_right fun h => h.imp_right fun h => h.imp_right hc
  | exiting | closing | closed => exact h.imp_right hc
  | _ => exact h

/-- While `handleBuffer` runs, the reader is in it. -/
theorem Stage.inBuffer {c : List Text} {m : Main} (h : Stage c .buffer m) :
    ∃ eof, m = .inBuffer eof := by
  cases m with
  | inBuffer eof => exact ⟨eof, rfl⟩
  | _ => simp [Stage] at h

/-- `handleBuffer` may end, or flush, with any cache. -/
theorem Stage.bufferDone {c : List Text} {m : Main} (h : Stage c .buffer m) (c' : List Text)
    {r : Role} (hr : r = .buffer ∨ r = .flush .endProcessing ∨ r = .finish) : Stage c' r m := by
  obtain ⟨eof, rfl⟩ := h.inBuffer
  exact hr

/-- A flush returns to its caller. -/
theorem Stage.ret {c : List Text} {ret : Ret} {m : Main} (h : Stage c (.flush ret) m) :
    Stage c ret.pc.role m := by
  cases ret <;> cases m <;> simp_all [Stage, Ret.pc, Pc.role]

/-! ## Pulling a buffer back -/

/-- The first LF of a sealed buffer is not inside its flushed piece. -/
theorem Buf.Sealed.front_le {b : Buf} (hs : b.Sealed) {line left : Text}
    (hcut : cutAfter Cell.isLF b.text = some (line, left)) :
    b.frontText.length ≤ line.length := by
  rcases hs.cases with hfree | ⟨init, x, hfront, hx, hinit⟩
  · rw [Buf.text, cutAfter_of_append hfree, Option.map_eq_some_iff] at hcut
    obtain ⟨⟨a, _⟩, _, heq⟩ := hcut
    simp only [Prod.mk.injEq] at heq
    rw [← heq.1, List.length_append]
    omega
  · rw [Buf.text, hfront, List.append_assoc, cutAfter_of_append hinit] at hcut
    simp only [List.singleton_append, cutAfter, hx, if_true, Option.map_some, Option.some.injEq,
      Prod.mk.injEq] at hcut
    exact Nat.le_of_eq (congrArg List.length (hfront.trans hcut.1))

/-- So a cut behind it splits what the buffer stands for as it splits its bytes. -/
theorem Buf.Sealed.take_stands {b : Buf} (hs : b.Sealed) {line left : Text}
    (hcut : cutAfter Cell.isLF b.text = some (line, left)) (v : Flushed → Text) :
    (b.take line.length).stands v ++ left = b.stands v ∧
      (b.take line.length).front = b.front := by
  have hle := hs.front_le hcut
  have hleft : left = b.raw.drop (line.length - b.frontText.length) := by
    have happ := congrArg (List.drop line.length) (cutAfter_append hcut)
    rw [List.drop_left, Buf.text, List.drop_append, List.drop_of_length_le hle] at happ
    simpa using happ
  rw [Buf.take, if_pos hle, hleft]
  refine ⟨?_, rfl⟩
  rw [Buf.stands, Buf.stands, List.append_assoc, List.take_append_drop]

theorem Buf.good_congr {b c : Buf} (h : b.Exact ∧ b.Sealed) (hf : c.front = b.front) :
    c.Exact ∧ c.Sealed := by
  unfold Buf.Exact Buf.Sealed Buf.frontText at *
  rw [hf]
  exact h

theorem Buf.good_raw (t : Text) : Buf.Exact { raw := t } ∧ Buf.Sealed { raw := t } :=
  ⟨by simp [Buf.Exact], by simp [Buf.Sealed, Buf.frontText, OnlyAtEnd]⟩

end Tsshd.Output

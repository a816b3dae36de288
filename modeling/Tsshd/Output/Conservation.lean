import Tsshd.Output.Flow
import Tsshd.Output.Cells

/-!
# Stream conservation

In a session without a pty nothing the program wrote is lost, duplicated or
moved (`stream_conserved`). What is sent differs from the output only where a
flush edited it, and the forwarder is run with a record of these edits
(`recordedEdits`): a cached line whose cursor position requests are taken out, or
the run of dropped lines with the warning in its place.

What a step can do with the output is said in `Tsshd.Output.Flow`; here is that a
session without a pty stores no marker and never comes to clear output
(`ownerStep_undisturbed`).
-/

namespace Tsshd.Output

/-- No write error, no closed checker, and the session stays open. -/
def Act.undisturbed : Act → Bool
  | .writeFail | .closeChecker _ | .closeSession => false
  | _ => true

theorem Act.undisturbed.sound {a : Act} (h : a.undisturbed = true) : a.sound = true := by
  cases a <;> first | rfl | exact absurd h (by simp [Act.undisturbed])

/-- The code that clears output, from where it is decided. -/
def Pc.clearing : Pc → Bool
  | .stopDiscard .. | .clearForMarker .. | .clearForDiscard _ | .redrawStore _ | .redrawResize _
  | .flushClear _ => true
  | _ => false

/-- The invariant behind stream conservation, for a session without a pty. -/
structure Conserved (s : Sys) : Prop extends Flowing (fun _ => True) s where
  calm : s.pc.clearing = false
  noDiscard : s.f.discardOutput = false
  noMarker : s.f.discardMarker = none
  notClosed : s.closed = false
  noRedraw : ∀ c size, s.op ≠ .attachRedraw c size

section Steps

variable {cfg : Config} {s s' : Sys}

/-- Without a marker, a discard request and a pty the owner never comes to
clear output. -/
theorem ownerStep_calm {ok : Bool} (hpty : cfg.pty = false) (h : Conserved s)
    (hstep : ownerStep cfg ok s = some s') :
    s'.f.discardOutput = false ∧ s'.pc.clearing = false := by
  have hdiscard := h.noDiscard
  have hcalm := h.calm
  have hret : ∀ ret : Ret, ret.pc.clearing = false := by rintro (_ | _) <;> rfl
  unfold ownerStep Sys.trySend at hstep
  cases hpc : s.pc <;> simp only [hpc] at hstep
  case stopDiscard => exact absurd hcalm (by simp [hpc, Pc.clearing])
  case clearForMarker => exact absurd hcalm (by simp [hpc, Pc.clearing])
  case clearForDiscard => exact absurd hcalm (by simp [hpc, Pc.clearing])
  case redrawStore => exact absurd hcalm (by simp [hpc, Pc.clearing])
  case redrawResize => exact absurd hcalm (by simp [hpc, Pc.clearing])
  case flushClear => exact absurd hcalm (by simp [hpc, Pc.clearing])
  case swapMarker buf =>
    simp only [h.noMarker, Option.some.injEq] at hstep
    subst hstep
    exact ⟨hdiscard, rfl⟩
  case takeDiscard buf =>
    simp only [hdiscard, Bool.false_eq_true, if_false, Option.some.injEq] at hstep
    subst hstep
    exact ⟨hdiscard, rfl⟩
  case flushRedraw ret =>
    simp only [h.notClosed, hpty, Bool.false_eq_true, if_false, Option.some.injEq] at hstep
    subst hstep
    exact ⟨hdiscard, rfl⟩
  case pullBack buf remaining =>
    unfold Sys.splitPulled at hstep
    repeat' split at hstep
    all_goals cases hstep
    all_goals exact ⟨hdiscard, rfl⟩
  case enqueue buf after remaining =>
    cases hstep
    split
    · cases after with
      | left t =>
        unfold Sys.afterEnqueue
        dsimp only
        split <;> exact ⟨by simp [Sys.cache, Sys.goto, hdiscard], rfl⟩
      | _ => exact ⟨hdiscard, rfl⟩
    · exact ⟨hdiscard, rfl⟩
  case flushSend ret i line =>
    cases hstep
    cases i <;> split <;> exact ⟨hdiscard, rfl⟩
  case flushTimeout ret i line =>
    cases i <;> split at hstep <;> cases hstep <;> exact ⟨hdiscard, by first | rfl | exact hret ret⟩
  all_goals repeat' split at hstep
  all_goals cases hstep
  all_goals
    first
    | exact ⟨hdiscard, rfl⟩
    | exact ⟨hdiscard, hret _⟩
    | exact ⟨by simp [Sys.cache, Sys.goto, hdiscard], rfl⟩

/-- So its handlers leave all flags of the run as they are. -/
theorem ownerStep_undisturbed {ok : Bool} (hpty : cfg.pty = false) (h : Conserved s)
    (hend : s.pc ≠ .endLoop) (hstep : ownerStep cfg ok s = some s') : SameFlags s'.f s.f := by
  have hframe := ownerStep_frame hend hstep
  refine ⟨hframe.processing, hframe.returned, hframe.writeError, ?_, ?_⟩
  · exact (ownerStep_calm hpty h hstep).1.trans h.noDiscard.symm
  · rcases hframe.marker with hm | ⟨hm, -⟩
    · exact hm
    · exact hm.trans h.noMarker.symm

/-- **The step lemma.** -/
theorem Conserved.next {a : Act} (hpty : cfg.pty = false) (h : Conserved s)
    (hok : a.undisturbed = true) (hstep : next cfg s a = some s') : Conserved s' := by
  have hgoes := (h.toFlowing.next (v := Flushed.emit) trivial (Act.undisturbed.sound hok)
    hstep).flowing
  cases a with
  | owner ok =>
    obtain ⟨hdiscard, hclearing⟩ := ownerStep_calm hpty h hstep
    have henv := ownerStep_env hstep
    refine ⟨hgoes, hclearing, hdiscard, ?_, henv.closed.trans h.notClosed, henv.op ▸ h.noRedraw⟩
    by_cases hpc : s.pc = .endLoop
    · rcases ownerStep_endLoop hpc hstep with rfl | rfl <;> exact h.noMarker
    · exact (ownerStep_undisturbed hpty h hpc hstep).discardMarker.trans h.noMarker
  | wake failed =>
    obtain ⟨pc, rfl, -, -⟩ := wakeOwner_goto hstep
    refine ⟨hgoes, ?_, h.noDiscard, h.noMarker, h.notClosed, h.noRedraw⟩
    simp only [Output.next, Output.wakeOwner, Output.wakeOwner.reconnected] at hstep
    repeat' split at hstep
    all_goals cases hstep
    all_goals rfl
  | op ok =>
    simp only [Output.next, Output.opStep] at hstep
    cases hop : s.op with
    | attachRedraw c size => exact absurd hop (h.noRedraw c size)
    | resizeStore size redraw marker =>
      simp only [hop, hpty, Bool.not_false, Bool.or_true, Bool.true_or, if_true,
        Option.some.injEq] at hstep
      subst hstep
      exact ⟨hgoes, h.calm, h.noDiscard, h.noMarker, h.notClosed, by simp⟩
    | attachStream c size =>
      simp only [hop, hpty, Bool.false_eq_true, if_false, Option.some.injEq] at hstep
      subst hstep
      exact ⟨hgoes, h.calm, h.noDiscard, h.noMarker, h.notClosed, by simp⟩
    | free => simp [hop] at hstep
    | detachChecker | detachStream | detachServer | attachServer _ _ | attachResize _ _
    | attachChecker _ | resizeApply _ =>
      simp only [hop, Option.some.injEq] at hstep
      subst hstep
      exact ⟨hgoes, h.calm, h.noDiscard, h.noMarker, h.notClosed, by simp⟩
  | writeFail | closeChecker _ | closeSession => exact absurd hok (by simp [Act.undisturbed])
  | siblingRedraw => simp [Output.next, hpty] at hstep
  | _ =>
    -- `begin` and `onReconnected` may start a handler, the others an attach or a resize.
    simp only [Output.next] at hstep
    repeat' split at hstep
    all_goals cases hstep
    all_goals
      first
      | exact ⟨hgoes, h.calm, h.noDiscard, h.noMarker, h.notClosed, h.noRedraw⟩
      | exact ⟨hgoes, rfl, h.noDiscard, h.noMarker, h.notClosed, h.noRedraw⟩
      | exact ⟨hgoes, h.calm, h.noDiscard, h.noMarker, h.notClosed, by simp⟩

end Steps

/-! ## The edits -/

/-- A place where a flush sent something else than the program wrote: behind `pos`
bytes of the stream, `new` for the cached lines `old`. -/
structure Edit where
  pos : Nat
  old : List Text
  new : Text
deriving DecidableEq

/-- The two edits a flush may make. -/
inductive Edit.Permitted : Edit → Prop
  | filtered {pos : Nat} {line : Text} (hline : LineShape line) :
      Permitted ⟨pos, [line], eraseAll Cell.byte esc6n line⟩
  | warned {pos : Nat} {run : List Text} {text : Text} (hwarns : Warns text run) :
      Permitted ⟨pos, run, text⟩

/-- `stream` is `input` after permitted edits, one after the other. -/
inductive Edited (input : Text) : List Edit → Text → Prop
  | verbatim : Edited input [] input
  | edit {edits : List Edit} {e : Edit} {x y : Text}
      (h : Edited input edits (x ++ e.old.flatten ++ y)) (hpos : x.length = e.pos)
      (hpermitted : e.Permitted) : Edited input (edits ++ [e]) (x ++ e.new ++ y)

theorem Edited.append {input stream : Text} {edits : List Edit} (h : Edited input edits stream)
    (t : Text) : Edited (input ++ t) edits (stream ++ t) := by
  induction h with
  | verbatim => exact .verbatim
  | edit _ hpos hpermitted ih =>
    rw [List.append_assoc] at ih ⊢
    exact .edit ih hpos hpermitted

/-- The bytes handed to the writer. -/
def Sys.handedText (s : Sys) : Text := s.handed.flatMap Buf.text

/-- The whole stream: handed over, dropped and not yet warned of, pending, in hand. -/
def Sys.wholeStream (s : Sys) : Text :=
  s.handedText ++ s.f.dropped.flatten ++ s.pendingLines.flatten ++ s.pc.holding Flushed.emit ++
    s.main.hand

/-- The cached lines that a flush sends something for: one of them, or the dropped
ones. -/
def Sys.taken (s : Sys) : Option Nat → List Text
  | some i => s.f.cacheLines[i]?.toList
  | none => s.f.dropped

/-- The edit that an act makes: `flushOutput` passes over a line that the filter
empties, or puts a cached line or the warning on the queue. -/
def Sys.edit (s : Sys) : Act → Option Edit
  | .owner _ =>
    match s.pc with
    | .flushLine _ i =>
      match s.f.cacheLines[i]? with
      | some line =>
        if (filterLine line).isEmpty then some ⟨s.handedText.length, [line], []⟩ else none
      | none => none
    | .flushSend _ i piece =>
      if s.f.writeBufCh.isNone then some ⟨s.handedText.length, s.taken i, piece.emit⟩
      else none
    | _ => none
  | _ => none

/-- The forwarder, with a record of its edits. -/
def recordedEdits (cfg : Config) : TSys (Sys × List Edit) Act where
  init s := s = (start cfg, [])
  next s a := (next cfg s.1 a).map fun t => (t, s.2 ++ (s.1.edit a).toList)

theorem Sys.accounted_emit (s : Sys) : s.accounted Flushed.emit = s.wholeStream := by
  simp only [Sys.accounted, account, Sys.wholeStream, Sys.handedText, Sys.handed, Sys.pendingLines,
    List.flatMap_append, List.append_assoc]
  rfl

section Steps

variable {s s' : Sys} {edits : List Edit} {a : Act}

theorem Conserved.edit_none (h : Conserved s) (hpassed : s.passedBy a = [])
    (hsent : s.sentBy a = none) : s.edit a = none := by
  cases a with
  | owner ok =>
    simp only [Sys.passedBy, Sys.passedOver, Sys.sentBy, Sys.sending, Sys.edit] at *
    cases hpc : s.pc with
    | flushLine ret i =>
      simp only [hpc] at hpassed ⊢
      cases hline : s.f.cacheLines[i]? with
      | none => rfl
      | some line =>
        have hne := (h.cache.shaped line (List.mem_of_getElem? hline)).ne_nil
        simp only [hline] at hpassed ⊢
        split at hpassed
        · exact absurd hpassed hne
        · exact if_neg ‹_›
    | flushSend ret i piece =>
      simp only [hpc] at hsent ⊢
      split at hsent
      · exact absurd hsent (by simp)
      · exact if_neg ‹_›
    | _ => rfl
  | _ => rfl

/-- The edit of a step that hands a piece over. -/
theorem Conserved.edit_send (h : Conserved s) {piece : Flushed} (hsent : s.sentBy a = some piece)
    (hexact : piece.Exact) :
    ∃ e, s.edit a = some e ∧ e.pos = s.handedText.length ∧ e.old.flatten = piece.source ∧
      e.new = piece.emit ∧ e.Permitted := by
  have hfacts := h.facts
  cases a with
  | owner ok =>
    simp only [Sys.sentBy, Sys.sending] at hsent
    split at hsent
    · rename_i ret i line hpc
      split at hsent
      · rename_i hslot
        cases hsent
        rw [hpc] at hfacts
        refine ⟨⟨s.handedText.length, s.taken i, piece.emit⟩,
          by simp only [Sys.edit, hpc, hslot, if_true], rfl, ?_⟩
        cases i with
        | none =>
          obtain ⟨_, _, rfl⟩ := hfacts
          exact ⟨rfl, rfl, .warned hexact⟩
        | some i =>
          obtain ⟨_, l, hl, rfl⟩ := hfacts
          have htaken : s.taken (some i) = [l] := by simp [Sys.taken, hl]
          rw [htaken]
          exact ⟨by simp [Flushed.source], rfl, .filtered hexact⟩
      · exact absurd hsent (by simp)
    · exact absurd hsent (by simp)
  | _ => exact absurd hsent (by simp [Sys.sentBy])

/-- The edit of a step that passes over a line. -/
theorem edit_skip (hne : s.passedBy a ≠ []) :
    s.edit a = some ⟨s.handedText.length, [s.passedBy a], []⟩ := by
  cases a with
  | owner ok =>
    simp only [Sys.passedBy, Sys.passedOver, Sys.edit] at *
    cases hpc : s.pc with
    | flushLine ret i =>
      simp only [hpc] at hne ⊢
      cases hline : s.f.cacheLines[i]? with
      | none => simp [hline] at hne
      | some line =>
        simp only [hline] at hne ⊢
        split at hne
        · simp only [*, if_true]
        · exact absurd rfl hne
    | _ => simp [hpc] at hne
  | _ => exact absurd rfl hne

/-- **The step lemma of the record**: a step leaves the stream as it is, takes in
what the program wrote, or makes its edit. -/
theorem Flow.edited (h : Conserved s)
    (hflow : Flow Flushed.emit s a (s.passedBy a) (s.sentBy a) s')
    (hedited : Edited s.input edits s.wholeStream) :
    Edited s'.input (edits ++ (s.edit a).toList) s'.wholeStream := by
  rw [← Sys.accounted_emit] at hedited ⊢
  have hclears : s.clears = false := by
    have hnot := h.calm
    unfold Sys.clears
    split <;> simp_all [Pc.clearing]
  generalize hpassed : s.passedBy a = line at hflow
  generalize hsent : s.sentBy a = piece at hflow
  cases hflow with
  | keep hinput _ hnew =>
    rw [h.edit_none hpassed hsent, hinput, hnew, Option.toList_none, List.append_nil]
    exact hedited
  | read bytes hinput _ hnew =>
    rw [h.edit_none hpassed hsent, hinput, hnew, Option.toList_none, List.append_nil]
    exact hedited.append _
  | send hinput _ hexact hold hnew =>
    obtain ⟨e, he, hpos, hsource, hemit, hpermitted⟩ := h.edit_send hsent hexact
    rw [hold, ← hsource] at hedited
    rw [he, hinput, hnew, ← hemit]
    exact .edit hedited hpos.symm hpermitted
  | skip hinput _ hshape hempty hold hnew =>
    have he := edit_skip (s := s) (a := a) (hpassed ▸ hshape.ne_nil)
    rw [hpassed, ← hempty] at he
    have hflat : [line].flatten = line := by simp
    rw [hold, ← hflat] at hedited
    rw [he, hinput, hnew, ← List.append_nil (s.handed.flatMap _), ← hempty]
    exact .edit hedited rfl (.filtered hshape)
  | mark _ _ hm => exact absurd (hm.symm.trans h.noMarker) (by simp)
  | clear _ hc => exact absurd (hc.symm.trans hclears) (by simp)

end Steps

/-! ## The runs -/

theorem conserved_start (cfg : Config) : Conserved (start cfg) :=
  ⟨flowing_start cfg, rfl, rfl, rfl, rfl, by simp [start]⟩

/-- **Stream conservation.** In every undisturbed run of a session without a
pty, what was handed to the writer, the dropped run, the pending lines and the
chunk in hand are the program's output, in order and each byte once, up to the
edits of the flushes. Each edit is made at the end of what was handed over: a
cached line goes out without its cursor position requests, or one warning, with
the exact number of lines and bytes, goes out for the run of dropped lines. The
counters give the size of the run that no warning stands for yet. -/
theorem stream_conserved (cfg : Config) (hpty : cfg.pty = false) {s : Sys × List Edit}
    (h : (recordedEdits cfg).ReachableVia (fun _ a => a.undisturbed = true) s) :
    Edited s.1.input s.2 s.1.wholeStream ∧
      s.1.f.discardLines = s.1.f.dropped.length ∧
      s.1.f.discardBytes = s.1.f.dropped.flatten.length := by
  have hinv : Conserved s.1 ∧ Edited s.1.input s.2 s.1.wholeStream := by
    induction h with
    | init h0 =>
      obtain rfl : _ = _ := h0
      exact ⟨conserved_start cfg, .verbatim⟩
    | step _ hok hn ih =>
      obtain ⟨t, hstep, rfl⟩ := Option.map_eq_some_iff.mp hn
      refine ⟨ih.1.next hpty hok hstep, Flow.edited ih.1 ?_ ih.2⟩
      exact (ih.1.toFlowing.next trivial (Act.undisturbed.sound hok) hstep).flow
  exact ⟨hinv.2, hinv.1.cache.lines, hinv.1.cache.bytes⟩

/-- A cache of one line. -/
def overflowConfig : Config := { lim := { maxPendingOutputLines := 1 } }

/-- A line is queued; the client times out; the next chunk pulls it back,
queues it again, and its own lines overflow the cache; the client returns and
the flush sends the warning and, once the writer made room, the last line. -/
def overflowRun : List Act :=
  [Act.read (ascii "a\n") false, .begin] ++ List.replicate 8 (Act.owner true) ++
    [Act.timeout 0, .read (ascii "b\nc\nd\x1b[6n\n") false, .begin] ++
    List.replicate 13 (Act.owner true) ++
    [Act.dequeue, .write, .reconnect 0, .onReconnected] ++ List.replicate 8 (Act.owner true) ++
    [Act.dequeue, .write, .wake false] ++ List.replicate 3 (Act.owner true)

/-- The flush edits twice: two lines of four bytes are warned of, and the last one
loses its request. -/
theorem stream_conserved_overflow :
    ∃ s, (recordedEdits overflowConfig).execWhile (fun _ a => a.undisturbed)
        (start overflowConfig, []) overflowRun = some s ∧
      s.1.pc = .idle ∧
      s.2.map Edit.old = [[plain (ascii "b\n"), plain (ascii "c\n")],
        [plain (ascii "d\x1b[6n\n")]] ∧
      s.2.map Edit.new = [warningText (plain [13, 10]) 2 4, plain (ascii "d\n")] ∧
      Edited s.1.input s.2 s.1.wholeStream := by
  have hrun : ((recordedEdits overflowConfig).execWhile (fun _ a => a.undisturbed)
      (start overflowConfig, []) overflowRun).any (fun s => s.1.pc = .idle ∧
        s.2.map Edit.old = [[plain (ascii "b\n"), plain (ascii "c\n")],
          [plain (ascii "d\x1b[6n\n")]] ∧
        s.2.map Edit.new = [warningText (plain [13, 10]) 2 4, plain (ascii "d\n")]) = true := by
    decide
  obtain ⟨s, hs, hend⟩ := (Option.any_eq_true _ _).mp hrun
  obtain ⟨hpc, hold, hnew⟩ := of_decide_eq_true hend
  exact ⟨s, hs, hpc, hold, hnew, (stream_conserved overflowConfig rfl
    (.execWhile (fun _ _ h => h) (.init rfl) hs)).1⟩

end Tsshd.Output

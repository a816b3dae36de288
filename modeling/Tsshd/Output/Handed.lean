import Tsshd.Output.Cells
import Tsshd.Output.Lines
import Mathlib.Data.List.Infix

/-!
# What is handed to the writer

The forwarder beside a record of its run (`Record`): the bytes put on the writer
queue, the chunk of the running `handleBuffer` call, and the calls since the
last disconnection began whose chunk had no LF.

A flush that reaches the end of the cache hands over the cached lines, each
without its cursor position requests (`Flushing`). Together with the seams of
the cache this gives `flush_filters`: what a disconnected client gets is what
the program wrote without the requests in it, if and only if no read ended inside
a request and in a line of a thousand bytes or more (`flush_misses_request`).
-/

namespace Tsshd.Output

/-! ## The recorded forwarder -/

/-- What a step from `s` to `t` puts on the writer queue. -/
def handedOver (s t : Sys) : Text :=
  match s.f.writeBufCh, t.f.writeBufCh with
  | none, some b => b.text
  | _, _ => []

/-- Whether `forward` is in a call of `handleBuffer`. -/
def Main.calls : Main → Bool
  | .inBuffer _ => true
  | _ => false

structure Record where
  /-- The bytes handed to the writer queue so far. -/
  handed : Text := []
  /-- The chunk of the running call of `handleBuffer`. -/
  chunk : Option Text := none
  /-- The last calls since a disconnection began, as far back as their chunks had
  no LF. -/
  quiet : Nat := 0

/-- `quiet` once the running call is over. -/
def Record.ended (w : Record) : Nat :=
  match w.chunk with
  | none => w.quiet
  | some t => if t.any Cell.isLF then 0 else w.quiet + 1

/-- The record follows a step from `s` to `t`. -/
def Record.step (w : Record) (s t : Sys) : Record where
  handed := w.handed ++ handedOver s t
  chunk :=
    if t.main.calls then
      match s.main with
      | .wantBuffer buf _ => some buf
      | _ => w.chunk
    else none
  quiet :=
    if !s.isTimeout && t.isTimeout then 0
    else if s.main.calls && !t.main.calls then w.ended
    else w.quiet

def recorded (cfg : Config) : TSys (Sys × Record) Act where
  init s := s = (start cfg, {})
  next s a := (next cfg s.1 a).map fun t => (t, s.2.step s.1 t)

theorem recorded_next {cfg : Config} {s t : Sys × Record} {a : Act}
    (h : (recorded cfg).next s a = some t) : next cfg s.1 a = some t.1 ∧ t.2 = s.2.step s.1 t.1 := by
  obtain ⟨u, hu, rfl⟩ := Option.map_eq_some_iff.mp h
  exact ⟨hu, rfl⟩

theorem handedOver_same {s t : Sys} (h : t.f.writeBufCh = s.f.writeBufCh) : handedOver s t = [] := by
  unfold handedOver
  rw [h]
  cases s.f.writeBufCh <;> rfl

theorem handedOver_none {s t : Sys} (h : t.f.writeBufCh = none) : handedOver s t = [] := by
  unfold handedOver
  rw [h]
  cases s.f.writeBufCh <;> rfl

theorem handedOver_sent {s t : Sys} {b : Buf} (hs : s.f.writeBufCh = none)
    (ht : t.f.writeBufCh = some b) : handedOver s t = b.text := by
  unfold handedOver
  rw [hs, ht]

/-! ## The others, while a handler owns the token -/

/-- The steps that are not those of the token owner. -/
def Act.byOthers : Act → Bool
  | .owner _ | .wake _ => false
  | _ => true

/-- The owner, the cache and its counters stay; the writer may take what is
queued. -/
structure Side (s t : Sys) : Prop where
  pc : t.pc = s.pc
  calls : t.main.calls = s.main.calls
  processing : t.f.processing = s.f.processing
  cacheLines : t.f.cacheLines = s.f.cacheLines
  discardLines : t.f.discardLines = s.f.discardLines
  chHasNewLine : t.f.chHasNewLine = s.f.chHasNewLine
  noNewLineCount : t.f.noNewLineCount = s.f.noNewLineCount
  handed : handedOver s t = []

/-- The queue is left alone, too. -/
theorem Side.same {s t : Sys} (hpc : t.pc = s.pc) (hcalls : t.main.calls = s.main.calls)
    (hf : (t.f.processing, t.f.cacheLines, t.f.discardLines, t.f.chHasNewLine,
        t.f.noNewLineCount, t.f.writeBufCh) =
      (s.f.processing, s.f.cacheLines, s.f.discardLines, s.f.chHasNewLine,
        s.f.noNewLineCount, s.f.writeBufCh)) : Side s t := by
  simp only [Prod.mk.injEq] at hf
  obtain ⟨hprocessing, hlines, hdiscard, hnewLine, hcount, hslot⟩ := hf
  exact ⟨hpc, hcalls, hprocessing, hlines, hdiscard, hnewLine, hcount, handedOver_same hslot⟩

theorem next_side {cfg : Config} {a : Act} {s t : Sys} (ha : a.byOthers = true)
    (hbusy : s.f.processing = true ∨ a ≠ .begin ∧ a ≠ .onReconnected)
    (hstep : next cfg s a = some t) : Side s t := by
  cases a with
  | owner _ | wake _ => cases ha
  | read bytes eof =>
    simp only [next] at hstep
    split at hstep
    · rename_i hm
      split at hstep <;> cases hstep
      · exact .same rfl (by rw [hm]; cases eof <;> rfl) rfl
      · exact .same rfl (by rw [hm]; rfl) rfl
    · cases hstep
  | begin =>
    have hproc := hbusy.resolve_right fun h => h.1 rfl
    simp [next, hproc] at hstep
  | onReconnected =>
    have hproc := hbusy.resolve_right fun h => h.2 rfl
    simp only [next] at hstep
    split at hstep
    · cases hstep
    · split at hstep
      · cases hstep
        exact .same rfl rfl rfl
      · cases hstep
        exact .same rfl rfl rfl
  | shutdown =>
    simp only [next] at hstep
    split at hstep
    · rename_i hm
      split at hstep <;> cases hstep
      exact .same rfl (by rw [hm]; rfl) rfl
    · rename_i hm
      split at hstep <;> cases hstep
      exact .same rfl (by rw [hm]; rfl) rfl
    · cases hstep
  | dequeue =>
    simp only [next] at hstep
    split at hstep <;> cases hstep
    exact ⟨rfl, rfl, rfl, rfl, rfl, rfl, rfl, handedOver_none rfl⟩
  | op ok =>
    simp only [next, opStep] at hstep
    repeat' split at hstep
    all_goals cases hstep
    all_goals exact .same rfl rfl rfl
  | _ =>
    simp only [next] at hstep
    repeat' split at hstep
    all_goals cases hstep
    all_goals exact .same rfl rfl rfl

/-! ## A flush of the whole cache -/

/-- What the lines hand over when they are flushed. -/
def flushedText (lines : List Text) : Text := lines.flatMap filterLine

theorem flushedText_take_succ {lines : List Text} {i : Nat} {l : Text} (h : lines[i]? = some l) :
    flushedText (lines.take (i + 1)) = flushedText (lines.take i) ++ filterLine l := by
  rw [List.take_add_one, h, flushedText, flushedText, List.flatMap_append]
  simp

/-- A flush of `lines` that began behind `before`: what it has handed over, by its
program counter. -/
def Flushing (before : Text) (lines : List Text) (handed : Text) : Pc → Prop
  | .flushBegin _ => handed = before
  | .flushLine _ i => handed = before ++ flushedText (lines.take i)
  | .flushSend _ (some i) line | .flushTimeout _ (some i) line
  | .flushReturned _ (some i) line | .flushWait _ (some i) line =>
    handed = before ++ flushedText (lines.take i) ∧ ∃ l, lines[i]? = some l ∧ line = .line l
  | _ => False

/-- The flush is under way, or it has returned; it has handed over everything if
it leaves an empty cache. -/
structure FlushRun (before : Text) (lines : List Text) (ret : Ret) (s : Sys × Record) : Prop where
  within : s.1.pc.role = .flush ret → s.1.f.processing = true ∧ s.1.f.cacheLines = lines ∧
    s.1.f.discardLines = 0 ∧ Flushing before lines s.2.handed s.1.pc
  through : s.1.pc.role ≠ .flush ret → s.1.f.cacheLines = [] →
    s.2.handed = before ++ flushedText lines

section Runs

variable {cfg : Config} {before : Text} {lines : List Text} {ret : Ret} {w : Record} {s t : Sys}

theorem Ret.pc_role (ret : Ret) : ret.pc.role ≠ .flush ret := by
  cases ret <;> simp [Ret.pc, Pc.role]

/-- The flush goes on. -/
theorem FlushRun.goes (hrole : t.pc.role = .flush ret) (hbusy : t.f.processing = true)
    (hlines : t.f.cacheLines = lines) (hnone : t.f.discardLines = 0)
    (hpc : Flushing before lines (w.handed ++ handedOver s t) t.pc) :
    FlushRun before lines ret (t, w.step s t) :=
  ⟨fun _ => ⟨hbusy, hlines, hnone, hpc⟩, fun hout => absurd hrole hout⟩

/-- The flush goes on and hands nothing over. -/
theorem FlushRun.stays (hslot : t.f.writeBufCh = s.f.writeBufCh) (hrole : t.pc.role = .flush ret)
    (hbusy : t.f.processing = true) (hlines : t.f.cacheLines = lines)
    (hnone : t.f.discardLines = 0) (hpc : Flushing before lines w.handed t.pc) :
    FlushRun before lines ret (t, w.step s t) := by
  refine .goes hrole hbusy hlines hnone ?_
  rw [handedOver_same hslot, List.append_nil]
  exact hpc

/-- The flush returns. -/
theorem FlushRun.returns (hslot : t.f.writeBufCh = s.f.writeBufCh) (hpc : t.pc = ret.pc)
    (hend : t.f.cacheLines = [] → w.handed = before ++ flushedText lines) :
    FlushRun before lines ret (t, w.step s t) := by
  have hrole : t.pc.role ≠ .flush ret := hpc ▸ ret.pc_role
  refine ⟨fun hin => absurd hin hrole, fun _ hempty => ?_⟩
  show w.handed ++ handedOver s t = before ++ flushedText lines
  rw [handedOver_same hslot, List.append_nil]
  exact hend hempty

/-- The steps of the flush itself. -/
theorem FlushRun.ownerStep {ok : Bool} (hrole : s.pc.role = .flush ret)
    (hbusy : s.f.processing = true) (hlines : s.f.cacheLines = lines)
    (hnone : s.f.discardLines = 0) (hpc : Flushing before lines w.handed s.pc)
    (hstep : ownerStep cfg ok s = some t) : FlushRun before lines ret (t, w.step s t) := by
  unfold Output.ownerStep at hstep
  cases heq : s.pc <;> rw [heq] at hrole hpc <;> simp only [heq] at hstep <;> cases hrole
  case flushBegin =>
    have hhanded : w.handed = before := hpc
    split at hstep
    · cases hstep
      refine .returns rfl rfl fun hempty => ?_
      have hnil : lines = [] := hlines.symm.trans hempty
      rw [hhanded, hnil, flushedText, List.flatMap_nil, List.append_nil]
    · rw [if_neg (by omega)] at hstep
      cases hstep
      refine .stays rfl rfl hbusy hlines hnone ?_
      show w.handed = before ++ flushedText (lines.take 0)
      rw [hhanded, List.take_zero, flushedText, List.flatMap_nil, List.append_nil]
  case flushLine i =>
    have hhanded : w.handed = before ++ flushedText (lines.take i) := hpc
    rw [hlines] at hstep
    split at hstep
    · rename_i hover
      cases hstep
      refine .returns rfl rfl fun _ => ?_
      rw [hhanded, List.take_of_length_le (List.getElem?_eq_none_iff.mp hover)]
    · rename_i l hl
      split at hstep <;> cases hstep
      · rename_i hempty
        refine .stays rfl rfl hbusy hlines hnone ?_
        show w.handed = before ++ flushedText (lines.take (i + 1))
        rw [hhanded, flushedText_take_succ hl, List.isEmpty_iff.mp hempty, List.append_nil]
      · exact .stays rfl rfl hbusy hlines hnone ⟨hhanded, l, hl, rfl⟩
  case flushSend i line =>
    cases i with
    | none => exact hpc.elim
    | some i =>
      obtain ⟨hhanded, l, hl, rfl⟩ := hpc
      simp only [Sys.trySend] at hstep
      split at hstep <;> cases hstep
      · rename_i hfree
        refine .goes rfl hbusy hlines hnone ?_
        show w.handed ++ handedOver s _ = before ++ flushedText (lines.take (i + 1))
        rw [handedOver_sent hfree rfl, hhanded, flushedText_take_succ hl, List.append_assoc]
        simp [Buf.text, Buf.frontText, Flushed.emit]
      · exact .stays rfl rfl hbusy hlines hnone ⟨hhanded, l, hl, rfl⟩
  case flushTimeout i line =>
    cases i with
    | none => exact hpc.elim
    | some i =>
      obtain ⟨hhanded, l, hl, rfl⟩ := hpc
      split at hstep <;> cases hstep
      · -- the lines from `i` on stay cached
        refine .returns rfl rfl fun hempty => ?_
        have hnil : s.f.cacheLines.drop i = [] := hempty
        have hlt := (List.getElem?_eq_some_iff.mp hl).1
        rw [hlines, List.drop_eq_nil_iff] at hnil
        omega
      · exact .stays rfl rfl hbusy hlines hnone ⟨hhanded, l, hl, rfl⟩
  case flushReturned i line =>
    cases i with
    | none => exact hpc.elim
    | some i =>
      obtain ⟨hhanded, l, hl, rfl⟩ := hpc
      split at hstep <;> cases hstep
      · refine .returns rfl rfl fun hempty => ?_
        have hnil : lines = [] := hlines.symm.trans hempty
        rw [hnil] at hl
        cases hl
      · exact .stays rfl rfl hbusy hlines hnone ⟨hhanded, l, hl, rfl⟩
  case flushWait => cases hstep
  all_goals exact hpc.elim

/-- Inside a flush, only the wait for room in the queue ends. -/
theorem FlushRun.wakeOwner {failed : Bool} (hrole : s.pc.role = .flush ret)
    (hbusy : s.f.processing = true) (hlines : s.f.cacheLines = lines)
    (hnone : s.f.discardLines = 0) (hpc : Flushing before lines w.handed s.pc)
    (hstep : wakeOwner failed s = some t) : FlushRun before lines ret (t, w.step s t) := by
  unfold Output.wakeOwner at hstep
  cases heq : s.pc <;> rw [heq] at hrole hpc <;> simp only [heq] at hstep <;> cases hrole
  case flushWait i line =>
    split at hstep <;> cases hstep
    cases i with
    | none => exact hpc.elim
    | some i => exact .stays rfl rfl hbusy hlines hnone hpc
  all_goals cases hstep

/-- **The step lemma.** -/
theorem FlushRun.step {a : Act} (h : FlushRun before lines ret (s, w))
    (hrole : s.pc.role = .flush ret) (hstep : next cfg s a = some t) :
    FlushRun before lines ret (t, w.step s t) := by
  obtain ⟨hbusy, hlines, hnone, hpc⟩ := h.within hrole
  by_cases ha : a.byOthers = true
  · have hside := next_side ha (.inl hbusy) hstep
    refine .goes (hside.pc ▸ hrole) (hside.processing.trans hbusy) (hside.cacheLines.trans hlines)
      (hside.discardLines.trans hnone) ?_
    rw [hside.handed, List.append_nil, hside.pc]
    exact hpc
  · cases a with
    | owner ok => exact FlushRun.ownerStep hrole hbusy hlines hnone hpc hstep
    | wake failed => exact FlushRun.wakeOwner hrole hbusy hlines hnone hpc hstep
    | _ => exact absurd rfl ha

/-- **What a flush hands over.** -/
theorem flush_hands_over {t : Sys × Record} (hpc : s.pc = .flushBegin ret)
    (hbusy : s.f.processing = true) (hnone : s.f.discardLines = 0)
    (hrun : (recorded cfg).Path (fun u _ => u.1.pc.role = .flush ret) (s, w) t)
    (hend : t.1.pc = ret.pc) (hflushed : t.1.f.cacheLines = []) :
    t.2.handed = w.handed ++ flushedText s.f.cacheLines := by
  have hall : FlushRun w.handed s.f.cacheLines ret t := by
    clear hend hflushed
    induction hrun with
    | refl =>
      refine ⟨fun _ => ⟨hbusy, rfl, hnone, ?_⟩, fun hout => absurd (by rw [hpc]; rfl) hout⟩
      rw [hpc]
      rfl
    | snoc _ hrole hnext ih =>
      obtain ⟨hstep, hrecord⟩ := recorded_next hnext
      have hafter := FlushRun.step ih hrole hstep
      rw [← hrecord] at hafter
      exact hafter
  exact hall.through (hend ▸ ret.pc_role) hflushed

end Runs

/-- **The filter sees through the reads.** When chunks were cached from an empty
cache on, without overflow, and a flush reaches the end of the cache: it hands
over the chunks put together without the requests, found from left to right, if
and only if the reads that end inside a request end in a line below a thousand
bytes. -/
theorem flush_filters {cfg : Config} {f : Forwarder} (hf : f.Uncached)
    {calls : List (Int × Text)} {s : Sys} {w : Record} {ret : Ret} {t : Sys × Record}
    (hcached : s.f = cacheAll cfg.lim f calls) (hfull : s.f.discardLines = 0)
    (hpc : s.pc = .flushBegin ret) (hbusy : s.f.processing = true)
    (hrun : (recorded cfg).Path (fun u _ => u.1.pc.role = .flush ret) (s, w) t)
    (hend : t.1.pc = ret.pc) (hflushed : t.1.f.cacheLines = []) :
    t.2.handed = w.handed ++ filterLine (calls.map (·.2)).flatten ↔
      ShortSeams (calls.map (·.2)) := by
  rw [flush_hands_over hpc hbusy hfull hrun hend hflushed, hcached]
  rw [hcached] at hfull
  rw [flushedText, cacheAll_cacheLines hf hfull, List.append_cancel_left_eq, filterLine_splitLines]

/-- The client is back when the reads were cached, and a notification flushes. -/
def backAfter (cfg : Config) (calls : List (Int × Text)) : Sys :=
  { f := cacheAll cfg.lim { processing := true } calls, pc := .flushBegin .endProcessing
    checker := some 0, server := some 0, stream := some 0 }

/-- A flush of two lines, with a dequeue in between. -/
def flushTwo : List Act := handler 3 ++ [.dequeue] ++ handler 3

theorem path_flushTwo {calls : List (Int × Text)} {t : Sys × Record}
    (h : (recorded {}).execWhile (fun u _ => decide (u.1.pc.role = .flush .endProcessing))
      (backAfter {} calls, {}) flushTwo = some t) :
    (recorded {}).Path (fun u _ => u.1.pc.role = .flush .endProcessing) (backAfter {} calls, {}) t :=
  TSys.Path.execWhile (fun _ _ h => of_decide_eq_true h) (.refl _) h

/-- A request over two reads in a short line. -/
def cutRequest : List (Int × Text) :=
  [(24, plain (ascii "ab\x1b[")), (24, plain (ascii "6ncd\nx"))]

theorem flush_filters_cutRequest :
    ∃ t, (recorded {}).Path (fun u _ => u.1.pc.role = .flush .endProcessing)
        (backAfter {} cutRequest, {}) t ∧ t.1.pc = .endLoop ∧ t.1.f.cacheLines = [] ∧
      t.2.handed = plain (ascii "abcd\nx") ∧ ShortSeams (cutRequest.map (·.2)) := by
  have hrun : ((recorded {}).execWhile (fun u _ => decide (u.1.pc.role = .flush .endProcessing))
      (backAfter {} cutRequest, {}) flushTwo).any
      (fun t => decide (t.1.pc = .endLoop ∧ t.1.f.cacheLines = [] ∧
        t.2.handed = plain (ascii "abcd\nx"))) = true := by
    decide
  obtain ⟨t, ht, hend⟩ := (Option.any_eq_true _ _).mp hrun
  obtain ⟨hpc, hcache, hhanded⟩ := of_decide_eq_true hend
  have hpath := path_flushTwo ht
  have hempty : Forwarder.Uncached { processing := true } := ⟨rfl, rfl, rfl, rfl⟩
  have hcached : (backAfter {} cutRequest).f =
      cacheAll ({} : Config).lim { processing := true } cutRequest := rfl
  have hfilters := flush_filters hempty hcached (by decide) rfl (by decide) hpath hpc hcache
  exact ⟨t, hpath, hpc, hcache, hhanded, hfilters.mp (hhanded.trans (by decide))⟩

/-- A thousand bytes and the front of a request, then its end. -/
def cutLongLine : List (Int × Text) :=
  [(24, plain (List.replicate 1000 97 ++ ascii "\x1b[")), (24, plain (ascii "6n"))]

/-- The read starts a new line inside the request, and the flush hands both
halves over. -/
theorem flush_misses_request :
    ∃ t, (recorded {}).Path (fun u _ => u.1.pc.role = .flush .endProcessing)
        (backAfter {} cutLongLine, {}) t ∧ t.1.pc = .endLoop ∧ t.1.f.cacheLines = [] ∧
      (backAfter {} cutLongLine).f.discardLines = 0 ∧
      filterLine (cutLongLine.map (·.2)).flatten = plain (List.replicate 1000 97) ∧
      t.2.handed = plain (List.replicate 1000 97 ++ esc6n) := by
  have hrun : ((recorded {}).execWhile (fun u _ => decide (u.1.pc.role = .flush .endProcessing))
      (backAfter {} cutLongLine, {}) flushTwo).any
      (fun t => decide (t.1.pc = .endLoop ∧ t.1.f.cacheLines = [] ∧
        t.2.handed = plain (List.replicate 1000 97 ++ esc6n))) = true := by
    decide +kernel
  obtain ⟨t, ht, hend⟩ := (Option.any_eq_true _ _).mp hrun
  obtain ⟨hpc, hcache, hhanded⟩ := of_decide_eq_true hend
  exact ⟨t, path_flushTwo ht, hpc, hcache, by decide +kernel, by decide +kernel, hhanded⟩

end Tsshd.Output

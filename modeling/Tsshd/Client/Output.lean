import Tsshd.Core.Bytes
import Tsshd.Core.Search

/-!
# The client discards output up to a marker

After a reconnect the client drops the output of a session up to a marker that
the server puts into the stream (`clientOutputForwarder.forward`, output.go).
The marker may be cut by the reads in any way, so the loop keeps the last bytes
that could be the beginning of one, as many as the marker has without its last.
It counts what it drops when there is somebody to tell.

The marker is a pointer that another goroutine may replace; here it is set
before the first read and nobody replaces it, so the `CompareAndSwap` succeeds.

* `Seeking` is the invariant of the search: what was read is what was dropped and
  what is kept, the marker is not in it, and the counters count what was dropped.
-/

namespace Tsshd.Client.Output

/-! ## The loop -/

/-- `clientOutputForwarder`. -/
structure Forwarder where
  marker : Option (List UInt8) := none
  cacheBuf : List UInt8 := []
  discardLines : UInt64 := 0
  discardBytes : UInt64 := 0
  /-- The session pipe. -/
  writer : Writer := {}
  /-- History: the calls of `discardCallback`, lines and bytes. -/
  callbacks : List (UInt64 × UInt64) := []

/-- How a turn of the loop goes on. -/
inductive Flow
  | again
  | stop
  /-- To the check of the error of `Read`. -/
  | checkErr
deriving DecidableEq, Repr

/-- `bytes.Count(buf, []byte("\n"))`. -/
def newlines (buf : List UInt8) : Nat := buf.count 10

/-- The counters behind `buf`, which are kept for the callback only. -/
def Forwarder.discard (f : Forwarder) (callback : Bool) (buf : List UInt8) : Forwarder :=
  if callback then
    { f with
      discardLines := f.discardLines + UInt64.ofNat (newlines buf)
      discardBytes := f.discardBytes + UInt64.ofNat buf.length }
  else f

/-- `writeAll` into the session pipe. -/
def Forwarder.write (f : Forwarder) (buf : List UInt8) (flow : Flow) : Forwarder × Flow :=
  match f.writer.writeAll buf with
  | (.ok _, w) => ({ f with writer := w }, flow)
  | (.error _, w) => ({ f with writer := w }, .stop)

/-- The marker is found at `pos`. -/
def Forwarder.found (f : Forwarder) (callback : Bool) (marker : List UInt8) (pos : Nat) :
    Forwarder × Flow :=
  let g := f.discard callback (f.cacheBuf.take pos)
  let callbacks :=
    if callback then g.callbacks ++ [(g.discardLines + 1, g.discardBytes)] else g.callbacks
  Forwarder.write
    { g with
      marker := none, cacheBuf := [], discardLines := 0, discardBytes := 0, callbacks := callbacks }
    (f.cacheBuf.drop (pos + marker.length)) .again

/-- The marker is not found yet: the tail is kept. -/
def Forwarder.keepTail (f : Forwarder) (callback : Bool) (marker : List UInt8) : Forwarder :=
  let keepLen := marker.length - 1
  if keepLen < f.cacheBuf.length then
    let pos := f.cacheBuf.length - keepLen
    { f.discard callback (f.cacheBuf.take pos) with cacheBuf := f.cacheBuf.drop pos }
  else f

/-- A turn of the loop with a buffer that is not empty. -/
def Forwarder.onRead (f : Forwarder) (callback : Bool) (buf : List UInt8) : Forwarder × Flow :=
  match f.marker with
  | some marker =>
    let g := { f with cacheBuf := f.cacheBuf ++ buf }
    match subIndex marker g.cacheBuf with
    | some pos => g.found callback marker pos
    | none => (g.keepTail callback marker, .again)
  | none => f.write buf .checkErr

/-- The loop of `forward`; `fuel` bounds its turns, each of which gets at least
one byte or is the last. -/
def forwardLoop (callback : Bool) : Nat → Forwarder → Stream → Forwarder
  | 0, f, _ => f
  | fuel + 1, f, s =>
    match s.read 32768 with
    | (buf, err, s') =>
      match if buf = [] then (f, Flow.checkErr) else f.onRead callback buf with
      | (g, .again) => forwardLoop callback fuel g s'
      | (g, .stop) => g
      | (g, .checkErr) => if err.isSome then g else forwardLoop callback fuel g s'

def forward (callback : Bool) (f : Forwarder) (s : Stream) : Forwarder :=
  forwardLoop callback (s.bytes.length + 1) f s

/-! ## A turn of the loop -/

variable {callback : Bool} {f : Forwarder} {s : Stream} {m : List UInt8}

/-- How the loop goes on behind a turn. -/
def goOn (callback : Bool) (fuel : Nat) (t : Stream) (ended : Bool) : Forwarder × Flow → Forwarder
  | (g, .again) => forwardLoop callback fuel g t
  | (g, .stop) => g
  | (g, .checkErr) => if ended then g else forwardLoop callback fuel g t

/-- The loop ends with the stream, or takes a part of the stream. -/
theorem forwardLoop_succ (callback : Bool) (fuel : Nat) (f : Forwarder) (s : Stream) :
    (s.bytes = [] ∧ forwardLoop callback (fuel + 1) f s = f) ∨
    ∃ buf ended t, buf ≠ [] ∧ s.bytes = buf ++ t.bytes ∧ (ended = true → t.bytes = []) ∧
      forwardLoop callback (fuel + 1) f s = goOn callback fuel t ended (f.onRead callback buf) := by
  have hreads := Stream.read_reads 32768 s
  rw [forwardLoop]
  generalize s.read 32768 = r at hreads ⊢
  obtain ⟨buf, err, t⟩ := r
  dsimp only at hreads ⊢
  by_cases hbuf : buf = []
  · refine .inl ?_
    cases err with
    | none => exact absurd hbuf (hreads.goesOn rfl (by decide))
    | some e =>
      rw [hreads.split, (hreads.ended e rfl).2, hbuf]
      exact ⟨rfl, rfl⟩
  · refine .inr ⟨buf, err.isSome, t, hbuf, hreads.split, ?_, ?_⟩
    · intro hsome
      obtain ⟨e, he⟩ := Option.isSome_iff_exists.mp hsome
      exact (hreads.ended e he).2
    · rw [if_neg hbuf]
      rfl

theorem onRead_none (hmarker : f.marker = none) (callback : Bool) (buf : List UInt8) :
    f.onRead callback buf = f.write buf .checkErr := by
  unfold Forwarder.onRead
  rw [hmarker]

theorem onRead_some (hmarker : f.marker = some m) (callback : Bool) (buf : List UInt8) :
    f.onRead callback buf =
      match subIndex m (f.cacheBuf ++ buf) with
      | some pos => ({ f with cacheBuf := f.cacheBuf ++ buf } : Forwarder).found callback m pos
      | none =>
        (({ f with cacheBuf := f.cacheBuf ++ buf } : Forwarder).keepTail callback m, .again) := by
  unfold Forwarder.onRead
  split
  case h_1 marker hsome =>
    cases hmarker.symm.trans hsome
    rfl
  case h_2 hnone => cases hmarker.symm.trans hnone

/-- Everything is written, or a part of it and the loop stops. -/
theorem write_cases (f : Forwarder) (buf : List UInt8) (flow : Flow) :
    (∃ w, f.write buf flow = ({ f with writer := w }, flow) ∧
      w.written = f.writer.written ++ buf ∧ (f.writer.Reliable → w.Reliable)) ∨
    (∃ w, f.write buf flow = ({ f with writer := w }, .stop) ∧
      w.written <+: f.writer.written ++ buf ∧ ¬f.writer.Reliable) := by
  unfold Forwarder.write
  generalize hwrite : f.writer.writeAll buf = r
  obtain ⟨_ | _, w⟩ := r
  · refine .inr ⟨w, rfl, Writer.writeAll_part hwrite, ?_⟩
    intro hrel
    have hok := (Writer.writeAll_reliable hrel buf).1
    rw [hwrite] at hok
    cases hok
  · refine .inl ⟨w, rfl, Writer.writeAll_ok hwrite, ?_⟩
    intro hrel
    have hstill := (Writer.writeAll_reliable hrel buf).2.2
    rw [hwrite] at hstill
    exact hstill

/-! ## Passing on -/

/-- What the loop leaves behind: `out` in the pipe, or a part of it if a write
fails, and the calls of the callback. -/
structure Leaves (w : Writer) (out : List UInt8) (callbacks : List (UInt64 × UInt64))
    (r : Forwarder) : Prop where
  part : r.writer.written <+: w.written ++ out
  all : w.Reliable → r.writer.written = w.written ++ out
  callbacks : r.callbacks = callbacks

/-- A write in front of the rest. -/
theorem Leaves.append {w w' : Writer} {buf out : List UInt8} {callbacks : List (UInt64 × UInt64)}
    {r : Forwarder} (h : Leaves w' out callbacks r) (hwritten : w'.written = w.written ++ buf)
    (hrel : w.Reliable → w'.Reliable) : Leaves w (buf ++ out) callbacks r := by
  refine ⟨?_, ?_, h.callbacks⟩
  · rw [← List.append_assoc, ← hwritten]
    exact h.part
  · intro hw
    rw [← List.append_assoc, ← hwritten]
    exact h.all (hrel hw)

/-- A write that fails. -/
theorem Leaves.failed {w w' : Writer} {buf out : List UInt8} {r : Forwarder}
    (hwriter : r.writer = w') (hwritten : w'.written <+: w.written ++ buf) (hrel : ¬w.Reliable) :
    Leaves w (buf ++ out) r.callbacks r := by
  refine ⟨?_, fun hw => absurd hw hrel, rfl⟩
  rw [← List.append_assoc, hwriter]
  exact hwritten.trans (List.prefix_append _ _)

theorem Leaves.refl (f : Forwarder) : Leaves f.writer [] f.callbacks f := by
  refine ⟨?_, fun _ => (List.append_nil _).symm, rfl⟩
  rw [List.append_nil]

/-- Without a marker the rest of the stream is passed on. -/
theorem forwardLoop_passing (fuel : Nat) (f : Forwarder) (s : Stream) (hmarker : f.marker = none)
    (hfuel : s.bytes.length < fuel) :
    Leaves f.writer s.bytes f.callbacks (forwardLoop callback fuel f s) := by
  induction fuel generalizing f s with
  | zero => exact absurd hfuel (Nat.not_lt_zero _)
  | succ fuel ih =>
    obtain ⟨hnil, hend⟩ | ⟨buf, ended, t, hbuf, hbytes, hended, hturn⟩ :=
      forwardLoop_succ callback fuel f s
    · rw [hend, hnil]
      exact Leaves.refl f
    · have hlen : t.bytes.length < fuel := by
        have hpos := List.length_pos_iff.mpr hbuf
        rw [hbytes, List.length_append] at hfuel
        omega
      rw [hturn, onRead_none hmarker, hbytes]
      obtain ⟨w, hwrite, hwritten, hrel⟩ | ⟨w, hwrite, hwritten, hrel⟩ :=
        write_cases f buf .checkErr
      · rw [hwrite, goOn]
        split
        · rw [hended ‹_›]
          exact (Leaves.refl { f with writer := w }).append hwritten hrel
        · exact (ih { f with writer := w } t hmarker hlen).append hwritten hrel
      · rw [hwrite]
        exact Leaves.failed (r := { f with writer := w }) rfl hwritten hrel

/-! ## Seeking the marker -/

/-- The counters count `dropped`, if there is a callback. -/
structure Counted (callback : Bool) (dropped : List UInt8) (f : Forwarder) : Prop where
  lines : callback = true → f.discardLines = UInt64.ofNat (newlines dropped)
  bytes : callback = true → f.discardBytes = UInt64.ofNat dropped.length

/-- `dropped` and what is kept were read, and the marker is not in them. -/
structure Seeking (callback : Bool) (m dropped : List UInt8) (f : Forwarder) : Prop where
  marker : f.marker = some m
  absent : subIndex m (dropped ++ f.cacheBuf) = none
  /-- What is kept reaches as far back as the marker can. -/
  reach : dropped = [] ∨ m.length ≤ f.cacheBuf.length + 1
  counted : Counted callback dropped f

/-- What is reported when the marker is at `k` in the whole stream. -/
def report (callback : Bool) (stream : List UInt8) (k : Nat) : List (UInt64 × UInt64) :=
  if callback then [(UInt64.ofNat (newlines (stream.take k) + 1), UInt64.ofNat k)] else []

theorem discard_frame (f : Forwarder) (callback : Bool) (buf : List UInt8) :
    (f.discard callback buf).marker = f.marker ∧ (f.discard callback buf).writer = f.writer ∧
      (f.discard callback buf).callbacks = f.callbacks := by
  unfold Forwarder.discard
  split <;> exact ⟨rfl, rfl, rfl⟩

theorem Counted.discard {dropped : List UInt8} (h : Counted callback dropped f)
    (buf : List UInt8) : Counted callback (dropped ++ buf) (f.discard callback buf) := by
  refine ⟨?_, ?_⟩
  · intro hcallback
    simp only [Forwarder.discard, hcallback, if_true]
    rw [h.lines hcallback, newlines, newlines, newlines, List.count_append, UInt64.ofNat_add]
  · intro hcallback
    simp only [Forwarder.discard, hcallback, if_true]
    rw [h.bytes hcallback, List.length_append, UInt64.ofNat_add]

/-- The counters and the last line are what is reported. -/
theorem Counted.report {dropped stream : List UInt8} {k : Nat} (h : Counted callback dropped f)
    (hk : stream.take k = dropped) (hlen : dropped.length = k) :
    (if callback then f.callbacks ++ [(f.discardLines + 1, f.discardBytes)] else f.callbacks) =
      f.callbacks ++ report callback stream k := by
  cases callback with
  | false => exact (List.append_nil _).symm
  | true =>
    rw [if_pos rfl, Output.report, if_pos rfl, h.lines rfl, h.bytes rfl, hk, hlen, UInt64.ofNat_add]
    rfl

/-- The marker is found at `pos` of what is kept: it is reported, and what is
behind it is passed on. -/
theorem Counted.found {dropped : List UInt8} {fuel pos : Nat} (h : Counted callback dropped f)
    (hpos : subIndex m f.cacheBuf = some pos) (t : Stream) (hfuel : t.bytes.length < fuel)
    (ended : Bool) :
    Leaves f.writer
      ((dropped ++ f.cacheBuf ++ t.bytes).drop (dropped.length + pos + m.length))
      (f.callbacks ++ Output.report callback (dropped ++ f.cacheBuf ++ t.bytes) (dropped.length + pos))
      (goOn callback fuel t ended (f.found callback m pos)) := by
  obtain ⟨⟨a, b, hsplit, ha⟩, -⟩ := subIndex_eq_some.mp hpos
  have hend : pos + m.length ≤ f.cacheBuf.length := by
    rw [hsplit, List.length_append, List.length_append]
    omega
  have htake : (dropped ++ f.cacheBuf ++ t.bytes).take (dropped.length + pos) =
      dropped ++ f.cacheBuf.take pos := by
    rw [List.append_assoc, List.take_length_add_append, List.take_append_of_le_length (by omega)]
  have hdrop : (dropped ++ f.cacheBuf ++ t.bytes).drop (dropped.length + pos + m.length) =
      f.cacheBuf.drop (pos + m.length) ++ t.bytes := by
    rw [List.append_assoc, Nat.add_assoc, List.drop_length_add_append,
      List.drop_append_of_le_length hend]
  have hlen : (dropped ++ f.cacheBuf.take pos).length = dropped.length + pos := by
    rw [List.length_append, List.length_take]
    omega
  obtain ⟨-, hwriter, hcallbacks⟩ := discard_frame f callback (f.cacheBuf.take pos)
  have hreport := (h.discard (f.cacheBuf.take pos)).report htake hlen
  unfold Forwarder.found
  dsimp only
  rw [hdrop, hreport, hcallbacks]
  generalize hg : ({ f.discard callback (f.cacheBuf.take pos) with
    marker := none, cacheBuf := [], discardLines := 0, discardBytes := 0,
    callbacks := _ } : Forwarder) = g
  have hgwriter : g.writer = f.writer := by
    rw [← hg]
    exact hwriter
  have hgcallbacks : f.callbacks ++ Output.report callback (dropped ++ f.cacheBuf ++ t.bytes)
      (dropped.length + pos) = g.callbacks := by
    rw [← hg]
  rw [hgcallbacks, ← hgwriter]
  obtain ⟨w, hwrite, hwritten, hrel⟩ | ⟨w, hwrite, hwritten, hrel⟩ :=
    write_cases g (f.cacheBuf.drop (pos + m.length)) .again
  · rw [hwrite]
    refine (forwardLoop_passing fuel { g with writer := w } t ?_ hfuel).append hwritten hrel
    rw [← hg]
  · rw [hwrite]
    exact Leaves.failed (r := { g with writer := w }) rfl hwritten hrel

/-- The marker is not in what is kept: the search goes on. -/
theorem Seeking.keepTail {dropped buf : List UInt8} (hm : m ≠ []) (h : Seeking callback m dropped f)
    (habsent : subIndex m (dropped ++ f.cacheBuf ++ buf) = none) :
    ∃ dropped' g, ({ f with cacheBuf := f.cacheBuf ++ buf } : Forwarder).keepTail callback m = g ∧
      Seeking callback m dropped' g ∧ g.writer = f.writer ∧ g.callbacks = f.callbacks ∧
      dropped' ++ g.cacheBuf = dropped ++ f.cacheBuf ++ buf := by
  have hpos : 0 < m.length := List.length_pos_iff.mpr hm
  have hcounted : Counted callback dropped { f with cacheBuf := f.cacheBuf ++ buf } :=
    ⟨h.counted.lines, h.counted.bytes⟩
  rw [List.append_assoc] at habsent ⊢
  unfold Forwarder.keepTail
  dsimp only
  split
  case isTrue hlong =>
    generalize hcut : (f.cacheBuf ++ buf).length - (m.length - 1) = pos
    obtain ⟨hmarker, hwriter, hcallbacks⟩ := discard_frame
      { f with cacheBuf := f.cacheBuf ++ buf } callback ((f.cacheBuf ++ buf).take pos)
    have hnext := hcounted.discard ((f.cacheBuf ++ buf).take pos)
    have hsame : dropped ++ (f.cacheBuf ++ buf).take pos ++ (f.cacheBuf ++ buf).drop pos =
        dropped ++ (f.cacheBuf ++ buf) := by
      rw [List.append_assoc, List.take_append_drop]
    refine ⟨dropped ++ (f.cacheBuf ++ buf).take pos, _, rfl,
      ⟨hmarker.trans h.marker, ?_, .inr ?_, ⟨hnext.lines, hnext.bytes⟩⟩, hwriter, hcallbacks, hsame⟩
    · dsimp only
      rw [hsame]
      exact habsent
    · dsimp only
      rw [List.length_drop]
      omega
  case isFalse hshort =>
    refine ⟨dropped, _, rfl, ⟨h.marker, habsent, ?_, hcounted⟩, rfl, rfl, rfl⟩
    refine h.reach.imp (fun h => h) fun hreach => ?_
    rw [List.length_append]
    omega

/-- The whole search, by induction on the turns of the loop. -/
theorem forwardLoop_seeking (hm : m ≠ []) (fuel : Nat) (f : Forwarder) (s : Stream)
    (dropped : List UInt8) (h : Seeking callback m dropped f) (hfuel : s.bytes.length < fuel) :
    (subIndex m (dropped ++ f.cacheBuf ++ s.bytes) = none →
      (forwardLoop callback fuel f s).writer = f.writer ∧
        (forwardLoop callback fuel f s).callbacks = f.callbacks) ∧
    (∀ k, subIndex m (dropped ++ f.cacheBuf ++ s.bytes) = some k →
      Leaves f.writer ((dropped ++ f.cacheBuf ++ s.bytes).drop (k + m.length))
        (f.callbacks ++ report callback (dropped ++ f.cacheBuf ++ s.bytes) k)
        (forwardLoop callback fuel f s)) := by
  induction fuel generalizing f s dropped with
  | zero => exact absurd hfuel (Nat.not_lt_zero _)
  | succ fuel ih =>
    obtain ⟨hnil, hend⟩ | ⟨buf, ended, t, hbuf, hbytes, -, hturn⟩ :=
      forwardLoop_succ callback fuel f s
    · rw [hend, hnil, List.append_nil]
      refine ⟨fun _ => ⟨rfl, rfl⟩, ?_⟩
      intro k hk
      exact absurd (h.absent.symm.trans hk) (by simp)
    · have hlen : t.bytes.length < fuel := by
        have hpos := List.length_pos_iff.mpr hbuf
        rw [hbytes, List.length_append] at hfuel
        omega
      have hwhole : subIndex m (dropped ++ f.cacheBuf ++ buf) =
          (subIndex m (f.cacheBuf ++ buf)).map (dropped.length + ·) :=
        subIndex_append_of_none h.absent h.reach buf
      rw [hturn, hbytes, ← List.append_assoc, onRead_some h.marker]
      cases hfound : subIndex m (f.cacheBuf ++ buf) with
      | some pos =>
        rw [hfound] at hwhole
        have hk : subIndex m (dropped ++ f.cacheBuf ++ buf ++ t.bytes) =
            some (dropped.length + pos) := subIndex_append hwhole t.bytes
        have hcounted : Counted callback dropped { f with cacheBuf := f.cacheBuf ++ buf } :=
          ⟨h.counted.lines, h.counted.bytes⟩
        refine ⟨fun hnone => absurd (hk.symm.trans hnone) (by simp), ?_⟩
        intro k hk'
        obtain rfl : dropped.length + pos = k := Option.some.inj (hk.symm.trans hk')
        have hleaves := hcounted.found hfound t hlen ended
        dsimp only at hleaves
        rw [← List.append_assoc] at hleaves
        exact hleaves
      | none =>
        rw [hfound] at hwhole
        obtain ⟨dropped', g, hg, hseeking, hwriter, hcallbacks, hsame⟩ := h.keepTail hm hwhole
        have hrest := ih g t dropped' hseeking hlen
        rw [hsame, hwriter, hcallbacks] at hrest
        dsimp only
        rw [hg, goOn]
        exact hrest

/-- **Discarding does not depend on the reads.** Let `m` be the marker in front of
the first read. While `m` is not in the stream nothing is written and nothing is
reported. When it is, and is first at `k`, then what follows it goes to the
session pipe, all of it unless a write fails, and the callback gets `k` and the
number of lines up to there. -/
theorem forward_discards (m : List UInt8) (hm : m ≠ []) (callback : Bool) (w : Writer)
    (s : Stream) :
    (subIndex m s.bytes = none →
      (forward callback { marker := some m, writer := w } s).writer.written = w.written ∧
      (forward callback { marker := some m, writer := w } s).callbacks = []) ∧
    (∀ k, subIndex m s.bytes = some k →
      (forward callback { marker := some m, writer := w } s).writer.written <+:
        w.written ++ s.bytes.drop (k + m.length) ∧
      (w.Reliable → (forward callback { marker := some m, writer := w } s).writer.written =
        w.written ++ s.bytes.drop (k + m.length)) ∧
      (forward callback { marker := some m, writer := w } s).callbacks =
        if callback then [(UInt64.ofNat (newlines (s.bytes.take k) + 1), UInt64.ofNat k)]
        else []) := by
  have hstart : Seeking callback m [] { marker := some m, writer := w } := by
    refine ⟨rfl, subIndex_eq_none.mpr ?_, .inl rfl, ⟨fun _ => rfl, fun _ => rfl⟩⟩
    intro a b heq
    have hnil : a ++ m ++ b = [] := heq.symm
    simp [hm] at hnil
  obtain ⟨hnone, hsome⟩ := forwardLoop_seeking hm (s.bytes.length + 1) _ s [] hstart
    (Nat.lt_succ_self _)
  refine ⟨?_, ?_⟩
  · intro habsent
    obtain ⟨hwriter, hcallbacks⟩ := hnone habsent
    exact ⟨congrArg Writer.written hwriter, hcallbacks⟩
  · intro k hk
    have hleaves := hsome k hk
    exact ⟨hleaves.part, hleaves.all, hleaves.callbacks⟩

/-- A marker with a prefix that is its suffix, cut by every read. -/
def cutMarker : Stream :=
  ⟨[⟨[97, 10, 120], by decide⟩, ⟨[121, 120], by decide⟩, ⟨[121], by decide⟩,
    ⟨[120, 98], by decide⟩, ⟨[99], by decide⟩], .eof, true⟩

theorem forward_discards_cutMarker :
    (forward true { marker := some [120, 121, 120, 121, 120] } cutMarker).writer.written = [98, 99] ∧
    (forward true { marker := some [120, 121, 120, 121, 120] } cutMarker).callbacks = [(2, 2)] := by
  have hfound : subIndex [120, 121, 120, 121, 120] cutMarker.bytes = some 2 := by decide
  obtain ⟨-, hall, hcallbacks⟩ :=
    (forward_discards [120, 121, 120, 121, 120] (by decide) true {} cutMarker).2 2 hfound
  exact ⟨hall fun _ => rfl, hcallbacks⟩

end Tsshd.Client.Output

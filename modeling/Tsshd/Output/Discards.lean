import Tsshd.Output.Flow
import Tsshd.Output.Cells

/-!
# Discard accounting

What becomes of the bytes a program writes, over whole runs with timeouts,
redraws, markers, detaches and attaches (`discards_accounted`): every byte was
given to the writer, is cached or in hand, or was dropped, and the dropped ones
are counted once, by a warning line, by a `discard` message or by the counter
that the next of these reports.

`clearOutput` reports only to an attached server, while it forgets in any case.
A detach during the redraw of a flush therefore loses the account
(`detached_redraw_unreported`), and the theorem asks that a server is there
whenever there is something to report. It also asks that no marker is cached:
the counters do not tell its bytes from the program's.
-/

namespace Tsshd.Output

/-! ## The quantities -/

/-- The bytes of a text that the program wrote: all but those of markers. -/
def programBytes (t : Text) : Nat := t.countP fun x => x.owner.isNone

@[simp] theorem programBytes_nil : programBytes [] = 0 := rfl

@[simp] theorem programBytes_append (t u : Text) :
    programBytes (t ++ u) = programBytes t + programBytes u :=
  List.countP_append

@[simp] theorem programBytes_plain (bytes : List UInt8) :
    programBytes (plain bytes) = bytes.length := by
  simp [programBytes, plain, List.countP_map, Function.comp_def]

@[simp] theorem programBytes_marked (c : Nat) (bytes : List UInt8) :
    programBytes (marked c bytes) = 0 := by
  simp [programBytes, marked, List.countP_map, Function.comp_def]

/-- Lines without a byte of a marker. -/
def Unmixed (lines : List Text) : Prop := programBytes lines.flatten = lines.flatten.length

instance (lines : List Text) : Decidable (Unmixed lines) :=
  inferInstanceAs (Decidable (_ = _))

theorem Unmixed.mem {lines : List Text} (h : Unmixed lines) {l : Text} (hl : l ∈ lines) :
    programBytes l = l.length := by
  unfold Unmixed programBytes at *
  rw [List.countP_eq_length] at h ⊢
  exact fun x hx => h x (List.mem_flatten_of_mem hl hx)

theorem Unmixed.append {lines more : List Text} :
    Unmixed (lines ++ more) ↔ Unmixed lines ∧ Unmixed more := by
  simp only [Unmixed, programBytes, List.countP_eq_length, List.flatten_append, List.mem_append,
    or_imp, forall_and]

/-- The bytes of the program that the buffer gives to the writer. A flushed
line counts with the cursor position requests that were filtered out. -/
def Buf.given (b : Buf) : Nat :=
  programBytes b.raw +
    match b.front with
    | some (.line l) => programBytes l
    | _ => 0

/-- The number of bytes that the warning in the buffer reports. -/
def Buf.warned (b : Buf) : Nat :=
  match b.front with
  | some (.warn _ run) => run.flatten.length
  | _ => 0

theorem Buf.programBytes_source {b : Buf} (h : b.Runs Unmixed) :
    programBytes b.source = b.given + b.warned := by
  unfold Buf.source Buf.stands Buf.given Buf.warned
  cases hf : b.front with
  | none => simp
  | some p =>
    cases p with
    | line l => simp [Flushed.source, Nat.add_comm]
    | warn text run =>
      have hrun : programBytes run.flatten = run.flatten.length := h text run hf
      simp [Flushed.source, hrun, Nat.add_comm]

theorem programBytes_sources {bufs : List Buf} (h : ∀ b ∈ bufs, b.Runs Unmixed) :
    programBytes (bufs.flatMap Buf.source) =
      (bufs.map Buf.given).sum + (bufs.map Buf.warned).sum := by
  induction bufs with
  | nil => rfl
  | cons b rest ih =>
    have hb := Buf.programBytes_source (h b List.mem_cons_self)
    have hrest := ih fun c hc => h c (List.mem_cons_of_mem _ hc)
    simp only [List.flatMap_cons, programBytes_append, List.map_cons, List.sum_cons]
    omega

/-- The bytes reported by `discard` messages. -/
def Sys.reported (s : Sys) : Nat := (s.reports.map fun r => r.2.2).sum

/-! ## The audited forwarder -/

/-- The forwarder, with a count of the bytes of the lines that the filter
emptied: of these nothing is queued. -/
def audit (cfg : Config) : TSys (Sys × Nat) Act where
  init s := s = (start cfg, 0)
  next s a := (next cfg s.1 a).map fun t => (t, s.2 + (s.1.passedBy a).length)

/-- A server is attached when `clearOutput` has something to report. -/
def Sys.canReport (s : Sys) : Act → Bool
  | .owner _ => !s.clears || s.server.isSome || (clearReport s.f).isNone
  | _ => true

/-- No byte of a marker is in the cache or was dropped from it. -/
def Sys.cachesOutput (s : Sys) : Bool := decide (Unmixed s.f.dropped ∧ Unmixed s.f.cacheLines)

/-- What the step gives to `cacheOutput` has no byte of a marker. -/
def Sys.cachesProgram (s : Sys) : Act → Bool
  | .owner _ => s.caching.all fun t => programBytes t = t.length
  | _ => true

def accountable (s : Sys) (a : Act) : Bool := a.sound && s.canReport a && s.cachesProgram a

/-- The cache and the dropped lines hold no byte of a marker as long as none is
cached. -/
theorem survives_unmixed :
    Survives (fun t => programBytes t = t.length) fun f => Unmixed (f.dropped ++ f.cacheLines) where
  marker h := h
  discard _ h := h
  clear _ := rfl
  cache {f buf} lim rows hbuf h := by
    have hflat := cacheOutput_flatten lim rows f buf
    unfold Unmixed at h ⊢
    rw [List.flatten_append] at h ⊢
    rw [hflat, programBytes_append, List.length_append, h, hbuf]
  newLine _ _ h := h
  queue _ h := h
  warned h := (Unmixed.append.mp h).2
  lines := by
    rintro f left ⟨sent, hsent⟩ h
    obtain ⟨hdropped, hlines⟩ := Unmixed.append.mp h
    rw [← hsent] at hlines
    exact Unmixed.append.mpr ⟨hdropped, (Unmixed.append.mp hlines).2⟩
  pending h := h

theorem Sys.cachesOutput_iff {s : Sys} :
    s.cachesOutput = true ↔ Unmixed (s.f.dropped ++ s.f.cacheLines) := by
  rw [Sys.cachesOutput, decide_eq_true_eq, Unmixed.append]

theorem cachesOutput_next {cfg : Config} {s t : Sys} {a : Act} (h : s.cachesOutput = true)
    (hcaches : s.cachesProgram a = true) (hstep : next cfg s a = some t) :
    t.cachesOutput = true := by
  rw [Sys.cachesOutput_iff] at h ⊢
  cases a with
  | owner ok =>
    by_cases hpc : s.pc = .endLoop
    · rcases ownerStep_endLoop hpc hstep with rfl | rfl <;> exact h
    · refine survives_unmixed.ownerStep h (fun u hu => ?_) (fun hend => absurd hend hpc) hstep
      have hall : s.caching.all (fun t => decide (programBytes t = t.length)) = true := hcaches
      rw [Option.mem_def.mp hu] at hall
      exact of_decide_eq_true hall
  | wake failed =>
    obtain ⟨pc, rfl, -, -⟩ := wakeOwner_goto hstep
    exact h
  | op ok =>
    simp only [Output.next, opStep] at hstep
    repeat' split at hstep
    all_goals cases hstep
    all_goals exact h
  | _ =>
    simp only [Output.next] at hstep
    repeat' split at hstep
    all_goals cases hstep
    all_goals exact h

/-- Whatever is stored as a marker is one. -/
def Sys.Markers (s : Sys) : Prop :=
  ∀ m, s.f.discardMarker = some m ∨ s.op.marker = some m → programBytes m = 0

theorem Sys.Markers.next {cfg : Config} {s t : Sys} {a : Act} (h : s.Markers)
    (hstep : next cfg s a = some t) : t.Markers := by
  intro m hm
  cases a with
  | owner ok =>
    have henv := ownerStep_env hstep
    rw [henv.op] at hm
    rcases henv.marker with hsame | ⟨hnone, -⟩
    · rw [hsame] at hm
      exact h m hm
    · rw [hnone] at hm
      exact h m (.inr (hm.resolve_left (by simp)))
  | wake failed =>
    obtain ⟨pc, rfl, -, -⟩ := wakeOwner_goto hstep
    exact h m hm
  | op ok =>
    simp only [Output.next, opStep] at hstep
    cases hop : s.op with
    | resizeStore size redraw marker =>
      -- the marker of the request becomes the pending one
      rw [Sys.Markers, hop] at h
      simp only [hop] at hstep
      split at hstep
      · cases hstep
        exact h m (.inl (hm.resolve_right (by simp [AttachOp.marker])))
      · split at hstep <;> cases hstep
        · exact h m (.inr (hm.resolve_right (by simp [AttachOp.marker])))
        · exact h m (.inl (hm.resolve_right (by simp [AttachOp.marker])))
    | free => simp [hop] at hstep
    | _ =>
      simp only [hop] at hstep
      repeat' split at hstep
      all_goals cases hstep
      all_goals
        refine h m (.inl (hm.resolve_right ?_))
        simp [AttachOp.marker]
  | resize c size redraw marker =>
    simp only [Output.next] at hstep
    split at hstep <;> cases hstep
    rcases hm with hm | hm
    · exact h m (.inl hm)
    · obtain ⟨bytes, -, rfl⟩ := Option.map_eq_some_iff.mp hm
      exact programBytes_marked c bytes
  | detach | attach c size =>
    simp only [Output.next] at hstep
    split at hstep <;> cases hstep
    exact h m (.inl (hm.resolve_right (by simp [AttachOp.marker])))
  | _ =>
    simp only [Output.next] at hstep
    repeat' split at hstep
    all_goals cases hstep
    all_goals exact h m hm

/-! ## The invariant -/

/-- The books: what the program wrote is accounted for, reported or filtered. -/
structure Booked (s : Sys) (filtered : Nat) : Prop where
  flowing : Flowing Unmixed s
  caches : s.cachesOutput = true
  markers : s.Markers
  books : s.input.length = programBytes (s.accounted Flushed.source) + s.reported + filtered

theorem Booked.unmixed {s : Sys} {n : Nat} (h : Booked s n) :
    Unmixed s.f.dropped ∧ Unmixed s.f.cacheLines :=
  of_decide_eq_true h.caches

/-- What `clearOutput` drops is what it reports, if it reports at all. -/
theorem Booked.clear_reported {s : Sys} {n : Nat} (h : Booked s n)
    (hserver : (s.server.isSome || (clearReport s.f).isNone) = true) :
    s.clear.reported =
      s.reported + programBytes s.f.dropped.flatten + programBytes s.f.cacheLines.flatten := by
  obtain ⟨hdropped, hcache⟩ := h.unmixed
  rw [hdropped, hcache]
  unfold Sys.reported Sys.clear
  cases hreport : clearReport s.f with
  | none =>
    -- nothing was dropped and nothing is cached
    have hzero : s.f.discardLines + s.f.cacheLines.length = 0 := by
      unfold clearReport at hreport
      dsimp only at hreport
      split at hreport
      · exact absurd hreport (by simp)
      · omega
    rw [h.flowing.cache.lines] at hzero
    have hd : s.f.dropped = [] := List.length_eq_zero_iff.mp (by omega)
    have hc : s.f.cacheLines = [] := List.length_eq_zero_iff.mp (by omega)
    cases s.server <;> simp [hd, hc]
  | some r =>
    obtain ⟨c, hc⟩ := Option.isSome_iff_exists.mp (by simpa [hreport] using hserver)
    have hr : r.2 = s.f.dropped.flatten.length + s.f.cacheLines.flatten.length := by
      unfold clearReport at hreport
      dsimp only at hreport
      split at hreport
      · cases hreport
        rw [h.flowing.cache.bytes, List.length_flatten (L := s.f.cacheLines)]
      · exact absurd hreport (by simp)
    simp [hc, hr, Nat.add_assoc]

/-- The line a flush passes over is one of the program's. -/
theorem Booked.passed {s : Sys} {n : Nat} (h : Booked s n) (a : Act) :
    programBytes (s.passedBy a) = (s.passedBy a).length := by
  unfold Sys.passedBy Sys.passedOver
  repeat' split
  all_goals first | rfl | skip
  rename_i hline _
  exact h.unmixed.2.mem (List.mem_of_getElem? hline)

/-- **The step lemma.** Each of the six things a step can do keeps the books. -/
theorem Booked.next {cfg : Config} {s t : Sys} {n : Nat} {a : Act} (h : Booked s n)
    (hok : accountable s a = true) (hstep : next cfg s a = some t) :
    Booked t (n + (s.passedBy a).length) := by
  obtain ⟨⟨hsound, hcan⟩, hcaches⟩ : (a.sound = true ∧ s.canReport a = true) ∧
      s.cachesProgram a = true := by
    simpa only [accountable, Bool.and_eq_true] using hok
  obtain ⟨hflowing, hflow⟩ := h.flowing.next (v := Flushed.source) h.unmixed.1 hsound hstep
  refine ⟨hflowing, cachesOutput_next h.caches hcaches hstep, h.markers.next hstep, ?_⟩
  have hbooks := h.books
  have hpassed := h.passed a
  have hreported : (s.reports.map fun r => r.2.2).sum = s.reported := rfl
  generalize s.passedBy a = line at hflow hpassed ⊢
  generalize s.sentBy a = sent at hflow
  cases hflow with
  | keep hinput hreports hnew =>
    rw [hinput, hnew, Sys.reported, hreports]
    exact hbooks
  | read bytes hinput hreports hnew =>
    have hplain : (plain bytes).length = bytes.length := by simp [plain]
    rw [hinput, hnew, Sys.reported, hreports, hreported]
    simp only [List.length_append, programBytes_append, programBytes_plain, List.length_nil]
    omega
  | send hinput hreports _ hold hnew =>
    rw [hinput, hnew, ← hold, Sys.reported, hreports]
    exact hbooks
  | skip hinput hreports _ hempty hold hnew =>
    rw [hinput, hnew, Sys.reported, hreports, hreported]
    rw [hold] at hbooks
    simp only [programBytes_append] at hbooks ⊢
    omega
  | mark hinput hreports hmarker hold hnew =>
    have hzero := h.markers _ (.inl hmarker)
    rw [hinput, hnew, Sys.reported, hreports, hreported]
    rw [hold] at hbooks
    simp only [programBytes_append, List.length_nil] at hbooks ⊢
    omega
  | clear howner hclears hinput hreports hold hnew =>
    subst howner
    have hclear := h.clear_reported (by simpa [Sys.canReport, hclears] using hcan)
    rw [Sys.reported] at hclear
    rw [hinput, hnew, Sys.reported, hreports, hclear]
    rw [hold] at hbooks
    simp only [programBytes_append, List.length_nil] at hbooks ⊢
    omega

theorem booked_start (cfg : Config) : Booked (start cfg) 0 where
  flowing := flowing_start cfg
  caches := by simp [Sys.cachesOutput, start, Unmixed]
  markers := by simp [Sys.Markers, start, AttachOp.marker]
  books := rfl

theorem booked_reachable {cfg : Config} {s : Sys × Nat}
    (h : (audit cfg).ReachableVia (fun s a => accountable s.1 a = true) s) :
    Booked s.1 s.2 := by
  induction h with
  | init h0 =>
    obtain rfl : _ = _ := h0
    exact booked_start cfg
  | step _ hok hn ih =>
    obtain ⟨t, hstep, rfl⟩ := Option.map_eq_some_iff.mp hn
    exact ih.next hok hstep

/-! ## The account of a run -/

/-- **Discard accounting.** With a server to report to and no marker in the
cache, the bytes read from the program are at any time those given to the
writer, those the filter took with a whole line, those cached and in hand, and
those dropped. The dropped ones are in a warning line, in a `discard` message,
or in the counter that is reported next, each once; the warnings give their
exact number. -/
theorem discards_accounted (cfg : Config) {s : Sys × Nat}
    (h : (audit cfg).ReachableVia (fun s a => accountable s.1 a = true) s) :
    s.1.input.length =
        (s.1.handed.map Buf.given).sum + s.2 +
        (s.1.pendingLines.flatten.length + programBytes s.1.inHand) +
        ((s.1.handed.map Buf.warned).sum + s.1.reported + s.1.f.discardBytes) ∧
      ∀ b ∈ s.1.handed, b.Exact := by
  have hinv := booked_reachable h
  have hgood : ∀ b ∈ s.1.handed, b.Exact ∧ b.Runs Unmixed := by
    intro b hb
    rcases List.mem_append.mp hb with hb | hb
    · exact hinv.flowing.sent b hb
    · have hb' := hinv.flowing.bufs b (List.mem_append_left _ hb)
      exact ⟨hb'.exact, hb'.runs⟩
  refine ⟨?_, fun b hb => (hgood b hb).1⟩
  have hbooks := hinv.books
  have hhanded := programBytes_sources fun b hb => (hgood b hb).2
  have hdropped : programBytes s.1.f.dropped.flatten = s.1.f.discardBytes :=
    hinv.unmixed.1.trans hinv.flowing.cache.bytes.symm
  have hpending : programBytes s.1.pendingLines.flatten = s.1.pendingLines.flatten.length := by
    obtain ⟨sent, hsent⟩ := List.drop_suffix s.1.pc.flushed s.1.f.cacheLines
    have hall := hinv.unmixed.2
    rw [← hsent] at hall
    exact (Unmixed.append.mp hall).2
  have hsplit : programBytes (s.1.accounted Flushed.source) =
      programBytes (s.1.handed.flatMap Buf.source) +
      programBytes s.1.f.dropped.flatten + programBytes s.1.pendingLines.flatten +
      programBytes s.1.inHand := by
    simp only [Sys.accounted_source, programBytes_append]
  omega

/-- A terminal with a cache of two lines. -/
def shortTerminal : Config := { lim := { maxPendingOutputLines := 2 }, pty := true }

/-- The client times out; a line is queued and the next three overflow the
cache; the client returns and the flush begins its redraw. -/
def redrawRun : List Act :=
  [Act.timeout 0, .read (ascii "a\nb\nc\nd\n") false, .begin] ++ handler 9 ++
    [Act.reconnect 0, .onReconnected] ++ handler 3

/-- The redraw succeeds and the six bytes behind the line are reported. -/
theorem discards_accounted_redraw :
    ∃ s, (audit shortTerminal).execWhile (fun s a => accountable s.1 a)
        (start shortTerminal, 0) (redrawRun ++ handler 3) = some s ∧
      s.1.pc = .idle ∧ s.1.reports = [(0, 3, 6)] ∧
      s.1.input.length =
        (s.1.handed.map Buf.given).sum + s.2 +
        (s.1.pendingLines.flatten.length + programBytes s.1.inHand) +
        ((s.1.handed.map Buf.warned).sum + s.1.reported + s.1.f.discardBytes) := by
  have hrun : ((audit shortTerminal).execWhile (fun s a => accountable s.1 a)
      (start shortTerminal, 0) (redrawRun ++ handler 3)).any
      (fun s => s.1.pc = .idle ∧ s.1.reports = [(0, 3, 6)]) = true := by
    decide
  obtain ⟨s, hs, hend⟩ := (Option.any_eq_true _ _).mp hrun
  obtain ⟨hpc, hreports⟩ := of_decide_eq_true hend
  exact ⟨s, hs, hpc, hreports, (discards_accounted shortTerminal
    (.execWhile (fun _ _ h => h) (.init rfl) hs)).1⟩

/-- A detach in the middle of the redraw: `clearOutput` finds no server, and of
eight bytes read only the two that went out are accounted for. -/
theorem detached_redraw_unreported :
    ∃ s, (audit shortTerminal).ReachableVia (fun _ a => a.sound = true) s ∧
      s.1.pc = .idle ∧ s.1.cachesOutput = true ∧ s.1.reports = [] ∧
      s.1.input.length = 8 ∧
      (s.1.handed.map Buf.given).sum + s.2 +
        (s.1.pendingLines.flatten.length + programBytes s.1.inHand) +
        ((s.1.handed.map Buf.warned).sum + s.1.reported + s.1.f.discardBytes) = 2 := by
  have hrun : ((audit shortTerminal).execWhile (fun _ a => a.sound) (start shortTerminal, 0)
      (redrawRun ++ [Act.detach, .op true, .op true, .op true] ++
        handler 3)).any
      (fun s => s.1.pc = .idle ∧ s.1.cachesOutput = true ∧ s.1.reports = [] ∧
        s.1.input.length = 8 ∧
        (s.1.handed.map Buf.given).sum + s.2 +
          (s.1.pendingLines.flatten.length + programBytes s.1.inHand) +
          ((s.1.handed.map Buf.warned).sum + s.1.reported + s.1.f.discardBytes) = 2) = true := by
    decide
  obtain ⟨s, hs, hend⟩ := (Option.any_eq_true _ _).mp hrun
  exact ⟨s, .execWhile (fun _ _ h => h) (.init rfl) hs, of_decide_eq_true hend⟩

end Tsshd.Output

import Tsshd.Output.Tmux

/-!
# The line cache

What `cacheOutput` keeps: no byte is lost or moved (`cacheOutput_flatten`), a
cached line is non-empty and has an LF at most at its end (`LineShape`), and
the counters agree with the run of dropped lines they stand for (`CacheInv`).
The shape of the lines is what later makes it safe to pull a flushed line or a
warning back out of the queue and to split the buffer behind its first LF:
neither has an LF inside (`filterLine_onlyAtEnd`, `flushWarning_onlyAtEnd`).
-/

namespace Tsshd.Output

/-- A cached line: non-empty, with an LF at most at its end. -/
structure LineShape (l : Text) : Prop where
  ne_nil : l ≠ []
  lf : OnlyAtEnd Cell.isLF l

/-! ## Splitting -/

theorem nextLine_append (buf : Text) : (nextLine buf).1 ++ (nextLine buf).2 = buf := by
  unfold nextLine
  split
  · exact cutAfter_append ‹_›
  · split
    · exact cutAfter_append ‹_›
    · simp

theorem nextLine_shape {buf : Text} (h : buf ≠ []) : LineShape (nextLine buf).1 := by
  unfold nextLine
  split
  · exact ⟨cutAfter_ne_nil ‹_›, cutAfter_onlyAtEnd ‹_›⟩
  · rename_i hlf
    have hfree := cutAfter_eq_none.mp hlf
    split
    · rename_i line rest hcut
      refine ⟨cutAfter_ne_nil hcut, .of_forall fun x hx => hfree x ?_⟩
      rw [← cutAfter_append hcut]
      exact List.mem_append_left _ hx
    · exact ⟨h, .of_forall hfree⟩

theorem nextLine_snd_length {buf : Text} (h : buf ≠ []) :
    (nextLine buf).2.length < buf.length := by
  have happ := congrArg List.length (nextLine_append buf)
  have hpos := List.length_pos_iff.mpr (nextLine_shape h).ne_nil
  rw [List.length_append] at happ
  omega

theorem appendLine_flatten (lines : List Text) (line : Text) :
    (appendLine lines line).flatten = lines.flatten ++ line := by
  unfold appendLine
  split
  · rename_i h
    rw [List.getLast?_eq_none_iff.mp h]
    simp
  · rename_i last h
    obtain ⟨init, rfl⟩ := List.getLast?_eq_some_iff.mp h
    split <;> simp

theorem appendLine_ne_nil (lines : List Text) (line : Text) : appendLine lines line ≠ [] := by
  unfold appendLine
  split
  · simp
  · split <;> simp

/-- A line joins only a last line without LF, so the shape is kept. -/
theorem appendLine_shape {lines : List Text} {line : Text}
    (hlines : ∀ l ∈ lines, LineShape l) (hline : LineShape line) :
    ∀ l ∈ appendLine lines line, LineShape l := by
  unfold appendLine
  split
  · intro l hl
    rw [List.mem_singleton.mp hl]
    exact hline
  · rename_i last h
    obtain ⟨init, rfl⟩ := List.getLast?_eq_some_iff.mp h
    have hinit : ∀ l ∈ init, LineShape l := fun l hl => hlines l (List.mem_append_left _ hl)
    have hlast : LineShape last := hlines last (by simp)
    split
    · rename_i hj
      intro l hl
      rw [List.dropLast_concat] at hl
      rcases List.mem_append.mp hl with hl | hl
      · exact hinit l hl
      · rw [List.mem_singleton.mp hl]
        refine ⟨by simp [hline.ne_nil], .append ?_ hline.lf⟩
        rcases hlast.lf.cases with hfree | ⟨pre, b, rfl, hb, _⟩
        · exact hfree
        · -- a last line that ends with LF does not join
          cases hh : line.head? <;> simp [joins, hh, hb] at hj
    · intro l hl
      rcases List.mem_append.mp hl with hl | hl
      · exact hlines l hl
      · rw [List.mem_singleton.mp hl]
        exact hline

theorem cacheLoop_flatten {fuel : Nat} {buf : Text} (hf : buf.length ≤ fuel)
    (lines : List Text) : (cacheLoop fuel lines buf).flatten = lines.flatten ++ buf := by
  induction fuel generalizing lines buf with
  | zero =>
    have : buf = [] := List.length_eq_zero_iff.mp (by omega)
    simp [cacheLoop, this]
  | succ n ih =>
    unfold cacheLoop
    by_cases hb : buf = []
    · simp [hb]
    · have hlen := nextLine_snd_length hb
      rw [if_neg (by simpa using hb), ih (by omega), appendLine_flatten, List.append_assoc,
        nextLine_append]

theorem cacheLoop_shape {lines : List Text} (hlines : ∀ l ∈ lines, LineShape l) (fuel : Nat)
    (buf : Text) : ∀ l ∈ cacheLoop fuel lines buf, LineShape l := by
  induction fuel generalizing lines buf with
  | zero => simpa [cacheLoop] using hlines
  | succ n ih =>
    unfold cacheLoop
    by_cases hb : buf = []
    · simpa [hb] using hlines
    · rw [if_neg (by simpa using hb)]
      exact ih (appendLine_shape hlines (nextLine_shape hb)) _

theorem cacheLoop_ne_nil {lines : List Text} (hlines : lines ≠ []) (fuel : Nat) (buf : Text) :
    cacheLoop fuel lines buf ≠ [] := by
  induction fuel generalizing lines buf with
  | zero => simpa [cacheLoop] using hlines
  | succ n ih =>
    unfold cacheLoop
    split
    · exact hlines
    · exact ih (appendLine_ne_nil _ _) _

/-! ## Trimming -/

/-- What trimming does to the cache: it moves some lines, never all, from the
front of the cache to the dropped run and counts them. -/
theorem trimCache_spec (lim : Limits) (rows : Int) (f : Forwarder) :
    ∃ d, (d = 0 ∨ d < f.cacheLines.length) ∧
      (trimCache lim rows f).cacheLines = f.cacheLines.drop d ∧
      (trimCache lim rows f).dropped = f.dropped ++ f.cacheLines.take d ∧
      (trimCache lim rows f).discardLines = f.discardLines + d ∧
      (trimCache lim rows f).discardBytes =
        f.discardBytes + (f.cacheLines.take d).flatten.length := by
  by_cases h : lim.maxLines rows < f.cacheLines.length
  · refine ⟨f.cacheLines.length - lim.maxLines rows, .inr ?_, ?_⟩
    · have := lim.maxLines_pos rows
      omega
    · simp [trimCache, h, List.length_flatten]
  · exact ⟨0, .inl rfl, by simp [trimCache, h]⟩

section Frame

variable (lim : Limits) (rows : Int) (f : Forwarder) (buf : Text)

@[simp] theorem trimCache_writeBufCh : (trimCache lim rows f).writeBufCh = f.writeBufCh := by
  unfold trimCache; dsimp only; split <;> rfl

@[simp] theorem trimCache_returned : (trimCache lim rows f).returned = f.returned := by
  unfold trimCache; dsimp only; split <;> rfl

@[simp] theorem trimCache_writeError : (trimCache lim rows f).writeError = f.writeError := by
  unfold trimCache; dsimp only; split <;> rfl

@[simp] theorem trimCache_processing : (trimCache lim rows f).processing = f.processing := by
  unfold trimCache; dsimp only; split <;> rfl

@[simp] theorem trimCache_discardOutput :
    (trimCache lim rows f).discardOutput = f.discardOutput := by
  unfold trimCache; dsimp only; split <;> rfl

@[simp] theorem trimCache_discardMarker :
    (trimCache lim rows f).discardMarker = f.discardMarker := by
  unfold trimCache; dsimp only; split <;> rfl

@[simp] theorem trimCache_reconnectPending :
    (trimCache lim rows f).reconnectPending = f.reconnectPending := by
  unfold trimCache; dsimp only; split <;> rfl

@[simp] theorem trimCache_noNewLineCount :
    (trimCache lim rows f).noNewLineCount = f.noNewLineCount := by
  unfold trimCache; dsimp only; split <;> rfl

@[simp] theorem cacheOutput_noNewLineCount :
    (cacheOutput lim rows f buf).noNewLineCount = f.noNewLineCount := by simp [cacheOutput]

@[simp] theorem cacheOutput_reconnectPending :
    (cacheOutput lim rows f buf).reconnectPending = f.reconnectPending := by simp [cacheOutput]

@[simp] theorem cacheOutput_writeBufCh :
    (cacheOutput lim rows f buf).writeBufCh = f.writeBufCh := by simp [cacheOutput]

@[simp] theorem cacheOutput_returned : (cacheOutput lim rows f buf).returned = f.returned := by
  simp [cacheOutput]

@[simp] theorem cacheOutput_writeError :
    (cacheOutput lim rows f buf).writeError = f.writeError := by simp [cacheOutput]

@[simp] theorem cacheOutput_processing :
    (cacheOutput lim rows f buf).processing = f.processing := by simp [cacheOutput]

@[simp] theorem cacheOutput_discardOutput :
    (cacheOutput lim rows f buf).discardOutput = f.discardOutput := by simp [cacheOutput]

@[simp] theorem cacheOutput_discardMarker :
    (cacheOutput lim rows f buf).discardMarker = f.discardMarker := by simp [cacheOutput]

end Frame

/-- The cache takes the buffer in at its end: dropped run and cache together
grow by exactly its bytes. -/
theorem cacheOutput_flatten (lim : Limits) (rows : Int) (f : Forwarder) (buf : Text) :
    (cacheOutput lim rows f buf).dropped.flatten ++
      (cacheOutput lim rows f buf).cacheLines.flatten =
        f.dropped.flatten ++ f.cacheLines.flatten ++ buf := by
  obtain ⟨d, _, hlines, hdrop, _⟩ := trimCache_spec lim rows
    { f with cacheLines := cacheLoop buf.length f.cacheLines buf }
  have hsplit := congrArg List.flatten
    (List.take_append_drop d (cacheLoop buf.length f.cacheLines buf))
  rw [List.flatten_append] at hsplit
  rw [cacheOutput, hlines, hdrop, List.flatten_append, List.append_assoc, hsplit,
    cacheLoop_flatten (Nat.le_refl _), List.append_assoc]

/-- A cache that has or gets something is not emptied: trimming leaves a line. -/
theorem cacheOutput_ne_nil (lim : Limits) (rows : Int) {f : Forwarder} {buf : Text}
    (h : f.cacheLines ≠ [] ∨ buf ≠ []) : (cacheOutput lim rows f buf).cacheLines ≠ [] := by
  have hloop : cacheLoop buf.length f.cacheLines buf ≠ [] := by
    rcases h with hlines | hbuf
    · exact cacheLoop_ne_nil hlines _ _
    · intro hnil
      have hflat := cacheLoop_flatten (Nat.le_refl buf.length) f.cacheLines
      rw [hnil, List.flatten_nil] at hflat
      exact hbuf (List.append_eq_nil_iff.mp hflat.symm).2
  obtain ⟨d, hd, hlines, -⟩ := trimCache_spec lim rows
    { f with cacheLines := cacheLoop buf.length f.cacheLines buf }
  rw [cacheOutput, hlines]
  rcases hd with rfl | hd
  · exact hloop
  · exact fun hnil => absurd (List.drop_eq_nil_iff.mp hnil) (Nat.not_le_of_lt hd)

/-! ## The cache invariant -/

structure CacheInv (f : Forwarder) : Prop where
  shaped : ∀ l ∈ f.cacheLines, LineShape l
  droppedShaped : ∀ l ∈ f.dropped, LineShape l
  lines : f.discardLines = f.dropped.length
  bytes : f.discardBytes = f.dropped.flatten.length
  /-- Lines are dropped only in front of lines that stay. -/
  kept : f.cacheLines = [] → f.dropped = []
  tmux : ∀ x ∈ f.tmuxOutputPrefix, x.isLF = false
  pane : PaneHead f.tmuxOutputPrefix

/-- A pane prefix is cut off in front of the end of a line, so it has no LF. -/
theorem extractTmuxOutputPrefix_lf {lines : List Text} (h : ∀ l ∈ lines, LineShape l)
    (maxPending count : Nat) :
    ∀ x ∈ extractTmuxOutputPrefix maxPending count lines, x.isLF = false := by
  by_cases hfound : extractTmuxOutputPrefix maxPending count lines = []
  · rw [hfound]
    exact List.forall_mem_nil _
  · obtain ⟨line, hline, pane, htaken, heq⟩ := extractTmuxOutputPrefix_taken hfound
    have hhead : ∀ y ∈ plain (ascii "%output "), y.isLF = false := by decide
    rw [heq]
    intro x hx
    rcases List.mem_append.mp hx with hx | hx
    · exact hhead x hx
    · rcases ((h line hline).lf.sublist htaken.sublist).cases with hfree | ⟨init, b, hpane, hb, _⟩
      · exact hfree x hx
      -- the last byte of the pane is a blank
      · obtain ⟨_, _, rest, hcut⟩ := htaken
        obtain ⟨_, init', b', hpane', hb', _⟩ := cutAfter_eq_some hcut
        have hlast : b = b' := by
          have hsame := hpane.symm.trans hpane'
          exact List.singleton_inj.mp (List.append_inj' hsame rfl).2
        simp only [Cell.isSpace, Cell.isLF, beq_iff_eq] at hb hb'
        rw [hlast, hb'] at hb
        exact absurd hb (by decide)

theorem CacheInv.cacheOutput {f : Forwarder} (h : CacheInv f) (lim : Limits) (rows : Int)
    (buf : Text) : CacheInv (cacheOutput lim rows f buf) := by
  have hshape := cacheLoop_shape h.shaped buf.length buf
  obtain ⟨d, hd, hlines, hdrop, hcount, hbytes⟩ := trimCache_spec lim rows
    { f with cacheLines := cacheLoop buf.length f.cacheLines buf }
  refine ⟨?_, ?_, ?_, ?_, ?_, ?_, ?_⟩
  · intro l hl
    rw [Output.cacheOutput, hlines] at hl
    exact hshape l (List.mem_of_mem_drop hl)
  · intro l hl
    rw [Output.cacheOutput, hdrop] at hl
    exact (List.mem_append.mp hl).elim (h.droppedShaped l) fun hl =>
      hshape l (List.mem_of_mem_take hl)
  · rw [Output.cacheOutput, hcount, hdrop, List.length_append, List.length_take, ← h.lines]
    rcases hd with rfl | hd
    · simp
    · dsimp only at hd ⊢
      omega
  · rw [Output.cacheOutput, hbytes, hdrop, List.flatten_append, List.length_append, ← h.bytes]
  · intro hnil
    rw [Output.cacheOutput, hlines] at hnil
    rcases hd with rfl | hd
    · have hloop : cacheLoop buf.length f.cacheLines buf = [] := by simpa using hnil
      have hcache : f.cacheLines = [] := by
        by_contra hne
        exact cacheLoop_ne_nil hne _ _ hloop
      rw [Output.cacheOutput, hdrop]
      simpa using h.kept hcache
    · have := congrArg List.length hnil
      simp only [List.length_drop, List.length_nil] at this
      dsimp only at hd
      omega
  · rw [Output.cacheOutput]
    unfold trimCache
    dsimp only
    split
    · dsimp only
      split
      · exact extractTmuxOutputPrefix_lf hshape _ _
      · exact h.tmux
    · exact h.tmux
  · rw [Output.cacheOutput]
    unfold trimCache
    dsimp only
    split
    · dsimp only
      split
      · exact paneHead_extract _ _ _
      · exact h.pane
    · exact h.pane

theorem CacheInv.clearOutput {f : Forwarder} (h : CacheInv f) : CacheInv (clearOutput f) :=
  ⟨by simp [Output.clearOutput], by simp [Output.clearOutput], rfl, rfl, fun _ => rfl, h.tmux,
    h.pane⟩

/-! ## Lines and warnings on the queue -/

theorem filterLine_onlyAtEnd {l : Text} (h : OnlyAtEnd Cell.isLF l) :
    OnlyAtEnd Cell.isLF (filterLine l) := h.sublist (eraseAll_sublist _ _ _)

theorem isLF_plain {bytes : List UInt8} (h : ∀ b ∈ bytes, b ≠ 10) :
    ∀ x ∈ plain bytes, x.isLF = false := by
  intro x hx
  obtain ⟨b, hb, rfl⟩ := List.mem_map.mp hx
  simpa [Cell.isLF] using h b hb

/-- For a fixed text: evaluated as a Boolean, it is fast. -/
theorem ne_lf_of_all {bytes : List UInt8} (h : bytes.all (fun b => b != 10) = true) :
    ∀ b ∈ bytes, b ≠ 10 := by
  intro b hb
  simpa using List.all_eq_true.mp h b hb

private theorem decimal_ne_lf (n : Nat) : ∀ x ∈ decimal n, x ≠ 10 := by
  intro x hx
  obtain ⟨c, hc, rfl⟩ := List.mem_map.mp hx
  have hd := Nat.isDigit_of_mem_toDigits (by decide) (by decide) hc
  simp only [Char.isDigit, Bool.and_eq_true, decide_eq_true_eq] at hd
  have h1 : 48 ≤ c.toNat := hd.1
  have h2 : c.toNat ≤ 57 := hd.2
  rw [Ne, ← UInt8.toNat_inj]
  simp
  omega

private theorem warningText_onlyAtEnd {newline : Text} (h : OnlyAtEnd Cell.isLF newline)
    (lines bytes : Nat) : OnlyAtEnd Cell.isLF (warningText newline lines bytes) := by
  refine .append (isLF_plain fun b hb => ?_) h
  have h1 : ∀ x ∈ ascii "\r\x1b[0;33mWarning: tsshd discarded ", x ≠ 10 :=
    ne_lf_of_all (by decide)
  have h2 : ∀ x ∈ ascii " lines ", x ≠ 10 := ne_lf_of_all (by decide)
  have h3 : ∀ x ∈ ascii
      " bytes of output during client disconnection at this point!\x1b[0m\x1b[K", x ≠ 10 :=
    ne_lf_of_all (by decide)
  simp only [List.mem_append] at hb
  rcases hb with (((hb | hb) | hb) | hb) | hb
  · exact h1 b hb
  · exact decimal_ne_lf _ b hb
  · exact h2 b hb
  · exact decimal_ne_lf _ b hb
  · exact h3 b hb

theorem warningLine_onlyAtEnd {panePrefix newline : Text}
    (hp : ∀ x ∈ panePrefix, x.isLF = false) (hn : OnlyAtEnd Cell.isLF newline)
    (lines bytes : Nat) : OnlyAtEnd Cell.isLF (warningLine panePrefix newline lines bytes) := by
  unfold warningLine
  split
  · exact warningText_onlyAtEnd hn lines bytes
  · unfold encodeTmuxOutput
    refine .append ?_ (by unfold OnlyAtEnd; decide)
    intro x hx
    rcases List.mem_append.mp hx with hx | hx
    · exact hp x hx
    · refine isLF_plain (fun b hb => ?_) x hx
      obtain ⟨c, _, hc⟩ := List.mem_flatMap.mp hb
      rintro rfl
      exact absurd (encodeTmuxByte_printable hc).1 (by decide)

theorem warningNewline_onlyAtEnd (lines : List Text) :
    OnlyAtEnd Cell.isLF (warningNewline lines) := by
  have hcr : OnlyAtEnd Cell.isLF (plain [13]) := by unfold OnlyAtEnd; decide
  have hcrlf : OnlyAtEnd Cell.isLF (plain [13, 10]) := by unfold OnlyAtEnd; decide
  unfold warningNewline
  split
  · split
    · split
      · exact hcr
      · exact hcrlf
    · exact hcrlf
  · exact hcrlf

/-- The warning of a flush announces what was dropped. -/
theorem CacheInv.flushWarning {f : Forwarder} (h : CacheInv f) :
    Announces (flushWarning f)
      (warningText (warningNewline f.cacheLines) f.dropped.length f.dropped.flatten.length) := by
  rw [Output.flushWarning, h.lines, h.bytes]
  exact h.pane.warningLine _ _ _

theorem flushWarning_onlyAtEnd {f : Forwarder} (h : CacheInv f) :
    OnlyAtEnd Cell.isLF (flushWarning f) :=
  warningLine_onlyAtEnd h.tmux (warningNewline_onlyAtEnd _) _ _

end Tsshd.Output

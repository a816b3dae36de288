import Tsshd.Output.Balance

/-!
# Where the bytes of a marker can be

The handlers of the forwarder move bytes, filter them and write lines of their
own, but they do not make bytes of a marker. For any property `P` of cells that
the unowned ones have:

* `Sys.Inside P` — all cells of the cache, of the handler's hand and of the
  chunk just read meet `P`;
* `Sys.Inside.ownerStep` — a step of the token owner keeps that, and what it
  queues meets `P`. The queue and the pending marker may have other cells: only
  a pull-back and the swap of the marker look at them;
* `Survives C P` — the property `P` of a forwarder outlives each single change that a
  handler makes, as long as it caches only texts that meet `C`, and so
  (`Survives.ownerStep`) any of its steps.
-/

namespace Tsshd.Output

/-- All cells meet `P`. -/
def Only (P : Cell → Prop) (t : Text) : Prop := ∀ x ∈ t, P x

namespace Only

variable {P : Cell → Prop} {t u : Text}

@[simp] theorem nil : Only P [] := by simp [Only]

@[simp] theorem append : Only P (t ++ u) ↔ Only P t ∧ Only P u := by
  simp [Only, or_imp, forall_and]

theorem sublist (h : Only P u) (hs : t.Sublist u) : Only P t := fun x hx => h x (hs.subset hx)

theorem flatten {lines : List Text} : Only P lines.flatten ↔ ∀ l ∈ lines, Only P l := by
  simp only [Only, List.mem_flatten]
  exact ⟨fun h l hl x hx => h x ⟨l, hl, hx⟩, fun h x ⟨l, hl, hx⟩ => h l hl x hx⟩

theorem cut {p : Cell → Bool} {a b : Text} (h : Only P t) (hcut : cutAfter p t = some (a, b)) :
    Only P a ∧ Only P b := by
  rw [← cutAfter_append hcut] at h
  exact append.mp h

end Only

/-- The bytes a handler holds. -/
def Pc.cells : Pc → Text
  | .flushSend _ _ line | .flushTimeout _ _ line | .flushReturned _ _ line
  | .flushWait _ _ line => line.emit
  | pc => pc.holding Flushed.emit

section

variable (P : Cell → Prop)

/-- All cells of the cache and of the chunk just read meet `P`. -/
structure Sys.Stored (s : Sys) : Prop where
  cache : ∀ l ∈ s.f.cacheLines, Only P l
  tmux : Only P s.f.tmuxOutputPrefix
  main : Only P s.main.hand

/-- So do the cells in the hand of the handler. -/
structure Sys.Inside (s : Sys) : Prop extends Sys.Stored P s where
  pc : Only P s.pc.cells

/-- What a step that takes the marker or the queued buffer in hand finds there
meets `P`. -/
structure Sys.Takes (s : Sys) : Prop where
  swap : ∀ buf, s.pc = .swapMarker buf → ∀ m ∈ s.f.discardMarker, Only P m
  pull : ∀ buf remaining, s.pc = .pullBack buf remaining → ∀ b ∈ s.f.writeBufCh, Only P b.text

/-- What a step of the token owner does to the queue. -/
inductive SlotMove (s s' : Sys) : Prop
  | same (h : s'.f.writeBufCh = s.f.writeBufCh)
  | sent (b : Buf) (hfree : s.f.writeBufCh = none) (hfull : s'.f.writeBufCh = some b)
      (h : Only P b.text)
  | pulled (buf remaining : Text) (hpc : s.pc = .pullBack buf remaining)
      (h : s'.f.writeBufCh = none)

end

theorem SlotMove.only {P : Cell → Prop} {s s' : Sys} (h : SlotMove P s s')
    (hslot : ∀ b ∈ s.f.writeBufCh, Only P b.text) : ∀ b ∈ s'.f.writeBufCh, Only P b.text := by
  cases h with
  | same h => exact h ▸ hslot
  | sent b _ hfull h => simpa [hfull] using h
  | pulled _ _ _ h => simp [h]

section Steps

variable {P : Cell → Prop} (hP : ∀ x : Cell, x.owner = none → P x)

include hP

theorem Only.plain (bytes : List UInt8) : Only P (plain bytes) := by
  intro x hx
  obtain ⟨b, _, rfl⟩ := List.mem_map.mp hx
  exact hP _ rfl

/-- A pane prefix is cut out of a cached line. -/
theorem Only.extractTmuxOutputPrefix {lines : List Text} (h : ∀ l ∈ lines, Only P l)
    (maxPending count : Nat) : Only P (extractTmuxOutputPrefix maxPending count lines) := by
  by_cases hfound : Output.extractTmuxOutputPrefix maxPending count lines = []
  · rw [hfound]
    exact List.forall_mem_nil _
  · obtain ⟨line, hline, pane, htaken, heq⟩ := extractTmuxOutputPrefix_taken hfound
    rw [heq]
    exact Only.append.mpr ⟨.plain hP _, (h line hline).sublist htaken.sublist⟩

theorem Only.cacheOutput (lim : Limits) (rows : Int) {f : Forwarder} {buf : Text}
    (hcache : ∀ l ∈ f.cacheLines, Only P l) (htmux : Only P f.tmuxOutputPrefix)
    (hbuf : Only P buf) :
    (∀ l ∈ (cacheOutput lim rows f buf).cacheLines, Only P l) ∧
      Only P (cacheOutput lim rows f buf).tmuxOutputPrefix := by
  have hloop : ∀ l ∈ cacheLoop buf.length f.cacheLines buf, Only P l := by
    rw [← Only.flatten, cacheLoop_flatten (Nat.le_refl _), Only.append, Only.flatten]
    exact ⟨hcache, hbuf⟩
  constructor
  · obtain ⟨d, _, hlines, _⟩ := trimCache_spec lim rows
      { f with cacheLines := cacheLoop buf.length f.cacheLines buf }
    intro l hl
    rw [Output.cacheOutput, hlines] at hl
    exact hloop l (List.mem_of_mem_drop hl)
  · unfold Output.cacheOutput trimCache
    dsimp only
    split
    · dsimp only
      split
      · exact .extractTmuxOutputPrefix hP hloop _ _
      · exact htmux
    · exact htmux

theorem Only.flushWarning {f : Forwarder} (htmux : Only P f.tmuxOutputPrefix) :
    Only P (flushWarning f) := by
  have hnewline : Only P (warningNewline f.cacheLines) := by
    unfold warningNewline
    split
    · split
      · split <;> exact .plain hP _
      · exact .plain hP _
    · exact .plain hP _
  unfold Output.flushWarning warningLine warningText encodeTmuxOutput
  split
  · exact Only.append.mpr ⟨.plain hP _, hnewline⟩
  · exact Only.append.mpr ⟨Only.append.mpr ⟨htmux, .plain hP _⟩, .plain hP _⟩

end Steps

/-! ## The steps of the token owner -/

theorem Sys.afterEnqueue_writeBufCh (s : Sys) (cfg : Config) (after : After) (remaining : Text) :
    (s.afterEnqueue cfg after remaining).f.writeBufCh = s.f.writeBufCh := by
  cases after with
  | count => rfl
  | start => rfl
  | left t =>
    unfold Sys.afterEnqueue
    dsimp only
    split <;> simp [Sys.goto, Sys.cache]

theorem Sys.splitPulled_writeBufCh (s : Sys) (buf : Buf) (remaining : Text) :
    (s.splitPulled buf remaining).f.writeBufCh = s.f.writeBufCh := by
  unfold Sys.splitPulled
  split
  · split <;> rfl
  · rfl

namespace Sys.Stored

variable {P : Cell → Prop} {s : Sys} {pc' : Pc}

/-- A step that leaves the cache alone. -/
theorem move (h : s.Stored P) (f' : Forwarder) (hcache : f'.cacheLines = s.f.cacheLines)
    (htmux : f'.tmuxOutputPrefix = s.f.tmuxOutputPrefix) (hpc : Only P pc'.cells) :
    Inside P { s with f := f', pc := pc' } :=
  ⟨⟨by simpa [hcache] using h.cache, by simpa [htmux] using h.tmux, h.main⟩, hpc⟩

theorem goto (h : s.Stored P) (hpc : Only P pc'.cells) : (s.goto pc').Inside P :=
  h.move s.f rfl rfl hpc

theorem clear (h : s.Stored P) (hpc : Only P pc'.cells) : (s.clear.goto pc').Inside P :=
  ⟨⟨by simp [Sys.clear, Sys.goto, clearOutput], h.tmux, h.main⟩, hpc⟩

theorem cacheTo (hP : ∀ x : Cell, x.owner = none → P x) (h : s.Stored P) (cfg : Config)
    {buf : Text} (hbuf : Only P buf) (hpc : Only P pc'.cells) :
    ((s.cache cfg buf).goto pc').Inside P := by
  obtain ⟨hcache, htmux⟩ := Only.cacheOutput hP cfg.lim s.size.2 h.cache h.tmux hbuf
  exact ⟨⟨hcache, htmux, h.main⟩, hpc⟩

/-- The reader goes on without a chunk. -/
theorem endProcessing (h : s.Stored P) : Only P s.endProcessing.main.hand := by
  unfold Sys.endProcessing
  dsimp only
  split
  · exact .nil
  · exact .nil
  · exact .nil
  · exact h.main

/-- The code behind a successful enqueue. -/
theorem afterEnqueue (hP : ∀ x : Cell, x.owner = none → P x) (h : s.Stored P) (cfg : Config)
    {after : After} {remaining : Text} (hafter : Only P after.text) (hrem : Only P remaining) :
    (s.afterEnqueue cfg after remaining).Inside P := by
  cases after with
  | count => exact h.move _ rfl rfl hrem
  | start => exact h.move _ rfl rfl hrem
  | left t =>
    unfold Sys.afterEnqueue
    dsimp only
    split
    · exact h.move _ rfl rfl hrem
    · have hcached : ((s.cache cfg t).goto (.cacheRemaining remaining)).Inside P :=
        h.cacheTo hP cfg hafter hrem
      exact hcached.move _ rfl rfl hrem

theorem splitPulled (h : s.Stored P) {buf : Buf} {remaining : Text} (hbuf : Only P buf.text)
    (hrem : Only P remaining) : (s.splitPulled buf remaining).Inside P := by
  have henqueue {b : Buf} {after : After} (hb : Only P b.text) (hafter : Only P after.text) :
      Only P (Pc.enqueue b after remaining).cells :=
    Only.append.mpr ⟨Only.append.mpr ⟨hb, hafter⟩, hrem⟩
  unfold Sys.splitPulled
  split
  · split <;> exact h.goto (henqueue hbuf .nil)
  · rename_i line left hcut
    refine h.goto (henqueue ?_ (hbuf.cut hcut).2)
    rw [Buf.text_take]
    exact hbuf.sublist (List.take_sublist _ _)

end Sys.Stored

namespace Sys.Inside

variable {P : Cell → Prop} {s : Sys}

/-- A step inside `handleBuffer`. -/
theorem bufferStep (hP : ∀ x : Cell, x.owner = none → P x) {cfg : Config} {ok : Bool} {s' : Sys}
    (h : s.Inside P) (hrole : s.pc.role = .buffer) (htakes : s.Takes P)
    (hstep : ownerStep cfg ok s = some s') : s'.Inside P ∧ SlotMove P s s' := by
  have hcells := h.pc
  unfold ownerStep at hstep
  cases hpc : s.pc with
  | swapMarker buf =>
    rw [hpc] at hcells
    simp only [hpc] at hstep
    split at hstep <;> cases hstep
    · rename_i marker hm
      have hmarker := htakes.swap buf hpc marker hm
      exact ⟨⟨⟨h.cache, h.tmux, h.main⟩, Only.append.mpr ⟨hmarker, hcells⟩⟩, .same rfl⟩
    · exact ⟨h.goto hcells, .same rfl⟩
  | stopDiscard marker buf =>
    rw [hpc] at hcells
    simp only [hpc, Option.some.injEq] at hstep
    subst hstep
    exact ⟨h.move _ rfl rfl hcells, .same rfl⟩
  | clearForMarker marker buf =>
    rw [hpc] at hcells
    simp only [hpc, Option.some.injEq] at hstep
    subst hstep
    exact ⟨h.clear hcells, .same rfl⟩
  | takeDiscard buf =>
    rw [hpc] at hcells
    simp only [hpc] at hstep
    split at hstep <;> cases hstep
    · exact ⟨h.move _ rfl rfl hcells, .same rfl⟩
    · exact ⟨h.goto hcells, .same rfl⟩
  | clearForDiscard buf =>
    rw [hpc] at hcells
    simp only [hpc, Option.some.injEq] at hstep
    subst hstep
    exact ⟨h.clear hcells, .same rfl⟩
  | checkTimeout buf =>
    rw [hpc] at hcells
    simp only [hpc] at hstep
    split at hstep <;> cases hstep <;> exact ⟨h.goto hcells, .same rfl⟩
  | checkKeep buf =>
    rw [hpc] at hcells
    simp only [hpc] at hstep
    split at hstep <;> cases hstep
    · exact ⟨h.cacheTo hP cfg hcells .nil, .same (by simp [Sys.cache, Sys.goto])⟩
    · exact ⟨h.goto hcells, .same rfl⟩
  | checkCache buf =>
    rw [hpc] at hcells
    simp only [hpc] at hstep
    split at hstep <;> cases hstep
    · exact ⟨h.goto hcells, .same rfl⟩
    · exact ⟨h.cacheTo hP cfg hcells .nil, .same (by simp [Sys.cache, Sys.goto])⟩
  | splitTimeout buf =>
    rw [hpc] at hcells
    simp only [hpc] at hstep
    split at hstep <;> cases hstep
    · exact ⟨h.goto hcells, .same rfl⟩
    · exact ⟨h.goto (Only.append.mpr ⟨hcells, .nil⟩), .same rfl⟩
  | splitKeep buf =>
    rw [hpc] at hcells
    have hsend : Only P (Pc.send buf []).cells := Only.append.mpr ⟨hcells, .nil⟩
    simp only [hpc] at hstep
    split at hstep
    · cases hstep
      exact ⟨h.goto hsend, .same rfl⟩
    split at hstep
    · rename_i line remaining hcut
      cases hstep
      exact ⟨h.move _ rfl rfl (Only.append.mpr (Only.cut hcells hcut)), .same rfl⟩
    split at hstep <;> cases hstep
    · exact ⟨h.move _ rfl rfl hsend, .same rfl⟩
    · refine ⟨Stored.cacheTo hP ?_ cfg hcells .nil, .same (by simp [Sys.cache, Sys.goto])⟩
      exact ⟨h.cache, h.tmux, h.main⟩
  | send buf remaining =>
    rw [hpc] at hcells
    obtain ⟨hbuf, hrem⟩ := Only.append.mp hcells
    simp only [hpc, Sys.trySend, Option.some.injEq] at hstep
    split at hstep <;> cases hstep
    · rename_i hfree
      exact ⟨h.move _ rfl rfl hrem, .sent _ hfree rfl (by simpa [Buf.text, Buf.frontText])⟩
    · exact ⟨h.goto hcells, .same rfl⟩
  | sendTimeout buf remaining | sendKeep buf remaining =>
    rw [hpc] at hcells
    simp only [hpc] at hstep
    split at hstep <;> cases hstep <;> exact ⟨h.goto hcells, .same rfl⟩
  | pullBack buf remaining =>
    rw [hpc] at hcells
    obtain ⟨hbuf, hrem⟩ := Only.append.mp hcells
    simp only [hpc] at hstep
    split at hstep <;> cases hstep
    · rename_i b hb
      have hslot := htakes.pull buf remaining hpc b hb
      have hempty : Inside P { s with f := { s.f with writeBufCh := none } } :=
        ⟨⟨h.cache, h.tmux, h.main⟩, h.pc⟩
      refine ⟨hempty.splitPulled ?_ hrem, .pulled buf remaining hpc (splitPulled_writeBufCh _ _ _)⟩
      rw [Buf.text_append]
      exact Only.append.mpr ⟨hslot, hbuf⟩
    · exact ⟨h.splitPulled (by simpa [Buf.text, Buf.frontText]) hrem,
        .same (splitPulled_writeBufCh _ _ _)⟩
  | sendReturned buf remaining =>
    rw [hpc] at hcells
    simp only [hpc] at hstep
    split at hstep <;> cases hstep
    · exact ⟨h.goto .nil, .same rfl⟩
    · exact ⟨h.goto hcells, .same rfl⟩
  | enqueue buf after remaining =>
    rw [hpc] at hcells
    obtain ⟨hfront, hrem⟩ := Only.append.mp hcells
    obtain ⟨hbuf, hafter⟩ := Only.append.mp hfront
    simp only [hpc, Sys.trySend, Option.some.injEq] at hstep
    split at hstep <;> cases hstep
    · rename_i hfree
      refine ⟨Stored.afterEnqueue hP ?_ cfg hafter hrem,
        .sent buf hfree (afterEnqueue_writeBufCh _ _ _ _) hbuf⟩
      exact ⟨h.cache, h.tmux, h.main⟩
    · exact ⟨h.goto hcells, .same rfl⟩
  | enqueueReturned buf after remaining =>
    rw [hpc] at hcells
    simp only [hpc] at hstep
    split at hstep <;> cases hstep
    · exact ⟨h.goto .nil, .same rfl⟩
    · exact ⟨h.goto hcells, .same rfl⟩
  | cacheRemaining remaining =>
    rw [hpc] at hcells
    simp only [hpc, Option.some.injEq] at hstep
    subst hstep
    split
    · exact ⟨h.goto .nil, .same rfl⟩
    · exact ⟨h.cacheTo hP cfg hcells .nil, .same (by simp [Sys.cache, Sys.goto])⟩
  | sendReconnect buf remaining | sendWait buf remaining => simp [hpc] at hstep
  | enqueueWait buf after remaining => simp [hpc] at hstep
  | _ => simp [hpc, Pc.role] at hrole

/-- A step inside `flushOutput`. -/
theorem flushStep (hP : ∀ x : Cell, x.owner = none → P x) {cfg : Config} {ok : Bool} {s' : Sys}
    {ret : Ret} (h : s.Inside P) (hrole : s.pc.role = .flush ret)
    (hstep : ownerStep cfg ok s = some s') : s'.Inside P ∧ SlotMove P s s' := by
  have hcells := h.pc
  have hret : ∀ ret : Ret, Only P ret.pc.cells := by rintro (_ | _) <;> exact .nil
  unfold ownerStep at hstep
  cases hpc : s.pc with
  | flushBegin ret =>
    simp only [hpc] at hstep
    split at hstep
    · cases hstep
      exact ⟨h.goto (hret _), .same rfl⟩
    · split at hstep <;> cases hstep <;> exact ⟨h.goto .nil, .same rfl⟩
  | flushRedraw ret =>
    simp only [hpc] at hstep
    split at hstep
    · cases hstep
      exact ⟨h.goto .nil, .same rfl⟩
    · split at hstep <;> cases hstep <;> exact ⟨h.goto .nil, .same rfl⟩
  | redrawStore ret =>
    simp only [hpc, Option.some.injEq] at hstep
    subst hstep
    exact ⟨h.move _ rfl rfl .nil, .same rfl⟩
  | redrawResize ret =>
    simp only [hpc] at hstep
    split at hstep <;> cases hstep <;> exact ⟨h.goto .nil, .same rfl⟩
  | flushClear ret =>
    simp only [hpc, Option.some.injEq] at hstep
    subst hstep
    exact ⟨h.clear (hret _), .same rfl⟩
  | flushWarn ret =>
    simp only [hpc, Option.some.injEq] at hstep
    subst hstep
    exact ⟨h.goto (Only.flushWarning hP h.tmux), .same rfl⟩
  | flushLine ret i =>
    simp only [hpc] at hstep
    split at hstep
    · cases hstep
      exact ⟨⟨⟨by simp [Sys.goto], h.tmux, h.main⟩, hret _⟩, .same rfl⟩
    · rename_i line hline
      have hclean : Only P line := h.cache line (List.mem_of_getElem? hline)
      split at hstep <;> cases hstep
      · exact ⟨h.goto .nil, .same rfl⟩
      · exact ⟨h.goto (hclean.sublist (eraseAll_sublist _ _ _)), .same rfl⟩
  | flushSend ret i line =>
    rw [hpc] at hcells
    simp only [hpc, Sys.trySend, Option.some.injEq] at hstep
    split at hstep <;> cases hstep
    · rename_i hfree
      have hqueued : Only P (Buf.text { front := some line }) := by
        simpa [Buf.text, Buf.frontText, Pc.cells] using hcells
      cases i with
      | none => exact ⟨h.move _ rfl rfl .nil, .sent _ hfree rfl hqueued⟩
      | some i => exact ⟨h.move _ rfl rfl .nil, .sent _ hfree rfl hqueued⟩
    · exact ⟨h.goto hcells, .same rfl⟩
  | flushTimeout ret i line =>
    rw [hpc] at hcells
    simp only [hpc] at hstep
    split at hstep <;> cases hstep
    · cases i with
      | none => exact ⟨h.goto (hret _), .same rfl⟩
      | some i =>
        exact ⟨⟨⟨fun l hl => h.cache l (List.mem_of_mem_drop hl), h.tmux, h.main⟩, hret _⟩,
          .same rfl⟩
    · exact ⟨h.goto hcells, .same rfl⟩
  | flushReturned ret i line =>
    rw [hpc] at hcells
    simp only [hpc] at hstep
    split at hstep <;> cases hstep
    · exact ⟨h.goto (hret _), .same rfl⟩
    · exact ⟨h.goto hcells, .same rfl⟩
  | flushWait ret i line => simp [hpc] at hstep
  | _ => simp [hpc, Pc.role] at hrole

/-- **No bytes of a marker come from nowhere.** A step of the token owner moves
cells of the forwarder or makes unowned ones. -/
theorem ownerStep (hP : ∀ x : Cell, x.owner = none → P x) {cfg : Config} {ok : Bool} {s' : Sys}
    (h : s.Inside P) (htakes : s.Takes P)
    (hstep : ownerStep cfg ok s = some s') : s'.Inside P ∧ SlotMove P s s' := by
  cases hrole : s.pc.role with
  | buffer => exact h.bufferStep hP hrole htakes hstep
  | flush ret => exact h.flushStep hP hrole hstep
  | idle | error | finish =>
    unfold Output.ownerStep at hstep
    cases hpc : s.pc with
    | idle | errorReconnect => simp [hpc] at hstep
    | errorLoop | errorTimeout =>
      simp only [hpc] at hstep
      split at hstep <;> cases hstep <;> exact ⟨h.goto .nil, .same rfl⟩
    | endLoop =>
      simp only [hpc] at hstep
      split at hstep <;> cases hstep
      · exact ⟨h.move _ rfl rfl .nil, .same rfl⟩
      · exact ⟨⟨⟨h.cache, h.tmux, h.endProcessing⟩, .nil⟩, .same rfl⟩
    | _ => simp [hpc, Pc.role] at hrole

/-- A wait ends. -/
theorem wakeOwner {failed : Bool} {s' : Sys} (h : s.Inside P)
    (hstep : wakeOwner failed s = some s') : s'.Inside P := by
  have hcells := h.pc
  unfold Output.wakeOwner wakeOwner.reconnected at hstep
  cases hpc : s.pc with
  | sendWait buf remaining =>
    rw [hpc] at hcells
    simp only [hpc] at hstep
    split at hstep <;> cases hstep
    exact h.goto hcells
  | enqueueWait buf after remaining =>
    rw [hpc] at hcells
    simp only [hpc] at hstep
    split at hstep <;> cases hstep
    exact h.goto hcells
  | flushWait ret i line =>
    rw [hpc] at hcells
    simp only [hpc] at hstep
    split at hstep <;> cases hstep
    exact h.goto hcells
  | sendReconnect buf remaining =>
    rw [hpc] at hcells
    simp only [hpc] at hstep
    repeat' split at hstep
    all_goals cases hstep
    · exact h.goto .nil
    · exact h.goto hcells
  | errorReconnect =>
    simp only [hpc] at hstep
    repeat' split at hstep
    all_goals cases hstep
    · exact h.goto .nil
    · exact h.goto .nil
  | _ => simp [hpc] at hstep

/-- The steps of the operation that holds `attachMutex`. -/
theorem opStep {cfg : Config} {ok : Bool} {s' : Sys} (h : s.Inside P)
    (hstep : opStep cfg ok s = some s') : s'.Inside P := by
  unfold Output.opStep at hstep
  repeat' split at hstep
  all_goals cases hstep
  all_goals exact ⟨⟨h.cache, h.tmux, h.main⟩, h.pc⟩

/-- The same for every step of a run. -/
theorem next (hP : ∀ x : Cell, x.owner = none → P x) {cfg : Config} {a : Act} {s' : Sys}
    (h : s.Inside P) (htakes : ∀ ok, a = .owner ok → s.Takes P)
    (hstep : next cfg s a = some s') : s'.Inside P := by
  cases a with
  | owner ok => exact (h.ownerStep hP (htakes ok rfl) hstep).1
  | wake failed => exact h.wakeOwner hstep
  | op ok => exact h.opStep hstep
  | read bytes eof =>
    simp only [Output.next] at hstep
    split at hstep
    · split at hstep <;> cases hstep
      · exact ⟨⟨h.cache, h.tmux, by cases eof <;> exact .nil⟩, h.pc⟩
      · exact ⟨⟨h.cache, h.tmux, .plain hP bytes⟩, h.pc⟩
    · exact absurd hstep (by simp)
  | begin =>
    have hmain := h.main
    simp only [Output.next] at hstep
    split at hstep
    · exact absurd hstep (by simp)
    split at hstep
    · rename_i buf eof hm
      cases hstep
      rw [hm] at hmain
      exact ⟨⟨h.cache, h.tmux, .nil⟩, hmain⟩
    · cases hstep
      exact ⟨⟨h.cache, h.tmux, .nil⟩, .nil⟩
    · exact absurd hstep (by simp)
  | shutdown =>
    simp only [Output.next] at hstep
    repeat' split at hstep
    all_goals cases hstep
    all_goals exact ⟨⟨h.cache, h.tmux, .nil⟩, h.pc⟩
  | onReconnected =>
    simp only [Output.next] at hstep
    repeat' split at hstep
    all_goals cases hstep
    · exact ⟨⟨h.cache, h.tmux, h.main⟩, h.pc⟩
    · exact ⟨⟨h.cache, h.tmux, h.main⟩, h.pc⟩
    · exact ⟨⟨h.cache, h.tmux, h.main⟩, .nil⟩
  | _ =>
    simp only [Output.next] at hstep
    repeat' split at hstep
    all_goals cases hstep
    all_goals exact ⟨⟨h.cache, h.tmux, h.main⟩, h.pc⟩

end Sys.Inside

/-! ## What the token owner leaves alone -/

/-- What no step of the token owner touches. -/
structure Env (s s' : Sys) : Prop where
  writer : s'.writer = s.writer
  output : s'.output = s.output
  op : s'.op = s.op
  server : s'.server = s.server
  stream : s'.stream = s.stream
  closed : s'.closed = s.closed
  checkerClosed : s'.checkerClosed = s.checkerClosed
  returned : s'.f.returned = s.f.returned
  writeError : s'.f.writeError = s.f.writeError
  /-- The pending marker is only taken by its swap. -/
  marker : s'.f.discardMarker = s.f.discardMarker ∨
    s'.f.discardMarker = none ∧ ∃ buf, s.pc = .swapMarker buf

/-- Up to the end of a handler, the token and the reader stay too. -/
structure Frame (s s' : Sys) : Prop extends Env s s' where
  main : s'.main = s.main
  processing : s'.f.processing = s.f.processing

namespace Frame

variable {s s' : Sys}

theorem cache (h : Frame s s') (cfg : Config) (buf : Text) : Frame s (s'.cache cfg buf) :=
  { h with
    processing := by simpa [Sys.cache] using h.processing
    returned := by simpa [Sys.cache] using h.returned
    writeError := by simpa [Sys.cache] using h.writeError
    marker := by simpa [Sys.cache] using h.marker }

theorem goto (h : Frame s s') (pc : Pc) : Frame s (s'.goto pc) := { h with }

theorem afterEnqueue (h : Frame s s') (cfg : Config) (after : After) (remaining : Text) :
    Frame s (s'.afterEnqueue cfg after remaining) := by
  cases after with
  | count => exact { h with }
  | start => exact { h with }
  | left t =>
    unfold Sys.afterEnqueue
    dsimp only
    split
    · exact { h with }
    · exact { h.cache cfg t with }

theorem splitPulled (h : Frame s s') (buf : Buf) (remaining : Text) :
    Frame s (s'.splitPulled buf remaining) := by
  unfold Sys.splitPulled
  split
  · split <;> exact h.goto _
  · exact h.goto _

end Frame

/-- Every step of a handler up to `endProcessing`. -/
theorem ownerStep_frame {cfg : Config} {ok : Bool} {s s' : Sys} (hend : s.pc ≠ .endLoop)
    (hstep : ownerStep cfg ok s = some s') : Frame s s' := by
  have hrefl : Frame s s := ⟨⟨rfl, rfl, rfl, rfl, rfl, rfl, rfl, rfl, rfl, .inl rfl⟩, rfl, rfl⟩
  unfold ownerStep Sys.trySend at hstep
  cases hpc : s.pc <;> simp only [hpc] at hstep
  case endLoop => exact absurd hpc hend
  case swapMarker buf =>
    split at hstep <;> cases hstep
    · exact { hrefl with marker := .inr ⟨rfl, buf, hpc⟩ }
    · exact hrefl.goto _
  case checkKeep buf =>
    split at hstep <;> cases hstep
    · exact (hrefl.cache cfg buf).goto _
    · exact hrefl.goto _
  case checkCache buf =>
    split at hstep <;> cases hstep
    · exact hrefl.goto _
    · exact (hrefl.cache cfg buf).goto _
  case pullBack buf remaining =>
    split at hstep <;> cases hstep
    · refine Frame.splitPulled ?_ _ _
      exact { hrefl with }
    · exact hrefl.splitPulled _ _
  case enqueue buf after remaining =>
    cases hstep
    split
    · refine Frame.afterEnqueue ?_ cfg after remaining
      exact { hrefl with }
    · exact hrefl.goto _
  case cacheRemaining remaining =>
    cases hstep
    split
    · exact hrefl.goto _
    · exact (hrefl.cache cfg remaining).goto _
  case splitKeep buf =>
    split at hstep
    · cases hstep
      exact hrefl.goto _
    split at hstep
    · cases hstep
      exact { hrefl with }
    split at hstep <;> cases hstep
    · exact { hrefl with }
    · refine (Frame.cache ?_ cfg buf).goto _
      exact { hrefl with }
  case flushSend ret i line =>
    cases hstep
    cases i <;> split <;> exact { hrefl with }
  case flushTimeout ret i line =>
    cases i <;> split at hstep <;> cases hstep <;> exact { hrefl with }
  case send buf remaining =>
    cases hstep
    split <;> exact { hrefl with }
  -- the others set a few fields of their own
  all_goals repeat' split at hstep
  all_goals cases hstep
  all_goals exact { hrefl with }

/-- The end of a handler, or its flush for a reconnect in the meantime. -/
theorem ownerStep_endLoop {cfg : Config} {ok : Bool} {s s' : Sys} (hpc : s.pc = .endLoop)
    (hstep : ownerStep cfg ok s = some s') :
    s' = { s with f := { s.f with reconnectPending := false }, pc := .flushBegin .endProcessing } ∨
      s' = s.endProcessing := by
  simp only [ownerStep, hpc] at hstep
  split at hstep <;> cases hstep
  · exact .inl rfl
  · exact .inr rfl

theorem ownerStep_env {cfg : Config} {ok : Bool} {s s' : Sys}
    (hstep : ownerStep cfg ok s = some s') : Env s s' := by
  by_cases hpc : s.pc = .endLoop
  · rcases ownerStep_endLoop hpc hstep with rfl | rfl <;>
      exact ⟨rfl, rfl, rfl, rfl, rfl, rfl, rfl, rfl, rfl, .inl rfl⟩
  · exact (ownerStep_frame hpc hstep).toEnv

/-- A wait only moves the program counter. -/
theorem wakeOwner_goto {failed : Bool} {s s' : Sys} (hstep : wakeOwner failed s = some s') :
    ∃ pc, s' = s.goto pc ∧ s.pc ≠ .idle ∧ (pc.role = .buffer → s.pc.role = .buffer) := by
  unfold wakeOwner wakeOwner.reconnected at hstep
  repeat' split at hstep
  all_goals cases hstep
  all_goals refine ⟨_, rfl, by simp_all, fun h => ?_⟩
  all_goals simp_all [Pc.role]

/-! ## What the token owner does to the forwarder -/

/-- The text that the next step of a handler gives to `cacheOutput`. -/
def Sys.caching (s : Sys) : Option Text :=
  match s.pc with
  | .checkKeep buf => if s.isKeepPendingOutput then none else some buf
  | .checkCache buf => if s.f.cacheLines.isEmpty then none else some buf
  | .splitKeep buf =>
    if s.isKeepPendingOutput || (cutAfter Cell.isLF buf).isSome || s.f.noNewLineCount < 3 then
      none
    else some buf
  | .enqueue _ (.left t) _ => if s.f.writeBufCh.isSome || t.isEmpty then none else some t
  | .cacheRemaining remaining => if remaining.isEmpty then none else some remaining
  | _ => none

/-- `P` survives everything that a handler does to the forwarder before it gives
the token back, when what it caches meets `C`. -/
structure Survives (C : Text → Prop) (P : Forwarder → Prop) : Prop where
  marker : ∀ {f}, P f → P { f with discardMarker := none }
  discard : ∀ {f} (on : Bool), P f → P { f with discardOutput := on }
  clear : ∀ {f}, P f → P (clearOutput f)
  cache : ∀ {f buf} (lim : Limits) (rows : Int), C buf → P f → P (cacheOutput lim rows f buf)
  newLine : ∀ {f} (found : Bool) (count : Nat), P f →
    P { f with chHasNewLine := found, noNewLineCount := count }
  queue : ∀ {f} (slot : Option Buf), P f → P { f with writeBufCh := slot }
  warned : ∀ {f}, P f → P { f with discardLines := 0, discardBytes := 0, dropped := [] }
  lines : ∀ {f left}, left <:+ f.cacheLines → P f → P { f with cacheLines := left }
  pending : ∀ {f}, P f → P { f with reconnectPending := false }

namespace Survives

variable {C : Text → Prop} {P : Forwarder → Prop} {cfg : Config} {s : Sys}

theorem afterEnqueue (hP : Survives C P) (h : P s.f) {after : After} (remaining : Text)
    (hcache : ∀ t, after = .left t → t.isEmpty = false → C t) :
    P (s.afterEnqueue cfg after remaining).f := by
  cases after with
  | count => exact hP.newLine s.f.chHasNewLine (s.f.noNewLineCount + 1) h
  | start => exact hP.newLine true s.f.noNewLineCount h
  | left t =>
    unfold Sys.afterEnqueue
    dsimp only
    split
    · exact hP.newLine true _ h
    · rename_i hfull
      have ht := hcache t rfl (Bool.eq_false_iff.mpr hfull)
      exact hP.newLine true _ (hP.cache cfg.lim s.size.2 ht h)

theorem splitPulled (h : P s.f) (buf : Buf) (remaining : Text) :
    P (s.splitPulled buf remaining).f := by
  unfold Sys.splitPulled
  split
  · split <;> exact h
  · exact h

/-- Up to the end of a handler. -/
theorem ownerStep (hP : Survives C P) {ok : Bool} {s' : Sys} (h : P s.f)
    (hcache : ∀ t ∈ s.caching, C t)
    (hend : s.pc = .endLoop → (s.f.reconnectPending && !s.f.returned) = true)
    (hstep : ownerStep cfg ok s = some s') : P s'.f := by
  unfold Output.ownerStep Sys.trySend at hstep
  unfold Sys.caching at hcache
  cases hpc : s.pc <;> simp only [hpc] at hstep hcache
  case endLoop =>
    rw [if_pos (hend hpc)] at hstep
    cases hstep
    exact hP.pending h
  case swapMarker buf =>
    split at hstep <;> cases hstep
    · exact hP.marker h
    · exact h
  case stopDiscard marker buf =>
    cases hstep
    exact hP.discard false h
  case clearForMarker marker buf =>
    cases hstep
    exact hP.clear h
  case takeDiscard buf =>
    split at hstep <;> cases hstep
    · exact hP.discard false h
    · exact h
  case clearForDiscard buf =>
    cases hstep
    exact hP.clear h
  case checkKeep buf =>
    split at hstep <;> cases hstep
    · rename_i hkeep
      rw [Bool.not_eq_true'] at hkeep
      exact hP.cache cfg.lim s.size.2 (hcache buf (by simp [hkeep])) h
    · exact h
  case checkCache buf =>
    split at hstep <;> cases hstep
    · exact h
    · rename_i hlines
      exact hP.cache cfg.lim s.size.2 (hcache buf (by simp [hlines])) h
  case splitKeep buf =>
    split at hstep
    · cases hstep
      exact h
    split at hstep
    · cases hstep
      exact hP.newLine true _ h
    split at hstep <;> cases hstep
    · exact hP.newLine _ (s.f.noNewLineCount + 1) h
    · rename_i hkeep _ hcut hcount
      have hbuf := hcache buf (by simp [hkeep, hcut, hcount])
      exact hP.cache cfg.lim s.size.2 hbuf (hP.newLine true _ h)
  case send buf remaining =>
    cases hstep
    split
    · exact hP.queue _ h
    · exact h
  case pullBack buf remaining =>
    split at hstep <;> cases hstep
    · exact splitPulled (hP.queue none h) _ _
    · exact splitPulled h _ _
  case enqueue buf after remaining =>
    cases hstep
    split
    · rename_i hroom
      refine hP.afterEnqueue (hP.queue (some buf) h) remaining ?_
      rintro t rfl ht
      exact hcache t (by simp [hroom, ht])
    · exact h
  case cacheRemaining remaining =>
    cases hstep
    split
    · exact h
    · rename_i hfull
      exact hP.cache cfg.lim s.size.2 (hcache remaining (by simp [hfull])) h
  case redrawStore ret =>
    cases hstep
    exact hP.discard true h
  case flushClear ret =>
    cases hstep
    exact hP.clear h
  case flushLine ret i =>
    split at hstep
    · cases hstep
      exact hP.newLine false 0 (hP.lines List.nil_suffix h)
    · split at hstep <;> cases hstep <;> exact h
  case flushSend ret i line =>
    cases hstep
    split
    · cases i with
      | none => exact hP.warned (hP.queue _ h)
      | some i => exact hP.queue _ h
    · exact h
  case flushTimeout ret i line =>
    split at hstep <;> cases hstep
    · cases i with
      | none => exact h
      | some i => exact hP.lines (List.drop_suffix i _) h
    · exact h
  -- the others are checks
  all_goals repeat' split at hstep
  all_goals cases hstep
  all_goals exact h

end Survives

/-! ## The whole system -/

/-- The marker an operation is about to store. -/
def AttachOp.marker : AttachOp → Option Text
  | .resizeStore _ _ marker => marker
  | _ => none

/-- All cells that are under way meet `P`. -/
structure Sys.Everywhere (P : Cell → Prop) (s : Sys) : Prop where
  inside : s.Inside P
  slot : ∀ b ∈ s.f.writeBufCh, Only P b.text
  writer : ∀ b, s.writer = .holding b → Only P b.text
  marker : ∀ m ∈ s.f.discardMarker, Only P m
  op : ∀ m ∈ s.op.marker, Only P m

section Whole

variable {P : Cell → Prop} {cfg : Config} {s s' : Sys}

theorem Sys.Everywhere.opStep {ok : Bool} (h : s.Everywhere P)
    (hstep : opStep cfg ok s = some s') : s'.Everywhere P := by
  have hin := h.inside.opStep hstep
  have hmark := h.op
  unfold Output.opStep at hstep
  cases hop : s.op with
  | resizeStore size redraw marker =>
    rw [hop] at hmark
    simp only [hop] at hstep
    split at hstep
    · cases hstep
      exact ⟨hin, h.slot, h.writer, h.marker, by simp [AttachOp.marker]⟩
    · cases marker with
      | none =>
        cases hstep
        exact ⟨hin, h.slot, h.writer, h.marker, by simp [AttachOp.marker]⟩
      | some m =>
        cases hstep
        exact ⟨hin, h.slot, h.writer, by simpa using hmark m rfl, by simp [AttachOp.marker]⟩
  | attachStream c size =>
    simp only [hop, Option.some.injEq] at hstep
    subst hstep
    exact ⟨hin, h.slot, h.writer, h.marker, by dsimp only; split <;> simp [AttachOp.marker]⟩
  | _ =>
    simp only [hop] at hstep
    repeat' split at hstep
    all_goals cases hstep
    all_goals exact ⟨hin, h.slot, h.writer, h.marker, by simp [AttachOp.marker]⟩

/-- Only a resize message brings in bytes of a marker. -/
theorem Sys.Everywhere.next (hP : ∀ x : Cell, x.owner = none → P x) {a : Act}
    (h : s.Everywhere P)
    (hmarked : ∀ c size redraw m, a = .resize c size redraw (some m) → s.server = some c →
      Only P (marked c m))
    (hstep : next cfg s a = some s') : s'.Everywhere P := by
  have hin := h.inside.next hP (fun _ _ => ⟨fun _ _ => h.marker, fun _ _ _ => h.slot⟩) hstep
  cases a with
  | owner ok =>
    have henv := ownerStep_env hstep
    obtain ⟨_, hmove⟩ := h.inside.ownerStep hP ⟨fun _ _ => h.marker, fun _ _ _ => h.slot⟩ hstep
    refine ⟨hin, hmove.only h.slot, by rw [henv.writer]; exact h.writer, ?_,
      by rw [henv.op]; exact h.op⟩
    rcases henv.marker with hm | ⟨hm, _⟩
    · rw [hm]
      exact h.marker
    · simp [hm]
  | op ok => exact h.opStep hstep
  | wake failed =>
    obtain ⟨pc, rfl, _⟩ := wakeOwner_goto hstep
    exact ⟨hin, h.slot, h.writer, h.marker, h.op⟩
  | dequeue =>
    simp only [Output.next] at hstep
    split at hstep <;> cases hstep
    rename_i b _ hb
    exact ⟨hin, by simp, by simpa using h.slot b hb, h.marker, h.op⟩
  | write =>
    simp only [Output.next] at hstep
    split at hstep <;> cases hstep
    exact ⟨hin, h.slot, by simp, h.marker, h.op⟩
  | writeFail =>
    simp only [Output.next] at hstep
    split at hstep <;> cases hstep
    exact ⟨hin, h.slot, by simp, h.marker, h.op⟩
  | detach | attach _ _ =>
    simp only [Output.next] at hstep
    split at hstep <;> cases hstep
    exact ⟨hin, h.slot, h.writer, h.marker, by simp [AttachOp.marker]⟩
  | resize c size redraw marker =>
    simp only [Output.next] at hstep
    split at hstep <;> cases hstep
    rename_i hserver
    refine ⟨hin, h.slot, h.writer, h.marker, ?_⟩
    cases marker with
    | none => simp [AttachOp.marker]
    | some m => simpa [AttachOp.marker] using hmarked c size redraw m rfl hserver.2
  | _ =>
    simp only [Output.next] at hstep
    repeat' split at hstep
    all_goals cases hstep
    all_goals exact ⟨hin, h.slot, h.writer, h.marker, h.op⟩

/-- Output is what the writer held, written to the stream in place. -/
theorem next_output {a : Act} (hstep : next cfg s a = some s') :
    s'.output = s.output ∨
      ∃ b c, s.writer = .holding b ∧ s.stream = some c ∧ s'.output = s.output ++ [(c, b)] := by
  cases a with
  | owner ok => exact .inl (ownerStep_env hstep).output
  | write =>
    simp only [next] at hstep
    split at hstep <;> cases hstep
    rename_i b c hb hc
    exact .inr ⟨b, c, hb, hc, rfl⟩
  | wake failed =>
    obtain ⟨pc, rfl, _⟩ := wakeOwner_goto hstep
    exact .inl rfl
  | op ok =>
    simp only [next, opStep] at hstep
    repeat' split at hstep
    all_goals cases hstep
    all_goals exact .inl rfl
  | _ =>
    simp only [next] at hstep
    repeat' split at hstep
    all_goals cases hstep
    all_goals exact .inl rfl

theorem everywhere_start (P : Cell → Prop) (cfg : Config) : (start cfg).Everywhere P :=
  ⟨⟨⟨by simp [start], .nil, .nil⟩, .nil⟩, by simp [start], by simp [start], by simp [start],
    by simp [start, AttachOp.marker]⟩

end Whole

/-- A terminal session of client 7, for the runs of the modules behind. -/
def terminal : Config := { pty := true, size := (80, 24), client := 7 }

end Tsshd.Output

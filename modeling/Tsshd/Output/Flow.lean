import Tsshd.Output.Balance

/-!
# What a step does with the output

The account of every run of a forwarder, with a pty or without. As long as no
write fails and no checker is closed, the handlers lose nothing on the way
(`Flowing`), and a step does one of six things with the bytes accounted for
(`Flow`): it leaves them as they are, it takes in what the program wrote, it
hands over a flushed piece, it passes over a cached line that filtering empties,
it puts a redraw marker in front of the chunk, or it clears the dropped run and
the cache. Stream conservation and the discard accounting are read off these six
cases; `v` says how a flushed piece is read, as what it emits or as what it
stands for.

`R` is what a caller wants to know of the runs that warnings stand for: it has
to hold of the dropped run whenever a warning is queued.
-/

namespace Tsshd.Output

theorem PcFacts.congr {f g : Forwarder} {pc : Pc} (h : PcFacts f pc)
    (hc : g.cacheLines = f.cacheLines) (hd : g.dropped = f.dropped)
    (hw : flushWarning g = flushWarning f) : PcFacts g pc := by
  unfold PcFacts at *
  rw [hc, hd, hw]
  exact h

/-- The dropped run a warning of the buffer stands for meets `R`. -/
def Buf.Runs (R : List Text → Prop) (b : Buf) : Prop :=
  ∀ text run, b.front = some (.warn text run) → R run

/-- What is known of a buffer on its way through the queue. -/
structure Buf.Good (R : List Text → Prop) (b : Buf) : Prop where
  exact : b.Exact
  sealed : b.Sealed
  runs : b.Runs R

/-- All output accounted for, in order: dequeued, queued, dropped, cached, in
hand. -/
def Sys.accounted (v : Flushed → Text) (s : Sys) : Text :=
  s.dequeued.flatMap (Buf.stands v) ++ account v s.f s.pc ++ s.main.hand

/-- As what it stands for. -/
theorem Sys.accounted_source (s : Sys) :
    s.accounted Flushed.source =
      s.handed.flatMap Buf.source ++ s.f.dropped.flatten ++ s.pendingLines.flatten ++ s.inHand := by
  simp only [Sys.accounted, account, Sys.handed, Sys.pendingLines, Sys.inHand, List.flatMap_append,
    List.append_assoc]
  rfl

/-- The line the next step of a flush passes over. -/
def Sys.passedOver (s : Sys) : Text :=
  match s.pc with
  | .flushLine _ i =>
    match s.f.cacheLines[i]? with
    | some line => if (filterLine line).isEmpty then line else []
    | none => []
  | _ => []

/-- The piece the next step of a flush hands over. -/
def Sys.sending (s : Sys) : Option Flushed :=
  match s.pc with
  | .flushSend _ _ line => if s.f.writeBufCh.isNone then some line else none
  | _ => none

/-- Whether the next step runs `clearOutput`. -/
def Sys.clears (s : Sys) : Bool :=
  match s.pc with
  | .clearForMarker .. | .clearForDiscard _ | .flushClear _ => true
  | _ => false

/-- What one step does with the bytes accounted for, with the line it passes over
and the piece it hands over. Only the token owner clears. -/
inductive Flow (v : Flushed → Text) (s : Sys) (a : Act) : Text → Option Flushed → Sys → Prop
  | keep {t : Sys} (hinput : t.input = s.input) (hreports : t.reports = s.reports)
      (hnew : t.accounted v = s.accounted v) : Flow v s a [] none t
  | read {t : Sys} (bytes : List UInt8) (hinput : t.input = s.input ++ plain bytes)
      (hreports : t.reports = s.reports) (hnew : t.accounted v = s.accounted v ++ plain bytes) :
      Flow v s a [] none t
  | send {t : Sys} {piece : Flushed} {y : Text} (hinput : t.input = s.input)
      (hreports : t.reports = s.reports) (hexact : piece.Exact)
      (hold : s.accounted v = s.handed.flatMap (Buf.stands v) ++ piece.source ++ y)
      (hnew : t.accounted v = s.handed.flatMap (Buf.stands v) ++ v piece ++ y) :
      Flow v s a [] (some piece) t
  | skip {t : Sys} {line y : Text} (hinput : t.input = s.input)
      (hreports : t.reports = s.reports) (hshape : LineShape line) (hempty : filterLine line = [])
      (hold : s.accounted v = s.handed.flatMap (Buf.stands v) ++ line ++ y)
      (hnew : t.accounted v = s.handed.flatMap (Buf.stands v) ++ y) : Flow v s a line none t
  | mark {t : Sys} {marker x y : Text} (hinput : t.input = s.input)
      (hreports : t.reports = s.reports) (hmarker : s.f.discardMarker = some marker)
      (hold : s.accounted v = x ++ y) (hnew : t.accounted v = x ++ marker ++ y) :
      Flow v s a [] none t
  | clear {t : Sys} {x y : Text} {ok : Bool} (howner : a = .owner ok) (hclears : s.clears = true)
      (hinput : t.input = s.input) (hreports : t.reports = s.clear.reports)
      (hold : s.accounted v = x ++ (s.f.dropped.flatten ++ s.f.cacheLines.flatten) ++ y)
      (hnew : t.accounted v = x ++ y) : Flow v s a [] none t

variable (v : Flushed → Text) (R : List Text → Prop)

/-- Nothing is lost on the way, whatever the clients do. -/
structure Flowing (s : Sys) : Prop where
  cache : CacheInv s.f
  facts : PcFacts s.f s.pc
  stage : Stage s.f.cacheLines s.pc.role s.main
  owned : s.pc = .idle ↔ s.f.processing = false
  returned : s.f.returned = true → s.main = .closing ∨ s.main = .closed
  sent : ∀ b ∈ s.dequeued, b.Exact ∧ b.Runs R
  bufs : ∀ b ∈ s.f.writeBufCh.toList ++ s.pc.pulled, b.Good R
  noWriteError : s.f.writeError = false
  checkersOpen : ∀ c, s.checkerClosed c = false

/-- A step that keeps the invariant, with what it does to the account. -/
structure Goes (s : Sys) (a : Act) (skipped : Text) (sent : Option Flushed) (t : Sys) :
    Prop where
  flowing : Flowing R t
  flow : Flow v s a skipped sent t

/-- A step that moves nothing out of the account. -/
structure Keeps (s t : Sys) : Prop where
  flowing : Flowing R t
  input : t.input = s.input
  reports : t.reports = s.reports
  accounted : t.accounted v = s.accounted v

variable {v R}

theorem Keeps.goes {s t : Sys} {a : Act} (h : Keeps v R s t) : Goes v R s a [] none t :=
  ⟨h.flowing, .keep h.input h.reports h.accounted⟩

theorem Keeps.trans {s t u : Sys} (h : Keeps v R s t) (h' : Keeps v R t u) : Keeps v R s u :=
  ⟨h'.flowing, h'.input.trans h.input, h'.reports.trans h.reports,
    h'.accounted.trans h.accounted⟩

section Updates

variable {s : Sys} {pc pc' : Pc}

/-! ## Updates of the account -/

/-- The forwarder fields that `Flowing` reads stay. -/
structure SameStore (f g : Forwarder) : Prop where
  processing : f.processing = g.processing
  returned : f.returned = g.returned
  writeError : f.writeError = g.writeError
  writeBufCh : f.writeBufCh = g.writeBufCh
  cacheLines : f.cacheLines = g.cacheLines
  dropped : f.dropped = g.dropped
  discardLines : f.discardLines = g.discardLines
  discardBytes : f.discardBytes = g.discardBytes
  tmuxOutputPrefix : f.tmuxOutputPrefix = g.tmuxOutputPrefix

theorem SameStore.cache {f g : Forwarder} (h : SameStore f g) (hg : CacheInv g) : CacheInv f :=
  hg.congr h.cacheLines h.dropped h.discardLines h.discardBytes h.tmuxOutputPrefix

theorem SameStore.facts {f g : Forwarder} (h : SameStore f g) (hg : PcFacts g pc) : PcFacts f pc := by
  refine hg.congr h.cacheLines h.dropped ?_
  rw [flushWarning, flushWarning, h.tmuxOutputPrefix, h.cacheLines, h.discardLines, h.discardBytes]

theorem SameStore.account {f g : Forwarder} (h : SameStore f g) : account v f pc = account v g pc := by
  rw [Output.account, Output.account, h.writeBufCh, h.dropped, h.cacheLines]

/-- The owner moves on; the reader, the writer and the flags of the run stay. -/
theorem Flowing.move (h : Flowing R s) {f' : Forwarder} {r' : List (Nat × Nat × Nat)}
    (hpc : s.pc ≠ .idle) (hpc' : pc' ≠ .idle) (hproc : f'.processing = s.f.processing)
    (hret : f'.returned = s.f.returned) (herr : f'.writeError = s.f.writeError)
    (hcache : CacheInv f') (hfacts : PcFacts f' pc')
    (hstage : Stage f'.cacheLines pc'.role s.main)
    (hbufs : ∀ b ∈ f'.writeBufCh.toList ++ pc'.pulled, b.Good R) :
    Flowing R { s with f := f', pc := pc', reports := r' } where
  cache := hcache
  facts := hfacts
  stage := hstage
  owned := by
    show pc' = .idle ↔ f'.processing = false
    rw [hproc, ← h.owned]
    exact iff_of_false hpc' hpc
  returned := by
    show f'.returned = true → _
    rw [hret]
    exact h.returned
  sent := h.sent
  bufs := hbufs
  noWriteError := herr.trans h.noWriteError
  checkersOpen := h.checkersOpen

/-- A step of the owner that accounts for the same bytes. -/
theorem Flowing.same (h : Flowing R s) (f' : Forwarder) (hpc : s.pc ≠ .idle) (hpc' : pc' ≠ .idle)
    (hproc : f'.processing = s.f.processing) (hret : f'.returned = s.f.returned)
    (herr : f'.writeError = s.f.writeError) (hacc : account v f' pc' = account v s.f s.pc)
    (hcache : CacheInv f') (hfacts : PcFacts f' pc')
    (hstage : Stage f'.cacheLines pc'.role s.main)
    (hbufs : ∀ b ∈ f'.writeBufCh.toList ++ pc'.pulled, b.Good R) :
    Keeps v R s { s with f := f', pc := pc' } where
  flowing := h.move hpc hpc' hproc hret herr hcache hfacts hstage hbufs
  input := rfl
  reports := rfl
  accounted := by
    show s.dequeued.flatMap (Buf.stands v) ++ account v f' pc' ++ s.main.hand = s.accounted v
    rw [hacc]
    rfl

/-- A check: the program counter moves on with everything it holds. -/
theorem Flowing.check (h : Flowing R s) (hpc : s.pc = pc) (hne : pc ≠ .idle)
    (hne' : pc' ≠ .idle) (hflushed : pc'.flushed = pc.flushed) (hhand : pc'.holding v = pc.holding v)
    (hpulled : pc'.pulled = pc.pulled) (hfacts : PcFacts s.f pc')
    (hstage : Stage s.f.cacheLines pc'.role s.main) : Keeps v R s (s.goto pc') := by
  subst hpc
  refine h.same s.f hne hne' rfl rfl rfl ?_ h.cache hfacts hstage ?_
  · rw [account, account, hflushed, hhand]
  · rw [hpulled]
    exact h.bufs

/-- The flags of the next decisions change nothing that is accounted for. -/
theorem Flowing.flags (h : Flowing R s) (f' : Forwarder) (hf : SameStore f' s.f) :
    Keeps v R s { s with f := f' } where
  flowing := { h with
    cache := hf.cache h.cache
    facts := hf.facts h.facts
    stage := h.stage.congr fun hnil => hf.cacheLines.trans hnil
    owned := by
      show s.pc = .idle ↔ f'.processing = false
      rw [hf.processing]
      exact h.owned
    returned := by
      show f'.returned = true → _
      rw [hf.returned]
      exact h.returned
    bufs := by
      show ∀ b ∈ f'.writeBufCh.toList ++ s.pc.pulled, b.Good R
      rw [hf.writeBufCh]
      exact h.bufs
    noWriteError := hf.writeError.trans h.noWriteError }
  input := rfl
  reports := rfl
  accounted := by
    show s.dequeued.flatMap (Buf.stands v) ++ account v f' s.pc ++ s.main.hand = s.accounted v
    rw [hf.account]
    rfl

/-- `clearOutput` runs. -/
theorem Flowing.cleared (h : Flowing R s) {ok : Bool} (hne : s.pc ≠ .idle) (hne' : pc' ≠ .idle)
    (hclears : s.clears = true) (hflushed : s.pc.flushed = 0) (hhand : pc'.holding v = s.pc.holding v)
    (hpulled : pc'.pulled = []) (hfacts : PcFacts (clearOutput s.f) pc')
    (hstage : Stage [] pc'.role s.main) : Goes v R s (.owner ok) [] none (s.clear.goto pc') where
  flowing := by
    refine h.move hne hne' rfl rfl rfl h.cache.clearOutput hfacts hstage ?_
    intro b hb
    rw [hpulled, List.append_nil] at hb
    exact h.bufs b (List.mem_append_left _ hb)
  flow := by
    refine .clear
      (x := s.dequeued.flatMap (Buf.stands v) ++ s.f.writeBufCh.toList.flatMap (Buf.stands v))
      (y := s.pc.holding v ++ s.main.hand) rfl hclears rfl rfl ?_ ?_
    · simp [Sys.accounted, account, hflushed]
    · show s.dequeued.flatMap (Buf.stands v) ++ account v (clearOutput s.f) pc' ++ s.main.hand = _
      simp [account, clearOutput, hhand]

/-- The reader has not returned while something is cached or a chunk is in
hand. -/
theorem Flowing.notReturned (h : Flowing R s)
    (hbusy : s.f.cacheLines ≠ [] ∨ s.pc.role = .buffer) :
    (s.f.returned || s.f.writeError) = false := by
  rw [h.noWriteError, Bool.or_false, Bool.eq_false_iff]
  intro hret
  have hst := h.stage
  rcases h.returned hret with hm | hm <;> rw [hm] at hst <;> rcases hbusy with hb | hb
  · exact hb hst.2
  · rw [hb] at hst; simp [Stage] at hst
  · exact hb hst.2
  · rw [hb] at hst; simp [Stage] at hst

theorem Buf.Good.congr {b c : Buf} (h : b.Good R) (hf : c.front = b.front) : c.Good R := by
  obtain ⟨hexact, hsealed⟩ := Buf.good_congr ⟨h.exact, h.sealed⟩ hf
  exact ⟨hexact, hsealed, fun text run hw => h.runs text run (hf ▸ hw)⟩

theorem Buf.Good.raw (t : Text) : Buf.Good R { raw := t } :=
  ⟨(Buf.good_raw t).1, (Buf.good_raw t).2, fun _ _ hw => absurd hw (by simp)⟩

/-! ## Pulling a buffer back -/

/-- The branches behind a pull-back, from a state whose queue is now empty and
whose owner accounts for the merged buffer. -/
theorem Flowing.splitPulled (h : Flowing R s) {b : Buf} {remaining : Text}
    (hne : s.pc ≠ .idle) (hcl : s.f.cacheLines = [])
    (hst : Stage s.f.cacheLines .buffer s.main)
    (hacc : account v s.f s.pc = b.stands v ++ remaining) (hb : b.Good R) :
    Keeps v R s ({ s with f := { s.f with writeBufCh := none } }.splitPulled b remaining) := by
  have hdrop := h.cache.kept hcl
  have hcache : CacheInv { s.f with writeBufCh := none } := h.cache.congr rfl rfl rfl rfl rfl
  have hgoto : ∀ c after, c.stands v ++ after.text = b.stands v → c.front = b.front →
      Keeps v R s ({ s with f := { s.f with writeBufCh := none } }.goto
        (.enqueue c after remaining)) := by
    intro c after hsrc hfront
    refine h.same { s.f with writeBufCh := none } hne (by simp) rfl rfl rfl ?_ hcache hcl hst ?_
    · rw [hacc]
      simp [account, hdrop, hcl, Pc.holding, ← hsrc]
    · intro c' hc'
      simp only [Pc.pulled, Option.toList_none, List.nil_append, List.mem_singleton] at hc'
      rw [hc']
      exact hb.congr hfront
  unfold Sys.splitPulled
  split
  · split
    · exact hgoto b .count (by simp [After.text]) rfl
    · exact hgoto b .start (by simp [After.text]) rfl
  · rename_i line left hcut
    obtain ⟨hsrc, hfront⟩ := hb.sealed.take_stands hcut v
    exact hgoto _ (.left left) hsrc hfront

/-- The chunk, or a part of it, goes to the end of the cache. -/
theorem Flowing.cacheTo (h : Flowing R s) (cfg : Config) (t rest : Text) (newLine : Bool)
    (hne : s.pc ≠ .idle) (hne' : pc' ≠ .idle)
    (hst : Stage s.f.cacheLines .buffer s.main)
    (hflushed : s.pc.flushed = 0) (hhand : s.pc.holding v = t ++ rest)
    (hflushed' : pc'.flushed = 0) (hhand' : pc'.holding v = rest) (hpulled : pc'.pulled = [])
    (hrole : pc'.role = .buffer ∨ pc'.role = .flush .endProcessing ∨ pc'.role = .finish)
    (hfacts : ∀ f, PcFacts f pc') :
    Keeps v R s { s with
      f := { cacheOutput cfg.lim s.size.2 s.f t with chHasNewLine := newLine }, pc := pc' } := by
  refine h.same _ hne hne' (by simp) (by simp) (by simp) ?_
    ((h.cache.cacheOutput cfg.lim s.size.2 t).congr rfl rfl rfl rfl rfl) (hfacts _)
    (hst.bufferDone _ hrole) ?_
  · have := cacheOutput_flatten cfg.lim s.size.2 s.f t
    simp only [account, hflushed, hflushed', hhand, hhand', List.drop_zero,
      cacheOutput_writeBufCh, List.append_assoc] at this ⊢
    rw [← List.append_assoc (List.flatten _) (List.flatten _) rest, this]
    simp
  · intro b hb
    simp only [cacheOutput_writeBufCh, hpulled, List.append_nil] at hb
    exact h.bufs b (List.mem_append_left _ hb)

/-- The front of the hand goes to the empty queue. -/
theorem Flowing.enqueued (h : Flowing R s) (b : Buf) (rest : Text) (hne : s.pc ≠ .idle)
    (hst : Stage s.f.cacheLines .buffer s.main) (hcl : s.f.cacheLines = [])
    (hslot : s.f.writeBufCh = none) (hhand : s.pc.holding v = b.stands v ++ rest) (hb : b.Good R) :
    Keeps v R s ({ s with f := { s.f with writeBufCh := some b } }.goto (.cacheRemaining rest)) := by
  refine h.same { s.f with writeBufCh := some b } hne (by simp) rfl rfl rfl ?_
    (h.cache.congr rfl rfl rfl rfl rfl) trivial hst ?_
  · have hnew : (Pc.cacheRemaining rest).holding v = rest := rfl
    simp [account, hslot, hcl, h.cache.kept hcl, hhand, hnew]
  · intro c hc
    simp only [Pc.pulled, Option.toList_some, List.append_nil, List.mem_singleton] at hc
    rw [hc]
    exact hb

/-- The code behind a successful enqueue, seen from the state in which what is
left to cache still counts as remaining. -/
theorem Flowing.afterEnqueue {after : After} {remaining : Text}
    (h : Flowing R (s.goto (.cacheRemaining (after.text ++ remaining)))) (cfg : Config)
    (hst : Stage s.f.cacheLines .buffer s.main) :
    Keeps v R (s.goto (.cacheRemaining (after.text ++ remaining)))
      (s.afterEnqueue cfg after remaining) := by
  cases after with
  | count =>
    exact h.flags { s.f with noNewLineCount := s.f.noNewLineCount + 1 }
      ⟨rfl, rfl, rfl, rfl, rfl, rfl, rfl, rfl, rfl⟩
  | start =>
    exact h.flags { s.f with chHasNewLine := true } ⟨rfl, rfl, rfl, rfl, rfl, rfl, rfl, rfl, rfl⟩
  | left t =>
    unfold Sys.afterEnqueue
    dsimp only
    split
    · rename_i hnil
      have hn : (After.left t).text = [] := List.isEmpty_iff.mp hnil
      rw [hn] at h ⊢
      exact h.flags { s.f with chHasNewLine := true } ⟨rfl, rfl, rfl, rfl, rfl, rfl, rfl, rfl, rfl⟩
    · exact h.cacheTo cfg t remaining true (by simp [Sys.goto])
        (by simp) hst rfl rfl rfl rfl rfl (.inl rfl) (fun _ => trivial)

end Updates

section Handlers

variable {s : Sys} {pc : Pc}

/-! ## The handlers -/

/-- The marker goes in front of the chunk. -/
theorem Flowing.swapped (h : Flowing R s) {marker buf : Text} (hpc : s.pc = .swapMarker buf)
    (hmarker : s.f.discardMarker = some marker) (hst : Stage s.f.cacheLines .buffer s.main)
    {a : Act} : Goes v R s a [] none ({ s with f := { s.f with discardMarker := none } }.goto
      (.stopDiscard marker buf)) where
  flowing := by
    refine h.move (by simp [hpc]) (by simp) rfl rfl rfl (h.cache.congr rfl rfl rfl rfl rfl) trivial
      hst ?_
    intro b hb
    exact h.bufs b (by simpa [hpc, Pc.pulled] using hb)
  flow := by
    refine .mark (x := s.dequeued.flatMap (Buf.stands v) ++ account v s.f .idle)
      (y := buf ++ s.main.hand) rfl rfl hmarker ?_ ?_
    · simp [Sys.accounted, account, hpc, Pc.flushed, Pc.holding]
    · show s.dequeued.flatMap (Buf.stands v) ++ account v s.f (.stopDiscard marker buf) ++
        s.main.hand = _
      simp [account, Pc.flushed, Pc.holding]

/-- One step inside `handleBuffer`. -/
theorem Flowing.bufferStep {cfg : Config} {ok : Bool} {s' : Sys} (h : Flowing R s)
    (hrole : s.pc.role = .buffer) (hstep : ownerStep cfg ok s = some s') :
    Goes v R s (.owner ok) [] none s' := by
  have hst : Stage s.f.cacheLines .buffer s.main := hrole ▸ h.stage
  have hfin : Stage s.f.cacheLines .finish s.main := hst.bufferDone _ (.inr (.inr rfl))
  have hfacts := h.facts
  have hret := h.notReturned (.inr hrole)
  unfold ownerStep at hstep
  cases hpc : s.pc with
  | swapMarker buf =>
    simp only [hpc] at hstep
    split at hstep <;> cases hstep
    · rename_i hmarker
      exact h.swapped hpc hmarker hst
    · exact Keeps.goes (h.check hpc (by simp) (by simp) rfl rfl rfl trivial hst)
  | stopDiscard marker buf =>
    simp only [hpc, Option.some.injEq] at hstep
    subst hstep
    have hflags := h.flags (v := v) { s.f with discardOutput := false }
      ⟨rfl, rfl, rfl, rfl, rfl, rfl, rfl, rfl, rfl⟩
    exact Keeps.goes (hflags.trans
      (hflags.flowing.check hpc (by simp) (by simp) rfl rfl rfl trivial hst))
  | clearForMarker marker buf =>
    simp only [hpc, Option.some.injEq] at hstep
    subst hstep
    exact h.cleared (by simp [hpc]) (by simp) (by simp [Sys.clears, hpc]) (by rw [hpc]; rfl)
      (by rw [hpc]; rfl) rfl trivial (hst.bufferDone _ (.inl rfl))
  | takeDiscard buf =>
    simp only [hpc] at hstep
    split at hstep <;> cases hstep
    · have hflags := h.flags (v := v) { s.f with discardOutput := false }
        ⟨rfl, rfl, rfl, rfl, rfl, rfl, rfl, rfl, rfl⟩
      exact Keeps.goes (hflags.trans
        (hflags.flowing.check hpc (by simp) (by simp) rfl rfl rfl trivial hst))
    · exact Keeps.goes (h.check hpc (by simp) (by simp) rfl rfl rfl trivial hst)
  | clearForDiscard buf =>
    simp only [hpc, Option.some.injEq] at hstep
    subst hstep
    exact h.cleared (by simp [hpc]) (by simp) (by simp [Sys.clears, hpc]) (by rw [hpc]; rfl)
      (by rw [hpc]; rfl) rfl trivial (hst.bufferDone _ (.inl rfl))
  | checkTimeout buf =>
    simp only [hpc] at hstep
    split at hstep <;> cases hstep <;>
      exact Keeps.goes (h.check hpc (by simp) (by simp) rfl rfl rfl trivial hst)
  | checkKeep buf =>
    simp only [hpc] at hstep
    split at hstep <;> cases hstep
    · exact Keeps.goes (h.cacheTo cfg buf [] _ (by simp [hpc]) (by simp) hst (by rw [hpc]; rfl)
        (by simp [hpc, Pc.holding]) rfl rfl rfl (.inr (.inr rfl)) (fun _ => trivial))
    · exact Keeps.goes (h.check hpc (by simp) (by simp) rfl rfl rfl trivial hst)
  | checkCache buf =>
    simp only [hpc] at hstep
    split at hstep <;> cases hstep
    · rename_i hcl
      exact Keeps.goes (h.check hpc (by simp) (by simp) rfl rfl rfl (List.isEmpty_iff.mp hcl) hst)
    · exact Keeps.goes (h.cacheTo cfg buf [] _ (by simp [hpc]) (by simp) hst (by rw [hpc]; rfl)
        (by simp [hpc, Pc.holding]) rfl rfl rfl (.inr (.inl rfl)) (fun _ => trivial))
  | splitTimeout buf =>
    rw [hpc] at hfacts
    simp only [hpc] at hstep
    split at hstep <;> cases hstep
    · exact Keeps.goes (h.check hpc (by simp) (by simp) rfl rfl rfl hfacts hst)
    · exact Keeps.goes (h.check hpc (by simp) (by simp) rfl (List.append_nil _) rfl hfacts hst)
  | splitKeep buf =>
    rw [hpc] at hfacts
    simp only [hpc] at hstep
    split at hstep
    · cases hstep
      exact Keeps.goes (h.check hpc (by simp) (by simp) rfl (List.append_nil _) rfl hfacts hst)
    · split at hstep
      · rename_i hcut
        cases hstep
        have hflags := h.flags (v := v) { s.f with chHasNewLine := true }
          ⟨rfl, rfl, rfl, rfl, rfl, rfl, rfl, rfl, rfl⟩
        exact Keeps.goes (hflags.trans (hflags.flowing.check hpc (by simp) (by simp) rfl
          (cutAfter_append hcut) rfl hfacts hst))
      · split at hstep <;> cases hstep
        · have hflags := h.flags (v := v) { s.f with noNewLineCount := s.f.noNewLineCount + 1 }
            ⟨rfl, rfl, rfl, rfl, rfl, rfl, rfl, rfl, rfl⟩
          exact Keeps.goes (hflags.trans (hflags.flowing.check hpc (by simp) (by simp) rfl
            (List.append_nil _) rfl hfacts hst))
        · have hflags := h.flags (v := v) { s.f with chHasNewLine := true }
            ⟨rfl, rfl, rfl, rfl, rfl, rfl, rfl, rfl, rfl⟩
          exact Keeps.goes (hflags.trans (hflags.flowing.cacheTo cfg buf [] _ (by simp [hpc])
            (by simp) hst (by rw [hpc]; rfl) (by simp [hpc, Pc.holding]) rfl rfl rfl
            (.inr (.inr rfl)) (fun _ => trivial)))
  | send buf remaining =>
    rw [hpc] at hfacts
    simp only [hpc, Sys.trySend, Option.some.injEq] at hstep
    split at hstep <;> subst hstep
    · rename_i hslot
      exact Keeps.goes (h.enqueued _ _ (by simp [hpc]) hst hfacts hslot
        (by simp [hpc, Pc.holding, Buf.stands]) (Buf.Good.raw buf))
    · exact Keeps.goes (h.check hpc (by simp) (by simp) rfl rfl rfl hfacts hst)
  | sendTimeout buf remaining =>
    rw [hpc] at hfacts
    simp only [hpc] at hstep
    split at hstep <;> cases hstep <;>
      exact Keeps.goes (h.check hpc (by simp) (by simp) rfl rfl rfl hfacts hst)
  | sendKeep buf remaining =>
    rw [hpc] at hfacts
    simp only [hpc] at hstep
    split at hstep <;> cases hstep <;>
      exact Keeps.goes (h.check hpc (by simp) (by simp) rfl rfl rfl hfacts hst)
  | pullBack buf remaining =>
    rw [hpc] at hfacts
    have hcl : s.f.cacheLines = [] := hfacts
    have hdrop := h.cache.kept hcl
    simp only [hpc] at hstep
    split at hstep <;> cases hstep
    · rename_i b hslot
      refine Keeps.goes (h.splitPulled (by simp [hpc]) hcl hst ?_
        ((h.bufs b (by simp [hslot])).congr rfl))
      simp [account, hslot, hdrop, hcl, hpc, Pc.holding]
    · rename_i hslot
      have hempty : { s with f := { s.f with writeBufCh := none } } = s := by rw [← hslot]
      have hacc : account v s.f s.pc = Buf.stands v { raw := buf } ++ remaining := by
        simp [account, hslot, hdrop, hcl, hpc, Pc.holding, Buf.stands]
      have hsplit := h.splitPulled (by simp [hpc]) hcl hst hacc (Buf.Good.raw buf)
      rw [hempty] at hsplit
      exact hsplit.goes
  | sendReturned buf remaining =>
    rw [hpc] at hfacts
    simp only [hpc, hret, Bool.false_eq_true, if_false, Option.some.injEq] at hstep
    subst hstep
    exact Keeps.goes (h.check hpc (by simp) (by simp) rfl rfl rfl hfacts hst)
  | enqueue buf after remaining =>
    rw [hpc] at hfacts
    simp only [hpc, Sys.trySend, Option.some.injEq] at hstep
    split at hstep <;> subst hstep
    · rename_i hslot
      have hq := h.enqueued (v := v) buf (after.text ++ remaining) (by simp [hpc]) hst hfacts
        hslot (by simp [hpc, Pc.holding]) (h.bufs buf (by simp [hpc, Pc.pulled]))
      have hafter := hq.trans (hq.flowing.afterEnqueue cfg hst)
      simpa only [hpc] using hafter.goes
    · exact Keeps.goes (h.check hpc (by simp) (by simp) rfl rfl rfl hfacts hst)
  | enqueueReturned buf after remaining =>
    rw [hpc] at hfacts
    simp only [hpc, hret, Bool.false_eq_true, if_false, Option.some.injEq] at hstep
    subst hstep
    exact Keeps.goes (h.check hpc (by simp) (by simp) rfl rfl rfl hfacts hst)
  | cacheRemaining remaining =>
    simp only [hpc, Option.some.injEq] at hstep
    split at hstep <;> subst hstep
    · rename_i hnil
      exact Keeps.goes (h.check hpc (by simp) (by simp) rfl (List.isEmpty_iff.mp hnil).symm rfl trivial
        hfin)
    · exact Keeps.goes (h.cacheTo cfg remaining [] _ (by simp [hpc]) (by simp) hst (by rw [hpc]; rfl)
        (by simp [hpc, Pc.holding]) rfl rfl rfl (.inr (.inr rfl)) (fun _ => trivial))
  | sendReconnect _ _ | sendWait _ _ | enqueueWait _ _ _ => simp [hpc] at hstep
  | _ => simp [hpc, Pc.role] at hrole

/-- What a flush hands over is exact and sealed. -/
theorem Flowing.good_line (h : Flowing R s) {i : Nat} {l : Text}
    (hl : s.f.cacheLines[i]? = some l) : Buf.Good R { front := some (.line l) } where
  exact := by
    intro p hp
    cases hp
    exact h.cache.shaped l (List.mem_of_getElem? hl)
  sealed := filterLine_onlyAtEnd (h.cache.shaped l (List.mem_of_getElem? hl)).lf
  runs := by simp [Buf.Runs]

theorem Flowing.good_warn (h : Flowing R s) (hR : R s.f.dropped) (hd : s.f.dropped ≠ []) :
    Buf.Good R { front := some (.warn (flushWarning s.f) s.f.dropped) } where
  exact := by
    intro p hp
    cases hp
    exact ⟨hd, h.cache.droppedShaped, _, h.cache.flushWarning⟩
  sealed := flushWarning_onlyAtEnd h.cache
  runs := by
    intro text run hw
    cases hw
    exact hR

private theorem drop_of_getElem? {ls : List Text} {i : Nat} {l : Text} (h : ls[i]? = some l) :
    ls.drop i = l :: ls.drop (i + 1) := by
  obtain ⟨hi, rfl⟩ := List.getElem?_eq_some_iff.mp h
  exact List.drop_eq_getElem_cons hi

/-- The caller of a flush continues with nothing in hand. -/
theorem Ret.pc_empty (ret : Ret) :
    ret.pc ≠ .idle ∧ ret.pc.flushed = 0 ∧ ret.pc.holding v = [] ∧ ret.pc.pulled = [] ∧
      ∀ f, PcFacts f ret.pc := by
  cases ret <;> exact ⟨by simp [Ret.pc], rfl, rfl, rfl, fun _ => trivial⟩

/-- A flush that has not begun to hand lines over returns to its caller. -/
theorem Flowing.toCaller (h : Flowing R s) {ret : Ret} (hpc : s.pc = pc) (hne : pc ≠ .idle)
    (hflushed : pc.flushed = 0) (hhand : pc.holding v = []) (hpulled : pc.pulled = [])
    (hst : Stage s.f.cacheLines (.flush ret) s.main) : Keeps v R s (s.goto ret.pc) := by
  obtain ⟨hne', hf, hh, hp, hi⟩ := ret.pc_empty (v := v)
  exact h.check hpc hne hne' (hf.trans hflushed.symm) (hh.trans hhand.symm)
    (hp.trans hpulled.symm) (hi _) hst.ret

/-- A flush ends: the lines it handed over leave the cache. -/
theorem Flowing.trimmed (h : Flowing R s) {ret : Ret} (n : Nat) (newLine : Bool) (count : Nat)
    (hne : s.pc ≠ .idle) (hst : Stage s.f.cacheLines (.flush ret) s.main)
    (hdrop : s.f.dropped = []) (hhand : s.pc.holding v = [])
    (hflushed : s.f.cacheLines.drop s.pc.flushed = s.f.cacheLines.drop n) :
    Keeps v R s ({ s with f := { s.f with
      cacheLines := s.f.cacheLines.drop n, chHasNewLine := newLine,
      noNewLineCount := count } }.goto ret.pc) := by
  obtain ⟨hne', hf, hh, hp, hi⟩ := ret.pc_empty (v := v)
  refine h.same
    { s.f with
      cacheLines := s.f.cacheLines.drop n, chHasNewLine := newLine, noNewLineCount := count }
    hne hne' rfl rfl rfl ?_ ?_ (hi _) ?_ ?_
  · simp [account, hf, hh, hhand, hflushed]
  · exact ⟨fun l hl => h.cache.shaped l (List.mem_of_mem_drop hl), h.cache.droppedShaped,
      h.cache.lines, h.cache.bytes, fun _ => hdrop, h.cache.tmux, h.cache.pane⟩
  · exact hst.ret.congr fun hnil => by simp [hnil]
  · intro b hb
    rw [hp, List.append_nil] at hb
    exact h.bufs b (List.mem_append_left _ hb)

/-- A line that filtering empties is passed over. -/
theorem Flowing.skipLine (h : Flowing R s) {ret : Ret} {i : Nat} {line : Text}
    (hpc : s.pc = .flushLine ret i) (hline : s.f.cacheLines[i]? = some line)
    (hempty : filterLine line = []) (hst : Stage s.f.cacheLines (.flush ret) s.main) {a : Act} :
    Goes v R s a line none (s.goto (.flushLine ret (i + 1))) := by
  have hi := (List.getElem?_eq_some_iff.mp hline).1
  have hfacts := h.facts
  rw [hpc] at hfacts
  obtain ⟨hcl, hdrop, -⟩ := hfacts
  constructor
  · refine h.move (by simp [hpc]) (by simp) rfl rfl rfl h.cache ⟨hcl, hdrop, hi⟩ hst ?_
    intro b hb
    exact h.bufs b (by simpa [hpc, Pc.pulled] using hb)
  · refine .skip (y := (s.f.cacheLines.drop (i + 1)).flatten ++ s.main.hand) rfl rfl
      (h.cache.shaped line (List.mem_of_getElem? hline)) hempty ?_ ?_
    · simp [Sys.accounted, Sys.handed, account, hpc, hdrop, Pc.flushed, Pc.holding,
        drop_of_getElem? hline]
    · show s.dequeued.flatMap (Buf.stands v) ++ account v s.f (.flushLine ret (i + 1)) ++
        s.main.hand = _
      simp [Sys.handed, account, hdrop, Pc.flushed, Pc.holding]

/-- The warning takes the place of the dropped run. -/
theorem Flowing.sentWarning (h : Flowing R s) (hR : R s.f.dropped) {ret : Ret} {line : Flushed}
    (hpc : s.pc = .flushSend ret none line) (hslot : s.f.writeBufCh = none)
    (hfacts : PcFacts s.f (.flushSend ret none line))
    (hst : Stage s.f.cacheLines (.flush ret) s.main) {a : Act} :
    Goes v R s a [] (some line)
      ({ s with f := { s.f with writeBufCh := some { front := some line } } }.flushSent ret none) := by
  obtain ⟨hcl, hd, rfl⟩ := hfacts
  have hgood := h.good_warn hR hd
  constructor
  · refine h.move (by simp [hpc]) (by simp) rfl rfl rfl
      ⟨h.cache.shaped, List.forall_mem_nil _, rfl, rfl, fun _ => rfl, h.cache.tmux, h.cache.pane⟩
      ⟨hcl, rfl, Nat.zero_le _⟩ hst ?_
    intro b hb
    simp only [Pc.pulled, Option.toList_some, List.append_nil, List.mem_singleton] at hb
    rw [hb]
    exact hgood
  · refine .send (y := s.f.cacheLines.flatten ++ s.main.hand) rfl rfl (hgood.exact _ rfl) ?_ ?_
    · simp [Sys.accounted, Sys.handed, account, hpc, hslot, Pc.flushed, Pc.holding, Flushed.source]
    · simp [Sys.accounted, Sys.dequeued, Sys.handed, account, hslot, Sys.flushSent, Sys.flushNext,
        Sys.goto, Pc.flushed, Pc.holding, Buf.stands]

/-- A cached line takes the place of itself. -/
theorem Flowing.sentLine (h : Flowing R s) {ret : Ret} {i : Nat} {line : Flushed}
    (hpc : s.pc = .flushSend ret (some i) line) (hslot : s.f.writeBufCh = none)
    (hfacts : PcFacts s.f (.flushSend ret (some i) line))
    (hst : Stage s.f.cacheLines (.flush ret) s.main) {a : Act} :
    Goes v R s a [] (some line)
      ({ s with f := { s.f with writeBufCh := some { front := some line } } }.flushSent ret
        (some i)) := by
  obtain ⟨hdrop, l, hl, rfl⟩ := hfacts
  have hi := (List.getElem?_eq_some_iff.mp hl).1
  have hgood := h.good_line hl
  constructor
  · refine h.move (by simp [hpc]) (by simp) rfl rfl rfl (h.cache.congr rfl rfl rfl rfl rfl)
      ⟨List.ne_nil_of_length_pos (Nat.zero_lt_of_lt hi), hdrop, hi⟩ hst ?_
    intro b hb
    simp only [Pc.pulled, Option.toList_some, List.append_nil, List.mem_singleton] at hb
    rw [hb]
    exact hgood
  · refine .send (y := (s.f.cacheLines.drop (i + 1)).flatten ++ s.main.hand) rfl rfl
      (hgood.exact _ rfl) ?_ ?_
    · simp [Sys.accounted, Sys.handed, account, hpc, hslot, hdrop, Pc.flushed, Pc.holding,
        Flushed.source, drop_of_getElem? hl]
    · simp [Sys.accounted, Sys.dequeued, Sys.handed, account, hslot, hdrop, Sys.flushSent,
        Sys.flushNext, Sys.goto, Pc.flushed, Pc.holding, Buf.stands]

/-- One step inside `flushOutput`, other than handing a piece over or passing over
a line. -/
theorem Flowing.flushStep {cfg : Config} {ok : Bool} {s' : Sys} {ret : Ret} (h : Flowing R s)
    (hpassed : s.passedOver = []) (hsending : s.sending = none) (hrole : s.pc.role = .flush ret)
    (hstep : ownerStep cfg ok s = some s') :
    Goes v R s (.owner ok) [] none s' := by
  have hst : Stage s.f.cacheLines (.flush ret) s.main := hrole ▸ h.stage
  have hfacts := h.facts
  unfold ownerStep at hstep
  cases hpc : s.pc with
  | flushBegin r =>
    obtain rfl : r = ret := by simpa [hpc, Pc.role] using hrole
    simp only [hpc] at hstep
    split at hstep
    · cases hstep
      exact Keeps.goes (h.toCaller hpc (by simp) rfl rfl rfl hst)
    · rename_i hgo
      have hcl : s.f.cacheLines ≠ [] := by
        intro hnil
        simp [hnil] at hgo
      split at hstep <;> cases hstep
      · rename_i hpos
        rw [h.cache.lines] at hpos
        exact Keeps.goes (h.check hpc (by simp) (by simp) rfl rfl rfl
          ⟨hcl, List.length_pos_iff.mp hpos⟩ hst)
      · rename_i hzero
        rw [h.cache.lines, Nat.not_lt, Nat.le_zero, List.length_eq_zero_iff] at hzero
        exact Keeps.goes (h.check hpc (by simp) (by simp) rfl rfl rfl
          ⟨hcl, hzero, Nat.zero_le _⟩ hst)
  | flushRedraw r =>
    obtain rfl : r = ret := by simpa [hpc, Pc.role] using hrole
    rw [hpc] at hfacts
    simp only [hpc] at hstep
    repeat' split at hstep
    all_goals cases hstep
    · exact Keeps.goes (h.check hpc (by simp) (by simp) rfl rfl rfl trivial hst)
    · exact Keeps.goes (h.check hpc (by simp) (by simp) rfl rfl rfl hfacts hst)
    · exact Keeps.goes (h.check hpc (by simp) (by simp) rfl rfl rfl hfacts hst)
  | redrawStore r =>
    obtain rfl : r = ret := by simpa [hpc, Pc.role] using hrole
    rw [hpc] at hfacts
    simp only [hpc, Option.some.injEq] at hstep
    subst hstep
    have hflags := h.flags (v := v) { s.f with discardOutput := true }
      ⟨rfl, rfl, rfl, rfl, rfl, rfl, rfl, rfl, rfl⟩
    exact Keeps.goes (hflags.trans
      (hflags.flowing.check hpc (by simp) (by simp) rfl rfl rfl hfacts hst))
  | redrawResize r =>
    obtain rfl : r = ret := by simpa [hpc, Pc.role] using hrole
    rw [hpc] at hfacts
    simp only [hpc] at hstep
    split at hstep <;> cases hstep
    · exact Keeps.goes (h.check hpc (by simp) (by simp) rfl rfl rfl trivial hst)
    · exact Keeps.goes (h.check hpc (by simp) (by simp) rfl rfl rfl hfacts hst)
  | flushClear r =>
    obtain rfl : r = ret := by simpa [hpc, Pc.role] using hrole
    obtain ⟨hne', -, hh, hp, hi⟩ := r.pc_empty (v := v)
    simp only [hpc, Option.some.injEq] at hstep
    subst hstep
    exact h.cleared (by simp [hpc]) hne' (by simp [Sys.clears, hpc]) (by rw [hpc]; rfl)
      (by rw [hpc, hh]; rfl) hp (hi _) (hst.ret.congr fun _ => rfl)
  | flushWarn r =>
    obtain rfl : r = ret := by simpa [hpc, Pc.role] using hrole
    rw [hpc] at hfacts
    simp only [hpc, Option.some.injEq] at hstep
    subst hstep
    exact Keeps.goes (h.check hpc (by simp) (by simp) rfl rfl rfl ⟨hfacts.1, hfacts.2, rfl⟩ hst)
  | flushLine r i =>
    obtain rfl : r = ret := by simpa [hpc, Pc.role] using hrole
    rw [hpc] at hfacts
    obtain ⟨hcl, hdrop, hle⟩ := hfacts
    simp only [hpc] at hstep
    split at hstep
    · rename_i hnone
      have hlen := List.getElem?_eq_none_iff.mp hnone
      cases hstep
      have hend := h.trimmed (v := v) s.f.cacheLines.length false 0 (by simp [hpc]) hst hdrop
        (by simp [hpc, Pc.holding]) (by simp [hpc, Pc.flushed, List.drop_of_length_le hlen])
      rw [List.drop_length, hpc] at hend
      exact hend.goes
    · rename_i line hline
      split at hstep <;> cases hstep
      · -- such a line is not empty, so it is passed over
        rename_i hempty
        have hnil : line = [] := by simpa [Sys.passedOver, hpc, hline, hempty] using hpassed
        exact absurd hnil (h.cache.shaped line (List.mem_of_getElem? hline)).ne_nil
      · exact Keeps.goes (h.check hpc (by simp) (by simp) rfl rfl rfl ⟨hdrop, line, hline, rfl⟩ hst)
  | flushSend r i line =>
    obtain rfl : r = ret := by simpa [hpc, Pc.role] using hrole
    rw [hpc] at hfacts
    simp only [hpc, Sys.trySend, Option.some.injEq] at hstep
    split at hstep <;> subst hstep
    · rename_i hslot
      simp [Sys.sending, hpc, hslot] at hsending
    · cases i <;> exact Keeps.goes (h.check hpc (by simp) (by simp) rfl rfl rfl hfacts hst)
  | flushTimeout r i line =>
    obtain rfl : r = ret := by simpa [hpc, Pc.role] using hrole
    rw [hpc] at hfacts
    simp only [hpc] at hstep
    split at hstep <;> cases hstep
    · cases i with
      | none => exact Keeps.goes (h.toCaller hpc (by simp) rfl rfl rfl hst)
      | some i =>
        exact Keeps.goes (h.trimmed i s.f.chHasNewLine s.f.noNewLineCount (by simp [hpc]) hst
          hfacts.1 (by simp [hpc, Pc.holding]) (by rw [hpc]; rfl))
    · cases i <;> exact Keeps.goes (h.check hpc (by simp) (by simp) rfl rfl rfl hfacts hst)
  | flushReturned r i line =>
    obtain rfl : r = ret := by simpa [hpc, Pc.role] using hrole
    rw [hpc] at hfacts
    have hcl : s.f.cacheLines ≠ [] := by
      cases i with
      | none => exact hfacts.1
      | some i =>
        obtain ⟨_, l, hl, _⟩ := hfacts
        exact List.ne_nil_of_mem (List.mem_of_getElem? hl)
    simp only [hpc, h.notReturned (.inl hcl), Bool.false_eq_true, if_false,
      Option.some.injEq] at hstep
    subst hstep
    cases i <;> exact Keeps.goes (h.check hpc (by simp) (by simp) rfl rfl rfl hfacts hst)
  | flushWait r i line => simp [hpc] at hstep
  | _ => simp [hpc, Pc.role] at hrole

/-- One step inside `handleError`. -/
theorem Flowing.errorStep {cfg : Config} {ok : Bool} {s' : Sys} (h : Flowing R s)
    (hrole : s.pc.role = .error) (hstep : ownerStep cfg ok s = some s') : Keeps v R s s' := by
  have hmain : s.main = .inError := by
    have hst := h.stage
    rw [hrole] at hst
    cases hm : s.main <;> simp [hm, Stage] at hst ⊢
  unfold ownerStep at hstep
  cases hpc : s.pc with
  | errorLoop =>
    simp only [hpc, h.noWriteError, Bool.or_false] at hstep
    split at hstep <;> cases hstep
    · rename_i hcl
      refine h.check hpc (by simp) (by simp) rfl rfl rfl trivial ?_
      rw [hmain]
      exact .inr (.inr ⟨.inr rfl, List.isEmpty_iff.mp hcl⟩)
    · refine h.check hpc (by simp) (by simp) rfl rfl rfl trivial ?_
      rw [hmain]
      exact .inl rfl
  | errorTimeout =>
    simp only [hpc] at hstep
    split at hstep <;> cases hstep
    · refine h.check hpc (by simp) (by simp) rfl rfl rfl trivial ?_
      rw [hmain]
      exact .inl rfl
    · refine h.check hpc (by simp) (by simp) rfl rfl rfl trivial ?_
      rw [hmain]
      exact .inr (.inl rfl)
  | errorReconnect => simp [hpc] at hstep
  | _ => simp [hpc, Pc.role] at hrole

/-- The owner gives the token back. -/
theorem Flowing.endProcessing (h : Flowing R s) (hpc : s.pc = .endLoop) :
    Keeps v R s s.endProcessing := by
  have hst := h.stage
  rw [hpc] at hst
  -- the reader has nothing in hand where it goes next
  have hhand : s.endProcessing.main.hand = s.main.hand := by
    cases hm : s.main with
    | inBuffer eof => cases eof <;> simp [Sys.endProcessing, hm, Main.hand]
    | _ => simp [Sys.endProcessing, hm, Main.hand]
  refine ⟨{ h with
    cache := h.cache.congr rfl rfl rfl rfl rfl, facts := trivial, stage := ?_,
    owned := by simp [Sys.endProcessing], returned := ?_, bufs := ?_ }, rfl, rfl, ?_⟩
  · show Stage s.f.cacheLines .idle s.endProcessing.main
    cases hm : s.main with
    | inBuffer eof => cases eof <;> simp [Sys.endProcessing, hm, Stage]
    | _ => simp_all [Sys.endProcessing, Stage, Pc.role]
  · intro hret
    have := h.returned hret
    rcases this with hm | hm <;> simp [Sys.endProcessing, hm]
  · intro b hb
    exact h.bufs b (by simpa [hpc, Pc.pulled, Sys.endProcessing] using hb)
  · show s.dequeued.flatMap (Buf.stands v) ++ account v s.f .idle ++ s.endProcessing.main.hand = _
    rw [hhand, Sys.accounted, hpc]
    rfl

/-- One step of the loop in `endProcessing`. -/
theorem Flowing.finishStep {cfg : Config} {ok : Bool} {s' : Sys} (h : Flowing R s)
    (hpc : s.pc = .endLoop) (hstep : ownerStep cfg ok s = some s') : Keeps v R s s' := by
  have hst := h.stage
  rw [hpc] at hst
  simp only [ownerStep, hpc] at hstep
  split at hstep <;> cases hstep
  · have hflags := h.flags (v := v) { s.f with reconnectPending := false }
      ⟨rfl, rfl, rfl, rfl, rfl, rfl, rfl, rfl, rfl⟩
    refine hflags.trans (hflags.flowing.check hpc (by simp) (by simp) rfl rfl rfl trivial ?_)
    show Stage s.f.cacheLines (.flush .endProcessing) s.main
    cases hm : s.main <;> simp_all [Stage, Pc.role]
  · exact h.endProcessing hpc

/-- A flush finds the queue free and hands over its piece. -/
theorem Flowing.sendStep {cfg : Config} {ok : Bool} {s' : Sys} {ret : Ret} {i : Option Nat}
    {line : Flushed} (h : Flowing R s) (hR : R s.f.dropped) (hpc : s.pc = .flushSend ret i line)
    (hslot : s.f.writeBufCh = none) (hstep : ownerStep cfg ok s = some s') :
    Goes v R s (.owner ok) [] (some line) s' := by
  have hfacts := h.facts
  have hst := h.stage
  rw [hpc] at hfacts hst
  simp only [Output.ownerStep, hpc, Sys.trySend, hslot, Option.some.injEq] at hstep
  subst hstep
  cases i with
  | none => exact h.sentWarning hR hpc hslot hfacts hst
  | some i => exact h.sentLine hpc hslot hfacts hst

theorem Flowing.ownerStep {cfg : Config} {ok : Bool} {s' : Sys} (h : Flowing R s)
    (hR : R s.f.dropped) (hstep : ownerStep cfg ok s = some s') :
    Goes v R s (.owner ok) s.passedOver s.sending s' := by
  by_cases hpassed : s.passedOver = []
  · by_cases hsending : s.sending = none
    · rw [hpassed, hsending]
      cases hrole : s.pc.role with
      | buffer => exact h.bufferStep hrole hstep
      | flush ret => exact h.flushStep hpassed hsending hrole hstep
      | error => exact (h.errorStep hrole hstep).goes
      | finish =>
        have hpc : s.pc = .endLoop := by cases hp : s.pc <;> simp [hp, Pc.role] at hrole ⊢
        exact (h.finishStep hpc hstep).goes
      | idle =>
        have hpc : s.pc = .idle := by cases hp : s.pc <;> simp [hp, Pc.role] at hrole ⊢
        simp [Output.ownerStep, hpc] at hstep
    · rw [hpassed]
      unfold Sys.sending at hsending ⊢
      split at hsending
      · rename_i ret i line hpc
        by_cases hslot : s.f.writeBufCh.isNone
        · simp only [hslot, if_true]
          exact h.sendStep hR hpc (Option.isNone_iff_eq_none.mp hslot) hstep
        · exact absurd (if_neg hslot) hsending
      · exact absurd rfl hsending
  · have hst := h.stage
    unfold Sys.passedOver at hpassed ⊢
    split at hpassed
    · rename_i ret i hpc
      split at hpassed
      · rename_i line hline
        by_cases hempty : (filterLine line).isEmpty
        · simp only [Output.ownerStep, Sys.sending, hpc, hline, hempty, if_true,
            Option.some.injEq] at hstep ⊢
          subst hstep
          rw [hpc] at hst
          exact h.skipLine hpc hline (List.isEmpty_iff.mp hempty) hst
        · exact absurd (if_neg hempty) hpassed
      · exact absurd rfl hpassed
    · exact absurd rfl hpassed

/-- A wait ends; without a closed checker it ends in what it waited for. -/
theorem Flowing.wakeOwner {failed : Bool} {s' : Sys} (h : Flowing R s)
    (hstep : wakeOwner failed s = some s') : Keeps v R s s' := by
  have hst := h.stage
  have hfacts := h.facts
  unfold Output.wakeOwner Output.wakeOwner.reconnected at hstep
  cases hpc : s.pc with
  | sendWait buf remaining =>
    rw [hpc] at hst hfacts
    simp only [hpc] at hstep
    split at hstep <;> cases hstep
    exact h.check hpc (by simp) (by simp) rfl rfl rfl hfacts hst
  | enqueueWait buf after remaining =>
    rw [hpc] at hst hfacts
    simp only [hpc] at hstep
    split at hstep <;> cases hstep
    exact h.check hpc (by simp) (by simp) rfl rfl rfl hfacts hst
  | flushWait ret i line =>
    rw [hpc] at hst hfacts
    simp only [hpc] at hstep
    split at hstep <;> cases hstep
    cases i <;> exact h.check hpc (by simp) (by simp) rfl rfl rfl hfacts hst
  | sendReconnect buf remaining =>
    rw [hpc] at hst hfacts
    cases failed with
    | true => cases hc : s.checker <;> simp [hpc, hc, h.checkersOpen] at hstep
    | false =>
      simp only [hpc, Bool.false_eq_true, if_false] at hstep
      split at hstep <;> cases hstep
      exact h.check hpc (by simp) (by simp) rfl rfl rfl hfacts hst
  | errorReconnect =>
    rw [hpc] at hst hfacts
    cases failed with
    | true => cases hc : s.checker <;> simp [hpc, hc, h.checkersOpen] at hstep
    | false =>
      simp only [hpc, Bool.false_eq_true, if_false] at hstep
      split at hstep <;> cases hstep
      refine h.check hpc (by simp) (by simp) rfl rfl rfl trivial ?_
      cases hm : s.main <;> simp_all [Stage, Pc.role]
  | _ => simp [hpc] at hstep

end Handlers

/-! ## The runs -/

section Runs

variable {s : Sys}

/-- No write error and no closed checker. -/
def Act.sound : Act → Bool
  | .writeFail | .closeChecker _ => false
  | _ => true

/-- The line an act passes over. -/
def Sys.passedBy (s : Sys) : Act → Text
  | .owner _ => s.passedOver
  | _ => []

/-- The piece an act hands over. -/
def Sys.sentBy (s : Sys) : Act → Option Flushed
  | .owner _ => s.sending
  | _ => none

/-- Clients, flags and requests move; what is accounted for stays. -/
structure Beside (s t : Sys) : Prop where
  store : SameStore t.f s.f
  pc : t.pc = s.pc
  main : t.main = s.main
  writer : t.writer = s.writer
  output : t.output = s.output
  checkerClosed : t.checkerClosed = s.checkerClosed
  input : t.input = s.input
  reports : t.reports = s.reports

theorem Flowing.beside {t : Sys} (h : Flowing R s) (hb : Beside s t) : Keeps v R s t := by
  have hk := (h.flags (v := v) t.f hb.store).flowing
  have hdeq : t.dequeued = s.dequeued := by
    rw [Sys.dequeued, Sys.dequeued, hb.output, hb.writer]
  refine ⟨⟨hk.cache, hb.pc ▸ hk.facts, ?_, hb.pc ▸ hk.owned, hb.main ▸ hk.returned,
    hdeq ▸ hk.sent, hb.pc ▸ hk.bufs, hk.noWriteError, hb.checkerClosed ▸ hk.checkersOpen⟩,
    hb.input, hb.reports, ?_⟩
  · rw [hb.pc, hb.main]
    exact hk.stage
  · rw [Sys.accounted, Sys.accounted, hdeq, hb.pc, hb.main, hb.store.account]

/-- The reader, or a notification, takes the free token. -/
theorem Flowing.takeToken (h : Flowing R s) (hfree : s.f.processing = false)
    {main : Main} {pc : Pc} (hne : pc ≠ .idle) (hflushed : pc.flushed = 0)
    (hpulled : pc.pulled = []) (hhand : pc.holding v ++ main.hand = s.main.hand)
    (hfacts : ∀ f, PcFacts f pc) (hstage : Stage s.f.cacheLines pc.role main)
    (hmain : main = s.main ∨ s.f.returned = false) :
    Keeps v R s ({ s with main := main }.takeToken pc) := by
  have hidle := h.owned.mpr hfree
  refine ⟨{ h with
    cache := h.cache.congr rfl rfl rfl rfl rfl, facts := hfacts _, stage := hstage,
    owned := by simp [Sys.takeToken, hne], returned := ?_, bufs := ?_ }, rfl, rfl, ?_⟩
  · intro hret
    rcases hmain with hm | hm
    · rw [hm]
      exact h.returned hret
    · exact absurd (hret.symm.trans hm) (by simp)
  · intro b hb
    have hb' : b ∈ s.f.writeBufCh.toList ++ pc.pulled := hb
    rw [hpulled, List.append_nil] at hb'
    exact h.bufs b (List.mem_append_left _ hb')
  · show s.dequeued.flatMap (Buf.stands v) ++ account v s.f pc ++ main.hand = s.accounted v
    have hflushed0 : Pc.idle.flushed = 0 := rfl
    have hhand0 : Pc.idle.holding v = [] := rfl
    simp [Sys.accounted, account, hidle, hflushed, hflushed0, hhand0, ← hhand]

/-- The writer takes the queued buffer: the bytes stay accounted for. -/
theorem Flowing.dequeue {b : Buf} (h : Flowing R s) (hw : s.writer = .waiting)
    (hslot : s.f.writeBufCh = some b) :
    Keeps v R s { s with f := { s.f with writeBufCh := none }, writer := .holding b } := by
  refine ⟨{ h with
    cache := h.cache.congr rfl rfl rfl rfl rfl, facts := h.facts.congr rfl rfl rfl,
    sent := ?_, bufs := ?_ }, rfl, rfl, ?_⟩
  · intro c hc
    simp only [Sys.dequeued, List.mem_append, List.mem_singleton] at hc
    rcases hc with hc | rfl
    · exact h.sent c (by simp only [Sys.dequeued, List.mem_append]; exact .inl hc)
    · have hgood := h.bufs c (by simp [hslot])
      exact ⟨hgood.exact, hgood.runs⟩
  · intro c hc
    exact h.bufs c (List.mem_append_right _ hc)
  · simp [Sys.accounted, Sys.dequeued, account, hw, hslot]

/-- A write moves a buffer from the writer's hand to the stream. -/
theorem Flowing.write {b : Buf} {c : Nat} (h : Flowing R s) (hw : s.writer = .holding b) :
    Keeps v R s { s with output := s.output ++ [(c, b)], writer := .waiting } := by
  have hdeq : Sys.dequeued { s with output := s.output ++ [(c, b)], writer := .waiting } =
      s.dequeued := by
    simp [Sys.dequeued, hw]
  refine ⟨{ h with sent := ?_ }, rfl, rfl, ?_⟩
  · rw [hdeq]
    exact h.sent
  · rw [Sys.accounted, hdeq]
    rfl

/-- The reader goes on from where it is not inside a handler. -/
theorem Flowing.reader (h : Flowing R s) (main : Main) (hm : s.main = .reading)
    (hstage : ∀ r, Stage s.f.cacheLines r .reading → Stage s.f.cacheLines r main)
    (bytes : List UInt8) (hhand : main.hand = plain bytes) :
    Flowing R { s with input := s.input ++ plain bytes, main := main } ∧
      Sys.accounted v { s with input := s.input ++ plain bytes, main := main } =
        s.accounted v ++ plain bytes := by
  have hst := h.stage
  rw [hm] at hst
  refine ⟨{ h with stage := hstage _ hst, returned := ?_ }, ?_⟩
  · intro hret
    have := h.returned hret
    simp [hm] at this
  · have hnone : s.main.hand = [] := by rw [hm]; rfl
    show s.dequeued.flatMap (Buf.stands v) ++ account v s.f s.pc ++ main.hand = _
    rw [Sys.accounted, hnone, hhand, List.append_nil]

theorem Flowing.opStep {cfg : Config} {ok : Bool} {s' : Sys} (h : Flowing R s)
    (hstep : opStep cfg ok s = some s') : Keeps v R s s' := by
  unfold Output.opStep at hstep
  repeat' split at hstep
  all_goals cases hstep
  all_goals
    exact h.beside ⟨⟨rfl, rfl, rfl, rfl, rfl, rfl, rfl, rfl, rfl⟩, rfl, rfl, rfl, rfl, rfl, rfl, rfl⟩

/-- **The step lemma.** -/
theorem Flowing.next {cfg : Config} {s' : Sys} {a : Act} (h : Flowing R s) (hR : R s.f.dropped)
    (hok : a.sound = true) (hstep : next cfg s a = some s') :
    Goes v R s a (s.passedBy a) (s.sentBy a) s' := by
  have hnot : s.main ≠ .closing → s.main ≠ .closed → s.f.returned = false := by
    intro h1 h2
    rw [Bool.eq_false_iff]
    exact fun hret => (h.returned hret).elim h1 h2
  cases a with
  | owner ok => exact h.ownerStep hR hstep
  | wake failed => exact (h.wakeOwner hstep).goes
  | op ok => exact (h.opStep hstep).goes
  | read bytes eof =>
    simp only [Output.next] at hstep
    split at hstep
    · rename_i hm
      split at hstep <;> cases hstep
      · rename_i hnil
        obtain ⟨hflowing, hacc⟩ := h.reader (if eof then .wantError else .reading) hm
          (fun _ hr => by cases eof <;> exact hr) [] (by cases eof <;> rfl)
        rw [show plain [] = [] from rfl, List.append_nil] at hflowing hacc
        exact ⟨hflowing, .keep rfl rfl (hacc.trans (List.append_nil _))⟩
      · obtain ⟨hflowing, hacc⟩ := h.reader (.wantBuffer (plain bytes) eof) hm
          (fun _ hr => hr) bytes rfl
        exact ⟨hflowing, .read bytes rfl rfl hacc⟩
    · exact absurd hstep (by simp)
  | begin =>
    simp only [Output.next] at hstep
    split at hstep
    · exact absurd hstep (by simp)
    · rename_i hfree
      rw [Bool.not_eq_true] at hfree
      split at hstep <;> cases hstep
      · rename_i buf eof hm
        exact Keeps.goes (h.takeToken hfree (by simp) rfl rfl (by simp [hm, Pc.holding, Main.hand])
          (fun _ => trivial) (.inl rfl) (.inr (hnot (by simp [hm]) (by simp [hm]))))
      · rename_i hm
        exact Keeps.goes (h.takeToken hfree (by simp) rfl rfl (by simp [hm, Pc.holding, Main.hand])
          (fun _ => trivial) (.inl rfl) (.inr (hnot (by simp [hm]) (by simp [hm]))))
  | shutdown =>
    have hst := h.stage
    simp only [Output.next] at hstep
    split at hstep
    · rename_i hm
      split at hstep <;> cases hstep
      rw [hm] at hst
      refine ⟨{ h with
        cache := h.cache.congr rfl rfl rfl rfl rfl, facts := h.facts.congr rfl rfl rfl,
        stage := hst, returned := fun _ => .inl rfl }, .keep rfl rfl ?_⟩
      rw [Sys.accounted, Sys.accounted, hm]
      rfl
    · rename_i hm
      split at hstep <;> cases hstep
      rw [hm] at hst
      refine ⟨{ h with
        cache := h.cache.congr rfl rfl rfl rfl rfl, facts := h.facts.congr rfl rfl rfl,
        stage := hst, returned := fun _ => .inr rfl }, .keep rfl rfl ?_⟩
      rw [Sys.accounted, Sys.accounted, hm]
      rfl
    · exact absurd hstep (by simp)
  | onReconnected =>
    simp only [Output.next] at hstep
    split at hstep
    · exact absurd hstep (by simp)
    · have hn : Keeps v R s { s with notifications := s.notifications - 1 } :=
        h.beside
          ⟨⟨rfl, rfl, rfl, rfl, rfl, rfl, rfl, rfl, rfl⟩, rfl, rfl, rfl, rfl, rfl, rfl, rfl⟩
      split at hstep
      · cases hstep
        exact hn.goes
      · split at hstep <;> cases hstep
        · exact (hn.trans (hn.flowing.flags { s.f with reconnectPending := true }
            ⟨rfl, rfl, rfl, rfl, rfl, rfl, rfl, rfl, rfl⟩)).goes
        · rename_i hfree
          rw [Bool.not_eq_true] at hfree
          have hst := h.stage
          rw [h.owned.mpr hfree] at hst
          refine Keeps.goes (hn.trans (hn.flowing.takeToken hfree (by simp) rfl rfl rfl
            (fun _ => trivial) ?_ (.inl rfl)))
          cases hm : s.main <;> simp_all [Stage, Pc.role]
  | dequeue =>
    simp only [Output.next] at hstep
    split at hstep <;> cases hstep
    exact (h.dequeue ‹_› ‹_›).goes
  | write =>
    simp only [Output.next] at hstep
    split at hstep <;> cases hstep
    exact (h.write ‹_›).goes
  | writeFail | closeChecker _ => exact absurd hok (by simp [Act.sound])
  | _ =>
    simp only [Output.next] at hstep
    repeat' split at hstep
    all_goals cases hstep
    all_goals
      exact Keeps.goes (h.beside
        ⟨⟨rfl, rfl, rfl, rfl, rfl, rfl, rfl, rfl, rfl⟩, rfl, rfl, rfl, rfl, rfl, rfl, rfl⟩)

theorem flowing_start (cfg : Config) : Flowing R (start cfg) where
  cache := ⟨by simp [start], by simp [start], rfl, rfl, fun _ => rfl, by simp [start], .inl rfl⟩
  facts := trivial
  stage := .inl rfl
  owned := by simp [start]
  returned := by simp [start]
  sent := by simp [start, Sys.dequeued]
  bufs := by simp [start, Pc.pulled]
  noWriteError := rfl
  checkersOpen := fun _ => rfl

end Runs

end Tsshd.Output

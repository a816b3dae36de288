import Tsshd.Output.Cells

/-!
# The places of a redraw marker

A client that redraws its screen sends a marker along with the resize.
`SetSize` leaves it in `discardMarker`, and `handleBuffer` puts it in front of
the next chunk, after it has cleared the cache. In every state the marker has a
`Place`: with the resize, pending, in the hand of the handler, queued, or given
to the stream.

From the handler the marker goes to the queue and not to the cache, for it has
no LF, and the cache was just cleared (`Place.handStep`). There is one way into
the cache: the handler finds the queue full and the client timed out, pulls the
queued chunk back, and splits it behind its first LF. If that chunk has one, the
marker is behind it; `Sys.pullsCleanly` says that it has none.
-/

namespace Tsshd.Output

/-- A byte of no marker. -/
def Cell.Unowned (x : Cell) : Prop := x.owner = none

/-- The marker is in a text, once and contiguous, and no other byte of a marker
is. -/
def Once (mk t : Text) : Prop :=
  ∃ pre post, t = pre ++ mk ++ post ∧ Only Cell.Unowned pre ∧ Only Cell.Unowned post

/-- And no LF is in front of it. -/
def Leads (mk t : Text) : Prop :=
  ∃ pre post, t = pre ++ mk ++ post ∧ Only Cell.Unowned pre ∧ Only Cell.Unowned post ∧
    ∀ x ∈ pre, x.isLF = false

/-- What a client sends as a marker: bytes of its own, and no LF. -/
structure IsMarker (mk : Text) : Prop where
  owned : ∃ x ∈ mk, x.owner ≠ none
  lf : ∀ x ∈ mk, x.isLF = false

section Text

variable {mk t u : Text}

theorem Once.append_left (h : Once mk t) (hu : Only Cell.Unowned u) : Once mk (u ++ t) := by
  obtain ⟨pre, post, rfl, hpre, hpost⟩ := h
  exact ⟨u ++ pre, post, by simp, Only.append.mpr ⟨hu, hpre⟩, hpost⟩

theorem Once.append_right (h : Once mk t) (hu : Only Cell.Unowned u) : Once mk (t ++ u) := by
  obtain ⟨pre, post, rfl, hpre, hpost⟩ := h
  exact ⟨pre, post ++ u, by simp, hpre, Only.append.mpr ⟨hpost, hu⟩⟩

theorem Leads.once (h : Leads mk t) : Once mk t := by
  obtain ⟨pre, post, ht, hpre, hpost, _⟩ := h
  exact ⟨pre, post, ht, hpre, hpost⟩

theorem Leads.front (hu : Only Cell.Unowned u) : Leads mk (mk ++ u) :=
  ⟨[], u, rfl, .nil, hu, by simp⟩

theorem Leads.append_right (h : Leads mk t) (hu : Only Cell.Unowned u) : Leads mk (t ++ u) := by
  obtain ⟨pre, post, rfl, hpre, hpost, hlf⟩ := h
  exact ⟨pre, post ++ u, by simp, hpre, Only.append.mpr ⟨hpost, hu⟩, hlf⟩

theorem Leads.append_left (h : Leads mk t) (hu : Only Cell.Unowned u)
    (hlf : ∀ x ∈ u, x.isLF = false) : Leads mk (u ++ t) := by
  obtain ⟨pre, post, rfl, hpre, hpost, hlf'⟩ := h
  refine ⟨u ++ pre, post, by simp, Only.append.mpr ⟨hu, hpre⟩, hpost, fun x hx => ?_⟩
  rcases List.mem_append.mp hx with hx | hx
  · exact hlf x hx
  · exact hlf' x hx

/-- A cut behind the first LF leaves the marker in front. -/
theorem Leads.cut (hmk : IsMarker mk) (h : Leads mk t) {line left : Text}
    (hcut : cutAfter Cell.isLF t = some (line, left)) :
    Leads mk line ∧ Only Cell.Unowned left := by
  obtain ⟨pre, post, rfl, hpre, hpost, hlf⟩ := h
  have hfree : ∀ x ∈ pre ++ mk, x.isLF = false := by
    intro x hx
    rcases List.mem_append.mp hx with hx | hx
    · exact hlf x hx
    · exact hmk.lf x hx
  rw [cutAfter_of_append hfree, Option.map_eq_some_iff] at hcut
  obtain ⟨⟨a, b⟩, hab, heq⟩ := hcut
  simp only [Prod.mk.injEq] at heq
  obtain ⟨rfl, rfl⟩ := heq
  obtain ⟨ha, hb⟩ := hpost.cut hab
  exact ⟨⟨pre, a, rfl, hpre, ha, hlf⟩, hb⟩

end Text

/-! ## The places of a marker -/

/-- The cache was just cleared. -/
structure Forwarder.Blank (f : Forwarder) : Prop where
  cache : f.cacheLines = []
  newLine : f.chHasNewLine = false
  count : f.noNewLineCount = 0

/-- A chunk with the marker in front. -/
def Fronted (mk buf : Text) : Prop := ∃ post, buf = mk ++ post ∧ Only Cell.Unowned post

/-- The handler has the marker in hand. -/
def Pc.Carries (mk : Text) (f : Forwarder) : Pc → Prop
  | .stopDiscard marker buf | .clearForMarker marker buf => marker = mk ∧ Only Cell.Unowned buf
  | .takeDiscard buf | .clearForDiscard buf | .checkTimeout buf | .checkCache buf
  | .splitTimeout buf | .splitKeep buf => Fronted mk buf ∧ f.Blank
  | .send buf remaining | .sendTimeout buf remaining | .sendKeep buf remaining
  | .sendReconnect buf remaining | .pullBack buf remaining | .sendReturned buf remaining
  | .sendWait buf remaining => Fronted mk buf ∧ Only Cell.Unowned remaining
  | .enqueue buf after remaining | .enqueueReturned buf after remaining
  | .enqueueWait buf after remaining =>
    Leads mk buf.text ∧ Only Cell.Unowned after.text ∧ Only Cell.Unowned remaining
  | _ => False

/-- The queue has no bytes of a marker. -/
def Sys.SlotClean (s : Sys) : Prop := ∀ b ∈ s.f.writeBufCh, Only Cell.Unowned b.text

/-- What was dequeued has none. -/
def Sys.OutClean (s : Sys) : Prop := ∀ b ∈ s.dequeued, Only Cell.Unowned b.text

/-- Where the marker is. Everything else is free of markers. -/
inductive Place (mk : Text) (s : Sys) : Prop
  | requested (size : Int × Int) (hop : s.op = .resizeStore size true (some mk))
      (hmarker : s.f.discardMarker = none) (hin : s.Inside Cell.Unowned)
      (hslot : s.SlotClean) (hout : s.OutClean)
  | pending (hop : s.op.marker = none) (hmarker : s.f.discardMarker = some mk)
      (hin : s.Inside Cell.Unowned) (hslot : s.SlotClean) (hout : s.OutClean)
  | inHand (hop : s.op.marker = none) (hmarker : s.f.discardMarker = none)
      (hin : s.Stored Cell.Unowned) (hpc : s.pc.Carries mk s.f)
      (hslot : s.SlotClean) (hout : s.OutClean)
  | queued (b : Buf) (hop : s.op.marker = none) (hmarker : s.f.discardMarker = none)
      (hin : s.Inside Cell.Unowned) (hfull : s.f.writeBufCh = some b) (hb : Leads mk b.text)
      (hout : s.OutClean)
  | given (earlier : List Buf) (b : Buf) (later : List Buf) (hop : s.op.marker = none)
      (hmarker : s.f.discardMarker = none) (hin : s.Inside Cell.Unowned) (hslot : s.SlotClean)
      (hout : s.dequeued = earlier ++ b :: later) (hb : Once mk b.text)
      (hrest : ∀ c ∈ earlier ++ later, Only Cell.Unowned c.text)

/-- Everything the forwarder has given to the stream, has queued, has cached or
has in hand. -/
def Sys.carried (s : Sys) : Text :=
  s.dequeued.flatMap Buf.text ++ s.f.writeBufCh.toList.flatMap Buf.text ++
    s.f.cacheLines.flatten ++ s.pc.cells

/-! ## The handler runs to its end -/

/-- The writes succeed, the checkers stay open and so does the session. -/
def Act.healthy : Act → Bool
  | .writeFail | .closeChecker _ | .closeSession => false
  | _ => true

/-- Nothing cuts `handleBuffer` short. -/
structure Running (s : Sys) : Prop where
  owned : s.pc = .idle ∨ s.f.processing = true
  reading : s.pc.role = .buffer → ∃ eof, s.main = .inBuffer eof
  returned : s.f.returned = true → s.main = .closing ∨ s.main = .closed
  noWriteError : s.f.writeError = false
  checkersOpen : ∀ c, s.checkerClosed c = false
  notClosed : s.closed = false

theorem Running.notReturned {s : Sys} (h : Running s) (hrole : s.pc.role = .buffer) :
    (s.f.returned || s.f.writeError) = false := by
  rw [h.noWriteError, Bool.or_false, Bool.eq_false_iff]
  intro hret
  obtain ⟨eof, hm⟩ := h.reading hrole
  rcases h.returned hret with hm' | hm' <;> exact absurd (hm.symm.trans hm') (by simp)

/-- Only `begin` enters `handleBuffer`. -/
theorem ownerStep_role {cfg : Config} {ok : Bool} {s s' : Sys}
    (hstep : ownerStep cfg ok s = some s') (h : s'.pc.role = .buffer) : s.pc.role = .buffer := by
  have hret : ∀ ret : Ret, ret.pc.role ≠ .buffer := by rintro (_ | _) <;> simp [Ret.pc, Pc.role]
  unfold ownerStep Sys.trySend at hstep
  cases hpc : s.pc <;> first | rfl | simp only [hpc] at hstep
  case flushSend ret i line =>
    cases hstep
    cases i <;> split at h <;>
      exact absurd h (by simp [Sys.goto, Sys.flushSent, Sys.flushNext, Pc.role])
  case flushTimeout ret i line =>
    cases i <;> split at hstep <;> cases hstep <;>
      first | exact absurd h (hret ret) | exact absurd h (by simp [Sys.goto, Pc.role])
  all_goals repeat' split at hstep
  all_goals cases hstep
  all_goals
    first
    | exact absurd h (hret _)
    | exact absurd h (by simp [Sys.goto, Sys.flushNext, Sys.endProcessing, Pc.role])

/-- The steps of the token owner. -/
theorem Running.ownerStep {cfg : Config} {ok : Bool} {s s' : Sys} (h : Running s)
    (hstep : ownerStep cfg ok s = some s') : Running s' := by
  have hbusy : s.f.processing = true :=
    h.owned.resolve_left fun hidle => absurd hstep (by simp [Output.ownerStep, hidle])
  by_cases hpc : s.pc = .endLoop
  · rcases ownerStep_endLoop hpc hstep with rfl | rfl
    · exact { h with owned := .inr hbusy, reading := fun hr => absurd hr (by simp [Pc.role]) }
    · refine { h with
        owned := .inl rfl, reading := fun hr => absurd hr (by simp [Sys.endProcessing, Pc.role])
        returned := fun hret => ?_ }
      rcases h.returned hret with hm | hm <;> simp [Sys.endProcessing, hm]
  · have hframe := ownerStep_frame hpc hstep
    refine ⟨.inr (hframe.processing.trans hbusy), fun hr => ?_, ?_, ?_, ?_, ?_⟩
    · rw [hframe.main]
      exact h.reading (ownerStep_role hstep hr)
    · rw [hframe.main, hframe.returned]
      exact h.returned
    · rw [hframe.writeError]
      exact h.noWriteError
    · rw [hframe.checkerClosed]
      exact h.checkersOpen
    · rw [hframe.closed]
      exact h.notClosed

theorem Running.next {cfg : Config} {a : Act} {s s' : Sys} (h : Running s)
    (ha : a.healthy = true) (hstep : next cfg s a = some s') : Running s' := by
  -- while the reader is elsewhere, no handler of a chunk runs
  have hnot : ∀ m, s.main = m → (∀ eof, m ≠ .inBuffer eof) → s.pc.role ≠ .buffer := by
    intro m hm hne hr
    obtain ⟨eof, heof⟩ := h.reading hr
    exact hne eof (hm.symm.trans heof)
  cases a with
  | owner ok => exact h.ownerStep hstep
  | wake failed =>
    obtain ⟨pc, rfl, hne, hrole⟩ := wakeOwner_goto hstep
    exact { h with
      owned := .inr (h.owned.resolve_left hne), reading := fun hr => h.reading (hrole hr) }
  | read bytes eof =>
    simp only [Output.next] at hstep
    split at hstep
    · rename_i hm
      have hr := hnot _ hm (by simp)
      have hret : s.f.returned = true → False := fun hret => by
        rcases h.returned hret with h' | h' <;> exact absurd (hm.symm.trans h') (by simp)
      split at hstep <;> cases hstep <;>
        exact { h with reading := fun hr' => absurd hr' hr, returned := fun hret' => (hret hret').elim }
    · exact absurd hstep (by simp)
  | begin =>
    simp only [Output.next] at hstep
    split at hstep
    · exact absurd hstep (by simp)
    split at hstep
    · rename_i hm
      cases hstep
      refine { h with
        owned := .inr rfl, reading := fun _ => ⟨_, rfl⟩, returned := fun hret => ?_ }
      rcases h.returned hret with h' | h' <;> exact absurd (hm.symm.trans h') (by simp)
    · rename_i hm
      cases hstep
      refine { h with
        owned := .inr rfl, reading := fun hr => absurd hr (by simp [Sys.takeToken, Pc.role])
        returned := fun hret => ?_ }
      rcases h.returned hret with h' | h' <;> exact absurd (hm.symm.trans h') (by simp)
    · exact absurd hstep (by simp)
  | shutdown =>
    simp only [Output.next] at hstep
    split at hstep
    · rename_i hm
      have hr := hnot _ hm (by simp)
      split at hstep <;> cases hstep
      exact { h with reading := fun hr' => absurd hr' hr, returned := fun _ => .inl rfl }
    · rename_i hm
      have hr := hnot _ hm (by simp)
      split at hstep <;> cases hstep
      exact { h with reading := fun hr' => absurd hr' hr, returned := fun _ => .inr rfl }
    · exact absurd hstep (by simp)
  | onReconnected =>
    simp only [Output.next] at hstep
    repeat' split at hstep
    all_goals cases hstep
    · exact { h with }
    · exact { h with }
    · exact { h with
        owned := .inr rfl, reading := fun hr => absurd hr (by simp [Sys.takeToken, Pc.role]) }
  | op ok =>
    simp only [Output.next, opStep] at hstep
    repeat' split at hstep
    all_goals cases hstep
    all_goals exact { h with }
  | writeFail | closeChecker _ | closeSession => simp [Act.healthy] at ha
  | _ =>
    simp only [Output.next] at hstep
    repeat' split at hstep
    all_goals cases hstep
    all_goals exact { h with }

/-! ## The steps of the handler -/

/-- The condition on a pull-back: with a marker in hand, the chunk it takes back
from the queue has no LF. -/
def Sys.pullsCleanly (s : Sys) : Bool :=
  match s.pc, s.f.writeBufCh with
  | .pullBack buf _, some b =>
    buf.all (fun x => x.owner.isNone) || b.text.all (fun x => !x.isLF)
  | _, _ => true

section Handler

variable {mk : Text} {cfg : Config} {ok : Bool} {s s' : Sys}

/-- Only the unowned cells count. -/
theorem unowned (x : Cell) (h : x.owner = none) : x.Unowned := h

theorem Env.marker_none (h : Env s s') (hm : s.f.discardMarker = none) :
    s'.f.discardMarker = none := by
  rcases h.marker with h | ⟨h, _⟩
  · exact h.trans hm
  · exact h

theorem Env.dequeued (h : Env s s') : s'.dequeued = s.dequeued := by
  simp [Sys.dequeued, h.output, h.writer]

theorem Env.outClean (h : Env s s') (hout : s.OutClean) : s'.OutClean := by
  simpa [Sys.OutClean, h.dequeued] using hout

theorem pullsCleanly_lf (hmk : IsMarker mk) (h : s.pullsCleanly = true) {post remaining : Text}
    {b : Buf} (hpc : s.pc = .pullBack (mk ++ post) remaining) (hb : s.f.writeBufCh = some b) :
    ∀ x ∈ b.text, x.isLF = false := by
  obtain ⟨y, hy, howned⟩ := hmk.owned
  simp only [Sys.pullsCleanly, hpc, hb, Bool.or_eq_true, List.all_eq_true] at h
  rcases h with h | h
  · exact absurd (Option.isNone_iff_eq_none.mp (h y (List.mem_append_left _ hy))) howned
  · exact fun x hx => by simpa using h x hx

/-- The pulled and merged buffer is put back up to its first LF. -/
theorem Place.splitPulled (hmk : IsMarker mk) (hop : s.op.marker = none)
    (hmarker : s.f.discardMarker = none) (hin : s.Stored Cell.Unowned) (hslot : s.SlotClean)
    (hout : s.OutClean) {buf : Buf} (hbuf : Leads mk buf.text) {remaining : Text}
    (hrem : Only Cell.Unowned remaining) : Place mk (s.splitPulled buf remaining) := by
  unfold Sys.splitPulled
  split
  · split <;> exact .inHand hop hmarker ⟨hin.cache, hin.tmux, hin.main⟩ ⟨hbuf, .nil, hrem⟩ hslot hout
  · rename_i line left hcut
    obtain ⟨hline, hleft⟩ := hbuf.cut hmk hcut
    refine .inHand hop hmarker ⟨hin.cache, hin.tmux, hin.main⟩ ⟨?_, hleft, hrem⟩ hslot hout
    rw [Buf.text_take, ← cutAfter_append hcut, List.take_left]
    exact hline

/-- A handler with the marker in hand passes it on to the queue. -/
theorem Place.handStep (hmk : IsMarker mk) (hrun : Running s)
    (hclean : s.pullsCleanly = true) (hop : s.op.marker = none)
    (hmarker : s.f.discardMarker = none) (hin : s.Stored Cell.Unowned)
    (hcarries : s.pc.Carries mk s.f) (hslot : s.SlotClean) (hout : s.OutClean)
    (hstep : ownerStep cfg ok s = some s') : Place mk s' := by
  have henv := ownerStep_env hstep
  have hop' : s'.op.marker = none := by rw [henv.op]; exact hop
  have hmarker' := henv.marker_none hmarker
  have hout' := henv.outClean hout
  -- a step that keeps the marker in hand and the queue as it is
  have hstays : s'.Stored Cell.Unowned → s'.f.writeBufCh = s.f.writeBufCh →
      s'.pc.Carries mk s'.f → Place mk s' := fun hin' hsame hpc =>
    .inHand hop' hmarker' hin' hpc (by simpa [Sys.SlotClean, hsame] using hslot) hout'
  unfold ownerStep at hstep
  cases hpc : s.pc with
  | stopDiscard marker buf =>
    rw [hpc] at hcarries
    simp only [hpc, Option.some.injEq] at hstep
    subst hstep
    exact hstays ⟨hin.cache, hin.tmux, hin.main⟩ rfl hcarries
  | clearForMarker marker buf =>
    rw [hpc] at hcarries
    simp only [hpc, Option.some.injEq] at hstep
    subst hstep
    obtain ⟨rfl, hbuf⟩ := hcarries
    exact hstays ⟨by simp [Sys.clear, Sys.goto, clearOutput], hin.tmux, hin.main⟩ rfl
      ⟨⟨buf, rfl, hbuf⟩, rfl, rfl, rfl⟩
  | takeDiscard buf =>
    rw [hpc] at hcarries
    obtain ⟨hbuf, hblank⟩ := hcarries
    simp only [hpc] at hstep
    split at hstep <;> cases hstep
    · exact hstays ⟨hin.cache, hin.tmux, hin.main⟩ rfl
        ⟨hbuf, hblank.cache, hblank.newLine, hblank.count⟩
    · exact hstays ⟨hin.cache, hin.tmux, hin.main⟩ rfl ⟨hbuf, hblank⟩
  | clearForDiscard buf =>
    rw [hpc] at hcarries
    simp only [hpc, Option.some.injEq] at hstep
    subst hstep
    exact hstays ⟨by simp [Sys.clear, Sys.goto, clearOutput], hin.tmux, hin.main⟩ rfl
      ⟨hcarries.1, rfl, rfl, rfl⟩
  | checkTimeout buf =>
    rw [hpc] at hcarries
    simp only [hpc, hcarries.2.newLine, Bool.false_and, Bool.false_eq_true, if_false,
      Option.some.injEq] at hstep
    subst hstep
    exact hstays ⟨hin.cache, hin.tmux, hin.main⟩ rfl hcarries
  | checkCache buf =>
    rw [hpc] at hcarries
    simp only [hpc, hcarries.2.cache, List.isEmpty_nil, if_true, Option.some.injEq] at hstep
    subst hstep
    exact hstays ⟨hin.cache, hin.tmux, hin.main⟩ rfl hcarries
  | splitTimeout buf =>
    rw [hpc] at hcarries
    simp only [hpc] at hstep
    split at hstep <;> cases hstep
    · exact hstays ⟨hin.cache, hin.tmux, hin.main⟩ rfl hcarries
    · exact hstays ⟨hin.cache, hin.tmux, hin.main⟩ rfl ⟨hcarries.1, .nil⟩
  | splitKeep buf =>
    rw [hpc] at hcarries
    obtain ⟨⟨post, rfl, hpost⟩, hblank⟩ := hcarries
    simp only [hpc] at hstep
    split at hstep
    · cases hstep
      exact hstays ⟨hin.cache, hin.tmux, hin.main⟩ rfl ⟨⟨post, rfl, hpost⟩, .nil⟩
    split at hstep
    · -- the marker has no LF, so the line starts with it
      rename_i line remaining hcut
      cases hstep
      rw [cutAfter_of_append hmk.lf, Option.map_eq_some_iff] at hcut
      obtain ⟨⟨a, b⟩, hab, heq⟩ := hcut
      simp only [Prod.mk.injEq] at heq
      obtain ⟨rfl, rfl⟩ := heq
      obtain ⟨ha, hb⟩ := hpost.cut hab
      exact hstays ⟨hin.cache, hin.tmux, hin.main⟩ rfl ⟨⟨a, rfl, ha⟩, hb⟩
    · simp only [hblank.count, Nat.zero_lt_succ, if_true, Option.some.injEq] at hstep
      subst hstep
      exact hstays ⟨hin.cache, hin.tmux, hin.main⟩ rfl ⟨⟨post, rfl, hpost⟩, .nil⟩
  | send buf remaining =>
    rw [hpc] at hcarries
    obtain ⟨⟨post, rfl, hpost⟩, hrem⟩ := hcarries
    simp only [hpc, Sys.trySend, Option.some.injEq] at hstep
    split at hstep <;> cases hstep
    · exact .queued _ hop' hmarker' ⟨⟨hin.cache, hin.tmux, hin.main⟩, hrem⟩ rfl
        (by simpa [Buf.text, Buf.frontText] using Leads.front hpost) hout'
    · exact hstays ⟨hin.cache, hin.tmux, hin.main⟩ rfl ⟨⟨post, rfl, hpost⟩, hrem⟩
  | sendTimeout buf remaining | sendKeep buf remaining =>
    rw [hpc] at hcarries
    simp only [hpc] at hstep
    split at hstep <;> cases hstep <;>
      exact hstays ⟨hin.cache, hin.tmux, hin.main⟩ rfl hcarries
  | pullBack buf remaining =>
    rw [hpc] at hcarries
    obtain ⟨⟨post, rfl, hpost⟩, hrem⟩ := hcarries
    simp only [hpc] at hstep
    split at hstep <;> cases hstep
    · rename_i b hb
      have hlf : ∀ x ∈ b.text, x.isLF = false := pullsCleanly_lf hmk hclean hpc hb
      have hleads : Leads mk (b.append (mk ++ post)).text := by
        rw [Buf.text_append]
        exact (Leads.front hpost).append_left (hslot b hb) hlf
      refine .splitPulled hmk ?_ ?_ ?_ ?_ ?_ hleads hrem
      · exact hop
      · exact hmarker
      · exact ⟨hin.cache, hin.tmux, hin.main⟩
      · simp [Sys.SlotClean]
      · exact hout
    · have hleads : Leads mk (Buf.text { raw := mk ++ post }) := by
        simpa [Buf.text, Buf.frontText] using Leads.front hpost
      exact .splitPulled hmk hop hmarker hin hslot hout hleads hrem
  | sendReturned buf remaining =>
    rw [hpc] at hcarries
    simp only [hpc, hrun.notReturned (by rw [hpc]; rfl), Bool.false_eq_true, if_false,
      Option.some.injEq] at hstep
    subst hstep
    exact hstays ⟨hin.cache, hin.tmux, hin.main⟩ rfl hcarries
  | enqueue buf after remaining =>
    rw [hpc] at hcarries
    obtain ⟨hbuf, hafter, hrem⟩ := hcarries
    simp only [hpc, Sys.trySend, Option.some.injEq] at hstep
    split at hstep <;> cases hstep
    · refine .queued buf hop' hmarker' ?_ (Sys.afterEnqueue_writeBufCh _ _ _ _) hbuf hout'
      refine Sys.Stored.afterEnqueue unowned ?_ cfg hafter hrem
      exact ⟨hin.cache, hin.tmux, hin.main⟩
    · exact hstays ⟨hin.cache, hin.tmux, hin.main⟩ rfl ⟨hbuf, hafter, hrem⟩
  | enqueueReturned buf after remaining =>
    rw [hpc] at hcarries
    simp only [hpc, hrun.notReturned (by rw [hpc]; rfl), Bool.false_eq_true, if_false,
      Option.some.injEq] at hstep
    subst hstep
    exact hstays ⟨hin.cache, hin.tmux, hin.main⟩ rfl hcarries
  | sendReconnect buf remaining | sendWait buf remaining => simp [hpc] at hstep
  | enqueueWait buf after remaining => simp [hpc] at hstep
  | _ => simp [hpc, Pc.Carries] at hcarries

/-- A step of the token owner, wherever the marker is. -/
theorem Place.ownerStep (hmk : IsMarker mk) (h : Place mk s) (hrun : Running s)
    (hclean : s.pullsCleanly = true) (hstep : ownerStep cfg ok s = some s') : Place mk s' := by
  have henv := ownerStep_env hstep
  cases h with
  | requested size hop hmarker hin hslot hout =>
    obtain ⟨hin', hmove⟩ := hin.ownerStep unowned ⟨by simp [hmarker], fun _ _ _ => hslot⟩ hstep
    exact .requested size (henv.op.trans hop) (henv.marker_none hmarker) hin'
      (hmove.only hslot) (henv.outClean hout)
  | pending hop hmarker hin hslot hout =>
    by_cases hswap : ∃ buf, s.pc = .swapMarker buf
    · obtain ⟨buf, hpc⟩ := hswap
      have hbuf := hin.pc
      rw [hpc] at hbuf
      simp only [Output.ownerStep, hpc, hmarker, Option.some.injEq] at hstep
      subst hstep
      exact .inHand hop rfl ⟨hin.cache, hin.tmux, hin.main⟩ ⟨rfl, hbuf⟩ hslot hout
    · obtain ⟨hin', hmove⟩ := hin.ownerStep unowned
        ⟨fun buf hpc => absurd ⟨buf, hpc⟩ hswap, fun _ _ _ => hslot⟩ hstep
      have hmarker' : s'.f.discardMarker = some mk := by
        rcases henv.marker with h | ⟨_, h⟩
        · exact h.trans hmarker
        · exact absurd h hswap
      exact .pending (by rw [henv.op]; exact hop) hmarker' hin' (hmove.only hslot)
        (henv.outClean hout)
  | inHand hop hmarker hin hpc hslot hout =>
    exact .handStep hmk hrun hclean hop hmarker hin hpc hslot hout hstep
  | queued b hop hmarker hin hfull hb hout =>
    have hop' : s'.op.marker = none := by rw [henv.op]; exact hop
    have hmarker' := henv.marker_none hmarker
    by_cases hpull : ∃ buf remaining, s.pc = .pullBack buf remaining
    · -- the next chunk is merged behind the marker
      obtain ⟨buf, remaining, hpc⟩ := hpull
      have hcells := hin.pc
      rw [hpc] at hcells
      obtain ⟨hbuf, hrem⟩ := Only.append.mp hcells
      have hleads : Leads mk (b.append buf).text := by
        rw [Buf.text_append]
        exact hb.append_right hbuf
      simp only [Output.ownerStep, hpc, hfull, Option.some.injEq] at hstep
      subst hstep
      refine .splitPulled hmk ?_ ?_ ?_ ?_ ?_ hleads hrem
      · exact hop
      · exact hmarker
      · exact ⟨hin.cache, hin.tmux, hin.main⟩
      · simp [Sys.SlotClean]
      · exact hout
    · obtain ⟨hin', hmove⟩ := hin.ownerStep unowned
        ⟨by simp [hmarker], fun buf rem hpc => absurd ⟨buf, rem, hpc⟩ hpull⟩ hstep
      refine .queued b hop' hmarker' hin' ?_ hb (henv.outClean hout)
      cases hmove with
      | same h => exact h.trans hfull
      | sent _ hfree => exact absurd (hfull.symm.trans hfree) (by simp)
      | pulled buf rem hpc => exact absurd ⟨buf, rem, hpc⟩ hpull
  | given earlier b later hop hmarker hin hslot hout hb hrest =>
    obtain ⟨hin', hmove⟩ := hin.ownerStep unowned ⟨by simp [hmarker], fun _ _ _ => hslot⟩ hstep
    exact .given earlier b later (by rw [henv.op]; exact hop) (henv.marker_none hmarker) hin'
      (hmove.only hslot) (henv.dequeued.trans hout) hb hrest

end Handler

end Tsshd.Output

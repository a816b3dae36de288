import Tsshd.Output.Flow
import Tsshd.Output.Marker

/-!
# Keep-pending-output mode

With `keepPendingOutput` on, a chunk is meant to reach the writer as it was
read, however long that takes. `watch` runs the forwarder beside a record of
the chunks whose `handleBuffer` call ran entirely in that mode (`Watch`).

* **lossless** — `keep_lossless`: each of these chunks is queued as one buffer of
  its own, byte for byte and in order, or is in hand until there is room;
* **the condition** — the flag is not looked at where a non-empty cache absorbs
  the chunk, nor where a later call takes a buffer back from the queue. Both
  are reached by switching the flag during a disconnection, and both hand the
  chunk to the cache, with its line limit and its filter
  (`kept_chunk_filtered`).
-/

namespace Tsshd.Output

/-! ## The watched forwarder -/

/-- A chunk as it is queued verbatim. -/
def verbatim (chunk : Text) : Buf := { raw := chunk }

/-- What the record knows of the calls of `handleBuffer`. -/
structure Watch where
  /-- The chunk of the running call, as long as the mode has been on. -/
  current : Option Text := none
  /-- The chunks of the calls that ran entirely in this mode. -/
  done : List Text := []
  /-- Whether such a call filled the queue. -/
  queued : Bool := false

/-- The record follows a step from `s` to `t`. -/
def Watch.step (w : Watch) (s t : Sys) : Watch where
  current :=
    match s.main, t.main with
    | .wantBuffer buf _, .inBuffer _ => if t.isKeepPendingOutput then some buf else none
    | _, .inBuffer _ => if t.isKeepPendingOutput then w.current else none
    | _, _ => none
  done :=
    match s.main, t.main with
    | .inBuffer _, .inBuffer _ => w.done
    | .inBuffer _, _ => w.done ++ w.current.toList
    | _, _ => w.done
  queued :=
    match s.f.writeBufCh, t.f.writeBufCh with
    | _, none => false
    | none, some _ => w.current.isSome
    | some _, some _ => w.queued

def watch (cfg : Config) : TSys (Sys × Watch) Act where
  init s := s = (start cfg, {})
  next s a := (next cfg s.1 a).map fun t => (t, s.2.step s.1 t)

/-- The cache is empty when a kept chunk gets there, and no call takes a chunk
back that was queued in keep mode. -/
def Watch.spares (w : Watch) (s : Sys) : Act → Bool
  | .owner _ =>
    match s.pc with
    | .checkCache _ => w.current.isNone || s.f.cacheLines.isEmpty
    | .pullBack .. => !w.queued
    | _ => true
  | _ => true

/-! ## Where a kept chunk is -/

/-- The handler holds the chunk as it was read. -/
def Pc.Holds (chunk : Text) : Pc → Prop
  | .swapMarker buf | .takeDiscard buf | .clearForDiscard buf | .checkTimeout buf
  | .checkKeep buf | .checkCache buf | .splitTimeout buf | .splitKeep buf => buf = chunk
  | .send buf remaining | .sendTimeout buf remaining | .sendKeep buf remaining
  | .sendReconnect buf remaining | .sendReturned buf remaining | .sendWait buf remaining =>
    buf = chunk ∧ remaining = []
  | _ => False

theorem Pc.Holds.hand {chunk : Text} {pc : Pc} (h : pc.Holds chunk) : pc.hand = chunk := by
  cases pc <;> simp_all [Pc.Holds, Pc.hand, Pc.holding]

/-- The handler has queued its chunk: it only cleans up. -/
def Pc.Past (pc : Pc) : Prop := pc.role ≠ .buffer ∨ ∃ remaining, pc = .cacheRemaining remaining

section Steps

variable {cfg : Config} {s t : Sys} {chunk : Text}

/-- The owner, with a kept chunk in hand, keeps it in hand or queues it. -/
theorem Pc.Holds.ownerStep {R : List Text → Prop} {ok : Bool} (h : s.pc.Holds chunk)
    (hflow : Flowing R s) (hmarker : s.f.discardMarker = none)
    (hkeep : s.isKeepPendingOutput = true)
    (hcache : ∀ buf, s.pc = .checkCache buf → s.f.cacheLines = [])
    (hstep : ownerStep cfg ok s = some t) :
    t.pc.Holds chunk ∨
      s.f.writeBufCh = none ∧ t.f.writeBufCh = some (verbatim chunk) ∧ t.pc = .cacheRemaining [] := by
  unfold Output.ownerStep at hstep
  cases hpc : s.pc with
  | swapMarker buf =>
    simp only [hpc, hmarker, Option.some.injEq] at hstep
    subst hstep
    rw [hpc] at h
    exact .inl h
  | takeDiscard buf | checkTimeout buf | splitTimeout buf =>
    rw [hpc] at h
    simp only [hpc] at hstep
    split at hstep <;> cases hstep
    · exact .inl h
    · first | exact .inl h | exact .inl ⟨h, rfl⟩
  | clearForDiscard buf =>
    rw [hpc] at h
    simp only [hpc, Option.some.injEq] at hstep
    subst hstep
    exact .inl h
  | checkKeep buf =>
    rw [hpc] at h
    simp only [hpc, hkeep, Bool.not_true, Bool.false_eq_true, if_false, Option.some.injEq] at hstep
    subst hstep
    exact .inl h
  | checkCache buf =>
    rw [hpc] at h
    simp only [hpc, hcache buf hpc, List.isEmpty_nil, if_true, Option.some.injEq] at hstep
    subst hstep
    exact .inl h
  | splitKeep buf =>
    rw [hpc] at h
    simp only [hpc, hkeep, if_true, Option.some.injEq] at hstep
    subst hstep
    exact .inl ⟨h, rfl⟩
  | send buf remaining =>
    rw [hpc] at h
    obtain ⟨rfl, rfl⟩ := h
    simp only [hpc, Sys.trySend, Option.some.injEq] at hstep
    split at hstep <;> subst hstep
    · exact .inr ⟨‹_›, rfl, rfl⟩
    · exact .inl ⟨rfl, rfl⟩
  | sendTimeout buf remaining =>
    rw [hpc] at h
    simp only [hpc] at hstep
    split at hstep <;> cases hstep <;> exact .inl h
  | sendKeep buf remaining =>
    rw [hpc] at h
    simp only [hpc, hkeep, if_true, Option.some.injEq] at hstep
    subst hstep
    exact .inl h
  | sendReturned buf remaining =>
    -- the reader is in this call, so it has not returned
    have hret := hflow.notReturned (.inr (by rw [hpc]; rfl))
    rw [hpc] at h
    simp only [hpc, hret, Bool.false_eq_true, if_false, Option.some.injEq] at hstep
    subst hstep
    exact .inl h
  | sendReconnect _ _ | sendWait _ _ => simp [hpc] at hstep
  | _ => simp [hpc, Pc.Holds] at h

/-- A wait ends with the chunk still in hand. -/
theorem Pc.Holds.wakeOwner {R : List Text → Prop} {failed : Bool} (h : s.pc.Holds chunk)
    (hflow : Flowing R s) (hstep : wakeOwner failed s = some t) : t.pc.Holds chunk := by
  unfold Output.wakeOwner Output.wakeOwner.reconnected at hstep
  cases hpc : s.pc with
  | sendWait buf remaining =>
    rw [hpc] at h
    simp only [hpc] at hstep
    split at hstep <;> cases hstep
    exact h
  | sendReconnect buf remaining =>
    rw [hpc] at h
    cases failed with
    | true => cases hc : s.checker <;> simp [hpc, hc, hflow.checkersOpen] at hstep
    | false =>
      simp only [hpc, Bool.false_eq_true, if_false] at hstep
      split at hstep <;> cases hstep
      exact h
  | enqueueWait _ _ _ | flushWait _ _ _ | errorReconnect => simp [hpc, Pc.Holds] at h
  | _ => simp [hpc] at hstep

theorem Pc.Past.ownerStep {ok : Bool} (h : s.pc.Past) (hstep : ownerStep cfg ok s = some t) :
    t.pc.Past := by
  rcases h with hrole | ⟨remaining, hpc⟩
  · exact .inl fun hr => hrole (ownerStep_role hstep hr)
  · simp only [Output.ownerStep, hpc, Option.some.injEq] at hstep
    subst hstep
    exact .inl (by simp [Sys.goto, Pc.role])

theorem Pc.Past.wakeOwner {failed : Bool} (h : s.pc.Past) (hstep : wakeOwner failed s = some t) :
    t.pc.Past := by
  obtain ⟨pc, rfl, -, hback⟩ := wakeOwner_goto hstep
  rcases h with hrole | ⟨remaining, hpc⟩
  · exact .inl fun hr => hrole (hback hr)
  · simp [Output.wakeOwner, hpc] at hstep

end Steps

/-! ## The invariant -/

/-- The buffers that no later call takes back: those that were dequeued, and the
queued one if it was queued in keep mode. -/
def Sys.secured (s : Sys) (w : Watch) : List Buf :=
  s.dequeued ++ if w.queued then s.f.writeBufCh.toList else []

/-- The chunk of the running call is in hand, or queued behind the others. -/
structure Pending (s : Sys) (w : Watch) (chunk : Text) : Prop where
  keeps : s.isKeepPendingOutput = true
  running : ∃ eof, s.main = .inBuffer eof
  place : s.pc.Holds chunk ∨
    s.pc.Past ∧ ((w.done ++ [chunk]).map verbatim).Sublist (s.secured w)

/-- The invariant of the watched forwarder. -/
structure Watched (s : Sys) (w : Watch) : Prop where
  flowing : Flowing (fun _ => True) s
  noMarker : s.f.discardMarker = none ∧ s.op.marker = none
  done : (w.done.map verbatim).Sublist (s.secured w)
  current : ∀ chunk, w.current = some chunk → Pending s w chunk

section Invariant

variable {cfg : Config} {s t : Sys} {w : Watch}

theorem secured_of_none (h : s.f.writeBufCh = none) : s.secured w = s.dequeued := by
  simp [Sys.secured, h]

theorem secured_handed (s : Sys) (w : Watch) : (s.secured w).Sublist s.handed := by
  unfold Sys.secured Sys.handed
  refine List.Sublist.append_left ?_ _
  split <;> simp

/-- The queue is left alone. -/
theorem secured_same (hslot : t.f.writeBufCh = s.f.writeBufCh) (hdeq : t.dequeued = s.dequeued) :
    t.secured (w.step s t) = s.secured w := by
  unfold Sys.secured Watch.step
  rw [hslot, hdeq]
  cases s.f.writeBufCh <;> simp

theorem secured_sub (hslot : t.f.writeBufCh = s.f.writeBufCh) (hdeq : t.dequeued = s.dequeued) :
    (s.secured w).Sublist (t.secured (w.step s t)) := by
  rw [secured_same hslot hdeq]

/-- The owner never takes back what is secured. -/
theorem secured_ownerStep {ok : Bool} (hspares : w.spares s (.owner ok) = true)
    (hstep : ownerStep cfg ok s = some t) :
    (s.secured w).Sublist (t.secured (w.step s t)) := by
  have hdeq := (ownerStep_env hstep).dequeued
  have hmove : SlotMove (fun _ => True) s t :=
    (Sys.Inside.ownerStep (fun _ _ => trivial)
      ⟨⟨fun _ _ _ _ => trivial, fun _ _ => trivial, fun _ _ => trivial⟩, fun _ _ => trivial⟩
      ⟨fun _ _ _ _ _ _ => trivial, fun _ _ _ _ _ _ _ => trivial⟩ hstep).2
  cases hmove with
  | same h => exact secured_sub h hdeq
  | sent b hfree hfull _ =>
    rw [secured_of_none hfree, Sys.secured, hdeq]
    exact List.sublist_append_left _ _
  | pulled buf remaining hpc h =>
    have hq : w.queued = false := by simpa [Watch.spares, hpc] using hspares
    rw [secured_of_none h, hdeq, Sys.secured, hq]
    simp

/-- A step during which the reader stays where it is. -/
theorem Watched.move (h : Watched s w) (hflow : Flowing (fun _ => True) t)
    (hmarker : t.f.discardMarker = none ∧ t.op.marker = none) (hmain : t.main = s.main)
    (hgrow : (s.secured w).Sublist (t.secured (w.step s t)))
    (hplace : ∀ chunk, w.current = some chunk → t.pc.Holds chunk ∨
      t.pc.Past ∧ ((w.done ++ [chunk]).map verbatim).Sublist (t.secured (w.step s t))) :
    Watched t (w.step s t) := by
  have hdone : (w.step s t).done = w.done := by
    unfold Watch.step
    rw [hmain]
    cases s.main <;> rfl
  refine ⟨hflow, hmarker, ?_, ?_⟩
  · rw [hdone]
    exact h.done.trans hgrow
  · intro chunk hchunk
    have hold : t.isKeepPendingOutput = true ∧ w.current = some chunk := by
      unfold Watch.step at hchunk
      rw [hmain] at hchunk
      cases hm : s.main <;> simp [hm] at hchunk
      exact hchunk
    refine ⟨hold.1, hmain ▸ (h.current chunk hold.2).running, ?_⟩
    rw [hdone]
    exact hplace chunk hold.2

/-- Only the flag of the mode, or what lies behind the queue, may change. -/
theorem Watched.beside (h : Watched s w) (hflow : Flowing (fun _ => True) t)
    (hmarker : t.f.discardMarker = none ∧ t.op.marker = none) (hmain : t.main = s.main)
    (hpc : t.pc = s.pc) (hgrow : (s.secured w).Sublist (t.secured (w.step s t))) :
    Watched t (w.step s t) := by
  refine h.move hflow hmarker hmain hgrow fun chunk hchunk => ?_
  rw [hpc]
  exact (h.current chunk hchunk).place.imp_right fun hp => ⟨hp.1, hp.2.trans hgrow⟩

/-- The reader is not in a call, before or after. -/
theorem Watched.outside (h : Watched s w) (hflow : Flowing (fun _ => True) t)
    (hmarker : t.f.discardMarker = none ∧ t.op.marker = none)
    (hbefore : ∀ eof, s.main ≠ .inBuffer eof) (hafter : ∀ eof, t.main ≠ .inBuffer eof)
    (hgrow : (s.secured w).Sublist (t.secured (w.step s t))) : Watched t (w.step s t) := by
  have hdone : (w.step s t).done = w.done := by
    unfold Watch.step
    cases hm : s.main <;> first | rfl | exact absurd hm (hbefore _)
  have hcurrent : (w.step s t).current = none := by
    unfold Watch.step
    cases hm : t.main with
    | inBuffer eof => exact absurd hm (hafter eof)
    | _ => cases s.main <;> rfl
  refine ⟨hflow, hmarker, ?_, ?_⟩
  · rw [hdone]
    exact h.done.trans hgrow
  · intro chunk hchunk
    rw [hcurrent] at hchunk
    exact absurd hchunk (by simp)

/-- A call begins with its chunk in hand. -/
theorem Watched.begin {buf : Text} {eof : Bool} (h : Watched s w)
    (hflow : Flowing (fun _ => True) t)
    (hmarker : t.f.discardMarker = none ∧ t.op.marker = none)
    (hslot : t.f.writeBufCh = s.f.writeBufCh) (hdeq : t.dequeued = s.dequeued)
    (hbefore : s.main = .wantBuffer buf eof) (hafter : t.main = .inBuffer eof)
    (hpc : t.pc = .swapMarker buf) : Watched t (w.step s t) := by
  refine ⟨hflow, hmarker, ?_, ?_⟩
  · rw [secured_same hslot hdeq]
    simpa [Watch.step, hbefore] using h.done
  · intro chunk hchunk
    unfold Watch.step at hchunk
    rw [hbefore, hafter] at hchunk
    by_cases hkeep : t.isKeepPendingOutput = true
    · simp only [hkeep, if_true, Option.some.injEq] at hchunk
      refine ⟨hkeep, ⟨eof, hafter⟩, .inl ?_⟩
      rw [hpc]
      exact hchunk
    · simp [hkeep] at hchunk

/-- The call ends: its chunk, if it was kept, is queued. -/
theorem Watched.endProcessing (h : Watched s w) (hflow : Flowing (fun _ => True) s.endProcessing)
    (hpc : s.pc = .endLoop) : Watched s.endProcessing (w.step s s.endProcessing) := by
  have hsame : s.endProcessing.secured (w.step s s.endProcessing) = s.secured w :=
    secured_same rfl rfl
  cases hm : s.main with
  | inBuffer eof =>
    have hdone : (w.step s s.endProcessing).done = w.done ++ w.current.toList := by
      cases eof <;> simp [Watch.step, Sys.endProcessing, hm]
    have hcurrent : (w.step s s.endProcessing).current = none := by
      cases eof <;> simp [Watch.step, Sys.endProcessing, hm]
    refine ⟨hflow, h.noMarker, ?_, ?_⟩
    · rw [hdone, hsame]
      cases hc : w.current with
      | none => simpa using h.done
      | some chunk =>
        have hplace := (h.current chunk hc).place
        rw [hpc] at hplace
        exact (hplace.resolve_left (by simp [Pc.Holds])).2
    · intro chunk hchunk
      rw [hcurrent] at hchunk
      exact absurd hchunk (by simp)
  | _ =>
    exact h.outside hflow h.noMarker (by simp [hm]) (by simp [Sys.endProcessing, hm])
      (secured_sub rfl rfl)

/-- The steps of the token owner. -/
theorem Watched.ownerStep {ok : Bool} (h : Watched s w) (hflow : Flowing (fun _ => True) t)
    (hspares : w.spares s (.owner ok) = true) (hstep : ownerStep cfg ok s = some t) :
    Watched t (w.step s t) := by
  have hgrow := secured_ownerStep hspares hstep
  have henv := ownerStep_env hstep
  have hmarker : t.f.discardMarker = none ∧ t.op.marker = none :=
    ⟨henv.marker_none h.noMarker.1, henv.op ▸ h.noMarker.2⟩
  by_cases hpc : s.pc = .endLoop
  · rcases ownerStep_endLoop hpc hstep with rfl | rfl
    · refine h.move hflow hmarker rfl hgrow fun chunk hchunk => ?_
      have hplace := (h.current chunk hchunk).place
      rw [hpc] at hplace
      have hpast := hplace.resolve_left (by simp [Pc.Holds])
      exact .inr ⟨.inl (by simp [Pc.role]), hpast.2.trans hgrow⟩
    · exact h.endProcessing hflow hpc
  · refine h.move hflow hmarker (ownerStep_frame hpc hstep).main hgrow fun chunk hchunk => ?_
    obtain ⟨hkeep, -, hplace⟩ := h.current chunk hchunk
    rcases hplace with hholds | ⟨hpast, hsub⟩
    · have hcache : ∀ buf, s.pc = .checkCache buf → s.f.cacheLines = [] := by
        intro buf hbuf
        simpa [Watch.spares, hbuf, hchunk] using hspares
      rcases hholds.ownerStep h.flowing h.noMarker.1 hkeep hcache hstep with
        hholds' | ⟨hfree, hfull, hpc'⟩
      · exact .inl hholds'
      · -- the queue was free, so everything kept so far has been dequeued
        refine .inr ⟨.inr ⟨[], hpc'⟩, ?_⟩
        have hqueued : (w.step s t).queued = true := by
          simp [Watch.step, hfree, hfull, hchunk]
        have hdone := h.done
        rw [secured_of_none hfree] at hdone
        rw [Sys.secured, hqueued, henv.dequeued, hfull, List.map_append]
        exact hdone.append (List.Sublist.refl _)
    · exact .inr ⟨hpast.ownerStep hstep, hsub.trans hgrow⟩

/-- **The step lemma.** -/
theorem Watched.next {a : Act} (h : Watched s w) (hsound : a.sound = true)
    (hunmarked : a.unmarked = true) (hspares : w.spares s a = true)
    (hstep : next cfg s a = some t) : Watched t (w.step s t) := by
  have hflow := (h.flowing.next (v := Flushed.source) trivial hsound hstep).flowing
  cases a with
  | owner ok => exact h.ownerStep hflow hspares hstep
  | wake failed =>
    have hstep' : wakeOwner failed s = some t := hstep
    obtain ⟨pc, rfl, -, -⟩ := wakeOwner_goto hstep'
    have hsame : (s.goto pc).secured (w.step s (s.goto pc)) = s.secured w := secured_same rfl rfl
    refine h.move hflow h.noMarker rfl (by rw [hsame]) fun chunk hchunk => ?_
    rw [hsame]
    rcases (h.current chunk hchunk).place with hholds | ⟨hpast, hsub⟩
    · exact .inl (hholds.wakeOwner h.flowing hstep')
    · exact .inr ⟨hpast.wakeOwner hstep', hsub⟩
  | read bytes eof =>
    simp only [Output.next] at hstep
    split at hstep
    · rename_i hm
      split at hstep <;> cases hstep <;>
        exact h.outside hflow h.noMarker (by simp [hm]) (by cases eof <;> simp)
          (secured_sub rfl rfl)
    · exact absurd hstep (by simp)
  | begin =>
    simp only [Output.next] at hstep
    split at hstep
    · exact absurd hstep (by simp)
    split at hstep
    · rename_i buf eof hm
      cases hstep
      exact h.begin hflow h.noMarker rfl rfl hm rfl rfl
    · rename_i hm
      cases hstep
      exact h.outside hflow h.noMarker (by simp [hm]) (by simp [Sys.takeToken])
        (secured_sub rfl rfl)
    · exact absurd hstep (by simp)
  | shutdown =>
    simp only [Output.next] at hstep
    split at hstep
    · rename_i hm
      split at hstep <;> cases hstep
      exact h.outside hflow h.noMarker (by simp [hm]) (by simp) (secured_sub rfl rfl)
    · rename_i hm
      split at hstep <;> cases hstep
      exact h.outside hflow h.noMarker (by simp [hm]) (by simp) (secured_sub rfl rfl)
    · exact absurd hstep (by simp)
  | onReconnected =>
    simp only [Output.next] at hstep
    split at hstep
    · exact absurd hstep (by simp)
    split at hstep
    · cases hstep
      exact h.beside hflow h.noMarker rfl rfl (secured_sub rfl rfl)
    split at hstep <;> cases hstep
    · exact h.beside hflow h.noMarker rfl rfl (secured_sub rfl rfl)
    · rename_i hfree
      -- the token is free, so no call is running
      have hnot : ∀ eof, s.main ≠ .inBuffer eof := by
        intro eof hm
        have hst := h.flowing.stage
        rw [h.flowing.owned.mpr (Bool.not_eq_true _ ▸ hfree), hm] at hst
        simp [Stage, Pc.role] at hst
      exact h.outside hflow h.noMarker hnot hnot (secured_sub rfl rfl)
  | dequeue =>
    simp only [Output.next] at hstep
    split at hstep <;> cases hstep
    rename_i b hw hslot
    refine h.beside hflow h.noMarker rfl rfl ?_
    have hdeq : Sys.dequeued { s with
        f := { s.f with writeBufCh := none }, writer := .holding b } = s.handed := by
      simp [Sys.dequeued, Sys.handed, hw, hslot]
    refine (secured_handed s w).trans ?_
    rw [← hdeq]
    exact List.sublist_append_left _ _
  | write =>
    simp only [Output.next] at hstep
    split at hstep <;> cases hstep
    rename_i hw _
    exact h.beside hflow h.noMarker rfl rfl (secured_sub rfl (by simp [Sys.dequeued, hw]))
  | op ok =>
    have hop := h.noMarker.2
    simp only [Output.next, opStep] at hstep
    repeat' split at hstep
    all_goals cases hstep
    all_goals
      refine h.beside hflow ⟨?_, ?_⟩ rfl rfl (secured_sub rfl rfl) <;>
        simp_all [AttachOp.marker, h.noMarker.1]
  | resize c size redraw marker =>
    simp only [Output.next] at hstep
    split at hstep <;> cases hstep
    refine h.beside hflow ⟨h.noMarker.1, ?_⟩ rfl rfl (secured_sub rfl rfl)
    cases marker with
    | none => rfl
    | some m => exact absurd hunmarked (by simp [Act.unmarked])
  | detach | attach _ _ =>
    simp only [Output.next] at hstep
    split at hstep <;> cases hstep
    exact h.beside hflow ⟨h.noMarker.1, rfl⟩ rfl rfl (secured_sub rfl rfl)
  | writeFail | closeChecker _ => exact absurd hsound (by simp [Act.sound])
  | _ =>
    simp only [Output.next] at hstep
    repeat' split at hstep
    all_goals cases hstep
    all_goals exact h.beside hflow h.noMarker rfl rfl (secured_sub rfl rfl)

theorem watched_start (cfg : Config) : Watched (start cfg) {} where
  flowing := flowing_start cfg
  noMarker := ⟨rfl, rfl⟩
  done := by simp
  current := by simp

end Invariant

/-! ## The runs -/

/-- **Keep-pending-output mode loses nothing.** In a run without write errors,
closed checkers and markers, in which the cache is empty when a kept chunk gets
there and no chunk queued in keep mode is taken back: the kept chunks are
queued as they were read, each as a buffer of its own and in order, and the
chunk of the running call is in hand or queued behind them. -/
theorem keep_lossless (cfg : Config) {s : Sys × Watch}
    (h : (watch cfg).ReachableVia
      (fun s a => (a.sound && a.unmarked && s.2.spares s.1 a) = true) s) :
    (s.2.done.map verbatim).Sublist s.1.handed ∧
      ∀ chunk, s.2.current = some chunk →
        s.1.inHand = chunk ∨ ((s.2.done ++ [chunk]).map verbatim).Sublist s.1.handed := by
  have hinv : Watched s.1 s.2 := by
    induction h with
    | init h0 =>
      obtain rfl : _ = _ := h0
      exact watched_start cfg
    | step _ hok hn ih =>
      simp only [Bool.and_eq_true] at hok
      obtain ⟨t, hstep, rfl⟩ := Option.map_eq_some_iff.mp hn
      exact ih.next hok.1.1 hok.1.2 hok.2 hstep
  have hsub := secured_handed s.1 s.2
  refine ⟨hinv.done.trans hsub, fun chunk hchunk => ?_⟩
  obtain ⟨-, ⟨eof, hm⟩, hplace⟩ := hinv.current chunk hchunk
  refine hplace.imp (fun hholds => ?_) (fun hp => hp.2.trans hsub)
  rw [Sys.inHand, hm, hholds.hand]
  exact List.append_nil _

/-- A line goes out and the mode is switched on during a disconnection: the
cursor position request waits until the client is back. -/
def keptRun : List Act :=
  [Act.read (ascii "a\n") false, .begin] ++ handler 8 ++
    [Act.timeout 0, .setKeep 0 true, .read esc6n false, .begin] ++ handler 9 ++
    [Act.dequeue, .write, .reconnect 0, .wake false] ++ handler 3

theorem keep_lossless_request :
    ∃ s, (watch {}).execWhile (fun s a => a.sound && a.unmarked && s.2.spares s.1 a)
        (start {}, {}) keptRun = some s ∧
      s.1.pc = .idle ∧ s.2.done = [plain esc6n] ∧
      (s.2.done.map verbatim).Sublist s.1.handed := by
  have hrun : ((watch {}).execWhile (fun s a => a.sound && a.unmarked && s.2.spares s.1 a)
      (start {}, {}) keptRun).any (fun s => s.1.pc = .idle ∧ s.2.done = [plain esc6n]) = true := by
    decide
  obtain ⟨s, hs, hend⟩ := (Option.any_eq_true _ _).mp hrun
  obtain ⟨hpc, hdone⟩ := of_decide_eq_true hend
  exact ⟨s, hs, hpc, hdone, (keep_lossless {} (.execWhile (fun _ _ h => h) (.init rfl) hs)).1⟩

/-- During a disconnection the rest of a chunk is cached before the mode is
switched on. The next chunk, handled in keep mode from start to end, joins it
in the cache, and the flush filters it away. -/
theorem kept_chunk_filtered :
    ∃ s, (watch {}).ReachableVia (fun _ a => (a.sound && a.unmarked) = true) s ∧
      s.1.pc = .idle ∧ s.1.f.cacheLines = [] ∧ s.2.done = [plain esc6n] ∧
      s.1.handed.flatMap Buf.text = plain (ascii "a\nb") ∧
      ¬ (s.2.done.map verbatim).Sublist s.1.handed := by
  have hrun : ((watch {}).execWhile (fun _ a => a.sound && a.unmarked) (start {}, {})
      ([Act.timeout 0, .read (ascii "a\nb") false, .begin] ++ handler 9 ++
        [Act.setKeep 0 true, .read esc6n false, .begin] ++ handler 7 ++
        [Act.dequeue, .write, .reconnect 0, .onReconnected] ++ handler 5)).any
      (fun s => s.1.pc = .idle ∧ s.1.f.cacheLines = [] ∧ s.2.done = [plain esc6n] ∧
        s.1.handed.flatMap Buf.text = plain (ascii "a\nb") ∧
        ¬ (s.2.done.map verbatim).Sublist s.1.handed) = true := by
    decide
  obtain ⟨s, hs, hend⟩ := (Option.any_eq_true _ _).mp hrun
  exact ⟨s, .execWhile (fun _ _ h => h) (.init rfl) hs, of_decide_eq_true hend⟩

end Tsshd.Output

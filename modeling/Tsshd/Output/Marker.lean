import Tsshd.Output.Place

/-!
# A redraw marker is kept or lost

A client that redraws its screen discards all output up to the marker it has
sent. If the marker is lost, the client discards for ever.

* **kept** — `marker_kept`: as long as a handler with the marker in hand pulls
  back only a chunk without LF, the marker is pending or under way to the client,
  complete and once, in every state;
* **lost** — `marker_lost`: with a chunk that ends with LF the marker goes to the
  cache, and falls victim to its next overflow.
-/

namespace Tsshd.Output

/-! ## Everything around the handler -/

/-- No marker is sent along with a resize. -/
def Act.unmarked : Act → Bool
  | .resize _ _ _ (some _) => false
  | _ => true

/-- The steps that do not touch the queue, the writer, the markers or the hand of
a handler. -/
def Act.aside : Act → Bool
  | .owner _ | .wake _ | .dequeue | .write | .writeFail | .op _ => false
  | a => a.unmarked

/-- What such a step leaves alone. -/
structure Aside (s s' : Sys) : Prop where
  slot : s'.f.writeBufCh = s.f.writeBufCh
  marker : s'.f.discardMarker = s.f.discardMarker
  dequeued : s'.dequeued = s.dequeued
  op : s.op.marker = none → s'.op.marker = none
  opHeld : s.op.marker ≠ none → s'.op = s.op
  stored : s.Stored Cell.Unowned → s'.Stored Cell.Unowned
  hand : s.f.processing = true → s'.pc = s.pc
  blank : s.f.Blank → s'.f.Blank

theorem Aside.refl (s : Sys) : Aside s s :=
  ⟨rfl, rfl, rfl, id, fun _ => rfl, id, fun _ => rfl, id⟩

section Around

variable {mk : Text} {cfg : Config} {s s' : Sys}

theorem next_aside {a : Act} (ha : a.aside = true) (hstep : next cfg s a = some s') :
    Aside s s' := by
  have hrefl := Aside.refl s
  cases a with
  | owner _ | wake _ | dequeue | write | writeFail | op _ => simp [Act.aside] at ha
  | read bytes eof =>
    simp only [Output.next] at hstep
    split at hstep
    · split at hstep <;> cases hstep
      · exact { hrefl with stored := fun h => ⟨h.cache, h.tmux, by cases eof <;> exact .nil⟩ }
      · exact { hrefl with stored := fun h => ⟨h.cache, h.tmux, .plain unowned bytes⟩ }
    · exact absurd hstep (by simp)
  | begin =>
    simp only [Output.next] at hstep
    split at hstep
    · exact absurd hstep (by simp)
    rename_i hfree
    split at hstep <;> cases hstep
    · exact { hrefl with
        stored := fun h => ⟨h.cache, h.tmux, .nil⟩, hand := fun h => absurd h hfree
        blank := fun h => ⟨h.cache, h.newLine, h.count⟩ }
    · exact { hrefl with
        stored := fun h => ⟨h.cache, h.tmux, .nil⟩, hand := fun h => absurd h hfree
        blank := fun h => ⟨h.cache, h.newLine, h.count⟩ }
  | shutdown =>
    simp only [Output.next] at hstep
    repeat' split at hstep
    all_goals cases hstep
    all_goals exact { hrefl with
      stored := fun h => ⟨h.cache, h.tmux, .nil⟩
      blank := fun h => ⟨h.cache, h.newLine, h.count⟩ }
  | onReconnected =>
    simp only [Output.next] at hstep
    repeat' split at hstep
    all_goals cases hstep
    · exact { hrefl with stored := fun h => ⟨h.cache, h.tmux, h.main⟩ }
    · exact { hrefl with
        stored := fun h => ⟨h.cache, h.tmux, h.main⟩
        blank := fun h => ⟨h.cache, h.newLine, h.count⟩ }
    · rename_i hfree
      exact { hrefl with
        stored := fun h => ⟨h.cache, h.tmux, h.main⟩, hand := fun h => absurd h hfree
        blank := fun h => ⟨h.cache, h.newLine, h.count⟩ }
  | detach =>
    simp only [Output.next] at hstep
    split at hstep <;> cases hstep
    rename_i hfree
    exact { hrefl with
      op := fun _ => rfl, opHeld := fun h => absurd (by rw [hfree]; rfl) h
      stored := fun h => ⟨h.cache, h.tmux, h.main⟩ }
  | attach c size =>
    simp only [Output.next] at hstep
    split at hstep <;> cases hstep
    rename_i hfree
    exact { hrefl with
      op := fun _ => rfl, opHeld := fun h => absurd (by rw [hfree.1]; rfl) h
      stored := fun h => ⟨h.cache, h.tmux, h.main⟩ }
  | resize c size redraw marker =>
    cases marker with
    | some m => simp [Act.aside, Act.unmarked] at ha
    | none =>
      simp only [Output.next] at hstep
      split at hstep <;> cases hstep
      rename_i hfree
      exact { hrefl with
        op := fun _ => rfl, opHeld := fun h => absurd (by rw [hfree.1]; rfl) h
        stored := fun h => ⟨h.cache, h.tmux, h.main⟩ }
  | _ =>
    simp only [Output.next] at hstep
    repeat' split at hstep
    all_goals cases hstep
    all_goals exact { hrefl with
      stored := fun h => ⟨h.cache, h.tmux, h.main⟩
      blank := fun h => ⟨h.cache, h.newLine, h.count⟩ }

theorem Pc.Carries.blank {f f' : Forwarder} {pc : Pc} (h : pc.Carries mk f)
    (hblank : f.Blank → f'.Blank) : pc.Carries mk f' := by
  cases pc with
  | takeDiscard _ | clearForDiscard _ | checkTimeout _ | checkCache _ | splitTimeout _
  | splitKeep _ => exact h.imp_right hblank
  | _ => exact h

theorem Pc.Carries.once {f : Forwarder} {pc : Pc} (h : pc.Carries mk f) : Once mk pc.cells := by
  cases pc with
  | stopDiscard marker buf | clearForMarker marker buf =>
    obtain ⟨rfl, hbuf⟩ := h
    exact (Leads.front hbuf).once
  | takeDiscard buf | clearForDiscard buf | checkTimeout buf | checkCache buf | splitTimeout buf
  | splitKeep buf =>
    obtain ⟨⟨post, rfl, hpost⟩, _⟩ := h
    exact (Leads.front hpost).once
  | send buf remaining | sendTimeout buf remaining | sendKeep buf remaining
  | sendReconnect buf remaining | pullBack buf remaining | sendReturned buf remaining
  | sendWait buf remaining =>
    obtain ⟨⟨post, rfl, hpost⟩, hrem⟩ := h
    exact (Leads.front hpost).once.append_right hrem
  | enqueue buf after remaining | enqueueReturned buf after remaining
  | enqueueWait buf after remaining =>
    obtain ⟨hbuf, hafter, hrem⟩ := h
    exact (hbuf.once.append_right hafter).append_right hrem
  | _ => exact h.elim

theorem Pc.Carries.not_idle {f : Forwarder} {pc : Pc} (h : pc.Carries mk f) : pc ≠ .idle := by
  rintro rfl
  exact h

/-- An operation that has no marker to store. -/
theorem opStep_aside {ok : Bool} (hop : s.op.marker = none) (hstep : opStep cfg ok s = some s') :
    Aside s s' := by
  have hrefl := Aside.refl s
  unfold opStep at hstep
  cases h : s.op with
  | resizeStore size redraw marker =>
    obtain rfl : marker = none := by simpa [h, AttachOp.marker] using hop
    simp only [h] at hstep
    split at hstep <;> cases hstep <;> exact { hrefl with
      op := fun _ => rfl, opHeld := fun hne => absurd hop hne
      stored := fun h => ⟨h.cache, h.tmux, h.main⟩ }
  | attachStream c size =>
    simp only [h, Option.some.injEq] at hstep
    subst hstep
    exact { hrefl with
      op := fun _ => by dsimp only; split <;> rfl
      opHeld := fun hne => absurd hop hne, stored := fun h => ⟨h.cache, h.tmux, h.main⟩ }
  | _ =>
    simp only [h] at hstep
    repeat' split at hstep
    all_goals cases hstep
    all_goals exact { hrefl with
      op := fun _ => rfl, opHeld := fun hne => absurd hop hne
      stored := fun h => ⟨h.cache, h.tmux, h.main⟩
      blank := fun h => ⟨h.cache, h.newLine, h.count⟩ }

/-- A step aside leaves the marker where it is. -/
theorem Place.aside (h : Place mk s) (hrun : Running s) (ha : Aside s s')
    (hin' : s.Inside Cell.Unowned → s'.Inside Cell.Unowned) : Place mk s' := by
  have hslot' : s.SlotClean → s'.SlotClean := fun h => by simpa [Sys.SlotClean, ha.slot] using h
  have hout' : s.OutClean → s'.OutClean := fun h => by simpa [Sys.OutClean, ha.dequeued] using h
  cases h with
  | requested size hop hmarker hin hslot hout =>
    have hheld : s'.op = s.op := ha.opHeld (by simp [hop, AttachOp.marker])
    exact .requested size (hheld.trans hop) (ha.marker.trans hmarker) (hin' hin) (hslot' hslot)
      (hout' hout)
  | pending hop hmarker hin hslot hout =>
    exact .pending (ha.op hop) (ha.marker.trans hmarker) (hin' hin) (hslot' hslot) (hout' hout)
  | inHand hop hmarker hin hpc hslot hout =>
    have hbusy := hrun.owned.resolve_left hpc.not_idle
    refine .inHand (ha.op hop) (ha.marker.trans hmarker) (ha.stored hin) ?_ (hslot' hslot)
      (hout' hout)
    rw [ha.hand hbusy]
    exact hpc.blank ha.blank
  | queued b hop hmarker hin hfull hb hout =>
    exact .queued b (ha.op hop) (ha.marker.trans hmarker) (hin' hin) (ha.slot.trans hfull) hb
      (hout' hout)
  | given earlier b later hop hmarker hin hslot hout hb hrest =>
    exact .given earlier b later (ha.op hop) (ha.marker.trans hmarker) (hin' hin) (hslot' hslot)
      (ha.dequeued.trans hout) hb hrest

/-- A wait of the handler ends, with the marker still in its hand. -/
theorem Pc.Carries.wake {failed : Bool} (h : s.pc.Carries mk s.f) (hrun : Running s)
    (hstep : wakeOwner failed s = some s') : s'.pc.Carries mk s.f := by
  unfold wakeOwner wakeOwner.reconnected at hstep
  cases hpc : s.pc with
  | sendWait buf remaining =>
    rw [hpc] at h
    simp only [hpc] at hstep
    split at hstep <;> cases hstep
    exact h
  | enqueueWait buf after remaining =>
    rw [hpc] at h
    simp only [hpc] at hstep
    split at hstep <;> cases hstep
    exact h
  | sendReconnect buf remaining =>
    rw [hpc] at h
    simp only [hpc, hrun.checkersOpen] at hstep
    repeat' split at hstep
    all_goals cases hstep
    · contradiction
    · exact h
  | _ => simp_all [Pc.Carries]

theorem Place.wake {failed : Bool} (h : Place mk s) (hrun : Running s)
    (hstep : wakeOwner failed s = some s') : Place mk s' := by
  have hin' : s.Inside Cell.Unowned → s'.Inside Cell.Unowned := fun hin => hin.wakeOwner hstep
  have hpc' : s.pc.Carries mk s.f → s'.pc.Carries mk s.f := fun hpc => hpc.wake hrun hstep
  obtain ⟨pc, rfl, _⟩ := wakeOwner_goto hstep
  cases h with
  | requested size hop hmarker hin hslot hout =>
    exact .requested size hop hmarker (hin' hin) hslot hout
  | pending hop hmarker hin hslot hout => exact .pending hop hmarker (hin' hin) hslot hout
  | inHand hop hmarker hin hpc hslot hout =>
    exact .inHand hop hmarker ⟨hin.cache, hin.tmux, hin.main⟩ (hpc' hpc) hslot hout
  | queued b hop hmarker hin hfull hb hout => exact .queued b hop hmarker (hin' hin) hfull hb hout
  | given earlier b later hop hmarker hin hslot hout hb hrest =>
    exact .given earlier b later hop hmarker (hin' hin) hslot hout hb hrest

/-- The writer takes the queued buffer. -/
theorem Place.dequeue (h : Place mk s) (hstep : next cfg s .dequeue = some s') : Place mk s' := by
  have hin' : s.Inside Cell.Unowned → s'.Inside Cell.Unowned := fun hin =>
    hin.next unowned (by simp) hstep
  simp only [Output.next] at hstep
  split at hstep <;> cases hstep
  rename_i c hwriter hslot
  have hold : s.dequeued = s.output.map Prod.snd := by simp [Sys.dequeued, hwriter]
  have hout' : s.OutClean → Only Cell.Unowned c.text → Sys.OutClean
      { s with f := { s.f with writeBufCh := none }, writer := .holding c } := by
    intro hout hc b hb
    rcases List.mem_append.mp hb with hb | hb
    · exact hout b (hold ▸ hb)
    · rw [List.mem_singleton.mp hb]
      exact hc
  have hempty : Sys.SlotClean { s with f := { s.f with writeBufCh := none }, writer := .holding c } :=
    by simp [Sys.SlotClean]
  cases h with
  | requested size hop hmarker hin hclean hout =>
    exact .requested size hop hmarker (hin' hin) hempty (hout' hout (hclean c hslot))
  | pending hop hmarker hin hclean hout =>
    exact .pending hop hmarker (hin' hin) hempty (hout' hout (hclean c hslot))
  | inHand hop hmarker hin hpc hclean hout =>
    exact .inHand hop hmarker ⟨hin.cache, hin.tmux, hin.main⟩
      (hpc.blank fun h => ⟨h.cache, h.newLine, h.count⟩) hempty (hout' hout (hclean c hslot))
  | queued b hop hmarker hin hfull hb hout =>
    obtain rfl : b = c := Option.some.inj (hfull.symm.trans hslot)
    refine .given s.dequeued b [] hop hmarker (hin' hin) hempty ?_ hb.once ?_
    · simp [Sys.dequeued, hwriter]
    · intro d hd
      exact hout d (by simpa using hd)
  | given earlier b later hop hmarker hin hclean hout hb hrest =>
    refine .given earlier b (later ++ [c]) hop hmarker (hin' hin) hempty ?_ hb ?_
    · rw [hold] at hout
      simp [Sys.dequeued, hout]
    · intro d hd
      rw [← List.append_assoc] at hd
      rcases List.mem_append.mp hd with hd | hd
      · exact hrest d hd
      · rw [List.mem_singleton.mp hd]
        exact hclean c hslot

/-- A buffer that is written counts as before. -/
theorem next_write (hstep : next cfg s .write = some s') : Aside s s' := by
  have hrefl := Aside.refl s
  simp only [Output.next] at hstep
  split at hstep <;> cases hstep
  rename_i b c hwriter _
  exact { hrefl with
    dequeued := by simp [Sys.dequeued, hwriter], stored := fun h => ⟨h.cache, h.tmux, h.main⟩ }

/-- `SetSize` stores the marker of a redraw. -/
theorem Place.store {ok : Bool} (hpty : cfg.pty = true) (h : Place mk s) (hrun : Running s)
    (hstep : opStep cfg ok s = some s') : Place mk s' := by
  have hin' : s.Inside Cell.Unowned → s'.Inside Cell.Unowned := fun hin => hin.opStep hstep
  by_cases hop : s.op.marker = none
  · exact h.aside hrun (opStep_aside hop hstep) hin'
  cases h with
  | requested size hop hmarker hin hslot hout =>
    simp only [opStep, hop, hrun.notClosed, hpty, Bool.not_true, Bool.and_false, Bool.or_false,
      Bool.false_eq_true, if_false, Option.some.injEq] at hstep
    subst hstep
    exact .pending rfl rfl (hin' hin) hslot hout
  | _ => contradiction

/-- **One step.** The marker moves on towards the stream or stays. -/
theorem Place.next (hmk : IsMarker mk) (hpty : cfg.pty = true) {a : Act} (h : Place mk s)
    (hrun : Running s) (hhealthy : a.healthy = true) (hunmarked : a.unmarked = true)
    (hclean : s.pullsCleanly = true) (hstep : next cfg s a = some s') : Place mk s' := by
  have haside : a.aside = true → Place mk s' := fun ha => by
    refine h.aside hrun (next_aside ha hstep) fun hin => hin.next unowned ?_ hstep
    rintro ok rfl
    exact absurd ha (by simp [Act.aside])
  cases a with
  | owner ok => exact h.ownerStep hmk hrun hclean hstep
  | wake failed => exact h.wake hrun hstep
  | dequeue => exact h.dequeue hstep
  | write =>
    exact h.aside hrun (next_write hstep) fun hin => hin.next unowned (by simp) hstep
  | writeFail => simp [Act.healthy] at hhealthy
  | op ok => exact h.store hpty hrun hstep
  | resize c size redraw marker => exact haside hunmarked
  | _ => exact haside rfl

end Around

/-! ## The marker of a redraw -/

def base64Alphabet : List UInt8 :=
  ascii "ABCDEFGHIJKLMNOPQRSTUVWXYZabcdefghijklmnopqrstuvwxyz0123456789+/"

def base64Digit (n : Nat) : UInt8 := base64Alphabet.getD n 61

/-- `base64.StdEncoding.EncodeToString`. -/
def encodeToString : List UInt8 → List UInt8
  | a :: b :: c :: rest =>
    [base64Digit (a.toNat / 4), base64Digit (a.toNat % 4 * 16 + b.toNat / 16),
      base64Digit (b.toNat % 16 * 4 + c.toNat / 64), base64Digit (c.toNat % 64)] ++
      encodeToString rest
  | [a, b] =>
    [base64Digit (a.toNat / 4), base64Digit (a.toNat % 4 * 16 + b.toNat / 16),
      base64Digit (b.toNat % 16 * 4), 61]
  | [a] => [base64Digit (a.toNat / 4), base64Digit (a.toNat % 4 * 16), 61, 61]
  | [] => []

/-- The marker `RedrawScreen` makes of its random bytes. -/
def redrawMarker (random : List UInt8) : List UInt8 :=
  ascii "[TSSHD-MARKER-" ++ encodeToString random ++ ascii "]"

theorem base64Digit_ne_lf (n : Nat) : base64Digit n ≠ 10 := by
  have halphabet : ∀ b ∈ base64Alphabet, b ≠ 10 := ne_lf_of_all (by decide)
  unfold base64Digit
  rw [List.getD_eq_getElem?_getD]
  cases h : base64Alphabet[n]? with
  | none => decide
  | some b => exact halphabet b (List.mem_of_getElem? h)

theorem encodeToString_ne_lf (random : List UInt8) : ∀ b ∈ encodeToString random, b ≠ 10 := by
  fun_induction encodeToString random with
  | case1 a b c rest ih => simpa [base64Digit_ne_lf] using ih
  | case2 a b => simp [base64Digit_ne_lf]
  | case3 a => simp [base64Digit_ne_lf]
  | case4 => simp

/-- It belongs to its client and has no LF. -/
theorem isMarker_redraw (c : Nat) (random : List UInt8) :
    IsMarker (marked c (redrawMarker random)) := by
  constructor
  · exact ⟨⟨91, some c⟩, by simp [marked, redrawMarker, ascii], by simp⟩
  · have hopen : ∀ b ∈ ascii "[TSSHD-MARKER-", b ≠ 10 := ne_lf_of_all (by decide)
    have hclose : ∀ b ∈ ascii "]", b ≠ 10 := ne_lf_of_all (by decide)
    intro x hx
    obtain ⟨b, hb, rfl⟩ := List.mem_map.mp hx
    simp only [redrawMarker, List.mem_append] at hb
    have hne : b ≠ 10 := by
      rcases hb with (hb | hb) | hb
      · exact hopen b hb
      · exact encodeToString_ne_lf random b hb
      · exact hclose b hb
    simpa [Cell.isLF] using hne

/-! ## The result -/

/-- The session goes on and no marker is sent. -/
def Act.steady (a : Act) : Bool := a.healthy && a.unmarked

/-- No marker has been sent. -/
structure Unmarked (s : Sys) : Prop where
  running : Running s
  cells : s.Everywhere Cell.Unowned
  out : s.OutClean
  marker : s.f.discardMarker = none
  op : s.op.marker = none

theorem unmarked_start (cfg : Config) : Unmarked (start cfg) where
  running := ⟨.inl rfl, fun h => absurd h (by simp [start, Pc.role]), by simp [start], rfl,
    fun _ => rfl, rfl⟩
  cells := everywhere_start _ cfg
  out := by simp [Sys.OutClean, Sys.dequeued, start]
  marker := rfl
  op := rfl

theorem Sys.Everywhere.outClean {s : Sys} (h : s.Everywhere Cell.Unowned)
    (hout : ∀ w ∈ s.output, Only Cell.Unowned w.2.text) : s.OutClean := by
  intro b hb
  rcases List.mem_append.mp hb with hb | hb
  · obtain ⟨w, hw, rfl⟩ := List.mem_map.mp hb
    exact hout w hw
  · split at hb
    · rename_i c hc
      rw [List.mem_singleton.mp hb]
      exact h.writer c hc
    · exact absurd hb (by simp)

theorem Unmarked.next {cfg : Config} {a : Act} {s s' : Sys} (h : Unmarked s)
    (ha : a.steady = true) (hstep : next cfg s a = some s') : Unmarked s' := by
  obtain ⟨hhealthy, hunmarked⟩ := Bool.and_eq_true_iff.mp ha
  have hcells : s'.Everywhere Cell.Unowned := by
    refine h.cells.next unowned (fun c size redraw m heq _ => ?_) hstep
    exact absurd hunmarked (by simp [heq, Act.unmarked])
  have hdone : s'.OutClean → s'.f.discardMarker = none → s'.op.marker = none → Unmarked s' :=
    fun hout hmarker hop => ⟨h.running.next hhealthy hstep, hcells, hout, hmarker, hop⟩
  have haside : Aside s s' → Unmarked s' := fun hs =>
    hdone (by simpa [Sys.OutClean, hs.dequeued] using h.out) (hs.marker.trans h.marker) (hs.op h.op)
  cases a with
  | owner ok =>
    have henv := ownerStep_env hstep
    exact hdone (henv.outClean h.out) (henv.marker_none h.marker) (by rw [henv.op]; exact h.op)
  | wake failed =>
    obtain ⟨pc, rfl, _⟩ := wakeOwner_goto hstep
    exact hdone h.out h.marker h.op
  | dequeue =>
    refine hdone (hcells.outClean fun w hw => ?_) ?_ ?_ <;> simp only [Output.next] at hstep <;>
      split at hstep <;> cases hstep
    · exact h.out w.2 (List.mem_append_left _ (List.mem_map_of_mem hw))
    · exact h.marker
    · exact h.op
  | write => exact haside (next_write hstep)
  | writeFail => simp [Act.healthy] at hhealthy
  | op ok => exact haside (opStep_aside h.op hstep)
  | resize c size redraw marker =>
    exact haside (next_aside (a := .resize c size redraw marker) hunmarked hstep)
  | _ => exact haside (next_aside rfl hstep)

/-- The marker of a redraw: still to be stored or pending, or under way to the
client, complete and once. -/
def Kept (mk : Text) (s : Sys) : Prop :=
  (s.op.marker = some mk ∨ s.f.discardMarker = some mk) ∧ Only Cell.Unowned s.carried ∨
    s.op.marker = none ∧ s.f.discardMarker = none ∧ Once mk s.carried

theorem Place.kept {mk : Text} {s : Sys} (h : Place mk s) : Kept mk s := by
  have hflat : ∀ bufs : List Buf, (∀ b ∈ bufs, Only Cell.Unowned b.text) →
      Only Cell.Unowned (bufs.flatMap Buf.text) := by
    intro bufs h x hx
    obtain ⟨b, hb, hxb⟩ := List.mem_flatMap.mp hx
    exact h b hb x hxb
  have hslot' : s.SlotClean → Only Cell.Unowned (s.f.writeBufCh.toList.flatMap Buf.text) :=
    fun h => hflat _ (by simpa [Sys.SlotClean] using h)
  cases h with
  | requested size hop hmarker hin hslot hout =>
    refine .inl ⟨.inl (by simp [hop, AttachOp.marker]), ?_⟩
    simp only [Sys.carried, Only.append]
    exact ⟨⟨⟨hflat _ hout, hslot' hslot⟩, Only.flatten.mpr hin.cache⟩, hin.pc⟩
  | pending hop hmarker hin hslot hout =>
    refine .inl ⟨.inr hmarker, ?_⟩
    simp only [Sys.carried, Only.append]
    exact ⟨⟨⟨hflat _ hout, hslot' hslot⟩, Only.flatten.mpr hin.cache⟩, hin.pc⟩
  | inHand hop hmarker hin hpc hslot hout =>
    refine .inr ⟨hop, hmarker, hpc.once.append_left ?_⟩
    simp only [Only.append]
    exact ⟨⟨hflat _ hout, hslot' hslot⟩, Only.flatten.mpr hin.cache⟩
  | queued b hop hmarker hin hfull hb hout =>
    refine .inr ⟨hop, hmarker, ?_⟩
    have hqueue : Once mk (s.f.writeBufCh.toList.flatMap Buf.text) := by
      simpa [hfull] using hb.once
    exact ((hqueue.append_left (hflat _ hout)).append_right
      (Only.flatten.mpr hin.cache)).append_right hin.pc
  | given earlier b later hop hmarker hin hslot hout hb hrest =>
    refine .inr ⟨hop, hmarker, ?_⟩
    have hearlier := hflat earlier fun c hc => hrest c (List.mem_append_left _ hc)
    have hlater := hflat later fun c hc => hrest c (List.mem_append_right _ hc)
    have hgiven : Once mk (s.dequeued.flatMap Buf.text) := by
      rw [hout, List.flatMap_append, List.flatMap_cons]
      exact (hb.append_right hlater).append_left hearlier
    exact ((hgiven.append_right (hslot' hslot)).append_right
      (Only.flatten.mpr hin.cache)).append_right hin.pc

/-- A state with no byte of a marker has lost it. -/
theorem not_kept {mk : Text} {s : Sys} (hmk : IsMarker mk) (hop : s.op.marker = none)
    (hmarker : s.f.discardMarker = none) (hclean : Only Cell.Unowned s.carried) : ¬ Kept mk s := by
  rintro (⟨hpending | hpending, _⟩ | ⟨_, _, pre, post, htext, _⟩)
  · exact absurd (hop.symm.trans hpending) (by simp)
  · exact absurd (hmarker.symm.trans hpending) (by simp)
  · obtain ⟨x, hx, howned⟩ := hmk.owned
    rw [htext] at hclean
    exact howned (hclean x (by simp [hx]))

/-- **The marker is kept.** A client sends the marker of a redraw, the first one
of the session. In every run from there in which no further marker is sent,
writes succeed, the checkers and the session stay open, and a handler with the
marker in hand pulls back only a chunk without LF, the marker is pending or it is
under way, complete and once. -/
theorem marker_kept {cfg : Config} (hpty : cfg.pty = true) {c : Nat} {size : Int × Int}
    {random : List UInt8} {s s₁ t : Sys}
    (h : (machine cfg).ReachableVia (fun _ a => a.steady = true) s)
    (hresize : next cfg s (.resize c size true (some (redrawMarker random))) = some s₁)
    (hpath : (machine cfg).Path (fun s a => a.steady = true ∧ s.pullsCleanly = true) s₁ t) :
    Kept (marked c (redrawMarker random)) t := by
  have hmk := isMarker_redraw c random
  have hs : Unmarked s := h.invariant (fun s0 hs0 => hs0 ▸ unmarked_start cfg)
    fun _ _ _ hu ha hn => hu.next ha hn
  have hrun₁ := hs.running.next rfl hresize
  have hplace₁ : Place (marked c (redrawMarker random)) s₁ := by
    have hin := hs.cells.inside.next unowned (by simp) hresize
    simp only [next] at hresize
    split at hresize <;> cases hresize
    exact .requested size rfl hs.marker hin hs.cells.slot hs.out
  have hplace : Running t ∧ Place (marked c (redrawMarker random)) t := by
    induction hpath with
    | refl => exact ⟨hrun₁, hplace₁⟩
    | snoc _ hok hn ih =>
      obtain ⟨hsteady, hclean⟩ := hok
      obtain ⟨hhealthy, hunmarked⟩ := Bool.and_eq_true_iff.mp hsteady
      exact ⟨ih.1.next hhealthy hn, ih.2.next hmk hpty ih.1 hhealthy hunmarked hclean hn⟩
  exact hplace.2.kept

/-! ## The marker in the cache -/

/-- The writer is at a first chunk when a second one, `chunk`, is queued. -/
def queuedBehind (chunk : List UInt8) : List Act :=
  [Act.read [120] false, .begin] ++ handler 8 ++ [Act.dequeue, .read chunk false, .begin] ++
    handler 8

/-- The marker is stored, the client times out, and the program goes on. -/
def timedOut : List Act :=
  [Act.op true, .op true, .timeout 7, .read [98] false, .begin] ++ handler 15

def sampleMarker : List UInt8 := redrawMarker (List.replicate 30 0)

theorem marker_kept_merged :
    ∃ s s₁ t, (machine terminal).ReachableVia (fun _ a => a.steady = true) s ∧
      next terminal s (.resize 7 (80, 24) true (some sampleMarker)) = some s₁ ∧
      (machine terminal).Path (fun s a => a.steady = true ∧ s.pullsCleanly = true) s₁ t ∧
      t.f.writeBufCh = some { raw := plain [97] ++ marked 7 sampleMarker ++ plain [98] } ∧
      Kept (marked 7 sampleMarker) t := by
  have hrun : (((machine terminal).execWhile (fun _ a => a.steady) (start terminal)
      (queuedBehind [97])).bind fun s =>
        (next terminal s (.resize 7 (80, 24) true (some sampleMarker))).bind fun s₁ =>
          (machine terminal).execWhile (fun s a => a.steady && s.pullsCleanly) s₁ timedOut).any
      (fun t => decide (t.f.writeBufCh =
        some { raw := plain [97] ++ marked 7 sampleMarker ++ plain [98] })) = true := by
    decide
  obtain ⟨t, ht, hend⟩ := (Option.any_eq_true _ _).mp hrun
  obtain ⟨s, hs, hrest⟩ := Option.bind_eq_some_iff.mp ht
  obtain ⟨s₁, hresize, hpath⟩ := Option.bind_eq_some_iff.mp hrest
  have hreach : (machine terminal).ReachableVia (fun _ a => a.steady = true) s :=
    .execWhile (fun _ _ h => h) (.init rfl) hs
  have hlater : (machine terminal).Path (fun s a => a.steady = true ∧ s.pullsCleanly = true) s₁ t :=
    (TSys.Path.refl s₁).execWhile (fun _ _ h => Bool.and_eq_true_iff.mp h) hpath
  exact ⟨s, s₁, t, hreach, hresize, hlater, of_decide_eq_true hend,
    marker_kept rfl hreach hresize hlater⟩

/-- Empty lines stay lines of their own. -/
theorem cacheLoop_emptyLines (n : Nat) (init : List Text) (line : Text) :
    cacheLoop n (init ++ [line ++ plain [10]]) (plain (List.replicate n 10)) =
      init ++ [line ++ plain [10]] ++ List.replicate n (plain [10]) := by
  induction n generalizing init line with
  | zero => simp [cacheLoop]
  | succ n ih =>
    have hnext : nextLine (plain (List.replicate (n + 1) 10)) =
        (plain [10], plain (List.replicate n 10)) := by
      simp [nextLine, plain, List.replicate_succ, cutAfter, Cell.isLF]
    have hown : appendLine (init ++ [line ++ plain [10]]) (plain [10]) =
        init ++ [line ++ plain [10]] ++ [[] ++ plain [10]] := by
      simp [appendLine, joins, plain, Cell.isLF]
    unfold cacheLoop
    rw [if_neg (by simp [plain, List.replicate_succ]), hnext, hown, ih]
    simp [List.replicate_succ]

/-- As many empty lines as the cache holds push an unfinished line out of it. -/
theorem cacheOutput_emptyLines (lim : Limits) (rows : Int) {f : Forwarder} {line : Text}
    (hcache : f.cacheLines = [line]) (hjoins : joins line (plain [10]) = true) :
    (cacheOutput lim rows f (plain (List.replicate (lim.maxLines rows + 1) 10))).cacheLines =
      List.replicate (lim.maxLines rows) (plain [10]) := by
  have hfirst : cacheLoop (lim.maxLines rows + 1) [line]
      (plain (List.replicate (lim.maxLines rows + 1) 10)) =
      [line ++ plain [10]] ++ List.replicate (lim.maxLines rows) (plain [10]) := by
    have hnext : nextLine (plain (List.replicate (lim.maxLines rows + 1) 10)) =
        (plain [10], plain (List.replicate (lim.maxLines rows) 10)) := by
      simp [nextLine, plain, List.replicate_succ, cutAfter, Cell.isLF]
    unfold cacheLoop
    rw [if_neg (by simp [plain, List.replicate_succ]), hnext]
    simpa [appendLine, hjoins] using cacheLoop_emptyLines (lim.maxLines rows) [] line
  have hlength : (plain (List.replicate (lim.maxLines rows + 1) 10)).length =
      lim.maxLines rows + 1 := by simp [plain]
  simp [cacheOutput, hlength, hcache, hfirst, trimCache]

/-- The whole chunk goes to the cache. -/
theorem next_checkKeep {cfg : Config} {s : Sys} {buf : Text} (hpc : s.pc = .checkKeep buf)
    (hkeep : s.isKeepPendingOutput = false) :
    next cfg s (.owner true) = some ((s.cache cfg buf).goto .endLoop) := by
  simp [next, ownerStep, hpc, hkeep]

/-- If the cache, with the chunk, has no byte of a marker, and neither has what
left it, the marker is lost. -/
theorem not_kept_cached {cfg : Config} {s : Sys} {buf mk : Text} (hmk : IsMarker mk)
    (hop : s.op.marker = none) (hmarker : s.f.discardMarker = none)
    (hclean : Only Cell.Unowned
      (s.dequeued.flatMap Buf.text ++ s.f.writeBufCh.toList.flatMap Buf.text))
    (hlines : ∀ l ∈ (cacheOutput cfg.lim s.size.2 s.f buf).cacheLines, Only Cell.Unowned l) :
    ¬ Kept mk ((s.cache cfg buf).goto .endLoop) := by
  have hcarried : ((s.cache cfg buf).goto .endLoop).carried =
      s.dequeued.flatMap Buf.text ++ s.f.writeBufCh.toList.flatMap Buf.text ++
        (cacheOutput cfg.lim s.size.2 s.f buf).cacheLines.flatten := by
    simp [Sys.carried, Sys.cache, Sys.goto, Sys.dequeued, Pc.cells, Pc.holding]
  refine not_kept hmk hop (by simpa [Sys.cache, Sys.goto] using hmarker) ?_
  rw [hcarried, Only.append, Only.flatten]
  exact ⟨hclean, hlines⟩

/-- More lines than the cache of `terminal` holds. -/
def manyLines : List UInt8 := List.replicate 1001 10

/-- **A marker is lost.** The queued chunk ends with LF, so the marker goes to the
cache. Then the program puts out more lines than the cache holds. -/
theorem marker_lost :
    ∃ s s₁ t, (machine terminal).ReachableVia (fun _ a => a.steady = true) s ∧
      next terminal s (.resize 7 (80, 24) true (some sampleMarker)) = some s₁ ∧
      (machine terminal).Path (fun _ a => a.steady = true) s₁ t ∧
      ¬ Kept (marked 7 sampleMarker) t := by
  have hrun : (((machine terminal).execWhile (fun _ a => a.steady) (start terminal)
      (queuedBehind [97, 10])).bind fun s =>
        (next terminal s (.resize 7 (80, 24) true (some sampleMarker))).bind fun s₁ =>
          (machine terminal).execWhile (fun _ a => a.steady) s₁
            (timedOut ++ [.read manyLines false, .begin] ++ handler 3)).any
      (fun u => decide (u.pc = .checkKeep (plain manyLines) ∧
        u.f.cacheLines = [marked 7 sampleMarker ++ plain [98]] ∧
        u.isKeepPendingOutput = false ∧ u.size = (80, 24) ∧ u.op.marker = none ∧
        u.f.discardMarker = none ∧
        ∀ x ∈ u.dequeued.flatMap Buf.text ++ u.f.writeBufCh.toList.flatMap Buf.text,
          x.owner = none)) = true := by
    decide +kernel
  obtain ⟨u, hu, hend⟩ := (Option.any_eq_true _ _).mp hrun
  obtain ⟨s, hs, hrest⟩ := Option.bind_eq_some_iff.mp hu
  obtain ⟨s₁, hresize, hpath⟩ := Option.bind_eq_some_iff.mp hrest
  obtain ⟨hpc, hcache, hkeep, hsize, hop, hmarker, hclean⟩ := of_decide_eq_true hend
  have hstep : (machine terminal).next u (.owner true) =
      some ((u.cache terminal (plain manyLines)).goto .endLoop) := next_checkKeep hpc hkeep
  refine ⟨s, s₁, _, .execWhile (fun _ _ h => h) (.init rfl) hs, hresize,
    .snoc ((TSys.Path.refl s₁).execWhile (fun _ _ h => h) hpath) rfl hstep, ?_⟩
  have hlines : (cacheOutput terminal.lim u.size.2 u.f (plain manyLines)).cacheLines =
      List.replicate (terminal.lim.maxLines 24) (plain [10]) := by
    rw [hsize]
    exact cacheOutput_emptyLines terminal.lim 24 hcache (by decide)
  refine not_kept_cached (isMarker_redraw 7 (List.replicate 30 0)) hop hmarker hclean fun l hl => ?_
  rw [hlines] at hl
  rw [List.eq_of_mem_replicate hl]
  exact .plain unowned _

end Tsshd.Output

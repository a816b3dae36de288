import Tsshd.Output.Cells

/-!
# A redraw marker and the client it reaches

The marker of a redraw is for the client that sent it: only that client looks
for it in its output, any other shows it to the user. But the marker waits in
the forwarder for the next chunk of output, and the session may be detached and
attached by another client in the meantime.

* **private** — `marker_private`: as long as a client's stream is put in place
  only when no byte of another client's marker is pending or under way, every
  byte of a marker that is written goes to its client;
* **leaked** — `marker_leaked`: a detach leaves `discardMarker` as it is, and the
  first output for the next client starts with the marker of the last one.
-/

namespace Tsshd.Output

/-- A byte that client `c` may be sent. -/
def Cell.For (c : Nat) (x : Cell) : Prop := x.owner = none ∨ x.owner = some c

instance (c : Nat) (x : Cell) : Decidable (x.For c) := inferInstanceAs (Decidable (_ ∨ _))

theorem Cell.For.of_unowned {c : Nat} (x : Cell) (h : x.owner = none) : x.For c := .inl h

theorem Only.marked (c : Nat) (bytes : List UInt8) : Only (Cell.For c) (marked c bytes) := by
  intro x hx
  obtain ⟨b, _, rfl⟩ := List.mem_map.mp hx
  exact .inr rfl

/-- Everything that is pending or under way. -/
def Sys.underWay (s : Sys) : Text :=
  s.f.discardMarker.getD [] ++ s.op.marker.getD [] ++ s.main.hand ++ s.pc.cells ++
    s.f.cacheLines.flatten ++ s.f.tmuxOutputPrefix ++ s.f.writeBufCh.toList.flatMap Buf.text ++
    match s.writer with
    | .holding b => b.text
    | _ => []

theorem Sys.everywhere_of_underWay {P : Cell → Prop} {s : Sys} (h : Only P s.underWay) :
    s.Everywhere P := by
  simp only [Sys.underWay, Only.append] at h
  obtain ⟨⟨⟨⟨⟨⟨⟨hmarker, hop⟩, hmain⟩, hpc⟩, hcache⟩, htmux⟩, hslot⟩, hwriter⟩ := h
  refine ⟨⟨⟨Only.flatten.mp hcache, htmux, hmain⟩, hpc⟩, ?_, ?_, ?_, ?_⟩
  · intro b hb x hx
    exact hslot x (List.mem_flatMap.mpr ⟨b, by simpa using hb, hx⟩)
  · intro b hb
    simpa [hb] using hwriter
  · intro m hm
    simpa [Option.mem_def.mp hm] using hmarker
  · intro m hm
    simpa [Option.mem_def.mp hm] using hop

/-! ## Streams and owners -/

/-- The stream in place is that of the owner, except inside a detach and an
attach. -/
def InPlace (server stream : Option Nat) : AttachOp → Prop
  | .detachServer => stream = none
  | .attachServer _ _ => server = none ∧ stream = none
  | .attachStream c _ => server = some c ∧ stream = none
  | _ => stream = server

/-- What is under way is for the client whose stream is in place. -/
structure Private (s : Sys) : Prop where
  inPlace : InPlace s.server s.stream s.op
  underWay : ∀ c, s.stream = some c → s.Everywhere (Cell.For c)
  written : ∀ w ∈ s.output, Only (Cell.For w.1) w.2.text

/-- The condition on an attach: when the stream of a client is put in place, no
byte of the marker of another client is pending or under way. -/
def Sys.attachesCleanly (s : Sys) : Act → Bool
  | .op _ =>
    match s.op with
    | .attachStream c _ => s.underWay.all fun x => decide (x.For c)
    | _ => true
  | _ => true

section

variable {cfg : Config} {s s' : Sys} {a : Act}

/-- The streams change hands only with `attachMutex` held. -/
theorem InPlace.next (h : InPlace s.server s.stream s.op) (hstep : next cfg s a = some s') :
    InPlace s'.server s'.stream s'.op := by
  cases a with
  | owner ok =>
    have henv := ownerStep_env hstep
    rw [henv.server, henv.stream, henv.op]
    exact h
  | wake failed =>
    obtain ⟨pc, rfl, _⟩ := wakeOwner_goto hstep
    exact h
  | op ok =>
    simp only [Output.next, opStep] at hstep
    cases hop : s.op with
    | detachServer =>
      rw [hop] at h
      simp only [hop, Option.some.injEq] at hstep
      subst hstep
      exact h
    | attachServer c size =>
      rw [hop] at h
      simp only [hop, Option.some.injEq] at hstep
      subst hstep
      exact ⟨rfl, h.2⟩
    | attachStream c size =>
      rw [hop] at h
      simp only [hop, Option.some.injEq] at hstep
      subst hstep
      dsimp only
      split <;> exact h.1.symm
    | _ =>
      rw [hop] at h
      simp only [hop] at hstep
      repeat' split at hstep
      all_goals cases hstep
      all_goals first | exact h | rfl
  | detach =>
    simp only [Output.next] at hstep
    split at hstep <;> cases hstep
    rename_i hfree
    rw [hfree] at h
    exact h
  | attach c size =>
    simp only [Output.next] at hstep
    split at hstep <;> cases hstep
    rename_i hfree
    rw [hfree.1] at h
    exact ⟨hfree.2, h.trans hfree.2⟩
  | resize c size redraw marker =>
    simp only [Output.next] at hstep
    split at hstep <;> cases hstep
    rename_i hfree
    rw [hfree.1] at h
    exact h
  | _ =>
    simp only [Output.next] at hstep
    repeat' split at hstep
    all_goals cases hstep
    all_goals exact h

/-- A stream is put in place by an attach only. -/
theorem next_stream (hstep : next cfg s a = some s') {c : Nat} (hc : s'.stream = some c) :
    s.stream = some c ∨ ∃ ok size, a = .op ok ∧ s.op = .attachStream c size := by
  cases a with
  | owner ok => exact .inl ((ownerStep_env hstep).stream ▸ hc)
  | wake failed =>
    obtain ⟨pc, rfl, _⟩ := wakeOwner_goto hstep
    exact .inl hc
  | op ok =>
    simp only [next, opStep] at hstep
    cases hop : s.op with
    | attachStream c' size =>
      simp only [hop, Option.some.injEq] at hstep
      subst hstep
      obtain rfl : c' = c := Option.some.inj hc
      exact .inr ⟨ok, size, rfl, rfl⟩
    | detachStream =>
      simp only [hop, Option.some.injEq] at hstep
      subst hstep
      exact absurd hc (by simp)
    | _ =>
      simp only [hop] at hstep
      repeat' split at hstep
      all_goals cases hstep
      all_goals exact .inl hc
  | _ =>
    simp only [next] at hstep
    repeat' split at hstep
    all_goals cases hstep
    all_goals exact .inl hc

/-- A marker comes from the client whose stream is in place. -/
theorem InPlace.resize (h : InPlace s.server s.stream s.op) {c d : Nat} {size : Int × Int}
    {redraw : Bool} {marker : Option (List UInt8)}
    (hstep : Output.next cfg s (.resize d size redraw marker) = some s')
    (hc : s.stream = some c) : d = c := by
  simp only [Output.next] at hstep
  split at hstep
  · rename_i hfree
    rw [hfree.1, hfree.2] at h
    exact Option.some.inj (h.symm.trans hc)
  · exact absurd hstep (by simp)

theorem Private.next (h : Private s) (hok : s.attachesCleanly a = true)
    (hstep : next cfg s a = some s') : Private s' := by
  refine ⟨h.inPlace.next hstep, fun c hc => ?_, fun w hw => ?_⟩
  · rcases next_stream hstep hc with hsame | ⟨ok, size, rfl, hop⟩
    · refine (h.underWay c hsame).next .of_unowned (fun d size redraw m heq _ => ?_) hstep
      subst heq
      obtain rfl := h.inPlace.resize hstep hsame
      exact .marked d m
    · -- the stream changes hands: this is where the condition comes in
      have hclean : Only (Cell.For c) s.underWay := by
        simpa [Sys.attachesCleanly, hop, Only] using hok
      exact (Sys.everywhere_of_underWay hclean).next .of_unowned
        (fun _ _ _ _ heq => absurd heq (by simp)) hstep
  · rcases next_output hstep with hsame | ⟨b, c, hb, hc, hout⟩
    · exact h.written w (hsame ▸ hw)
    · rw [hout] at hw
      rcases List.mem_append.mp hw with hw | hw
      · exact h.written w hw
      · rw [List.mem_singleton.mp hw]
        exact (h.underWay c hc).writer b hb

theorem private_start (cfg : Config) : Private (start cfg) :=
  ⟨rfl, fun _ _ => everywhere_start _ cfg, by simp [start]⟩

end

/-- **A marker reaches only its client**, in every run in which the stream of a
client is put in place only when no byte of the marker of another client is
pending or under way. -/
theorem marker_private {cfg : Config} {s : Sys}
    (h : (machine cfg).ReachableVia (fun s a => s.attachesCleanly a = true) s) :
    ∀ w ∈ s.output, ∀ x ∈ w.2.text, x.owner = none ∨ x.owner = some w.1 := by
  have hprivate : Private s := h.invariant (fun s0 hs0 => hs0 ▸ private_start cfg)
    fun _ _ _ hp hok hn => hp.next hok hn
  exact hprivate.written

def shortMarker : List UInt8 := ascii "[TSSHD-MARKER-AA==]"

/-- The program puts out a byte, which is written. -/
def oneByte (handlerSteps : Nat) : List Act :=
  [Act.read [97] false, .begin] ++ List.replicate handlerSteps (Act.owner true) ++
    [Act.dequeue, .write]

/-- Client 7 redraws its screen. -/
def redraws : List Act :=
  [Act.resize 7 (80, 24) true (some shortMarker)] ++ List.replicate 2 (Act.op true)

/-- Client 7 is detached, and client 8 attaches. -/
def changesHands : List Act :=
  [Act.detach] ++ List.replicate 3 (Act.op true) ++ [Act.attach 8 (80, 24)] ++
    List.replicate 5 (Act.op true)

theorem marker_private_answered :
    ∃ s, (machine terminal).ReachableVia (fun s a => s.attachesCleanly a = true) s ∧
      s.output.map (fun w => (w.1, w.2.text)) =
        [(7, marked 7 shortMarker ++ plain [97]), (8, plain [97])] ∧
      ∀ w ∈ s.output, ∀ x ∈ w.2.text, x.owner = none ∨ x.owner = some w.1 := by
  have hrun : ((machine terminal).execWhile (fun s a => s.attachesCleanly a) (start terminal)
      (redraws ++ oneByte 10 ++ changesHands ++ oneByte 9)).any
        (fun s => decide (s.output.map (fun w => (w.1, w.2.text)) =
          [(7, marked 7 shortMarker ++ plain [97]), (8, plain [97])])) = true := by
    decide
  obtain ⟨s, hs, hend⟩ := (Option.any_eq_true _ _).mp hrun
  have hreach : (machine terminal).ReachableVia (fun s a => s.attachesCleanly a = true) s :=
    .execWhile (fun _ _ h => h) (.init rfl) hs
  exact ⟨s, hreach, of_decide_eq_true hend, marker_private hreach⟩

/-- **A marker reaches another client.** Client 7 redraws its screen, and before
the program puts out anything, client 8 has attached. -/
theorem marker_leaked :
    ∃ s, (machine terminal).Reachable s ∧
      ∃ w ∈ s.output, w.1 = 8 ∧ ∃ x ∈ w.2.text, x.owner = some 7 := by
  have hrun : ((machine terminal).exec (start terminal)
      (redraws ++ changesHands ++ oneByte 10)).any
        (fun s => decide (∃ w ∈ s.output, w.1 = 8 ∧ ∃ x ∈ w.2.text, x.owner = some 7)) = true := by
    decide
  obtain ⟨s, hs, hend⟩ := (Option.any_eq_true _ _).mp hrun
  exact ⟨s, .exec (.init rfl) hs, of_decide_eq_true hend⟩

end Tsshd.Output

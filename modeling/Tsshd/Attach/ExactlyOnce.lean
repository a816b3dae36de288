import Tsshd.Attach.Accounts

/-!
# A write lands on one stream

`do` makes a failed write again on the stream that replaced the old one. That
is right only if a failed attempt has written nothing and never will:

* **exactly once** — `written_once`: in every run in which a writer leaves a
  buffer it has handed over only when its underlying write has failed, and a
  failed underlying write has written nothing, the streams have received the
  buffers of the successful writes, each once and in order;
* **the writer leaves too early** — `written_twice`: it sees its stream closed,
  gives up, and writes the buffer again, while the worker of the old stream has
  already written it.
-/

namespace Tsshd.Stream

/-! ## The programs -/

section Programs

variable {bufs : Nat → List UInt8} {n k : Nat} {s : Streams}

/-- What an access of the outline may assume. -/
abbrev assumed (bufs : Nat → List UInt8) : Label → Streams → Prop :=
  fun l t => Inv bufs t ∧ leavesFailed l t = true

theorem writeStream_safe (h : Ready bufs n k s) :
    (writer bufs).Safe (assumed bufs) (fun ok t => Tried bufs n ok t)
      (writeStream k ⟨n, bufs n⟩) s := by
  refine .load fun t hst _ => .ite (fun _ => ?_) fun _ => ?_
  · exact .ret fun u hu => ((h.others hst).others hu).tried
  refine .atomic fun u e htu hinv hen => ?_
  have hu : Ready bufs n k u := (h.others hst).others htu
  cases hok : e.ok with
  | false =>
    refine ⟨(writer bufs).guar_refl u, ?_⟩
    exact .ret fun v hv => (hu.others hv).tried
  | true =>
    have hshape := hinv.1.shape.update (k := k) (f := ({ · with worker := .writing ⟨n, bufs n⟩ }))
      (hinv.1.shape.closeCh k)
    refine ⟨⟨rfl, fun _ => hu.sent.inv hshape⟩, ?_⟩
    refine .choose fun v e hv hasm hen => ?_
    have hsent : Sent bufs n k v := hu.sent.others hv
    cases hack : e.ok with
    | true =>
      obtain ⟨r, hr⟩ := Option.isSome_iff_exists.mp (by simpa [hack] using hen)
      have hshape := hasm.1.shape.update (k := k) (f := ({ · with ackCh := none }))
        (hasm.1.shape.closeCh k)
      have htried := hsent.answered hr
      refine ⟨⟨rfl, fun _ => htried.inv hshape⟩, ?_⟩
      exact .ret fun w hw => by simpa [hr] using htried.others hw
    | false =>
      -- the stream is closed, so it was given up
      have hout : k ∈ v.retired := hasm.1.shape.closeCh k (by simpa [hack] using hen)
      have htried := hsent.left hout (by simpa [hack, leavesFailed] using hasm.2)
      exact ⟨(writer bufs).guar_refl v, .ret fun w hw => htried.others hw⟩

theorem returned_safe {ok : Bool} (h : Tried bufs n ok s) :
    (writer bufs).Safe (assumed bufs) (fun o t => ∀ job ∈ o, ∃ m, job = .write m ∧ Trying bufs m t)
      (returned n ok) s := by
  refine .store fun t hst hasm => ?_
  have ht := (h.others hst).returned
  refine ⟨⟨rfl, fun hinv => ht.tried.inv ⟨hinv.shape.latest, hinv.shape.retired,
    hinv.shape.closeCh⟩⟩, .ret fun u hu job hjob => ?_⟩
  obtain rfl : job = .write (n + 1) := by simpa using hjob.symm
  exact ⟨n + 1, rfl, ht.others hu⟩

theorem write_safe (h : Trying bufs n s) :
    (writer bufs).Safe (assumed bufs) (fun o t => ∀ job ∈ o, ∃ m, job = .write m ∧ Trying bufs m t)
      (write n (bufs n)) s := by
  refine .atomic fun t e hst hasm _ => ⟨(writer bufs).guar_refl t, ?_⟩
  have ht : Trying bufs n t := h.others hst
  cases hcur : t.cur with
  | none => exact returned_safe ht.tried
  | some k =>
    have hk : t.stream = some k := by
      unfold Replaceable.cur at hcur
      split at hcur
      · exact absurd hcur (by simp)
      · exact hcur
    refine .bind ((writeStream_safe (ht.ready hasm.1.shape hk)).weaken fun ok u hu => ?_)
    refine .load fun v huv _ => .ite (fun hretry => ?_) fun _ => returned_safe (hu.others huv)
    -- the failed attempt has written nothing
    have hok : ok = false := by simpa using (Bool.and_eq_true_iff.mp hretry).2
    subst hok
    refine .ret fun w hw job hjob => ⟨n, by simpa using hjob.symm, ?_⟩
    have hw := (hu.others huv).others hw
    exact ⟨hw.number, by simpa using hw.settled⟩

/-- A stream was given up. -/
def gaveUp (k : Nat) : Assertion other := ⟨fun s => k ∈ s.retired, fun hs hst => hst hs⟩

theorem gaveUp_admits {f : IStream → IStream} (hmoves : (s.streams k).Moves (f (s.streams k))) :
    (gaveUp k).Admits s (s.update k f) :=
  fun hk => ⟨⟨.update hmoves, fun hshape => hshape.update fun _ => hk⟩, hk⟩

theorem closeStream_keeps : (gaveUp k).Keeps (assumed bufs) (closeStream k) := by
  refine .bind (.exchange fun s _ => gaveUp_admits (.of_same rfl rfl rfl)) fun won => .when ?_
  refine .bind (.store fun s _ => gaveUp_admits (.of_same rfl rfl rfl)) fun _ => ?_
  exact .store fun s _ => gaveUp_admits (.of_same rfl rfl rfl)

/-- The thread goes on as a worker, if at all. -/
def Works (o : Option Job) : Prop := ∀ job ∈ o, ∃ k, job = .worker k

/-- A step of a worker does not close the stream. -/
theorem worker_guar {f : IStream → IStream} (hmoves : (s.streams k).Moves (f (s.streams k)))
    (hclose : (f (s.streams k)).closeCh = (s.streams k).closeCh) : other.guar s (s.update k f) :=
  ⟨.update hmoves, fun hshape => hshape.update fun h => hshape.closeCh k (hclose ▸ h)⟩

theorem worker_safe : other.Safe (assumed bufs) (fun o _ => Works o) (worker k) s := by
  refine .atomic fun t _ _ _ _ => ⟨worker_guar (.selected _) ?_, .ite (fun _ => ?_) fun _ => ?_⟩
  · unfold IStream.selected
    split <;> rfl
  · refine .choose fun t e _ hasm _ => ⟨worker_guar (.written _ ?_) ?_, ?_⟩
    · -- a write that fails half way is assumed not to happen
      by_contra hpart
      exact absurd hasm.2 (by simp [hpart, leavesFailed])
    · unfold IStream.written
      split
      · split <;> rfl
      · rfl
    refine .atomic fun t _ _ _ _ => ⟨worker_guar (.acked _) ?_, .ret fun _ _ => ?_⟩
    · unfold IStream.acked
      split <;> rfl
    · exact fun job hjob => ⟨k, by simpa using hjob.symm⟩
  · exact .ret fun _ _ job hjob => absurd hjob (by simp)

theorem Streams.Shape.lt_fresh (h : s.Shape) : ∀ j ∈ s.stream.toList ++ s.retired, j < s.fresh := by
  intro j hj
  rcases List.mem_append.mp hj with hj | hj
  · have := (h.latest j (by simpa using hj)).1
    omega
  · exact h.retired j hj

theorem swapped_guar (new : Bool) : other.guar s (s.swapped new) := by
  unfold Streams.swapped Replaceable.swap
  by_cases hclosed : s.closed = true
  · rw [if_pos hclosed]
    exact other.guar_refl s
  rw [if_neg hclosed]
  have hmore : s.retired ⊆ s.stream.toList ++ s.retired := List.subset_append_right _ _
  cases new with
  | false =>
    refine ⟨⟨rfl, le_rfl, hmore, fun _ => .refl _⟩, fun hshape => ⟨?_, hshape.lt_fresh,
      fun j hj => hmore (hshape.closeCh j hj)⟩⟩
    rintro j ⟨⟩
  | true =>
    refine ⟨⟨rfl, Nat.le_succ _, hmore, fun _ => .refl _⟩, fun hshape => ⟨fun j hj => ?_,
      fun j hj => Nat.lt_succ_of_lt (hshape.lt_fresh j hj),
      fun j hj => hmore (hshape.closeCh j hj)⟩⟩
    obtain rfl : s.fresh = j := Option.some.inj hj
    exact ⟨rfl, fun hin => absurd (hshape.lt_fresh _ hin) (Nat.lt_irrefl _)⟩

theorem swap_safe (new : Bool) : other.Safe (assumed bufs) (fun o _ => Works o) (swap new) s := by
  refine .exchange fun t _ _ => ⟨swapped_guar new, .ret fun _ _ job hjob => ?_⟩
  obtain ⟨k, _, rfl⟩ := Option.map_eq_some_iff.mp hjob
  exact ⟨k, rfl⟩

theorem close_safe : other.Safe (assumed bufs) (fun _ _ => True) close s := by
  refine .exchange fun t _ _ => ?_
  unfold Replaceable.close Replaceable.cur
  by_cases hclosed : t.closed = true
  · simp only [hclosed, if_true]
    exact ⟨other.guar_refl t, .ret fun _ _ => trivial⟩
  simp only [hclosed]
  refine ⟨⟨⟨rfl, le_rfl, fun j hj => List.mem_append_right _ hj, fun _ => .refl _⟩,
    fun hshape => ⟨by simp [Replaceable.drop], hshape.lt_fresh, fun j hj =>
      List.mem_append_right _ (hshape.closeCh j hj)⟩⟩, ?_⟩
  cases hcur : t.stream with
  | none => exact .ret fun _ _ => trivial
  | some k =>
    exact (closeStream_keeps _ (by simp [gaveUp, Replaceable.drop, hcur])).weaken
      fun _ _ _ => trivial

end Programs

/-! ## The result -/

section

variable (bufs : Nat → List UInt8)

/-- What holds when a thread starts a job. -/
def pre (i : Nat) (job : Job) (s : Streams) : Prop :=
  match job with
  | .write n => i = 0 ∧ Trying bufs n s
  | .closeOld k => i ≠ 0 ∧ k ∈ s.retired
  | _ => i ≠ 0

theorem contract_other {i : Nat} (h : i ≠ 0) : contract bufs i = other := if_neg h

variable {bufs} in
theorem Works.pre {o : Option Job} (h : Works o) {i : Nat} (hi : i ≠ 0) {s : Streams} :
    ∀ job ∈ o, Stream.pre bufs i job s := by
  intro job hjob
  obtain ⟨k, rfl⟩ := h job hjob
  exact hi

theorem rests_init (k : Nat) : Streams.Rests {} k := .inl ⟨.inl rfl, rfl⟩

theorem trying_init : Trying bufs 0 {} :=
  ⟨rfl, rests_init, fun n _ => by simp [Streams.received, Streams.succeeded]⟩

theorem shape_init : Streams.Shape {} :=
  ⟨fun k hk => by simpa using hk.symm, by simp, by simp⟩

theorem code_safe {i : Nat} {job : Job} {s : Streams} (h : pre bufs i job s) :
    (contract bufs i).Safe (assumed bufs) (fun o t => ∀ job' ∈ o, pre bufs i job' t)
      ((system bufs).code job) s := by
  cases job with
  | write n =>
    obtain ⟨rfl, htrying⟩ := h
    refine (write_safe htrying).weaken fun o t ho job hjob => ?_
    obtain ⟨m, rfl, hm⟩ := ho job hjob
    exact ⟨rfl, hm⟩
  | worker k =>
    rw [contract_other bufs h]
    exact worker_safe.weaken fun o t ho => ho.pre h
  | swap new =>
    rw [contract_other bufs h]
    exact (swap_safe new).weaken fun o t ho => ho.pre h
  | closeOld k =>
    rw [contract_other bufs h.1]
    exact .bind ((closeStream_keeps s h.2).weaken fun _ _ _ => .ret fun _ _ _ hjob =>
      absurd hjob (by simp))
  | close =>
    rw [contract_other bufs h]
    exact .bind (close_safe.weaken fun _ _ _ => .ret fun _ _ _ hjob => absurd hjob (by simp))

/-- The outline: thread 0 writes, the others do the rest. -/
def outline : Outline (system bufs) fun l s => leavesFailed l s = true where
  inv := Inv bufs
  contract := contract bufs
  pre := pre bufs
  init s hs := by
    obtain rfl : s = {} := hs
    exact (trying_init bufs).tried.inv shape_init
  start s i job hs hjob := by
    obtain rfl : s = {} := hs
    match i, hjob with
    | 0, hjob =>
      obtain rfl : Job.write 0 = job := by simpa [system] using hjob
      exact ⟨rfl, trying_init bufs⟩
    | 1, hjob =>
      obtain rfl : Job.worker 0 = job := by simpa [system] using hjob
      exact Nat.one_ne_zero
    | i + 2, hjob => exact absurd hjob (by simp [system])
  spawn s i job hi _ hjob := by
    have hi : i ≠ 0 := fun h => absurd hi (by simp [system, h])
    cases job with
    | write n => exact absurd hjob (by simp [system])
    | worker k => exact absurd hjob (by simp [system])
    | swap new => exact hi
    | closeOld k => exact ⟨hi, by simpa [system] using hjob⟩
    | close => exact hi
  code s i job h := code_safe bufs h
  keep i s t hinv hguar := by
    by_cases hi : i = 0
    · subst hi
      exact hguar.2 hinv
    · rw [contract_other bufs hi] at hguar
      exact hinv.others bufs hguar.1 (hguar.2 hinv.shape)
  compat i j s t hij _ hguar := by
    by_cases hi : i = 0
    · subst hi
      rw [contract_other bufs (Ne.symm hij)]
      exact fun k hk => hguar.1 ▸ hk
    · rw [contract_other bufs hi] at hguar
      by_cases hj : j = 0
      · subst hj
        exact hguar.1
      · rw [contract_other bufs hj]
        exact hguar.1.retired

/-- **Exactly once.** In every run in which a writer leaves a buffer with the
worker only when its underlying write has failed, and no failed underlying write
has written a part of its buffer, the streams have received, one after the
other, the buffers of the successful writes, each once and complete, and behind
them at most that of the write that has not returned. -/
theorem written_once {p : Pool Streams Env Label Job}
    (h : (system bufs).machine.ReachableVia
      (System.Meets fun l s => leavesFailed l s = true) p) :
    p.shared.total = p.shared.succeeded bufs ∨
      p.shared.total = p.shared.succeeded bufs ++ [p.shared.current bufs] := by
  rcases ((outline bufs).sound h).inv.accounts with hs | hs | ⟨k, hb⟩
  · exact .inl (Streams.total_eq hs.gathered)
  · exact .inr (Streams.total_eq hs.gathered)
  · -- under way: the underlying write is still to come, or done
    obtain ⟨base, hbase, hg⟩ := hb.handed
    rcases hbase with ⟨_, _, rfl⟩ | ⟨r, hr, _⟩
    · exact .inl (Streams.total_eq (by rwa [← Streams.received, Function.update_eq_self] at hg))
    · have htotal := Streams.total_eq (hb.gathered hr)
      cases hr : r.err with
      | true => exact .inl (by simpa [hr] using htotal)
      | false => exact .inr (by simpa [hr] using htotal)

end

def buffers (n : Nat) : List UInt8 := [UInt8.ofNat n, 10]

def runs (thread n : Nat) : List (Sched Env Job) := List.replicate n (.run thread {})

/-- The first write is with the worker of stream 0 when the stream is swapped
and closed; its underlying write fails, and the write is made on stream 1. -/
def movedWrite : List (Sched Env Job) :=
  runs 0 3 ++ runs 1 1 ++ [Sched.spawn (.swap true)] ++ runs 2 2 ++ [Sched.spawn (.closeOld 0)] ++
    runs 3 3 ++ [Sched.run 1 { ok := false }, .run 0 { ok := false }] ++ runs 0 5 ++ runs 2 3 ++
    runs 0 3

theorem written_once_moved :
    ∃ p, (system buffers).machine.ReachableVia
        (System.Meets fun l s => leavesFailed l s = true) p ∧
      p.shared.results = [true] ∧ p.shared.received 1 = [⟨0, buffers 0⟩] ∧
      (p.shared.total = p.shared.succeeded buffers ∨
        p.shared.total = p.shared.succeeded buffers ++ [p.shared.current buffers]) := by
  have hrun : ((system buffers).machine.execWhile (System.meets leavesFailed)
      ((system buffers).pool {}) movedWrite).any (fun p => decide
        (p.shared.results = [true] ∧ p.shared.received 1 = [⟨0, buffers 0⟩])) = true := by
    decide
  obtain ⟨p, hp, hend⟩ := (Option.any_eq_true _ _).mp hrun
  have hreach := System.reachableVia_execWhile (m := system buffers) (fun _ _ h => h) rfl hp
  obtain ⟨hresults, hreceived⟩ := of_decide_eq_true hend
  exact ⟨p, hreach, hresults, hreceived, written_once buffers hreach⟩

/-- Stream 0 has the buffer; before the worker can answer, the stream is swapped
and closed, and the writer leaves. -/
def leftTooEarly : List (Sched Env Job) :=
  runs 0 3 ++ runs 1 2 ++ [Sched.spawn (.swap true)] ++ runs 2 2 ++ [Sched.spawn (.closeOld 0)] ++
    runs 3 2 ++ [Sched.run 0 { ok := false }] ++ runs 0 5 ++ runs 2 3 ++ runs 0 3

/-- **A buffer is written twice.** One write has returned, with success, and both
streams have received its buffer. -/
theorem written_twice :
    ∃ p, (system buffers).machine.Reachable p ∧ p.shared.results = [true] ∧
      p.shared.received 0 = [⟨0, buffers 0⟩] ∧ p.shared.received 1 = [⟨0, buffers 0⟩] ∧
      p.shared.total ≠ p.shared.succeeded buffers ∧
      p.shared.total ≠ p.shared.succeeded buffers ++ [p.shared.current buffers] := by
  have hrun : ((system buffers).machine.exec ((system buffers).pool {}) leftTooEarly).any
      (fun p => decide (p.shared.results = [true] ∧
        p.shared.received 0 = [⟨0, buffers 0⟩] ∧ p.shared.received 1 = [⟨0, buffers 0⟩] ∧
        p.shared.total ≠ p.shared.succeeded buffers ∧
        p.shared.total ≠ p.shared.succeeded buffers ++ [p.shared.current buffers])) = true := by
    decide
  obtain ⟨p, hp, hend⟩ := (Option.any_eq_true _ _).mp hrun
  exact ⟨p, System.reachable_exec (m := system buffers) rfl hp, of_decide_eq_true hend⟩

-- The second half of the assumption: an underlying write that fails with one
-- byte written, answered before the stream is closed.
example : ((system buffers).machine.exec ((system buffers).pool {})
    (runs 0 3 ++ [.spawn (.swap true)] ++ runs 2 2 ++
      [.run 1 {}, .run 1 { ok := false, n := 1 }] ++ runs 1 1 ++ runs 0 6 ++ runs 2 3 ++
      runs 0 3)).any (fun p => decide (p.shared.results = [true] ∧
        p.shared.total = [⟨0, (buffers 0).take 1⟩, ⟨0, buffers 0⟩])) = true := by
  decide

end Tsshd.Stream

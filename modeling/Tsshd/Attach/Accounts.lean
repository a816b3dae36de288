import Tsshd.Attach.Stream
import Mathlib.Algebra.Order.Group.Nat

/-!
# The accounts of a replaced stream

What the streams of a session have received, against what was written. Of each
stream only the buffer under way counts:

* **one stream** — `IStream.Moves`: what the threads other than the writer do
  to a stream, as far as its buffer is concerned;
* **all streams** — `Settled` and `Busy`: no buffer is under way, or one is, and
  what has been received apart from it;
* **the writer** — `Trying`, `Ready`, `Sent`, `Tried`: where a write stands, and
  how it gets from one to the next.

The accounts balance under an assumption, `leavesFailed`.
-/

namespace Tsshd.Stream

/-! ## One stream -/

namespace IStream

variable {c d e : IStream} {chunk : Chunk} {base : List Chunk} {r : WriteResult}

def Resting (c : IStream) : Prop := c.worker = .select ∨ c.worker = .stopped

/-- No buffer is under way. -/
def Idle (c : IStream) : Prop := c.Resting ∧ c.ackCh = none

/-- The result of the last buffer is under way to the writer. -/
def Answering (c : IStream) (r : WriteResult) : Prop :=
  (c.worker = .acking r ∧ c.ackCh = none) ∨ (c.Resting ∧ c.ackCh = some r)

/-- The worker has received a buffer, and the stream had received `base` before
that. -/
def Handed (c : IStream) (chunk : Chunk) (base : List Chunk) : Prop :=
  (c.worker = .writing chunk ∧ c.ackCh = none ∧ c.received = base) ∨
    ∃ r, c.Answering r ∧ c.received = base ++ if r.err then [] else [chunk]

/-- What the threads other than the writer do to a stream. -/
structure Moves (c d : IStream) : Prop where
  idle : c.Idle → d.Idle
  answering : ∀ r, c.Answering r → d.Answering r
  kept : c.isWriting = false → d.isWriting = false ∧ d.received = c.received
  writing : ∀ chunk, c.worker = .writing chunk → c.ackCh = none → d.Handed chunk c.received

theorem Idle.not_writing (h : c.Idle) : c.isWriting = false := by
  rcases h.1 with hw | hw <;> simp [isWriting, hw]

theorem Answering.not_writing (h : c.Answering r) : c.isWriting = false := by
  rcases h with ⟨hw, _⟩ | ⟨hw | hw, _⟩ <;> simp [isWriting, hw]

theorem Answering.unique {r' : WriteResult} (h : c.Answering r) (h' : c.Answering r') : r = r' := by
  rcases h with ⟨hw, ha⟩ | ⟨hw, ha⟩ <;> rcases h' with ⟨hw', ha'⟩ | ⟨hw', ha'⟩
  · simpa using hw.symm.trans hw'
  · exact absurd (ha.symm.trans ha') (by simp)
  · exact absurd (ha.symm.trans ha') (by simp)
  · simpa using ha.symm.trans ha'

theorem Moves.handed (h : Moves c d) (hc : c.Handed chunk base) : d.Handed chunk base := by
  rcases hc with ⟨hw, hack, rfl⟩ | ⟨r, hr, hrecv⟩
  · exact h.writing chunk hw hack
  · exact .inr ⟨r, h.answering r hr, by rw [(h.kept hr.not_writing).2, hrecv]⟩

/-- A step that does not touch the worker, its answer or the bytes. -/
theorem Moves.of_same (hw : d.worker = c.worker) (hack : d.ackCh = c.ackCh)
    (hrecv : d.received = c.received) : Moves c d where
  idle h := by simpa [Idle, Resting, hw, hack] using h
  answering r h := by simpa [Answering, Resting, hw, hack] using h
  kept h := ⟨by simpa [isWriting, hw] using h, hrecv⟩
  writing chunk h h' := .inl ⟨hw.trans h, hack.trans h', hrecv⟩

theorem Moves.refl (c : IStream) : Moves c c := .of_same rfl rfl rfl

theorem Moves.trans (h : Moves c d) (h' : Moves d e) : Moves c e where
  idle hc := h'.idle (h.idle hc)
  answering r hr := h'.answering r (h.answering r hr)
  kept hc := by
    obtain ⟨hd, hrecv⟩ := h.kept hc
    exact ⟨(h'.kept hd).1, (h'.kept hd).2.trans hrecv⟩
  writing chunk hw hack := h'.handed (h.writing chunk hw hack)

/-! The steps of the worker. -/

theorem Moves.selected (c : IStream) : Moves c c.selected := by
  unfold IStream.selected
  split
  case h_2 => exact .refl c
  case h_1 hw =>
    refine ⟨fun h => ⟨.inr rfl, h.2⟩, fun r h => ?_, fun h => ⟨rfl, rfl⟩, fun chunk h => ?_⟩
    · rcases h with ⟨h, _⟩ | ⟨_, h⟩
      · exact absurd (hw.symm.trans h) (by simp)
      · exact .inr ⟨.inr rfl, h⟩
    · exact absurd (hw.symm.trans h) (by simp)

/-- Of a stream whose worker has a buffer, only the fate of the buffer counts. -/
theorem Moves.of_writing (hw : c.worker = .writing chunk)
    (h : c.ackCh = none → d.Handed chunk c.received) : Moves c d := by
  have hbusy : c.isWriting = true := by simp [isWriting, hw]
  refine ⟨fun hc => ?_, fun r hc => ?_, fun hc => ?_, fun buf hbuf hack => ?_⟩
  · exact absurd hc.not_writing (by simp [hbusy])
  · exact absurd hc.not_writing (by simp [hbusy])
  · exact absurd hc (by simp [hbusy])
  · obtain rfl : chunk = buf := by simpa using hw.symm.trans hbuf
    exact h hack

/-- An underlying write, unless it fails with a part of the buffer written. -/
theorem Moves.written (c : IStream) {env : Env} (hall : (env.ok || env.n = 0) = true) :
    Moves c (c.written env) := by
  unfold IStream.written
  split
  case h_2 => exact .refl c
  case h_1 buf hw =>
    refine .of_writing hw fun hack => .inr ?_
    cases hok : env.ok with
    | true => exact ⟨_, .inl ⟨rfl, hack⟩, by simp⟩
    | false =>
      have hn : env.n = 0 := by simpa [hok] using hall
      exact ⟨⟨env.n, true⟩, .inl ⟨rfl, hack⟩, by simp [hn]⟩

theorem Moves.acked (c : IStream) : Moves c c.acked := by
  unfold IStream.acked
  split
  case h_2 => exact .refl c
  case h_1 result hw =>
    refine ⟨fun h => ?_, fun r h => ?_, fun _ => ⟨rfl, rfl⟩, fun chunk h => ?_⟩
    · rcases h.1 with h | h <;> exact absurd (hw.symm.trans h) (by simp)
    · rcases h with ⟨h, _⟩ | ⟨h | h, _⟩
      · obtain rfl : result = r := by simpa using hw.symm.trans h
        exact .inr ⟨.inl rfl, rfl⟩
      · exact absurd (hw.symm.trans h) (by simp)
      · exact absurd (hw.symm.trans h) (by simp)
    · exact absurd (hw.symm.trans h) (by simp)

end IStream

/-! ## The bytes of all streams -/

/-- What the streams have received makes up `l`, and the streams from `fresh` on
have received nothing. -/
def Gathered (received : Nat → List Chunk) (fresh : Nat) (l : List Chunk) : Prop :=
  ∀ n, fresh ≤ n → (List.range n).flatMap received = l

namespace Gathered

variable {received : Nat → List Chunk} {fresh fresh' k : Nat} {l : List Chunk}

theorem mono (h : Gathered received fresh l) (hle : fresh ≤ fresh') : Gathered received fresh' l :=
  fun n hn => h n (hle.trans hn)

theorem blank (h : Gathered received fresh l) (hk : fresh ≤ k) : received k = [] := by
  have hlast := h (k + 1) (by omega)
  rw [List.range_succ, List.flatMap_append, h k hk] at hlast
  simpa using hlast

/-- Bytes for the last stream that has received any. -/
theorem append (h : Gathered received fresh l) (more : List Chunk) (hk : k < fresh)
    (hlater : ∀ j, k < j → received j = []) :
    Gathered (Function.update received k (received k ++ more)) fresh (l ++ more) := by
  have hupto : ∀ n, k < n → (List.range n).flatMap
      (Function.update received k (received k ++ more)) =
      (List.range n).flatMap received ++ more := by
    intro n hn
    induction n, hn using Nat.le_induction with
    | base =>
      have hbefore : (List.range k).flatMap (Function.update received k (received k ++ more)) =
          (List.range k).flatMap received := by
        refine List.flatMap_congr fun j hj => Function.update_of_ne ?_ _ _
        have := List.mem_range.mp hj
        omega
      simp [List.range_succ, hbefore]
    | succ n hn ih =>
      have hne : n ≠ k := by omega
      simp [List.range_succ, ih, Function.update_of_ne hne, hlater n hn]
  intro n hn
  rw [hupto n (by omega), h n hn]

end Gathered

/-! ## All streams -/

namespace Streams

variable {s t u : Streams} {k n : Nat}

@[simp] theorem update_fresh (f : IStream → IStream) : (s.update k f).fresh = s.fresh := rfl
@[simp] theorem update_retired (f : IStream → IStream) : (s.update k f).retired = s.retired := rfl

@[simp] theorem update_succeeded (f : IStream → IStream) (bufs : Nat → List UInt8) :
    (s.update k f).succeeded bufs = s.succeeded bufs := rfl

@[simp] theorem update_self (f : IStream → IStream) :
    (s.update k f).streams k = f (s.streams k) := by simp [update]

theorem update_of_ne {j : Nat} (f : IStream → IStream) (h : j ≠ k) :
    (s.update k f).streams j = s.streams j := Function.update_of_ne h _ _

/-- What every stream has received. -/
def received (s : Streams) (k : Nat) : List Chunk := (s.streams k).received

theorem total_eq {l : List Chunk} (h : Gathered s.received s.fresh l) : s.total = l := h _ le_rfl

/-- The streams in use and the streams given up. -/
structure Shape (s : Streams) : Prop where
  latest : ∀ k, s.stream = some k → k + 1 = s.fresh ∧ k ∉ s.retired
  retired : ∀ k ∈ s.retired, k < s.fresh
  closeCh : ∀ k, (s.streams k).closeCh = true → k ∈ s.retired

/-- What the threads other than the writer do. -/
structure Others (s t : Streams) : Prop where
  results : t.results = s.results
  fresh : s.fresh ≤ t.fresh
  retired : s.retired ⊆ t.retired
  streams : ∀ k, (s.streams k).Moves (t.streams k)

theorem Others.refl (s : Streams) : Others s s :=
  ⟨rfl, le_rfl, List.Subset.refl _, fun _ => .refl _⟩

theorem Others.trans (h : Others s t) (h' : Others t u) : Others s u where
  results := h'.results.trans h.results
  fresh := h.fresh.trans h'.fresh
  retired := List.Subset.trans h.retired h'.retired
  streams k := (h.streams k).trans (h'.streams k)

theorem Others.update {f : IStream → IStream} (h : (s.streams k).Moves (f (s.streams k))) :
    Others s (s.update k f) := by
  refine ⟨rfl, le_rfl, List.Subset.refl _, fun j => ?_⟩
  by_cases hj : j = k
  · subst hj
    simpa using h
  · rw [update_of_ne f hj]
    exact .refl _

theorem Shape.update {f : IStream → IStream} (h : s.Shape)
    (hclose : (f (s.streams k)).closeCh = true → k ∈ s.retired) : (s.update k f).Shape := by
  refine ⟨h.latest, h.retired, fun j hj => ?_⟩
  by_cases hjk : j = k
  · subst hjk
    exact hclose (by simpa using hj)
  · exact h.closeCh j (by rwa [update_of_ne f hjk] at hj)

/-- No buffer is under way on a stream, or one that failed on a stream given up. -/
def Rests (s : Streams) (k : Nat) : Prop :=
  (s.streams k).Idle ∨ k ∈ s.retired ∧ ∃ r, r.err = true ∧ (s.streams k).Answering r

theorem Rests.not_writing (h : s.Rests k) : (s.streams k).isWriting = false := by
  rcases h with h | ⟨_, r, _, h⟩
  · exact h.not_writing
  · exact h.not_writing

theorem Rests.others (h : s.Rests k) (ho : Others s t) : t.Rests k := by
  rcases h with h | ⟨hk, r, hr, h⟩
  · exact .inl ((ho.streams k).idle h)
  · exact .inr ⟨ho.retired hk, r, hr, (ho.streams k).answering r h⟩

theorem Rests.received_others (h : s.Rests k) (ho : Others s t) : t.received k = s.received k :=
  ((ho.streams k).kept h.not_writing).2

/-- No buffer is under way, and the streams have received `l`. -/
structure Settled (s : Streams) (l : List Chunk) : Prop where
  rests : ∀ k, s.Rests k
  gathered : Gathered s.received s.fresh l

theorem Settled.others {l : List Chunk} (h : s.Settled l) (ho : Others s t) : t.Settled l where
  rests k := (h.rests k).others ho
  gathered := by
    have hrecv : t.received = s.received := funext fun k => (h.rests k).received_others ho
    rw [hrecv]
    exact h.gathered.mono ho.fresh

/-- The buffer of the current write is with the worker of a stream. -/
structure Busy (s : Streams) (k : Nat) (chunk : Chunk) (l : List Chunk) : Prop where
  exists_stream : k < s.fresh
  rests : ∀ j, j ≠ k → s.Rests j
  later : ∀ j, k < j → s.received j = []
  handed : ∃ base, (s.streams k).Handed chunk base ∧
    Gathered (Function.update s.received k base) s.fresh l

theorem Busy.others {chunk : Chunk} {l : List Chunk} (h : s.Busy k chunk l) (ho : Others s t) :
    t.Busy k chunk l where
  exists_stream := h.exists_stream.trans_le ho.fresh
  rests j hj := (h.rests j hj).others ho
  later j hj := by rw [(h.rests j (by omega)).received_others ho, h.later j hj]
  handed := by
    obtain ⟨base, hbase, hg⟩ := h.handed
    refine ⟨base, (ho.streams k).handed hbase, ?_⟩
    have hrecv : Function.update t.received k base = Function.update s.received k base := by
      funext j
      by_cases hj : j = k
      · simp [hj]
      · rw [Function.update_of_ne hj, Function.update_of_ne hj, (h.rests j hj).received_others ho]
    rw [hrecv]
    exact hg.mono ho.fresh

/-- Once the underlying write is done, the streams have received the buffer or
nothing. -/
theorem Busy.gathered {chunk : Chunk} {l : List Chunk} {r : WriteResult} (h : s.Busy k chunk l)
    (hr : (s.streams k).Answering r) :
    Gathered s.received s.fresh (l ++ if r.err then [] else [chunk]) := by
  obtain ⟨base, hbase, hg⟩ := h.handed
  have hrecv : s.received k = base ++ if r.err then [] else [chunk] := by
    rcases hbase with ⟨hw, _⟩ | ⟨r', hr', hrecv⟩
    · exact absurd hr.not_writing (by simp [IStream.isWriting, hw])
    · rw [hr.unique hr']
      exact hrecv
  have happend := hg.append (if r.err then [] else [chunk]) h.exists_stream
    (fun j hj => by rw [Function.update_of_ne (by omega), h.later j hj])
  rwa [Function.update_self, Function.update_idem, ← hrecv, Function.update_eq_self] at happend

end Streams

/-! ## The writer and the others -/

/-- The underlying write of the last buffer has failed. -/
def IStream.failed (c : IStream) : Bool :=
  match c.worker with
  | .acking r => r.err
  | _ => c.ackCh.any (·.err)

/-- The assumption: a writer leaves a buffer with the worker only when the
underlying write has failed, and a failed one has written nothing. -/
def leavesFailed : Label → Streams → Bool
  | .plain, _ => true
  | .leave k, s => (s.streams k).failed
  | .partialWrite, _ => false

section

variable (bufs : Nat → List UInt8)

/-- The buffer of the write that has not returned. -/
def Streams.current (s : Streams) : Chunk := ⟨s.results.length, bufs s.results.length⟩

/-- The accounts: no buffer under way and that of the current write not
written, or written, or under way. -/
structure Inv (s : Streams) : Prop where
  shape : s.Shape
  accounts : s.Settled (s.succeeded bufs) ∨ s.Settled (s.succeeded bufs ++ [s.current bufs]) ∨
    ∃ k, s.Busy k (s.current bufs) (s.succeeded bufs)

theorem Inv.others {s t : Streams} (h : Inv bufs s) (ho : s.Others t) (hshape : t.Shape) :
    Inv bufs t := by
  have hsucc : t.succeeded bufs = s.succeeded bufs := by simp [Streams.succeeded, ho.results]
  have hcur : t.current bufs = s.current bufs := by simp [Streams.current, ho.results]
  refine ⟨hshape, ?_⟩
  rw [hsucc, hcur]
  rcases h.accounts with h | h | ⟨k, h⟩
  · exact .inl (h.others ho)
  · exact .inr (.inl (h.others ho))
  · exact .inr (.inr ⟨k, h.others ho⟩)

/-- The writer relies on the others for the accounts, and keeps them. -/
def writer : Contract Streams where
  rely := Streams.Others
  guar s t := t.retired = s.retired ∧ (Inv bufs s → Inv bufs t)
  rely_refl := .refl
  rely_trans := .trans
  guar_refl _ := ⟨rfl, id⟩

/-- The other threads only rely on a stream that was given up to stay so. -/
def other : Contract Streams where
  rely s t := s.retired ⊆ t.retired
  guar s t := s.Others t ∧ (s.Shape → t.Shape)
  rely_refl _ := List.Subset.refl _
  rely_trans := List.Subset.trans
  guar_refl s := ⟨.refl s, id⟩

def contract (i : Nat) : Contract Streams := if i = 0 then writer bufs else other

/-- The `n`-th write is about to be tried, or tried again. -/
structure Trying (n : Nat) (s : Streams) : Prop where
  number : s.results.length = n
  settled : s.Settled (s.succeeded bufs)

/-- It is about to be tried on a stream. -/
structure Ready (n k : Nat) (s : Streams) : Prop extends Trying bufs n s where
  idle : (s.streams k).Idle
  exists_stream : k < s.fresh
  later : ∀ j, k < j → s.received j = []

/-- The `n`-th write was tried, and is written if that succeeded. -/
structure Tried (n : Nat) (ok : Bool) (s : Streams) : Prop where
  number : s.results.length = n
  settled : s.Settled (s.succeeded bufs ++ if ok then [⟨n, bufs n⟩] else [])

/-- It is with the worker of a stream. -/
structure Sent (n k : Nat) (s : Streams) : Prop where
  number : s.results.length = n
  busy : s.Busy k ⟨n, bufs n⟩ (s.succeeded bufs)

variable {bufs} {n k : Nat} {s t : Streams} {ok : Bool}

theorem succeeded_others (ho : s.Others t) : t.succeeded bufs = s.succeeded bufs := by
  simp [Streams.succeeded, ho.results]

theorem Trying.others (h : Trying bufs n s) (ho : s.Others t) : Trying bufs n t :=
  ⟨ho.results ▸ h.number, succeeded_others ho ▸ h.settled.others ho⟩

theorem Ready.others (h : Ready bufs n k s) (ho : s.Others t) : Ready bufs n k t where
  toTrying := h.toTrying.others ho
  idle := (ho.streams k).idle h.idle
  exists_stream := h.exists_stream.trans_le ho.fresh
  later j hj := by rw [(h.settled.rests j).received_others ho, h.later j hj]

theorem Tried.others (h : Tried bufs n ok s) (ho : s.Others t) : Tried bufs n ok t :=
  ⟨ho.results ▸ h.number, succeeded_others ho ▸ h.settled.others ho⟩

theorem Sent.others (h : Sent bufs n k s) (ho : s.Others t) : Sent bufs n k t :=
  ⟨ho.results ▸ h.number, succeeded_others ho ▸ h.busy.others ho⟩

theorem Trying.tried (h : Trying bufs n s) : Tried bufs n false s :=
  ⟨h.number, by simpa using h.settled⟩

/-- The stream in use is ready for a write. -/
theorem Trying.ready (h : Trying bufs n s) (hshape : s.Shape) (hk : s.stream = some k) :
    Ready bufs n k s := by
  obtain ⟨hlast, hin⟩ := hshape.latest k hk
  refine ⟨h, ?_, by omega, fun j hj => h.settled.gathered.blank (by omega)⟩
  rcases h.settled.rests k with hidle | ⟨hout, _⟩
  · exact hidle
  · exact absurd hout hin

/-- The buffer is handed over. -/
theorem Ready.sent (h : Ready bufs n k s) :
    Sent bufs n k (s.update k ({ · with worker := .writing ⟨n, bufs n⟩ })) := by
  refine ⟨h.number, h.exists_stream, fun j hj => ?_, fun j hj => ?_, (s.streams k).received, ?_, ?_⟩
  · simpa [Streams.Rests, Streams.update_of_ne _ hj] using h.settled.rests j
  · simpa [Streams.received, Streams.update_of_ne _ (Nat.ne_of_gt hj)] using h.later j hj
  · exact .inl (by simpa using h.idle.2)
  · have hrecv : Function.update (Streams.received
        (s.update k ({ · with worker := .writing ⟨n, bufs n⟩ }))) k (s.streams k).received =
        s.received := by
      funext j
      by_cases hj : j = k
      · simp [hj, Streams.received]
      · simp [Function.update_of_ne hj, Streams.received, Streams.update_of_ne _ hj]
    rw [hrecv]
    exact h.settled.gathered

/-- The answer of the worker is taken. -/
theorem Sent.answered {r : WriteResult} (h : Sent bufs n k s)
    (hr : (s.streams k).ackCh = some r) :
    Tried bufs n (!r.err) (s.update k ({ · with ackCh := none })) := by
  obtain ⟨base, hbase, _⟩ := h.busy.handed
  -- an answer in the channel is one of the buffer, and the worker is at rest
  have hanswer : (s.streams k).Resting ∧ (s.streams k).Answering r := by
    rcases hbase with ⟨_, hack, _⟩ | ⟨r', ⟨_, hack⟩ | ⟨hrest, hack⟩, _⟩
    · exact absurd (hack.symm.trans hr) (by simp)
    · exact absurd (hack.symm.trans hr) (by simp)
    · exact ⟨hrest, .inr ⟨hrest, hr⟩⟩
  refine ⟨h.number, fun j => ?_, ?_⟩
  · by_cases hj : j = k
    · subst hj
      exact .inl (by simpa [IStream.Idle, IStream.Resting] using hanswer.1)
    · simpa [Streams.Rests, Streams.update_of_ne _ hj] using h.busy.rests j hj
  · have hrecv : Streams.received (s.update k ({ · with ackCh := none })) = s.received := by
      funext j
      by_cases hj : j = k
      · simp [hj, Streams.received]
      · simp [Streams.received, Streams.update_of_ne _ hj]
    rw [hrecv, Streams.update_fresh, Streams.update_succeeded]
    cases herr : r.err <;> simpa [herr] using h.busy.gathered hanswer.2

/-- A failed buffer is left behind. -/
theorem Sent.left (h : Sent bufs n k s) (hout : k ∈ s.retired)
    (hfailed : (s.streams k).failed = true) : Tried bufs n false s := by
  obtain ⟨base, hbase, _⟩ := h.busy.handed
  have hanswer : ∃ r, r.err = true ∧ (s.streams k).Answering r := by
    rcases hbase with ⟨hw, hack, _⟩ | ⟨r, hr, _⟩
    · exact absurd hfailed (by simp [IStream.failed, hw, hack])
    · refine ⟨r, ?_, hr⟩
      rcases hr with ⟨hw, _⟩ | ⟨hw | hw, hack⟩
      · simpa [IStream.failed, hw] using hfailed
      · simpa [IStream.failed, hw, hack] using hfailed
      · simpa [IStream.failed, hw, hack] using hfailed
  obtain ⟨r, hr, hans⟩ := hanswer
  refine ⟨h.number, fun j => ?_, ?_⟩
  · by_cases hj : j = k
    · subst hj
      exact .inr ⟨hout, r, hr, hans⟩
    · exact h.busy.rests j hj
  · simpa [hr] using h.busy.gathered hans

theorem Tried.inv (h : Tried bufs n ok s) (hshape : s.Shape) : Inv bufs s := by
  obtain rfl := h.number
  refine ⟨hshape, ?_⟩
  cases ok with
  | true => exact .inr (.inl (by simpa [Streams.current] using h.settled))
  | false => exact .inl (by simpa using h.settled)

theorem Sent.inv (h : Sent bufs n k s) (hshape : s.Shape) : Inv bufs s := by
  obtain rfl := h.number
  exact ⟨hshape, .inr (.inr ⟨k, h.busy⟩)⟩

/-- The write returns. -/
theorem Tried.returned (h : Tried bufs n ok s) :
    Trying bufs (n + 1) { s with results := s.results ++ [ok] } := by
  refine ⟨by simp [h.number], ?_⟩
  have hsucc : Streams.succeeded { s with results := s.results ++ [ok] } bufs =
      s.succeeded bufs ++ if ok then [⟨n, bufs n⟩] else [] := by
    cases ok <;> simp [Streams.succeeded, List.zipIdx_append, h.number]
  rw [hsucc]
  exact ⟨h.settled.rests, h.settled.gathered⟩

end

end Tsshd.Stream

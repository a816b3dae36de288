import Tsshd.Output.Cache
import Mathlib.Data.List.Induction
import Mathlib.Data.List.TakeWhile

/-!
# The cached lines

What a sequence of `cacheOutput` calls leaves behind, from an empty cache on:

* **the lines** — `splitLines` cuts the chunks in lines as the splitting loop does,
  without a limit on their number: non-empty, with an LF at most at their end, and
  bounded, since only a line below a thousand bytes is continued, by one read at
  most;
* **the cache** — the dropped lines and the cached ones are these lines, and the
  counters say how many were dropped and how long they were (`Retained`).

A line ends behind a CR or LF (`Ended`), at the end of what was cached, or where
a read ended and the line was a thousand bytes long. The cursor position
requests are erased line by line, so all are seen exactly if no break of the last
kind falls inside one (`filterLine_splitLines`).
-/

namespace Tsshd.Output

/-- `cacheOutput` for one chunk after the other, with the rows of the window at
each call. -/
def cacheAll (lim : Limits) (f : Forwarder) (calls : List (Int × Text)) : Forwarder :=
  calls.foldl (fun f call => cacheOutput lim call.1 f call.2) f

theorem cacheAll_concat (lim : Limits) (f : Forwarder) (calls : List (Int × Text))
    (call : Int × Text) :
    cacheAll lim f (calls ++ [call]) = cacheOutput lim call.1 (cacheAll lim f calls) call.2 := by
  rw [cacheAll, List.foldl_append]
  rfl

/-- Nothing is cached, and nothing was dropped. -/
structure Forwarder.Uncached (f : Forwarder) : Prop where
  cacheLines : f.cacheLines = []
  dropped : f.dropped = []
  discardLines : f.discardLines = 0
  discardBytes : f.discardBytes = 0

/-! ## The representation -/

/-- A cached line, for reads of at most `size` bytes. -/
structure BoundedLine (size : Nat) (l : Text) : Prop extends LineShape l where
  short : l.length ≤ 999 + size

theorem nextLine_length (buf : Text) : (nextLine buf).1.length ≤ buf.length := by
  have happ := congrArg List.length (nextLine_append buf)
  rw [List.length_append] at happ
  omega

/-- Only a line of less than a thousand bytes is continued. -/
theorem appendLine_bounded {size : Nat} {lines : List Text} {line : Text}
    (hlines : ∀ l ∈ lines, BoundedLine size l) (hline : LineShape line)
    (hsize : line.length ≤ size) : ∀ l ∈ appendLine lines line, BoundedLine size l := by
  have hshape := appendLine_shape (fun l hl => (hlines l hl).toLineShape) hline
  intro l hl
  refine ⟨hshape l hl, ?_⟩
  unfold appendLine at hl
  split at hl
  · rw [List.mem_singleton.mp hl]
    omega
  · rename_i last hlast
    split at hl
    · rename_i hjoins
      rcases List.mem_append.mp hl with hl | hl
      · exact (hlines l (List.dropLast_subset _ hl)).short
      · have hshort : last.length < 1000 := by
          unfold joins at hjoins
          split at hjoins
          · exact of_decide_eq_true (Bool.and_eq_true_iff.mp hjoins).2
          · cases hjoins
        rw [List.mem_singleton.mp hl, List.length_append]
        omega
    · rcases List.mem_append.mp hl with hl | hl
      · exact (hlines l hl).short
      · rw [List.mem_singleton.mp hl]
        omega

theorem cacheLoop_bounded {size : Nat} {lines : List Text}
    (hlines : ∀ l ∈ lines, BoundedLine size l) (fuel : Nat) {buf : Text}
    (hsize : buf.length ≤ size) : ∀ l ∈ cacheLoop fuel lines buf, BoundedLine size l := by
  induction fuel generalizing lines buf with
  | zero => exact hlines
  | succ fuel ih =>
    unfold cacheLoop
    split
    · exact hlines
    · rename_i hbuf
      have hbuf : buf ≠ [] := by simpa using hbuf
      have hnext := nextLine_snd_length hbuf
      have hline := nextLine_length buf
      exact ih (appendLine_bounded hlines (nextLine_shape hbuf) (by omega)) (by omega)

theorem trimCache_length (lim : Limits) (rows : Int) (f : Forwarder) :
    (trimCache lim rows f).cacheLines.length ≤ lim.maxLines rows := by
  unfold trimCache
  dsimp only
  split
  · dsimp only
    rw [List.length_drop]
    omega
  · exact Nat.le_of_not_lt ‹_›

/-- The lines of the chunks, as the splitting loop cuts them. -/
def splitLines (chunks : List Text) : List Text :=
  chunks.foldl (fun lines chunk => cacheLoop chunk.length lines chunk) []

theorem splitLines_concat (chunks : List Text) (chunk : Text) :
    splitLines (chunks ++ [chunk]) = cacheLoop chunk.length (splitLines chunks) chunk := by
  rw [splitLines, List.foldl_append]
  rfl

theorem splitLines_flatten (chunks : List Text) : (splitLines chunks).flatten = chunks.flatten := by
  induction chunks using List.reverseRecOn with
  | nil => rfl
  | append_singleton chunks chunk ih =>
    rw [splitLines_concat, cacheLoop_flatten (Nat.le_refl _), ih, List.flatten_append,
      List.flatten_singleton]

theorem splitLines_bounded {size : Nat} {chunks : List Text} (h : ∀ c ∈ chunks, c.length ≤ size) :
    ∀ l ∈ splitLines chunks, BoundedLine size l := by
  induction chunks using List.reverseRecOn with
  | nil => exact List.forall_mem_nil _
  | append_singleton chunks chunk ih =>
    rw [splitLines_concat]
    exact cacheLoop_bounded (ih fun c hc => h c (List.mem_append_left _ hc)) _ (h chunk (by simp))

/-- Only the last line may be continued, so the lines in front do not matter. -/
theorem appendLine_append {lines : List Text} (h : lines ≠ []) (front : List Text) (line : Text) :
    appendLine (front ++ lines) line = front ++ appendLine lines line := by
  obtain ⟨init, last, rfl⟩ := (List.eq_nil_or_concat lines).resolve_left h
  rw [List.concat_eq_append, ← List.append_assoc]
  unfold appendLine
  rw [List.getLast?_concat, List.getLast?_concat]
  dsimp only
  split <;> simp

theorem cacheLoop_append {lines : List Text} (h : lines ≠ []) (front : List Text) (fuel : Nat)
    (buf : Text) : cacheLoop fuel (front ++ lines) buf = front ++ cacheLoop fuel lines buf := by
  induction fuel generalizing lines buf with
  | zero => rfl
  | succ fuel ih =>
    unfold cacheLoop
    split
    · rfl
    · rw [appendLine_append h, ih (appendLine_ne_nil _ _)]

/-- The cache after the chunks: the last of their lines, and counters for the
others. -/
structure Retained (chunks : List Text) (f : Forwarder) : Prop where
  lines : f.dropped ++ f.cacheLines = splitLines chunks
  kept : f.cacheLines = [] → f.dropped = []
  discardLines : f.discardLines = f.dropped.length
  discardBytes : f.discardBytes = f.dropped.flatten.length

theorem Forwarder.Uncached.retained {f : Forwarder} (h : f.Uncached) : Retained [] f := by
  refine ⟨?_, fun _ => h.dropped, ?_, ?_⟩
  · rw [h.dropped, h.cacheLines]
    rfl
  · rw [h.discardLines, h.dropped, List.length_nil]
  · rw [h.discardBytes, h.dropped, List.flatten_nil, List.length_nil]

theorem Retained.cacheOutput {chunks : List Text} {f : Forwarder} (h : Retained chunks f)
    (lim : Limits) (rows : Int) (chunk : Text) :
    Retained (chunks ++ [chunk]) (cacheOutput lim rows f chunk) := by
  obtain ⟨d, hd, hlines, hdropped, hcount, hbytes⟩ := trimCache_spec lim rows
    { f with cacheLines := cacheLoop chunk.length f.cacheLines chunk }
  refine ⟨?_, ?_, ?_, ?_⟩
  · have hloop : f.dropped ++ cacheLoop chunk.length f.cacheLines chunk =
        cacheLoop chunk.length (f.dropped ++ f.cacheLines) chunk := by
      by_cases hnil : f.cacheLines = []
      · rw [h.kept hnil, List.nil_append, List.nil_append]
      · rw [cacheLoop_append hnil]
    rw [Output.cacheOutput, hlines, hdropped, List.append_assoc, List.take_append_drop,
      splitLines_concat, ← h.lines]
    exact hloop
  · intro hnil
    rw [Output.cacheOutput, hlines] at hnil
    rw [Output.cacheOutput, hdropped]
    rcases hd with rfl | hd
    · have hloop : cacheLoop chunk.length f.cacheLines chunk = [] := by simpa using hnil
      have hcache : f.cacheLines = [] := by
        by_contra hne
        exact cacheLoop_ne_nil hne _ _ hloop
      simpa using h.kept hcache
    · exact absurd (List.drop_eq_nil_iff.mp hnil) (Nat.not_le_of_lt hd)
  · rw [Output.cacheOutput, hcount, hdropped, List.length_append, List.length_take, h.discardLines]
    rcases hd with rfl | hd
    · simp
    · rw [Nat.min_eq_left (Nat.le_of_lt hd)]
  · rw [Output.cacheOutput, hbytes, hdropped, List.flatten_append, List.length_append,
      h.discardBytes]

theorem retained_cacheAll {f : Forwarder} (hf : f.Uncached) (lim : Limits)
    (calls : List (Int × Text)) : Retained (calls.map (·.2)) (cacheAll lim f calls) := by
  induction calls using List.reverseRecOn with
  | nil => exact hf.retained
  | append_singleton calls call ih =>
    rw [cacheAll_concat, List.map_append]
    exact ih.cacheOutput lim call.1 call.2

/-- **The line cache.** After every call of a sequence from an empty cache on,
with chunks of at most `size` bytes: the cached lines are non-empty, at most
`999 + size` bytes long and without an LF in front of their end; there are at
most as many as the limit allows; and behind the dropped lines they are the lines
of what was cached, of which `discardLines` were dropped whole, `discardBytes`
bytes together. -/
theorem line_cache_bounded (lim : Limits) (size : Nat) {f : Forwarder} (hf : f.Uncached)
    (calls : List (Int × Text)) (rows : Int) (chunk : Text)
    (hsize : ∀ call ∈ calls ++ [(rows, chunk)], call.2.length ≤ size) :
    let chunks := (calls ++ [(rows, chunk)]).map (·.2)
    let g := cacheAll lim f (calls ++ [(rows, chunk)])
    (∀ l ∈ g.dropped ++ g.cacheLines, l ≠ [] ∧ l.length ≤ 999 + size ∧ OnlyAtEnd Cell.isLF l) ∧
    g.cacheLines.length ≤ (max (lim.maxPendingOutputLines : Int) (2 * rows)).toNat ∧
    g.dropped ++ g.cacheLines = splitLines chunks ∧
    g.dropped.flatten ++ g.cacheLines.flatten = chunks.flatten ∧
    g.discardLines = g.dropped.length ∧ g.discardBytes = g.dropped.flatten.length := by
  intro chunks g
  have hretained : Retained chunks g := retained_cacheAll hf lim (calls ++ [(rows, chunk)])
  have hlimit : lim.maxLines rows = (max (lim.maxPendingOutputLines : Int) (2 * rows)).toNat := by
    rw [Limits.maxLines, Int.mul_comm]
  have hbounded : ∀ l ∈ splitLines chunks, BoundedLine size l := by
    refine splitLines_bounded fun c hc => ?_
    obtain ⟨call, hcall, rfl⟩ := List.mem_map.mp hc
    exact hsize call hcall
  refine ⟨fun l hl => ?_, ?_, hretained.lines, ?_, hretained.discardLines, hretained.discardBytes⟩
  · rw [hretained.lines] at hl
    have hline := hbounded l hl
    exact ⟨hline.ne_nil, hline.short, hline.lf⟩
  · rw [← hlimit]
    show (cacheAll lim f (calls ++ [(rows, chunk)])).cacheLines.length ≤ lim.maxLines rows
    rw [cacheAll_concat]
    exact trimCache_length lim rows _
  · rw [← List.flatten_append, hretained.lines, splitLines_flatten]

/-- Three reads of up to four bytes and a limit of two lines: the LF joins the
CR of the read before, and two lines of seven bytes together are dropped. -/
theorem line_cache_bounded_crlf :
    let g := cacheAll { maxPendingOutputLines := 2 } {}
      ([(1, plain (ascii "ab\r")), (0, plain (ascii "\ncd\r"))] ++ [(1, plain (ascii "ef\ng"))])
    g.cacheLines = [plain (ascii "ef\n"), plain (ascii "g")] ∧
    g.dropped = [plain (ascii "ab\r\n"), plain (ascii "cd\r")] ∧
    g.discardLines = 2 ∧ g.discardBytes = 7 ∧
    (∀ l ∈ g.dropped ++ g.cacheLines, l ≠ [] ∧ l.length ≤ 999 + 4 ∧ OnlyAtEnd Cell.isLF l) := by
  refine ⟨by decide, by decide, by decide, by decide, ?_⟩
  exact (line_cache_bounded { maxPendingOutputLines := 2 } 4 ⟨rfl, rfl, rfl, rfl⟩
    [(1, plain (ascii "ab\r")), (0, plain (ascii "\ncd\r"))] 1 (plain (ascii "ef\ng"))
    (by decide)).1

/-! ## Seams

The text of the cached lines is a prefix of the text of all reads; `rest` is what
is still to come, since a request may be cut by the end of a read. -/

def Cell.isBreak (c : Cell) : Bool := c.isLF || c.isCR

/-- A cached line ends with a CR or LF or has none at all. -/
def Ended (l : Text) : Prop :=
  (∀ x ∈ l, x.isBreak = false) ∨ ∃ init x, l = init ++ [x] ∧ x.isBreak = true

/-- No cursor position request lies across the end of a cached line. -/
def Seamless (rest : Text) (lines : List Text) : Prop :=
  ∀ front back, lines = front ++ back → front ≠ [] → back ≠ [] →
    ¬ Straddles esc6n (front.flatten.map Cell.byte) ((back.flatten ++ rest).map Cell.byte)

/-- The bytes behind the last CR or LF. -/
def lineLength (t : Text) : Nat := (t.reverse.takeWhile fun c => !c.isBreak).length

theorem lineLength_append (t l : Text) :
    lineLength (t ++ l) = if l.any Cell.isBreak then lineLength l else lineLength t + l.length := by
  unfold lineLength
  rw [List.reverse_append, List.takeWhile_append]
  by_cases h : l.any Cell.isBreak = true
  · have hstops : (l.reverse.takeWhile fun c => !c.isBreak).length ≠ l.reverse.length := by
      intro hlen
      have hall := List.takeWhile_eq_self_iff.mp ((List.takeWhile_prefix _).eq_of_length hlen)
      obtain ⟨x, hx, hbreak⟩ := List.any_eq_true.mp h
      have hfree := hall x (List.mem_reverse.mpr hx)
      rw [hbreak] at hfree
      cases hfree
    rw [if_neg hstops, if_pos h]
  · have hall : (l.reverse.takeWhile fun c => !c.isBreak) = l.reverse := by
      refine List.takeWhile_eq_self_iff.mpr fun x hx => ?_
      rw [Bool.not_eq_true, List.any_eq_false] at h
      simpa using h x (List.mem_reverse.mp hx)
    rw [hall, if_pos rfl, if_neg h, List.length_append, List.length_reverse, Nat.add_comm]

theorem lineLength_le (t : Text) : lineLength t ≤ t.length :=
  Nat.le_trans (List.takeWhile_prefix _).length_le (Nat.le_of_eq List.length_reverse)

theorem lineLength_free {t : Text} (h : t.any Cell.isBreak = false) : lineLength t = t.length := by
  have happ := lineLength_append [] t
  rwa [if_neg (by simp [h]), List.nil_append, show lineLength [] = 0 from rfl, Nat.zero_add] at happ

theorem lineLength_break {x : Cell} (hx : x.isBreak = true) (t : Text) :
    lineLength (t ++ [x]) = 0 := by
  have hlone : lineLength [x] = 0 := by simp [lineLength, hx]
  rw [lineLength_append, if_pos (by simpa using hx), hlone]

/-- A request has no CR or LF, so none lies across the end of a text that ends
with one. -/
theorem not_straddles_break {t : Text} {x : Cell} (hx : x.isBreak = true) (b : List UInt8) :
    ¬ Straddles esc6n ((t ++ [x]).map Cell.byte) b := by
  rintro ⟨u, v, hu, -, hpat, hsuffix, -⟩
  obtain ⟨init, y, rfl⟩ := (List.eq_nil_or_concat u).resolve_left hu
  rw [List.concat_eq_append] at hsuffix hpat
  rw [List.map_append, List.map_singleton] at hsuffix
  obtain rfl : y = x.byte := by
    obtain ⟨pre, happ⟩ := hsuffix
    rw [← List.append_assoc] at happ
    exact List.singleton_inj.mp (List.append_inj' happ rfl).2
  have hmem : x.byte ∈ esc6n := by
    rw [hpat]
    simp
  have hfree : ∀ b ∈ esc6n, (b == 10 || b == 13) = false := by decide +kernel
  have := hfree _ hmem
  rw [Cell.isBreak, Cell.isLF, Cell.isCR, this] at hx
  cases hx

/-- What is cut off ends with a CR or LF, unless it is everything. -/
theorem nextLine_cases (buf : Text) :
    (∃ init x, (nextLine buf).1 = init ++ [x] ∧ x.isBreak = true) ∨
      ((∀ x ∈ buf, x.isBreak = false) ∧ nextLine buf = (buf, [])) := by
  unfold nextLine
  split
  · rename_i line rest hcut
    obtain ⟨-, init, x, hline, hx, -⟩ := cutAfter_eq_some hcut
    exact .inl ⟨init, x, hline, by rw [Cell.isBreak, hx]; rfl⟩
  · rename_i hlf
    split
    · rename_i line rest hcut
      obtain ⟨-, init, x, hline, hx, -⟩ := cutAfter_eq_some hcut
      exact .inl ⟨init, x, hline, by rw [Cell.isBreak, hx, Bool.or_true]⟩
    · rename_i hcr
      refine .inr ⟨fun x hx => ?_, rfl⟩
      rw [Cell.isBreak, cutAfter_eq_none.mp hlf x hx, cutAfter_eq_none.mp hcr x hx]
      rfl

theorem nextLine_ended (buf : Text) : Ended (nextLine buf).1 := by
  rcases nextLine_cases buf with hend | ⟨hfree, heq⟩
  · exact .inr hend
  · rw [heq]
    exact .inl hfree

/-- A line that is continued has no CR or LF, or the piece is a lone LF. -/
theorem Ended.join {last line : Text} (hlast : Ended last) (hline : Ended line)
    (hline' : line ≠ []) (hjoins : joins last line = true) :
    Ended (last ++ line) := by
  rcases hline with hfree | ⟨init, x, rfl, hx⟩
  · rcases hlast with hlast | ⟨init, x, rfl, hx⟩
    · refine .inl fun y hy => ?_
      rcases List.mem_append.mp hy with hy | hy
      · exact hlast y hy
      · exact hfree y hy
    · -- behind a CR only an LF joins, and the piece has none
      exfalso
      obtain ⟨c, rest, rfl⟩ := List.exists_cons_of_ne_nil hline'
      have hc := hfree c List.mem_cons_self
      unfold joins at hjoins
      rw [List.getLast?_concat, List.head?_cons] at hjoins
      simp only [Cell.isBreak, Bool.or_eq_false_iff, Bool.or_eq_true] at hc hx
      rcases hx with hx | hx <;> simp [hx, hc.1] at hjoins
  · exact .inr ⟨last ++ init, x, by rw [List.append_assoc], hx⟩

/-- An unbroken line below a thousand bytes is continued. -/
theorem joins_of_straddles {lines : List Text} {last line : Text} {b : List UInt8}
    (hlast : lines.getLast? = some last) (hne : last ≠ []) (hline : line ≠ [])
    (hlen : last.length < 1000)
    (h : Straddles esc6n (lines.flatten.map Cell.byte) b) : joins last line = true := by
  obtain ⟨init, rfl⟩ := List.getLast?_eq_some_iff.mp hlast
  obtain ⟨l, x, rfl⟩ := (List.eq_nil_or_concat last).resolve_left hne
  obtain ⟨c, rest, rfl⟩ := List.exists_cons_of_ne_nil hline
  have hx : x.isBreak = false := by
    by_contra hx
    rw [List.concat_eq_append, List.flatten_append, List.flatten_singleton,
      ← List.append_assoc] at h
    exact not_straddles_break (by simpa using hx) b h
  simp only [Cell.isBreak, Bool.or_eq_false_iff] at hx
  unfold joins
  rw [List.concat_eq_append] at hlen ⊢
  rw [List.getLast?_concat, List.head?_cons]
  show (!x.isLF && (!x.isCR || c.isLF) && decide ((l ++ [x]).length < 1000)) = true
  rw [hx.1, hx.2, decide_eq_true hlen]
  rfl

/-- One piece: it joins the last line, or starts a new one where no request is
cut. -/
theorem Seamless.appendLine {rest line : Text} {lines : List Text}
    (h : Seamless (line ++ rest) lines)
    (hseam : ∀ last, lines.getLast? = some last → joins last line = false →
      ¬ Straddles esc6n (lines.flatten.map Cell.byte) ((line ++ rest).map Cell.byte)) :
    Seamless rest (appendLine lines line) := by
  intro front back heq hfront hback
  obtain ⟨mid, piece, rfl⟩ := (List.eq_nil_or_concat back).resolve_left hback
  rw [List.concat_eq_append] at heq ⊢
  rw [← List.append_assoc] at heq
  unfold Output.appendLine at heq
  split at heq
  · have hlone : [] ++ [line] = front ++ mid ++ [piece] := heq
    have hnil := (List.append_inj' hlone rfl).1
    exact absurd (List.append_eq_nil_iff.mp hnil.symm).1 hfront
  · rename_i last hlast
    split at heq
    · obtain ⟨init, rfl⟩ := List.getLast?_eq_some_iff.mp hlast
      rw [List.dropLast_concat] at heq
      obtain ⟨rfl, hpiece⟩ := List.append_inj' heq rfl
      obtain rfl := List.singleton_inj.mp hpiece
      have hold := h front (mid ++ [last]) (List.append_assoc ..) hfront (by simp)
      simpa [List.append_assoc] using hold
    · rename_i hjoins
      obtain ⟨rfl, hpiece⟩ := List.append_inj' heq rfl
      obtain rfl := List.singleton_inj.mp hpiece
      by_cases hmid : mid = []
      · subst hmid
        have hnew := hseam last hlast (by simpa using hjoins)
        simpa using hnew
      · have hold := h front mid rfl hfront hmid
        simpa [List.append_assoc] using hold

theorem appendLine_ended {lines : List Text} {line : Text} (hlines : ∀ l ∈ lines, Ended l)
    (hline : Ended line) (hne : line ≠ []) : ∀ l ∈ appendLine lines line, Ended l := by
  unfold appendLine
  split
  · intro l hl
    rw [List.mem_singleton.mp hl]
    exact hline
  · rename_i last hlast
    split
    · rename_i hjoins
      intro l hl
      rcases List.mem_append.mp hl with hl | hl
      · exact hlines l (List.dropLast_subset _ hl)
      · rw [List.mem_singleton.mp hl]
        exact (hlines last (List.mem_of_getLast? hlast)).join hline hne hjoins
    · intro l hl
      rcases List.mem_append.mp hl with hl | hl
      · exact hlines l hl
      · rw [List.mem_singleton.mp hl]
        exact hline

/-- What the splitting loop keeps of the lines. -/
theorem appendLine_lines {lines : List Text} {buf : Text}
    (hlines : ∀ l ∈ lines, LineShape l ∧ Ended l) (hbuf : buf ≠ []) :
    ∀ l ∈ appendLine lines (nextLine buf).1, LineShape l ∧ Ended l := fun l hl =>
  ⟨appendLine_shape (fun l hl => (hlines l hl).1) (nextLine_shape hbuf) l hl,
    appendLine_ended (fun l hl => (hlines l hl).2) (nextLine_ended buf) (nextLine_shape hbuf).ne_nil
      l hl⟩

theorem cacheLoop_lines {lines : List Text} (hlines : ∀ l ∈ lines, LineShape l ∧ Ended l)
    (fuel : Nat) (buf : Text) : ∀ l ∈ cacheLoop fuel lines buf, LineShape l ∧ Ended l := by
  induction fuel generalizing lines buf with
  | zero => exact hlines
  | succ fuel ih =>
    unfold cacheLoop
    by_cases hbuf : buf = []
    · simpa [hbuf] using hlines
    · rw [if_neg (by simpa using hbuf)]
      exact ih (appendLine_lines hlines hbuf) _

/-- The end of a piece inside a read is the end of a line, so only the piece
that starts the read can cut a request. -/
theorem Seamless.cacheLoop {fuel : Nat} {rest buf : Text} {lines : List Text}
    (h : Seamless (buf ++ rest) lines) (hlines : ∀ l ∈ lines, LineShape l ∧ Ended l)
    (hfuel : buf.length ≤ fuel)
    (hshort : buf ≠ [] → ∀ last, lines.getLast? = some last →
      Straddles esc6n (lines.flatten.map Cell.byte) ((buf ++ rest).map Cell.byte) →
      last.length < 1000) :
    Seamless rest (cacheLoop fuel lines buf) := by
  induction fuel generalizing lines buf with
  | zero =>
    obtain rfl := List.length_eq_zero_iff.mp (Nat.le_zero.mp hfuel)
    exact h
  | succ fuel ih =>
    unfold Output.cacheLoop
    by_cases hbuf : buf = []
    · subst hbuf
      exact h
    · rw [if_neg (by simpa using hbuf)]
      have hnext := nextLine_snd_length hbuf
      have hshape := nextLine_shape hbuf
      have happ := nextLine_append buf
      have hrest : (nextLine buf).1 ++ ((nextLine buf).2 ++ rest) = buf ++ rest := by
        rw [← List.append_assoc, happ]
      refine ih (Seamless.appendLine (hrest ▸ h) ?_) (appendLine_lines hlines hbuf) (by omega) ?_
      · intro last hlast hapart hstraddles
        rw [hrest] at hstraddles
        have hlen := hshort hbuf last hlast hstraddles
        have hne := (hlines last (List.mem_of_getLast? hlast)).1.ne_nil
        rw [joins_of_straddles hlast hne hshape.ne_nil hlen hstraddles] at hapart
        cases hapart
      · intro hmore last _ hstraddles
        rcases nextLine_cases buf with ⟨init, x, hline, hx⟩ | ⟨-, hall⟩
        · rw [appendLine_flatten, hline, ← List.append_assoc] at hstraddles
          exact absurd hstraddles (not_straddles_break hx _)
        · rw [hall] at hmore
          exact absurd rfl hmore

/-! ## The line being written -/

/-- The length of the line being written behind a chunk, when it was `n` in front of
it: a CR or LF ends the line, and so does the end of a chunk once the line has a
thousand bytes. -/
def lineAfter (n : Nat) (chunk : Text) : Nat :=
  if chunk.any Cell.isBreak then lineLength chunk
  else if n < 1000 ∨ chunk = [] then n + chunk.length
  else chunk.length

def openLength (chunks : List Text) : Nat := chunks.foldl lineAfter 0

/-- The length of the last line, if it was not ended. -/
def lastLength (lines : List Text) : Nat := lineLength (lines.getLast?.getD [])

theorem lastLength_concat (lines : List Text) (l : Text) :
    lastLength (lines ++ [l]) = lineLength l := by
  rw [lastLength, List.getLast?_concat]
  rfl

theorem lineAfter_nil (n : Nat) : lineAfter n [] = n := by simp [lineAfter]

theorem lineLength_piece {x : Cell} (hx : x.isBreak = true) (t rest : Text) :
    lineLength (t ++ [x] ++ rest) = lineAfter 0 rest := by
  rw [lineLength_append, lineLength_break hx, lineAfter]
  split <;> simp

/-- One piece that ends a line. -/
theorem appendLine_break {lines : List Text} {init : Text} {x : Cell} (hx : x.isBreak = true) :
    lastLength (appendLine lines (init ++ [x])) = 0 := by
  unfold appendLine
  split
  · exact (lastLength_concat [] _).trans (lineLength_break hx _)
  · split
    · rw [lastLength_concat, ← List.append_assoc, lineLength_break hx]
    · rw [lastLength_concat, lineLength_break hx]

/-- A whole read without CR and LF. -/
theorem appendLine_free {lines : List Text} {buf : Text} (hlines : ∀ l ∈ lines, LineShape l ∧ Ended l)
    (hfree : buf.any Cell.isBreak = false) (hne : buf ≠ []) :
    lastLength (appendLine lines buf) = lineAfter (lastLength lines) buf := by
  have hafter (n : Nat) : lineAfter n buf = if n < 1000 then n + buf.length else buf.length := by
    simp [lineAfter, hfree, hne]
  obtain ⟨c, rest, rfl⟩ := List.exists_cons_of_ne_nil hne
  have hc : c.isLF = false ∧ c.isCR = false := by
    simpa [Cell.isBreak] using (List.any_eq_false.mp hfree c List.mem_cons_self)
  rcases List.eq_nil_or_concat lines with rfl | ⟨init, last, rfl⟩
  · rw [hafter, if_pos (by decide)]
    exact (lastLength_concat [] _).trans ((lineLength_free hfree).trans (Nat.zero_add _).symm)
  · rw [List.concat_eq_append] at hlines ⊢
    obtain ⟨hshape, hended⟩ := hlines last (by simp)
    rw [hafter, lastLength_concat, appendLine, List.getLast?_concat]
    dsimp only
    obtain ⟨l, x, rfl⟩ := (List.eq_nil_or_concat last).resolve_left hshape.ne_nil
    rw [List.concat_eq_append] at hended ⊢
    have hjoins : joins (l ++ [x]) (c :: rest) =
        (!x.isLF && !x.isCR && decide ((l ++ [x]).length < 1000)) := by
      simp [joins, hc.1]
    by_cases hx : x.isBreak = true
    · have hapart : joins (l ++ [x]) (c :: rest) = false := by
        rw [hjoins]
        simp only [Cell.isBreak, Bool.or_eq_true] at hx
        rcases hx with hx | hx <;> simp [hx]
      rw [hapart, if_neg Bool.false_ne_true, lineLength_break hx, if_pos (by decide : 0 < 1000),
        lastLength_concat, lineLength_free hfree, Nat.zero_add]
    · -- a line that does not end with a CR or LF has none
      have hlast : (l ++ [x]).any Cell.isBreak = false := by
        rcases hended with hall | ⟨init', y, heq, hy⟩
        · exact List.any_eq_false.mpr fun y hy => by simp [hall y hy]
        · exact absurd (List.singleton_inj.mp (List.append_inj' heq rfl).2 ▸ hy) hx
      simp only [Cell.isBreak, Bool.or_eq_true, not_or, Bool.not_eq_true] at hx
      rw [hjoins, hx.1, hx.2, lineLength_free hlast]
      by_cases hlong : (l ++ [x]).length < 1000
      · have hyes : (!false && !false && true) = true := rfl
        rw [if_pos hlong, decide_eq_true hlong, if_pos hyes, List.dropLast_concat,
          lastLength_concat, lineLength_append, if_neg (by simp [hfree]), lineLength_free hlast]
      · have hno : ¬ (!false && !false && false) = true := by decide
        rw [if_neg hlong, decide_eq_false hlong, if_neg hno, lastLength_concat,
          lineLength_free hfree]

/-- The splitting loop keeps the length of the line being written. -/
theorem cacheLoop_lastLength {fuel : Nat} {lines : List Text} {buf : Text}
    (hlines : ∀ l ∈ lines, LineShape l ∧ Ended l) (hfuel : buf.length ≤ fuel) :
    lastLength (cacheLoop fuel lines buf) = lineAfter (lastLength lines) buf := by
  induction fuel generalizing lines buf with
  | zero =>
    obtain rfl := List.length_eq_zero_iff.mp (Nat.le_zero.mp hfuel)
    rw [lineAfter_nil]
    rfl
  | succ fuel ih =>
    unfold cacheLoop
    by_cases hbuf : buf = []
    · subst hbuf
      rw [lineAfter_nil]
      rfl
    · rw [if_neg (by simpa using hbuf)]
      have hnext := nextLine_snd_length hbuf
      have happ := nextLine_append buf
      rw [ih (appendLine_lines hlines hbuf) (by omega)]
      rcases nextLine_cases buf with ⟨init, x, hline, hx⟩ | ⟨hfree, hall⟩
      · rw [hline] at happ ⊢
        rw [appendLine_break hx, ← lineLength_piece hx init, happ, lineAfter, if_pos]
        rw [← happ]
        simp [hx]
      · rw [hall]
        rw [lineAfter_nil, appendLine_free hlines ?_ hbuf]
        exact List.any_eq_false.mpr fun y hy => by simp [hfree y hy]

/-! ## The requests that are seen -/

/-- The reads that end inside a request end in a line below a thousand bytes. -/
def ShortSeams (chunks : List Text) : Prop :=
  ∀ front back, chunks = front ++ back →
    Straddles esc6n (front.flatten.map Cell.byte) (back.flatten.map Cell.byte) →
    openLength front < 1000

/-- The last line is the one that the chunks were writing. -/
theorem splitLines_open (chunks : List Text) :
    (∀ l ∈ splitLines chunks, LineShape l ∧ Ended l) ∧
      lastLength (splitLines chunks) = openLength chunks := by
  induction chunks using List.reverseRecOn with
  | nil => exact ⟨List.forall_mem_nil _, rfl⟩
  | append_singleton chunks chunk ih =>
    have hopen : openLength (chunks ++ [chunk]) = lineAfter (openLength chunks) chunk := by
      rw [openLength, List.foldl_append]
      rfl
    rw [splitLines_concat, hopen, ← ih.2]
    exact ⟨cacheLoop_lines ih.1 _ _, cacheLoop_lastLength ih.1 (Nat.le_refl _)⟩

/-- Short seams: no request lies across the end of a line. -/
theorem splitLines_seamless {chunks rest : List Text} (hshort : ShortSeams (chunks ++ rest)) :
    Seamless rest.flatten (splitLines chunks) := by
  induction chunks using List.reverseRecOn generalizing rest with
  | nil =>
    intro front back heq hfront
    exact absurd (List.append_eq_nil_iff.mp heq.symm).1 hfront
  | append_singleton chunks chunk ih =>
    rw [List.append_assoc, List.singleton_append] at hshort
    obtain ⟨hlines, hopen⟩ := splitLines_open chunks
    rw [splitLines_concat]
    refine Seamless.cacheLoop (ih hshort) hlines (Nat.le_refl _) ?_
    intro _ last hlast hstraddles
    rw [splitLines_flatten] at hstraddles
    have hline := hshort chunks (chunk :: rest) rfl hstraddles
    rw [← hopen, lastLength, hlast, Option.getD_some] at hline
    -- the line was not ended inside the request, so all of it counts
    rcases (hlines last (List.mem_of_getLast? hlast)).2 with hfree | ⟨l, x, rfl, hx⟩
    · rwa [lineLength_free (List.any_eq_false.mpr fun y hy => by simp [hfree y hy])] at hline
    · obtain ⟨init, hinit⟩ := List.getLast?_eq_some_iff.mp hlast
      rw [← splitLines_flatten, hinit, List.flatten_append, List.flatten_singleton,
        ← List.append_assoc] at hstraddles
      exact absurd hstraddles (not_straddles_break hx _)

/-- Behind a line of a thousand bytes the next read starts a new one. -/
theorem cacheLoop_long {lines : List Text} (hlong : 1000 ≤ lastLength lines) (fuel : Nat)
    (buf : Text) : cacheLoop fuel lines buf = lines ++ cacheLoop fuel [] buf := by
  have happend (line : Text) : appendLine lines line = lines ++ [line] := by
    unfold appendLine
    cases hlast : lines.getLast? with
    | none => rw [List.getLast?_eq_none_iff.mp hlast, List.nil_append]
    | some last =>
      rw [lastLength, hlast, Option.getD_some] at hlong
      have hlen := lineLength_le last
      have hapart : joins last line = false := by
        unfold joins
        split
        · rw [decide_eq_false (by omega), Bool.and_false]
        · rfl
      dsimp only
      rw [hapart, if_neg Bool.false_ne_true]
  cases fuel with
  | zero => simp [cacheLoop]
  | succ fuel =>
    unfold cacheLoop
    split
    · simp
    · rw [happend, cacheLoop_append (by simp)]
      rfl

theorem splitLines_long {front : List Text} (hlong : 1000 ≤ openLength front) (back : List Text) :
    splitLines (front ++ back) = splitLines front ++ splitLines back := by
  induction back using List.reverseRecOn with
  | nil => simp [splitLines]
  | append_singleton back chunk ih =>
    rw [← List.append_assoc, splitLines_concat, ih, splitLines_concat]
    by_cases hnil : splitLines back = []
    · rw [hnil, List.append_nil]
      exact cacheLoop_long ((splitLines_open front).2 ▸ hlong) _ _
    · exact cacheLoop_append hnil _ _ _

/-- **The requests erased line by line are those of the whole text** exactly if no
read ends inside a request and behind a line of a thousand bytes. -/
theorem filterLine_splitLines (chunks : List Text) :
    (splitLines chunks).flatMap filterLine = filterLine chunks.flatten ↔ ShortSeams chunks := by
  constructor
  · rintro hall front back rfl hstraddles
    by_contra hlong
    -- the two halves of the request are in different lines, so they stay
    have hesc : (0x1b : UInt8) ∉ [0x5b, 0x36, 0x6e] := by decide
    have hfront := eraseAll_flatten_length Cell.byte hesc (splitLines front)
    have hback := eraseAll_flatten_length Cell.byte hesc (splitLines back)
    have hmore := eraseAll_append_lt Cell.byte hesc hstraddles
    rw [splitLines_flatten] at hfront hback
    have hlength := congrArg List.length hall
    rw [splitLines_long (Nat.le_of_not_lt hlong), List.flatMap_append, List.length_append,
      List.flatten_append] at hlength
    exact absurd hlength (Nat.ne_of_gt (Nat.lt_of_lt_of_le hmore (Nat.add_le_add hfront hback)))
  · intro hshort
    rw [← List.append_nil chunks] at hshort
    have hseamless := splitLines_seamless hshort
    rw [← splitLines_flatten, filterLine, eraseAll_flatten]
    · rfl
    · intro front back heq hfront hback
      simpa using hseamless front back heq hfront hback

/-- Without overflow the cache holds all lines. -/
theorem cacheAll_cacheLines {f : Forwarder} (hf : f.Uncached) {lim : Limits}
    {calls : List (Int × Text)} (hfull : (cacheAll lim f calls).discardLines = 0) :
    (cacheAll lim f calls).cacheLines = splitLines (calls.map (·.2)) := by
  have hretained := retained_cacheAll hf lim calls
  have hnone : (cacheAll lim f calls).dropped = [] :=
    List.length_eq_zero_iff.mp (hretained.discardLines.symm.trans hfull)
  rw [← hretained.lines, hnone, List.nil_append]

end Tsshd.Output

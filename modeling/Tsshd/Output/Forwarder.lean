import Tsshd.Core.Cut
import Mathlib.Algebra.GroupWithZero.Nat

/-!
# The server output forwarder: data and sequential code

`serverOutputForwarder` (output.go) with the code that runs under its
processing token without touching anything shared: the line cache
(`cacheOutput`, `clearOutput`), the warning line of a flush and its tmux
control-mode encoding (tmuxcc.go).

Two history notes ride along and are read by no step:

* every byte is a `Cell` that names the client whose redraw marker it belongs
  to (`none` for a byte of the program or of the forwarder itself);
* `dropped` keeps the lines that `discardLines` and `discardBytes` only count,
  and a queued buffer (`Buf`) remembers the flushed line or warning it starts
  with.
-/

namespace Tsshd.Output

/-- A byte of the output stream and the client whose marker it belongs to. -/
structure Cell where
  byte : UInt8
  owner : Option Nat
deriving DecidableEq, Repr

abbrev Text := List Cell

/-- The bytes of an ASCII string. -/
def ascii (s : String) : List UInt8 := s.toList.map fun c => c.toNat.toUInt8

/-- Bytes that belong to no marker. -/
def plain (bytes : List UInt8) : Text := bytes.map fun b => ⟨b, none⟩

/-- The bytes of a redraw marker requested by `client`. -/
def marked (client : Nat) (bytes : List UInt8) : Text := bytes.map fun b => ⟨b, some client⟩

def Cell.isLF (c : Cell) : Bool := c.byte == 10

def Cell.isCR (c : Cell) : Bool := c.byte == 13

def Cell.isSpace (c : Cell) : Bool := c.byte == 32

/-- The cursor position request `ESC [ 6 n`. -/
def esc6n : List UInt8 := [0x1b, 0x5b, 0x36, 0x6e]

/-- `bytes.ReplaceAll(line, "\x1b[6n", "")`. -/
def filterLine (line : Text) : Text := eraseAll Cell.byte esc6n line

/-! ## tmux control mode -/

/-- Where the pane id starts in a tmux output notification; `0` when the line
is none. -/
def tmuxPaneIdx (line : Text) : Nat :=
  if (ascii "%output %").isPrefixOf (line.map Cell.byte) then 8
  else if (ascii "%extended-output %").isPrefixOf (line.map Cell.byte) then 17
  else 0

/-- The pane prefix of the first line that is at least the
`min 10 maxPending`-th notification and has a blank behind the pane id. -/
def extractTmuxOutputPrefix (maxPending : Nat) (count : Nat) : List Text → Text
  | [] => []
  | line :: rest =>
    if tmuxPaneIdx line = 0 then extractTmuxOutputPrefix maxPending count rest
    else if count + 1 < min 10 maxPending then
      extractTmuxOutputPrefix maxPending (count + 1) rest
    else
      match cutAfter Cell.isSpace (line.drop (tmuxPaneIdx line)) with
      | some (pane, _) =>
        if 1 < pane.length then plain (ascii "%output ") ++ pane
        else extractTmuxOutputPrefix maxPending (count + 1) rest
      | none => extractTmuxOutputPrefix maxPending (count + 1) rest

/-- One byte of `encodeTmuxOutput`: printable ASCII other than the backslash
stands for itself, everything else becomes a backslash and three octal
digits. -/
def encodeTmuxByte (b : UInt8) : List UInt8 :=
  if b < 32 || b == 92 || 126 < b then
    [92, 48 + b / 64, 48 + b / 8 % 8, 48 + b % 8]
  else [b]

def encodeTmuxOutput (panePrefix output : Text) : Text :=
  panePrefix ++ plain ((output.map Cell.byte).flatMap encodeTmuxByte) ++ plain [13, 10]

/-! ## The warning line -/

/-- `%d` of a counter. -/
def decimal (n : Nat) : List UInt8 := (Nat.toDigits 10 n).map fun c => c.toNat.toUInt8

/-- The text that stands for discarded output. -/
def warningText (newline : Text) (lines bytes : Nat) : Text :=
  plain (ascii "\r\x1b[0;33mWarning: tsshd discarded " ++ decimal lines ++ ascii " lines " ++
    decimal bytes ++
    ascii " bytes of output during client disconnection at this point!\x1b[0m\x1b[K") ++ newline

/-- The warning as it is queued: through the tmux encoder when the discarded
lines came from a tmux pane. -/
def warningLine (panePrefix newline : Text) (lines bytes : Nat) : Text :=
  if panePrefix.isEmpty then warningText newline lines bytes
  else encodeTmuxOutput panePrefix (warningText newline lines bytes)

/-! ## Queued buffers -/

/-- What `flushOutput` puts on the queue. -/
inductive Flushed
  /-- A cached line; its cursor position requests are filtered out. -/
  | line (l : Text)
  /-- A warning line and the run of dropped lines it stands for. -/
  | warn (text : Text) (run : List Text)
deriving DecidableEq, Repr

/-- The text that reaches the client. -/
def Flushed.emit : Flushed → Text
  | .line l => filterLine l
  | .warn text _ => text

/-- The program output it stands for. -/
def Flushed.source : Flushed → Text
  | .line l => l
  | .warn _ run => run.flatten

/-- A buffer of `writeBufCh`: output that `handleBuffer` passes on verbatim,
behind a flushed piece when that was pulled back from the queue and merged. -/
structure Buf where
  front : Option Flushed := none
  raw : Text := []
deriving DecidableEq, Repr

namespace Buf

def frontText (b : Buf) : Text := (b.front.map Flushed.emit).getD []

/-- The bytes of the buffer: all that the code looks at. -/
def text (b : Buf) : Text := b.frontText ++ b.raw

/-- The buffer, with `v` for its flushed piece: its bytes when that is what the
piece emits, the program output when it is what the piece stands for. -/
def stands (v : Flushed → Text) (b : Buf) : Text := (b.front.map v).getD [] ++ b.raw

/-- The program output the buffer stands for. -/
def source (b : Buf) : Text := b.stands Flushed.source

/-- `append(b, buf...)`. -/
def append (b : Buf) (buf : Text) : Buf := { b with raw := b.raw ++ buf }

/-- `b[:n]`. A cut inside the flushed piece would leave bytes without a note of
where they come from; `Conservation` shows that none happens. -/
def take (b : Buf) (n : Nat) : Buf :=
  if b.frontText.length ≤ n then { b with raw := b.raw.take (n - b.frontText.length) }
  else { raw := b.text.take n }

@[simp] theorem text_append (b : Buf) (buf : Text) : (b.append buf).text = b.text ++ buf := by
  simp [append, text, frontText]

@[simp] theorem stands_append (v : Flushed → Text) (b : Buf) (buf : Text) :
    (b.append buf).stands v = b.stands v ++ buf := by
  simp [append, stands]

@[simp] theorem text_take (b : Buf) (n : Nat) : (b.take n).text = b.text.take n := by
  unfold take
  split
  · rename_i hle
    simp only [text, frontText] at hle ⊢
    rw [List.take_append, List.take_of_length_le hle]
  · simp [text, frontText]

end Buf

/-! ## The forwarder -/

/-- The bound on cached lines; a package variable of the source, positive. -/
structure Limits where
  maxPendingOutputLines : Nat := 1000
  pos : 0 < maxPendingOutputLines := by decide

/-- `max(maxPendingOutputLines, f.sess.rows*2)`. -/
def Limits.maxLines (lim : Limits) (rows : Int) : Nat :=
  (max (lim.maxPendingOutputLines : Int) (rows * 2)).toNat

theorem Limits.maxLines_pos (lim : Limits) (rows : Int) : 0 < lim.maxLines rows := by
  have := lim.pos
  unfold Limits.maxLines
  omega

/-- The fields of `serverOutputForwarder` that its code reads and writes.
`processDone` names the current hand-over channel and `doneClosed` lists the
ones closed so far. -/
structure Forwarder where
  processing : Bool := false
  processDone : Nat := 0
  doneClosed : List Nat := []
  reconnectPending : Bool := false
  returned : Bool := false
  writeError : Bool := false
  writeBufCh : Option Buf := none
  chClosed : Bool := false
  cacheLines : List Text := []
  tmuxOutputPrefix : Text := []
  chHasNewLine : Bool := false
  noNewLineCount : Nat := 0
  discardLines : Nat := 0
  discardBytes : Nat := 0
  voidedCapacity : Nat := 0
  discardOutput : Bool := false
  discardMarker : Option Text := none
  /-- History: the lines counted by `discardLines`. The counters are
  `uint64` in the source: no flush is taken to find 2^64 of either. -/
  dropped : List Text := []

/-! ## `cacheOutput` -/

/-- The next cached line and the rest of the buffer: up to the first LF, else
up to the first CR, else everything. -/
def nextLine (buf : Text) : Text × Text :=
  match cutAfter Cell.isLF buf with
  | some (line, rest) => (line, rest)
  | none =>
    match cutAfter Cell.isCR buf with
    | some (line, rest) => (line, rest)
    | none => (buf, [])

/-- Whether `line` continues the last cached line. -/
def joins (last line : Text) : Bool :=
  match last.getLast?, line.head? with
  | some b, some c => !b.isLF && (!b.isCR || c.isLF) && decide (last.length < 1000)
  | _, _ => false

def appendLine (lines : List Text) (line : Text) : List Text :=
  match lines.getLast? with
  | none => [line]
  | some last =>
    if joins last line then lines.dropLast ++ [last ++ line] else lines ++ [line]

/-- The splitting loop; `fuel` bounds its rounds, each of which takes at least
one byte. -/
def cacheLoop : Nat → List Text → Text → List Text
  | 0, lines, _ => lines
  | fuel + 1, lines, buf =>
    if buf.isEmpty then lines
    else cacheLoop fuel (appendLine lines (nextLine buf).1) (nextLine buf).2

/-- Drop the lines over the limit from the front of the cache. -/
def trimCache (lim : Limits) (rows : Int) (f : Forwarder) : Forwarder :=
  let maxLines := lim.maxLines rows
  if maxLines < f.cacheLines.length then
    let dropLines := f.cacheLines.length - maxLines
    { f with
      tmuxOutputPrefix :=
        if f.discardLines = 0 then
          extractTmuxOutputPrefix lim.maxPendingOutputLines 0 f.cacheLines
        else f.tmuxOutputPrefix
      discardLines := f.discardLines + dropLines
      discardBytes := f.discardBytes + ((f.cacheLines.take dropLines).map List.length).sum
      dropped := f.dropped ++ f.cacheLines.take dropLines
      cacheLines := f.cacheLines.drop dropLines
      voidedCapacity :=
        if maxLines < f.voidedCapacity + dropLines then 0 else f.voidedCapacity + dropLines }
  else f

def cacheOutput (lim : Limits) (rows : Int) (f : Forwarder) (buf : Text) : Forwarder :=
  trimCache lim rows { f with cacheLines := cacheLoop buf.length f.cacheLines buf }

/-! ## `clearOutput` -/

/-- The `discard` message that `clearOutput` sends when a server is attached:
everything counted so far and everything still cached. -/
def clearReport (f : Forwarder) : Option (Nat × Nat) :=
  let lines := f.discardLines + f.cacheLines.length
  if 0 < lines then some (lines, f.discardBytes + (f.cacheLines.map List.length).sum) else none

def clearOutput (f : Forwarder) : Forwarder :=
  { f with
    discardLines := 0, discardBytes := 0, dropped := []
    cacheLines := [], chHasNewLine := false, noNewLineCount := 0 }

/-! ## `flushOutput`: the line for loop index `-1` -/

/-- The newline of the warning: a bare CR when the cache continues with a line
that ends in CR. -/
def warningNewline (cacheLines : List Text) : Text :=
  match cacheLines.head? with
  | some line =>
    match line.getLast? with
    | some b => if b.isCR then plain [13] else plain [13, 10]
    | none => plain [13, 10]
  | none => plain [13, 10]

def flushWarning (f : Forwarder) : Text :=
  warningLine f.tmuxOutputPrefix (warningNewline f.cacheLines) f.discardLines f.discardBytes

end Tsshd.Output

import Tsshd.Bus.Wire

/-!
# The bus: dispatch loops

Both ends read the bus in a loop (`handleBusEvent` in bus.go and client.go):
receive a command, find its handler, and let the handler receive the message the
command carries. What a handler then does with the message is not part of this
model; what matters for the stream is how many bytes it takes.

A `Table` says for each command what its handler receives. The results hold for
every table, and so for `serverTable` and `clientTable`.

* **one turn** — `turn_item`: a turn takes the bytes of one command with its
  message, also when nobody knows the command or the message does not decode;
* **whole runs** — `loop_items`: by induction over what was sent, the loop hands
  out the same list and stands behind the last byte.
-/

namespace Tsshd.Bus

/-! ## The loops -/

/-- What the handler of a command receives. -/
inductive Expect
  | message (t : MessageType)
  /-- `handleUnknownEvent`. -/
  | unknown
  /-- No message. -/
  | nothing
  /-- No message, and the loop returns. -/
  | close
deriving DecidableEq, Repr

abbrev Table := List UInt8 → Expect

def serverTable : Table := fun command =>
  if command = asciiBytes "exit" then .message .exit
  else if command = asciiBytes "resize" then .message .resize
  else if command = asciiBytes "close" then .close
  else if command = asciiBytes "alive" then .message .alive
  else if command = asciiBytes "setting" then .message .settings
  else if command = asciiBytes "rekey" then .message .rekey
  else if command = asciiBytes "detach" then .nothing
  else .unknown

def clientTable : Table := fun command =>
  if command = asciiBytes "quit" then .message .quit
  else if command = asciiBytes "exit" then .message .exit
  else if command = asciiBytes "debug" then .message .debug
  else if command = asciiBytes "error" then .message .error
  else if command = asciiBytes "channel" then .message .channel
  else if command = asciiBytes "alive" then .message .alive
  else if command = asciiBytes "discard" then .message .discard
  else if command = asciiBytes "rekey" then .message .rekey
  else if command = asciiBytes "detachAck" then .message .detachAck
  else .unknown

/-- What a turn of the loop has come to. -/
inductive Event (codec : Codec)
  | message (command : List UInt8) (t : MessageType) (msg : codec.Val t)
  /-- The handler of a known command has no message. -/
  | failed (command : List UInt8) (e : RecvError)
  /-- An unknown command, and why its message was not received if it was not. -/
  | unknown (command : List UInt8) (e : Option RecvError)
  | nothing (command : List UInt8)
  | close (command : List UInt8)

def Event.isClose {codec : Codec} : Event codec → Bool
  | .close _ => true
  | _ => false

/-- What the handlers receive. -/
def handle (codec : Codec) (command : List UInt8) : Expect → Stream → Event codec × Stream
  | .message t, s =>
    match recvMessage codec t s with
    | (.ok msg, s') => (.message command t msg, s')
    | (.error e, s') => (.failed command e, s')
  | .unknown, s =>
    match recvMessage codec .empty s with
    | (.ok _, s') => (.unknown command none, s')
    | (.error e, s') => (.unknown command (some e), s')
  | .nothing, s => (.nothing command, s)
  | .close, s => (.close command, s)

/-- Why the loop is over. -/
inductive Ending
  | failed (e : RecvError)
  /-- Another server has become `activeSshUdpServer`. -/
  | inactive
  | returned
  /-- It is not: the turns allowed are used up. -/
  | running
deriving DecidableEq, Repr

/-- One turn of the loop: `recvCommand` and the handler. In between, the server looks
whether it is still the active one. -/
def turn (codec : Codec) (table : Table) (active : Bool) (s : Stream) :
    Except Ending (Event codec) × Stream :=
  match recvCommand s with
  | (.error e, s') => (.error (.failed e), s')
  | (.ok command, s') =>
    if active then
      match handle codec command (table command) s' with
      | (event, s'') => (.ok event, s'')
    else (.error .inactive, s')

/-- Up to `fuel` turns, until a command cannot be received or `stops` says so; `active`
is what the looks find. -/
def loop (codec : Codec) (table : Table) (stops : Event codec → Bool) :
    (Nat → Bool) → Nat → Stream → List (Event codec) × Ending × Stream
  | _, 0, s => ([], .running, s)
  | active, fuel + 1, s =>
    match turn codec table (active 0) s with
    | (.error ending, s') => ([], ending, s')
    | (.ok event, s') =>
      if stops event then ([event], .returned, s')
      else
        match loop codec table stops (fun n => active (n + 1)) fuel s' with
        | (events, ending) => (event :: events, ending)

/-- The loop of `handleBusEvent`. The client's looks at nothing: `active` is `true`
throughout. -/
def handleBusEvent (codec : Codec) (table : Table) :
    (Nat → Bool) → Nat → Stream → List (Event codec) × Ending × Stream :=
  loop codec table Event.isClose

/-! ## What is sent -/

/-- A command that is sent to a receiver with this table. -/
inductive Item (codec : Codec) (table : Table)
  /-- A known command with the message it carries. -/
  | message (c : Command) {t : MessageType} (m : Message codec t)
      (known : table c.text = .message t)
  /-- A known command with a message that its handler cannot decode. -/
  | garbled (c : Command) (t : MessageType) {t' : MessageType} (m : Message codec t')
      (known : table c.text = .message t) (bad : codec.unmarshal t m.json = none)
  /-- A command the receiver does not know, with a message. -/
  | unknown (c : Command) {t : MessageType} (m : Message codec t)
      (unknown : table c.text = .unknown)
  /-- A command without a message. -/
  | nothing (c : Command) (bare : table c.text = .nothing)
  /-- The command that ends the loop. -/
  | close (c : Command) (close : table c.text = .close)

namespace Item

variable {codec : Codec} {table : Table}

def send (w : Writer) : Item codec table → Except SendError Unit × Writer
  | .message c m _ => sendCommandAndMessage codec w c.text m.val
  | .garbled c _ m _ _ => sendCommandAndMessage codec w c.text m.val
  | .unknown c m _ => sendCommandAndMessage codec w c.text m.val
  | .nothing c _ => sendCommand w c.text
  | .close c _ => sendCommand w c.text

/-- Its bytes. -/
def encode : Item codec table → List UInt8
  | .message c m _ => commandBytes c.text ++ messageBytes m.json
  | .garbled c _ m _ _ => commandBytes c.text ++ messageBytes m.json
  | .unknown c m _ => commandBytes c.text ++ messageBytes m.json
  | .nothing c _ => commandBytes c.text
  | .close c _ => commandBytes c.text

/-- What the receiver should make of it: the same command and the same message. -/
def event : Item codec table → Event codec
  | .message (t := t) c m _ => .message c.text t m.val
  | .garbled c _ _ _ _ => .failed c.text .unmarshal
  | .unknown c m _ =>
    .unknown c.text
      (if (codec.unmarshal .empty m.json).isSome then none else some .unmarshal)
  | .nothing c _ => .nothing c.text
  | .close c _ => .close c.text

end Item

/-- Send one after the other. -/
def sendAll {codec : Codec} {table : Table} :
    Writer → List (Item codec table) → Except SendError Unit × Writer
  | w, [] => (.ok (), w)
  | w, item :: items =>
    match item.send w with
    | (.error e, w') => (.error e, w')
    | (.ok (), w') => sendAll w' items

/-! ## One turn -/

variable {codec : Codec} {table : Table}

theorem turn_command (codec : Codec) (table : Table) {s : Stream} {rest : List UInt8} (c : Command)
    (hs : s.bytes = commandBytes c.text ++ rest) :
    ∃ s' : Stream, s'.bytes = rest ∧ s'.fin = s.fin ∧
      turn codec table true s = (.ok (handle codec c.text (table c.text) s').1,
        (handle codec c.text (table c.text) s').2) := by
  have hrecv := recvCommand_ok c hs
  unfold turn
  generalize recvCommand s = r at hrecv ⊢
  obtain ⟨res, s'⟩ := r
  obtain ⟨hok, hrest, hfin⟩ := hrecv
  subst hok
  exact ⟨s', hrest, hfin, rfl⟩

/-- What a handler makes of a message that has arrived. -/
def heard (codec : Codec) (command : List UInt8) (json : List UInt8) : Expect → Event codec
  | .message t =>
    match decoded codec t json with
    | .ok msg => .message command t msg
    | .error e => .failed command e
  | .unknown =>
    match decoded codec .empty json with
    | .ok _ => .unknown command none
    | .error e => .unknown command (some e)
  | .nothing => .nothing command
  | .close => .close command

/-- The commands that carry a message. -/
def Expect.carries : Expect → Bool
  | .message _ => true
  | .unknown => true
  | .nothing => false
  | .close => false

theorem handle_message (codec : Codec) (command : List UInt8) {x : Expect} {s : Stream}
    {json rest : List UInt8}
    (hx : x.carries = true) (hshort : json.length < 4294967296)
    (hs : s.bytes = messageBytes json ++ rest) :
    (handle codec command x s).1 = heard codec command json x ∧
    (handle codec command x s).2.bytes = rest ∧ (handle codec command x s).2.fin = s.fin := by
  cases x with
  | message t =>
    have hrecv := recvMessage_ok codec t hshort hs
    dsimp only [handle, heard]
    generalize recvMessage codec t s = r at hrecv ⊢
    obtain ⟨res, s'⟩ := r
    obtain ⟨hres, hrest, hfin⟩ := hrecv
    dsimp only at hres hrest hfin ⊢
    subst hres
    cases decoded codec t json with
    | ok msg => exact ⟨rfl, hrest, hfin⟩
    | error e => exact ⟨rfl, hrest, hfin⟩
  | unknown =>
    have hrecv := recvMessage_ok codec .empty hshort hs
    dsimp only [handle, heard]
    generalize recvMessage codec .empty s = r at hrecv ⊢
    obtain ⟨res, s'⟩ := r
    obtain ⟨hres, hrest, hfin⟩ := hrecv
    dsimp only at hres hrest hfin ⊢
    subst hres
    cases decoded codec .empty json with
    | ok msg => exact ⟨rfl, hrest, hfin⟩
    | error e => exact ⟨rfl, hrest, hfin⟩
  | nothing => cases hx
  | close => cases hx

/-- The turn has come to `event` and has left the stream at `rest`. -/
structure Turned (s : Stream) (rest : List UInt8) (event : Event codec)
    (result : Except Ending (Event codec) × Stream) : Prop where
  event : result.1 = .ok event
  rest : result.2.bytes = rest
  fin : result.2.fin = s.fin

/-- **Resynchronisation.** Whatever the message of a command, the turn ends
right behind it. -/
theorem turn_pair (codec : Codec) (table : Table) (c : Command) {s : Stream}
    {json rest : List UInt8}
    (hx : (table c.text).carries = true) (hshort : json.length < 4294967296)
    (hs : s.bytes = commandBytes c.text ++ messageBytes json ++ rest) :
    Turned s rest (heard codec c.text json (table c.text)) (turn codec table true s) := by
  rw [List.append_assoc] at hs
  obtain ⟨s', hbytes, hfin, hturn⟩ := turn_command codec table c hs
  obtain ⟨hevent, hrest, hfin'⟩ := handle_message codec c.text hx hshort hbytes
  rw [hturn]
  exact ⟨congrArg Except.ok hevent, hrest, hfin'.trans hfin⟩

/-- A command without a message. -/
theorem turn_bare (codec : Codec) (table : Table) (c : Command) {s : Stream} {rest : List UInt8}
    (hx : (table c.text).carries = false) (hs : s.bytes = commandBytes c.text ++ rest) :
    Turned s rest (heard codec c.text [] (table c.text)) (turn codec table true s) := by
  obtain ⟨s', hbytes, hfin, hturn⟩ := turn_command codec table c hs
  rw [hturn]
  cases hexpect : table c.text with
  | message t => rw [hexpect] at hx; cases hx
  | unknown => rw [hexpect] at hx; cases hx
  | nothing => exact ⟨rfl, hbytes, hfin⟩
  | close => exact ⟨rfl, hbytes, hfin⟩

/-- What was sent is what is heard. -/
theorem turn_item {s : Stream} {rest : List UInt8} (item : Item codec table)
    (hs : s.bytes = item.encode ++ rest) :
    Turned s rest item.event (turn codec table true s) := by
  cases item with
  | message c m known =>
    have hturn := turn_pair codec table c (by rw [known]; rfl) m.short hs
    simp only [known, heard, decoded, codec.roundTrip m.val m.json m.marshals] at hturn
    exact hturn
  | garbled c t m known bad =>
    have hturn := turn_pair codec table c (by rw [known]; rfl) m.short hs
    simp only [known, heard, decoded, bad] at hturn
    exact hturn
  | unknown c m unknown =>
    have hturn := turn_pair codec table c (by rw [unknown]; rfl) m.short hs
    simp only [unknown, heard, decoded] at hturn
    dsimp only [Item.event]
    cases hempty : codec.unmarshal .empty m.json with
    | none =>
      rw [hempty] at hturn
      exact hturn
    | some msg =>
      rw [hempty] at hturn
      exact hturn
  | nothing c bare =>
    have hturn := turn_bare codec table c (by rw [bare]; rfl) hs
    rw [bare] at hturn
    exact hturn
  | close c close =>
    have hturn := turn_bare codec table c (by rw [close]; rfl) hs
    rw [close] at hturn
    exact hturn

/-- At the end of the stream no command is received. -/
theorem turn_end (codec : Codec) (table : Table) (active : Bool) {s : Stream}
    (hs : s.bytes = []) :
    (turn codec table active s).1 = .error (.failed (.commandLength s.fin)) ∧
      (turn codec table active s).2.bytes = [] := by
  have hread := s.read_reads 1
  unfold turn recvCommand
  generalize s.read 1 = r at hread ⊢
  obtain ⟨length, err, s'⟩ := r
  cases err with
  | some e =>
    obtain ⟨rfl, hnil⟩ := hread.ended e rfl
    exact ⟨rfl, hnil⟩
  | none =>
    have hsplit : length ++ s'.bytes = [] := hread.split.symm.trans hs
    exact absurd (List.append_eq_nil_iff.mp hsplit).1 (hread.goesOn rfl Nat.one_pos)

/-! ## Whole runs -/

/-- The bytes of what is sent one after the other. -/
def encodeAll (items : List (Item codec table)) : List UInt8 := (items.map Item.encode).flatten

theorem Item.send_sent {w : Writer} (hw : w.Reliable) (item : Item codec table) :
    Sent w item.encode (item.send w) := by
  cases item with
  | message c m known => exact sendCommandAndMessage_sent hw c m
  | garbled c t m known bad => exact sendCommandAndMessage_sent hw c m
  | unknown c m unknown => exact sendCommandAndMessage_sent hw c m
  | nothing c bare => exact sendCommand_sent hw c
  | close c close => exact sendCommand_sent hw c

theorem sendAll_sent {w : Writer} (hw : w.Reliable) (items : List (Item codec table)) :
    Sent w (encodeAll items) (sendAll w items) := by
  induction items generalizing w with
  | nil => exact ⟨rfl, (List.append_nil _).symm, hw⟩
  | cons item items ih =>
    have hsent := item.send_sent hw
    unfold sendAll
    generalize item.send w = r at hsent ⊢
    obtain ⟨res, w'⟩ := r
    obtain ⟨hok, hwritten, hrel⟩ := hsent
    dsimp only at hok hwritten hrel
    subst hok
    obtain ⟨hok, hall, hrel'⟩ := ih hrel
    refine ⟨hok, ?_, hrel'⟩
    rw [hall, hwritten, List.append_assoc]
    rfl

/-- **Round trip.** The loop hands out what was sent and goes on behind it. -/
theorem loop_items (stops : Event codec → Bool) (items : List (Item codec table)) {s : Stream}
    {rest : List UInt8} {active : Nat → Bool} (hactive : ∀ n < items.length, active n = true)
    (hstops : ∀ item ∈ items, stops item.event = false) (hs : s.bytes = encodeAll items ++ rest) :
    ∃ s' : Stream, s'.bytes = rest ∧ s'.fin = s.fin ∧
      ∀ fuel, loop codec table stops active (items.length + fuel) s =
        (items.map Item.event ++
            (loop codec table stops (fun n => active (n + items.length)) fuel s').1,
          (loop codec table stops (fun n => active (n + items.length)) fuel s').2) := by
  induction items generalizing s active with
  | nil => exact ⟨s, hs, rfl, fun fuel => by rw [List.length_nil, Nat.zero_add]; rfl⟩
  | cons item items ih =>
    have hbytes : s.bytes = item.encode ++ (encodeAll items ++ rest) := by
      rw [hs, encodeAll, List.map_cons, List.flatten_cons, List.append_assoc]
      rfl
    obtain ⟨hevent, hrest, hfin⟩ := turn_item item hbytes
    obtain ⟨s', hrest', hfin', hloop⟩ :=
      ih (fun n hn => hactive (n + 1) (Nat.succ_lt_succ hn))
        (fun i hi => hstops i (List.mem_cons_of_mem _ hi)) hrest
    refine ⟨s', hrest', hfin'.trans hfin, fun fuel => ?_⟩
    have hgoes : stops item.event = false := hstops item List.mem_cons_self
    have hfuel : (item :: items).length + fuel = items.length + fuel + 1 := by
      rw [List.length_cons, Nat.add_right_comm]
    have hturn : turn codec table (active 0) s =
        (.ok item.event, (turn codec table true s).2) := by
      rw [hactive 0 (Nat.succ_pos _)]
      exact Prod.ext hevent rfl
    rw [hfuel, loop, hturn]
    simp only [hgoes, Bool.false_eq_true, if_false, hloop fuel, List.map_cons, List.cons_append]
    rfl

/-- Two runs that send the same in one write or in two put the same bytes on
the wire. -/
theorem sendCommandAndMessage_split {t : MessageType} (c : Command) (m : Message codec t)
    {w : Writer} (hw : w.Reliable) {w' : Writer} (hw' : w'.Reliable)
    (hsame : w.written = w'.written) :
    (sendCommandAndMessage codec w c.text m.val).2.written =
      (sendMessage codec (sendCommand w' c.text).2 m.val).2.written := by
  have hcommand := sendCommand_sent hw' c
  rw [(sendCommandAndMessage_sent hw c m).written,
    (sendMessage_sent hcommand.reliable m).written, hcommand.written, hsame, List.append_assoc]

/-- **The bus is never out of step.** For every table of handlers: whatever list
of commands is sent, however the writes and the reads split the bytes, the turns
of the loop hand out that list, with its messages, and take exactly its bytes,
and the loop itself goes on to the end of the stream unless it is told to close or
another server has become the active one.
The two encoders write the same bytes. A turn on a command with any message in
it, known or not, decodable or not, ends at the next command. -/
theorem bus_in_step (codec : Codec) (table : Table) :
    (∀ (items : List (Item codec table)) (w : Writer), w.Reliable → w.written = [] →
      (sendAll w items).1 = .ok () ∧
      ∀ s : Stream, s.bytes = (sendAll w items).2.written →
        (∃ s' : Stream, s'.bytes = [] ∧
          loop codec table (fun _ => false) (fun _ => true) items.length s =
            (items.map Item.event, .running, s')) ∧
        ((∀ item ∈ items, item.event.isClose = false) →
          ∀ active : Nat → Bool, (∀ n < items.length, active n = true) →
          ∀ fuel, items.length < fuel →
          ∃ s' : Stream, s'.bytes = [] ∧
            handleBusEvent codec table active fuel s =
              (items.map Item.event, .failed (.commandLength s.fin), s'))) ∧
    (∀ (c : Command) {t : MessageType} (m : Message codec t) (w w' : Writer), w.Reliable →
      w'.Reliable → w.written = w'.written →
      (sendCommandAndMessage codec w c.text m.val).2.written =
        (sendMessage codec (sendCommand w' c.text).2 m.val).2.written) ∧
    (∀ (c : Command) (json rest : List UInt8) (s : Stream), (table c.text).carries = true →
      json.length < 4294967296 →
      s.bytes = commandBytes c.text ++ messageBytes json ++ rest →
      (turn codec table true s).1 = .ok (heard codec c.text json (table c.text)) ∧
      (turn codec table true s).2.bytes = rest) := by
  refine ⟨fun items w hw hnew => ?_, fun c t m w w' hw hw' hsame => ?_,
    fun c json rest s hx hshort hs => ?_⟩
  · have hsent := sendAll_sent hw items
    refine ⟨hsent.ok, fun s hs => ?_⟩
    have hbytes : s.bytes = encodeAll items ++ [] := by
      rw [hs, hsent.written, hnew, List.nil_append, List.append_nil]
    refine ⟨?_, fun hopen active hactive fuel hfuel => ?_⟩
    · obtain ⟨s', hnil, -, hloop⟩ :=
        loop_items (fun _ => false) items (fun _ _ => rfl : ∀ n < _, (fun _ : Nat => true) n = true)
          (fun _ _ => rfl) hbytes
      refine ⟨s', hnil, ?_⟩
      have hall := hloop 0
      simp only [Nat.add_zero, loop, List.append_nil] at hall
      exact hall
    · obtain ⟨s', hnil, hfin, hloop⟩ := loop_items Event.isClose items hactive hopen hbytes
      obtain ⟨more, rfl⟩ : ∃ more, fuel = items.length + (more + 1) :=
        ⟨fuel - items.length - 1, by omega⟩
      obtain ⟨herr, hend⟩ := turn_end codec table (active items.length) hnil
      generalize hturn : turn codec table (active items.length) s' = out at herr hend
      obtain ⟨event, last⟩ := out
      subst herr
      refine ⟨last, hend, ?_⟩
      rw [handleBusEvent, hloop, loop, Nat.zero_add, hturn, hfin, List.append_nil]
  · exact sendCommandAndMessage_split c m hw hw' hsame
  · obtain ⟨hevent, hrest, -⟩ := turn_pair codec table c hx hshort hs
    exact ⟨hevent, hrest⟩

namespace Tagged

/-- JSON stands for itself behind a byte that names the type. -/
def tagged : Codec where
  Val _ := List UInt8
  marshal {t} v := some (UInt8.ofNat t.ctorIdx :: v)
  unmarshal t json :=
    match json with
    | [] => none
    | b :: v => if b = UInt8.ofNat t.ctorIdx then some v else none
  roundTrip v json h := by
    cases h
    simp

def command (text : String) (h : asciiBytes text ≠ [] ∧ (asciiBytes text).length ≤ 255 := by decide) :
    Command :=
  ⟨asciiBytes text, h.1, h.2⟩

def message (t : MessageType) (v : List UInt8) (h : v.length < 4294967295 := by decide) :
    Message tagged t :=
  ⟨v, UInt8.ofNat t.ctorIdx :: v, rfl, Nat.succ_lt_succ h⟩

/-- A resize, a command of a newer client, an exit with the wrong message, a
detach and a heartbeat. -/
def sent : List (Item tagged serverTable) :=
  [.message (command "resize") (message .resize [80, 24]) (by decide),
    .unknown (command "view") (message .quit [1]) (by decide),
    .garbled (command "exit") .exit (message .alive [7]) (by decide) (by decide),
    .nothing (command "detach") (by decide),
    .message (command "alive") (message .alive [9]) (by decide)]

/-- A writer whose calls take one, two, three bytes and so on. -/
def writer : Writer := { takes := id }

/-- The bytes come one by one. -/
def stream (bytes : List UInt8) : Stream := { pieces := bytes.map fun b => ⟨[b], by simp⟩ }

theorem bytes_stream (bytes : List UInt8) : (stream bytes).bytes = bytes := by
  induction bytes with
  | nil => rfl
  | cons b bytes ih => exact congrArg (b :: ·) ih

/-- The server hands out the five and reaches the end of the stream. -/
theorem bus_in_step_server :
    ∃ s' : Stream, s'.bytes = [] ∧
      handleBusEvent tagged serverTable (fun _ => true) 6 (stream (sendAll writer sent).2.written) =
        (sent.map Item.event, .failed (.commandLength .eof), s') := by
  have hopen : ∀ item ∈ sent, item.event.isClose = false := by
    simp [sent, Item.event, Event.isClose]
  obtain ⟨hitems, -, -⟩ := bus_in_step tagged serverTable
  obtain ⟨-, hstream⟩ := hitems sent writer (fun _ => rfl) rfl
  exact (hstream _ (bytes_stream _)).2 hopen _ (fun _ _ => rfl) 6 (by decide)

end Tagged

end Tsshd.Bus

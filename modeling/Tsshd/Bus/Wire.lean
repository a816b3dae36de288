import Tsshd.Core.Bytes

/-!
# The bus: wire format

Client and server talk over the bus in commands, some of which carry a message
(proto.go). A command is one byte of length and the text; a message is four
bytes of length, most significant first, and its JSON.

* **writing** — `writeAll` calls `Write` until everything is taken. The two
  encoders, `sendCommand` followed by `sendMessage` and `sendCommandAndMessage`,
  fill their buffers by offsets;
* **reading** — `recvCommand` and `recvMessage` take from the stream what the
  lengths say;
* **JSON** — a `Codec` stands for the encoder of the Go library: what it assumes
  is that decoding undoes encoding.
-/

namespace Tsshd.Bus

/-! ## Messages -/

/-- The types of the messages. -/
inductive MessageType
  | exit
  | resize
  | alive
  | settings
  | rekey
  | quit
  | debug
  | error
  | channel
  | discard
  | detachAck
  /-- `struct{}`, into which the message of an unknown command is decoded. -/
  | empty
deriving DecidableEq, Repr

/-- `json.Marshal` and `json.Unmarshal`. -/
structure Codec where
  Val : MessageType → Type
  marshal : {t : MessageType} → Val t → Option (List UInt8)
  unmarshal : (t : MessageType) → List UInt8 → Option (Val t)
  roundTrip : ∀ {t : MessageType} (v : Val t) (json : List UInt8),
    marshal v = some json → unmarshal t json = some v

/-! ## Writing -/

inductive SendError
  | empty
  | tooLong (command : List UInt8)
  | marshal
  | write (e : IoError)
deriving DecidableEq, Repr

/-- The buffer of `sendCommand`. -/
def commandBuffer (command : List UInt8) : List UInt8 :=
  let buffer := makeBytes (command.length + 1)
  let buffer := buffer.set 0 (UInt8.ofNat command.length)
  copyAt buffer 1 command

/-- The buffer of `sendMessage`. -/
def messageBuffer (msgBuf : List UInt8) : List UInt8 :=
  let buffer := makeBytes (msgBuf.length + 4)
  let buffer := copyAt buffer 0 (putBE 4 (msgBuf.length % 4294967296))
  copyAt buffer 4 msgBuf

/-- The buffer of `sendCommandAndMessage`. -/
def commandAndMessageBuffer (command msgBuf : List UInt8) : List UInt8 :=
  let totalLen := 1 + command.length + 4 + msgBuf.length
  let buffer := makeBytes totalLen
  let buffer := buffer.set 0 (UInt8.ofNat command.length)
  let buffer := copyAt buffer 1 command
  let buffer := copyAt buffer (1 + command.length) (putBE 4 (msgBuf.length % 4294967296))
  copyAt buffer (1 + command.length + 4) msgBuf

def send (w : Writer) (buffer : List UInt8) : Except SendError Unit × Writer :=
  match w.writeAll buffer with
  | (.error e, w') => (.error (.write e), w')
  | (.ok (), w') => (.ok (), w')

def sendCommand (w : Writer) (command : List UInt8) : Except SendError Unit × Writer :=
  if command.length = 0 then (.error .empty, w)
  else if 255 < command.length then (.error (.tooLong command), w)
  else send w (commandBuffer command)

def sendMessage (codec : Codec) (w : Writer) {t : MessageType} (msg : codec.Val t) :
    Except SendError Unit × Writer :=
  match codec.marshal msg with
  | none => (.error .marshal, w)
  | some msgBuf => send w (messageBuffer msgBuf)

def sendCommandAndMessage (codec : Codec) (w : Writer) (command : List UInt8) {t : MessageType}
    (msg : codec.Val t) : Except SendError Unit × Writer :=
  if command.length = 0 then (.error .empty, w)
  else if 255 < command.length then (.error (.tooLong command), w)
  else
    match codec.marshal msg with
    | none => (.error .marshal, w)
    | some msgBuf => send w (commandAndMessageBuffer command msgBuf)

/-! ## Reading -/

inductive RecvError
  | commandLength (e : IoError)
  | commandBuffer (e : IoError)
  | messageLength (e : IoError)
  | messageBuffer (e : IoError)
  | unmarshal
deriving DecidableEq, Repr

/-- The length byte is read with a single `Read`. -/
def recvCommand (s : Stream) : Except RecvError (List UInt8) × Stream :=
  match s.read 1 with
  | (_, some e, s') => (.error (.commandLength e), s')
  | (length, none, s') =>
    match s'.readFull (length.headD (UInt8.ofNat 0)).toNat with
    | (.error e, s'') => (.error (.commandBuffer e), s'')
    | (.ok command, s'') => (.ok command, s'')

def recvMessage (codec : Codec) (t : MessageType) (s : Stream) :
    Except RecvError (codec.Val t) × Stream :=
  match s.readFull 4 with
  | (.error e, s') => (.error (.messageLength e), s')
  | (.ok lenBuf, s') =>
    match s'.readFull (beNat lenBuf) with
    | (.error e, s'') => (.error (.messageBuffer e), s'')
    | (.ok msgBuf, s'') =>
      match codec.unmarshal t msgBuf with
      | none => (.error .unmarshal, s'')
      | some msg => (.ok msg, s'')

/-! ## What is on the wire -/

/-- The bytes of a command. -/
def commandBytes (command : List UInt8) : List UInt8 := UInt8.ofNat command.length :: command

/-- The bytes of a message. -/
def messageBytes (json : List UInt8) : List UInt8 := putBE 4 json.length ++ json

@[simp] theorem length_commandBytes (command : List UInt8) :
    (commandBytes command).length = 1 + command.length :=
  Nat.add_comm _ _

theorem commandBuffer_eq (command : List UInt8) : commandBuffer command = commandBytes command :=
  copyAt_full [UInt8.ofNat command.length] command rfl rfl

theorem putBE_uint32 (n : Nat) : putBE 4 (n % 4294967296) = putBE 4 n := putBE_mod 4 n

theorem messageBuffer_eq (json : List UInt8) : messageBuffer json = messageBytes json := by
  have htotal : (putBE 4 json.length).length + json.length = json.length + 4 := by
    rw [length_putBE, Nat.add_comm]
  have hlen := copyAt_makeBytes [] (putBE 4 json.length) json.length rfl htotal
  simp only [List.nil_append, List.length_nil] at hlen
  rw [messageBuffer, putBE_uint32, hlen]
  exact copyAt_full _ json (length_putBE _ _) rfl

/-- **One format.** Both encoders put the same bytes on the wire. -/
theorem commandAndMessageBuffer_eq (command json : List UInt8) :
    commandAndMessageBuffer command json = commandBytes command ++ messageBytes json := by
  have hset : (makeBytes (1 + command.length + 4 + json.length)).set 0
      (UInt8.ofNat command.length) =
      [UInt8.ofNat command.length] ++ makeBytes (command.length + (4 + json.length)) := by
    rw [show 1 + command.length + 4 + json.length = command.length + (4 + json.length) + 1 by omega]
    rfl
  have hcommand : copyAt ([UInt8.ofNat command.length] ++
      makeBytes (command.length + (4 + json.length))) 1 command =
      commandBytes command ++ makeBytes (4 + json.length) :=
    copyAt_makeBytes [UInt8.ofNat command.length] command (4 + json.length) rfl rfl
  have hlen : copyAt (commandBytes command ++ makeBytes (4 + json.length)) (1 + command.length)
      (putBE 4 json.length) = commandBytes command ++ putBE 4 json.length ++ makeBytes json.length :=
    copyAt_makeBytes _ _ json.length (length_commandBytes _) (by rw [length_putBE])
  simp only [commandAndMessageBuffer, putBE_uint32, hset, hcommand, hlen]
  rw [copyAt_full _ json (by rw [List.length_append, length_commandBytes, length_putBE]) rfl,
    List.append_assoc, messageBytes]

/-! ## Sending -/

/-- `result` reports success and has put `data` on the wire. -/
structure Sent (w : Writer) (data : List UInt8) (result : Except SendError Unit × Writer) :
    Prop where
  ok : result.1 = .ok ()
  written : result.2.written = w.written ++ data
  reliable : result.2.Reliable

theorem send_sent {w : Writer} (hw : w.Reliable) (data : List UInt8) : Sent w data (send w data) := by
  obtain ⟨hok, hwritten, hrel⟩ := w.writeAll_reliable hw data
  unfold send
  generalize w.writeAll data = r at hok hwritten hrel ⊢
  obtain ⟨res, w'⟩ := r
  subst hok
  exact ⟨rfl, hwritten, hrel⟩

/-- A command that can be sent. -/
structure Command where
  text : List UInt8
  nonempty : text ≠ []
  short : text.length ≤ 255

/-- A message that can be sent, with its JSON. -/
structure Message (codec : Codec) (t : MessageType) where
  val : codec.Val t
  json : List UInt8
  marshals : codec.marshal val = some json
  short : json.length < 4294967296

theorem Command.length_pos (c : Command) : c.text.length ≠ 0 :=
  fun h => c.nonempty (List.length_eq_zero_iff.mp h)

variable {codec : Codec} {w : Writer} {t : MessageType}

theorem sendCommand_sent (hw : w.Reliable) (c : Command) :
    Sent w (commandBytes c.text) (sendCommand w c.text) := by
  rw [sendCommand, if_neg c.length_pos, if_neg (Nat.not_lt.mpr c.short), commandBuffer_eq]
  exact send_sent hw _

theorem sendMessage_sent (hw : w.Reliable) (m : Message codec t) :
    Sent w (messageBytes m.json) (sendMessage codec w m.val) := by
  rw [sendMessage, m.marshals, ← messageBuffer_eq]
  exact send_sent hw _

theorem sendCommandAndMessage_sent (hw : w.Reliable) (c : Command) (m : Message codec t) :
    Sent w (commandBytes c.text ++ messageBytes m.json)
      (sendCommandAndMessage codec w c.text m.val) := by
  rw [sendCommandAndMessage, if_neg c.length_pos, if_neg (Nat.not_lt.mpr c.short), m.marshals,
    ← commandAndMessageBuffer_eq]
  exact send_sent hw _

/-! ## Receiving -/

theorem recvCommand_ok {s : Stream} {rest : List UInt8} (c : Command)
    (hs : s.bytes = commandBytes c.text ++ rest) :
    (recvCommand s).1 = .ok c.text ∧ (recvCommand s).2.bytes = rest ∧
    (recvCommand s).2.fin = s.fin := by
  have hread := s.read_reads 1
  unfold recvCommand
  generalize s.read 1 = r at hread ⊢
  obtain ⟨length, err, s'⟩ := r
  have hsplit : commandBytes c.text ++ rest = length ++ s'.bytes := hs ▸ hread.split
  cases err with
  | some e =>
    -- an error comes with the last byte at the earliest, and the text is still to come
    have hnil : s'.bytes = [] := (hread.ended e rfl).2
    have hbound : length.length ≤ 1 := hread.bound
    have hlen := congrArg List.length hsplit
    rw [hnil, List.append_nil, List.length_append, length_commandBytes] at hlen
    have := c.length_pos
    omega
  | none =>
    have hbound : length.length ≤ 1 := hread.bound
    match length, hread.goesOn rfl Nat.one_pos, hbound with
    | [b], _, _ =>
      obtain ⟨rfl, hbytes⟩ : UInt8.ofNat c.text.length = b ∧ c.text ++ rest = s'.bytes := by
        simpa [commandBytes] using hsplit
      have htoNat : (UInt8.ofNat c.text.length).toNat = c.text.length :=
        UInt8.toNat_ofNat_of_lt' (Nat.lt_succ_of_le c.short)
      have hfull := s'.readFull_ok c.text.length (by simp [← hbytes])
      simp only [List.headD_cons, htoNat]
      rw [← hbytes, List.take_left, List.drop_left] at hfull
      generalize s'.readFull c.text.length = r at hfull ⊢
      obtain ⟨res, s''⟩ := r
      obtain ⟨hok, hrest, hfin⟩ := hfull
      subst hok
      exact ⟨rfl, hrest, hfin.trans hread.fin⟩

/-- What `recvMessage` makes of a message that has arrived. -/
def decoded (codec : Codec) (t : MessageType) (json : List UInt8) :
    Except RecvError (codec.Val t) :=
  match codec.unmarshal t json with
  | none => .error .unmarshal
  | some msg => .ok msg

/-- The message is taken off the stream whether or not its JSON decodes. -/
theorem recvMessage_ok (codec : Codec) (t : MessageType) {s : Stream} {json rest : List UInt8}
    (hshort : json.length < 4294967296)
    (hs : s.bytes = messageBytes json ++ rest) :
    (recvMessage codec t s).1 = decoded codec t json ∧
    (recvMessage codec t s).2.bytes = rest ∧ (recvMessage codec t s).2.fin = s.fin := by
  have hlenBuf := s.readFull_ok 4 (by simp [hs, messageBytes])
  rw [hs, messageBytes, List.append_assoc, List.take_left' (length_putBE _ _),
    List.drop_left' (length_putBE _ _)] at hlenBuf
  unfold recvMessage
  generalize s.readFull 4 = r at hlenBuf ⊢
  obtain ⟨res, s'⟩ := r
  obtain ⟨hok, hbytes, hfin⟩ := hlenBuf
  subst hok
  have hlen : beNat (putBE 4 json.length) = json.length := by
    rw [beNat_putBE]
    exact Nat.mod_eq_of_lt hshort
  have hmsgBuf := s'.readFull_ok json.length (by simp [hbytes])
  rw [show s'.bytes = json ++ rest from hbytes, List.take_left, List.drop_left] at hmsgBuf
  simp only [hlen]
  generalize s'.readFull json.length = r at hmsgBuf ⊢
  obtain ⟨res, s''⟩ := r
  obtain ⟨hok, hrest, hfin'⟩ := hmsgBuf
  subst hok
  dsimp only [decoded] at hrest hfin' ⊢
  cases codec.unmarshal t json with
  | none => exact ⟨rfl, hrest, hfin'.trans hfin⟩
  | some msg => exact ⟨rfl, hrest, hfin'.trans hfin⟩

end Tsshd.Bus

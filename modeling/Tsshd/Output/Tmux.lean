import Tsshd.Output.Forwarder

/-!
# Output in tmux control mode

In control mode tmux reads its input line by line, so what the forwarder adds to
the output of a pane has to arrive as one notification of that pane.

* **prefix** — `extractTmuxOutputPrefix` cuts the pane out of a cached
  notification; whatever the lines hold, what it returns is the head of a
  notification (`extractTmuxOutputPrefix_taken`, `TakenFrom.bytes`);
* **body** — `encodeTmuxOutput` writes bytes in printable ASCII
  (`encodeTmuxByte_printable`), and tmux reads back what was written
  (`decodeTmuxOutput_flatMap`).
-/

namespace Tsshd.Output

theorem map_byte_plain (bytes : List UInt8) : (plain bytes).map Cell.byte = bytes := by
  rw [plain, List.map_map]
  exact List.map_id bytes

/-! ## The prefix -/

/-- `pane` is what the code cuts out of `line`: the pane and the blank behind it. -/
def TakenFrom (line pane : Text) : Prop :=
  tmuxPaneIdx line ≠ 0 ∧ 1 < pane.length ∧
    ∃ rest, cutAfter Cell.isSpace (line.drop (tmuxPaneIdx line)) = some (pane, rest)

/-- A prefix that is not empty was cut out of one of the lines. -/
theorem extractTmuxOutputPrefix_taken {maxPending count : Nat} {lines : List Text}
    (h : extractTmuxOutputPrefix maxPending count lines ≠ []) :
    ∃ line ∈ lines, ∃ pane, TakenFrom line pane ∧
      extractTmuxOutputPrefix maxPending count lines = plain (ascii "%output ") ++ pane := by
  have later {line : Text} {rest : List Text} {found : Text}
      (hfound : ∃ line' ∈ rest, ∃ pane, TakenFrom line' pane ∧
        found = plain (ascii "%output ") ++ pane) :
      ∃ line' ∈ line :: rest, ∃ pane, TakenFrom line' pane ∧
        found = plain (ascii "%output ") ++ pane := by
    obtain ⟨line', hline', hpane⟩ := hfound
    exact ⟨line', List.mem_cons_of_mem line hline', hpane⟩
  revert h
  fun_induction extractTmuxOutputPrefix maxPending count lines with
  | case1 count => exact fun h => absurd rfl h
  | case2 count line rest hidx ih => exact fun h => later (ih h)
  | case3 count line rest hidx hearly ih => exact fun h => later (ih h)
  | case4 count line rest hidx hdue pane tail hcut hpane =>
    exact fun _ => ⟨line, List.mem_cons_self, pane, ⟨hidx, hpane, tail, hcut⟩, rfl⟩
  | case5 count line rest hidx hdue pane tail hcut hpane ih => exact fun h => later (ih h)
  | case6 count line rest hidx hdue hcut ih => exact fun h => later (ih h)

theorem TakenFrom.sublist {line pane : Text} (h : TakenFrom line pane) : pane.Sublist line := by
  obtain ⟨_, _, rest, hcut⟩ := h
  have hdrop : pane.Sublist (line.drop (tmuxPaneIdx line)) := by
    rw [← cutAfter_append hcut]
    exact List.sublist_append_left pane rest
  exact hdrop.trans (List.drop_sublist _ _)

/-- `bytes` begin with an output notification, of either format, for the pane
`%pane`. -/
def PaneOutput (pane bytes : List UInt8) : Prop :=
  ∃ rest, bytes = ascii "%output %" ++ pane ++ 32 :: rest ∨
    bytes = ascii "%extended-output %" ++ pane ++ 32 :: rest

/-- A line that begins with `head` and a `%`, cut in front of the `%`. -/
theorem drop_head {line : Text} {head : List UInt8}
    (h : (head ++ [37]).isPrefixOf (line.map Cell.byte) = true) :
    ∃ rest, line.map Cell.byte = head ++ 37 :: rest ∧
      (line.drop head.length).map Cell.byte = 37 :: rest := by
  obtain ⟨rest, hline⟩ := List.isPrefixOf_iff_prefix.mp h
  rw [List.append_assoc, List.singleton_append] at hline
  refine ⟨rest, hline.symm, ?_⟩
  rw [List.map_drop, ← hline, List.drop_left]

/-- The index is that of the `%` in front of the pane. -/
theorem tmuxPaneIdx_spec {line : Text} (h : tmuxPaneIdx line ≠ 0) :
    ∃ head rest, (head = ascii "%output " ∨ head = ascii "%extended-output ") ∧
      line.map Cell.byte = head ++ 37 :: rest ∧
      (line.drop (tmuxPaneIdx line)).map Cell.byte = 37 :: rest := by
  have houtput : ascii "%output %" = ascii "%output " ++ [37] := by decide
  have hextended : ascii "%extended-output %" = ascii "%extended-output " ++ [37] := by
    decide
  have hlength : (ascii "%output ").length = 8 := by decide
  have hlength' : (ascii "%extended-output ").length = 17 := by decide
  have hidx : tmuxPaneIdx line =
      if (ascii "%output " ++ [37]).isPrefixOf (line.map Cell.byte) then (ascii "%output ").length
      else if (ascii "%extended-output " ++ [37]).isPrefixOf (line.map Cell.byte) then
        (ascii "%extended-output ").length
      else 0 := by
    rw [tmuxPaneIdx, houtput, hextended, hlength, hlength']
  rw [hidx] at h ⊢
  by_cases hstarts : (ascii "%output " ++ [37]).isPrefixOf (line.map Cell.byte) = true
  · obtain ⟨rest, hline, hdrop⟩ := drop_head hstarts
    rw [if_pos hstarts]
    exact ⟨_, rest, Or.inl rfl, hline, hdrop⟩
  · rw [if_neg hstarts] at h ⊢
    by_cases hstarts' : (ascii "%extended-output " ++ [37]).isPrefixOf (line.map Cell.byte) = true
    · obtain ⟨rest, hline, hdrop⟩ := drop_head hstarts'
      rw [if_pos hstarts']
      exact ⟨_, rest, Or.inr rfl, hline, hdrop⟩
    · rw [if_neg hstarts'] at h
      exact absurd rfl h

/-- What is cut out is the pane of a notification and one blank. -/
theorem TakenFrom.bytes {line pane : Text} (h : TakenFrom line pane) :
    ∃ name, pane.map Cell.byte = 37 :: name ++ [32] ∧ 32 ∉ name ∧
      PaneOutput name (line.map Cell.byte) := by
  obtain ⟨hidx, hlong, rest, hcut⟩ := h
  obtain ⟨hsplit, init, blank, hpane, hblank, hinit⟩ := cutAfter_eq_some hcut
  obtain ⟨head, tail, hhead, hline, hdrop⟩ := tmuxPaneIdx_spec hidx
  cases init with
  | nil =>
    rw [hpane] at hlong
    exact absurd hlong (by simp)
  | cons percent init =>
    have hspace : blank.byte = 32 := beq_iff_eq.mp hblank
    rw [hsplit, hpane] at hdrop
    simp only [List.cons_append, List.map_cons, List.map_append, List.map_nil, hspace,
      List.cons.injEq] at hdrop
    obtain ⟨hpercent, rfl⟩ := hdrop
    refine ⟨init.map Cell.byte, by simp [hpane, hpercent, hspace], ?_, rest.map Cell.byte, ?_⟩
    · intro hmem
      obtain ⟨c, hc, hbyte⟩ := List.mem_map.mp hmem
      have hnot := hinit c (List.mem_cons_of_mem percent hc)
      rw [Cell.isSpace, hbyte] at hnot
      cases hnot
    · rw [hline]
      rcases hhead with rfl | rfl
      · exact Or.inl (by simp [ascii])
      · exact Or.inr (by simp [ascii])

/-- A prefix that is not empty is the head of a notification, for the pane of a
cached one. -/
theorem extractTmuxOutputPrefix_bytes {maxPending count : Nat} {lines : List Text}
    (h : extractTmuxOutputPrefix maxPending count lines ≠ []) :
    ∃ pane, (extractTmuxOutputPrefix maxPending count lines).map Cell.byte =
        ascii "%output %" ++ pane ++ [32] ∧
      32 ∉ pane ∧ ∃ line ∈ lines, PaneOutput pane (line.map Cell.byte) := by
  obtain ⟨line, hline, pane, htaken, heq⟩ := extractTmuxOutputPrefix_taken h
  obtain ⟨name, hname, hsolid, houtput⟩ := htaken.bytes
  refine ⟨name, ?_, hsolid, line, hline, houtput⟩
  rw [heq, List.map_append, map_byte_plain, hname]
  simp [ascii]

/-! ## The body -/

/-- A digit of an octal number. -/
def isOctal (b : UInt8) : Bool := 48 ≤ b && b ≤ 55

def octalByte (a b c : UInt8) : UInt8 := (a - 48) * 64 + (b - 48) * 8 + (c - 48)

/-- What tmux makes of the body: a backslash and three octal digits are the byte
with that number. -/
def decodeTmuxOutput : List UInt8 → List UInt8
  | x :: a :: b :: c :: rest =>
    if x = 92 ∧ isOctal a ∧ isOctal b ∧ isOctal c then octalByte a b c :: decodeTmuxOutput rest
    else x :: decodeTmuxOutput (a :: b :: c :: rest)
  | x :: rest => x :: decodeTmuxOutput rest
  | [] => []

/-- The digits of `%03o`, as numbers. -/
theorem toNat_octal (b : UInt8) :
    (48 + b / 64).toNat = 48 + b.toNat / 64 ∧
      (48 + b / 8 % 8).toNat = 48 + b.toNat / 8 % 8 ∧
      (48 + b % 8).toNat = 48 + b.toNat % 8 := by
  have hb := b.toNat_lt
  simp only [UInt8.toNat_add, UInt8.toNat_div, UInt8.toNat_mod, UInt8.reduceToNat]
  omega

theorem encodeTmuxByte_printable {b x : UInt8} (hx : x ∈ encodeTmuxByte b) : 32 ≤ x ∧ x ≤ 126 := by
  have hb := b.toNat_lt
  obtain ⟨hhigh, hmid, hlow⟩ := toNat_octal b
  simp only [UInt8.le_iff_toNat_le, UInt8.reduceToNat]
  unfold encodeTmuxByte at hx
  split at hx
  · simp only [List.mem_cons, List.not_mem_nil, or_false] at hx
    rcases hx with rfl | rfl | rfl | rfl
    · decide
    · omega
    · omega
    · omega
  · rename_i hplain
    rw [List.mem_singleton.mp hx]
    simp only [Bool.or_eq_true, decide_eq_true_eq, not_or, UInt8.lt_iff_toNat_lt,
      UInt8.reduceToNat] at hplain
    omega

theorem isOctal_of_toNat {x : UInt8} (hlow : 48 ≤ x.toNat) (hhigh : x.toNat ≤ 55) :
    isOctal x = true := by
  simp only [isOctal, Bool.and_eq_true, decide_eq_true_eq, UInt8.le_iff_toNat_le, UInt8.reduceToNat]
  exact ⟨hlow, hhigh⟩

theorem octalByte_digits (b : UInt8) : octalByte (48 + b / 64) (48 + b / 8 % 8) (48 + b % 8) = b := by
  have hb := b.toNat_lt
  apply UInt8.toNat_inj.mp
  simp only [octalByte, UInt8.toNat_add, UInt8.toNat_mul, UInt8.toNat_sub, UInt8.toNat_div,
    UInt8.toNat_mod, UInt8.reduceToNat]
  omega

theorem decodeTmuxOutput_cons {x : UInt8} (hx : x ≠ 92) (rest : List UInt8) :
    decodeTmuxOutput (x :: rest) = x :: decodeTmuxOutput rest := by
  match rest with
  | [] | [_] | [_, _] => rfl
  | a :: b :: c :: rest => rw [decodeTmuxOutput, if_neg fun h => hx h.1]

/-- One byte is read back, whatever follows it. -/
theorem decodeTmuxOutput_byte (b : UInt8) (rest : List UInt8) :
    decodeTmuxOutput (encodeTmuxByte b ++ rest) = b :: decodeTmuxOutput rest := by
  have hb := b.toNat_lt
  obtain ⟨hhigh, hmid, hlow⟩ := toNat_octal b
  unfold encodeTmuxByte
  split
  · have hdigits : isOctal (48 + b / 64) = true ∧ isOctal (48 + b / 8 % 8) = true ∧
        isOctal (48 + b % 8) = true :=
      ⟨isOctal_of_toNat (by omega) (by omega), isOctal_of_toNat (by omega) (by omega),
        isOctal_of_toNat (by omega) (by omega)⟩
    simp only [List.cons_append, List.nil_append]
    rw [decodeTmuxOutput, if_pos ⟨rfl, hdigits⟩, octalByte_digits]
  · rename_i hplain
    rw [List.singleton_append, decodeTmuxOutput_cons]
    rintro rfl
    exact hplain (by decide)

theorem decodeTmuxOutput_flatMap (bytes : List UInt8) :
    decodeTmuxOutput (bytes.flatMap encodeTmuxByte) = bytes := by
  induction bytes with
  | nil => rfl
  | cons b bytes ih => rw [List.flatMap_cons, decodeTmuxOutput_byte, ih]

/-! ## The line -/

theorem map_byte_encodeTmuxOutput (panePrefix output : Text) :
    (encodeTmuxOutput panePrefix output).map Cell.byte =
      panePrefix.map Cell.byte ++ (output.map Cell.byte).flatMap encodeTmuxByte ++ [13, 10] := by
  rw [encodeTmuxOutput, List.map_append, List.map_append, map_byte_plain, map_byte_plain]

theorem encodeTmuxOutput_printable (output : Text) :
    ∀ x ∈ (output.map Cell.byte).flatMap encodeTmuxByte, 32 ≤ x ∧ x ≤ 126 := by
  intro x hx
  obtain ⟨b, _, hxb⟩ := List.mem_flatMap.mp hx
  exact encodeTmuxByte_printable hxb

/-- Different outputs are different on the wire. -/
theorem encodeTmuxOutput_injective {panePrefix output output' : Text}
    (h : (encodeTmuxOutput panePrefix output).map Cell.byte =
      (encodeTmuxOutput panePrefix output').map Cell.byte) :
    output.map Cell.byte = output'.map Cell.byte := by
  rw [map_byte_encodeTmuxOutput, map_byte_encodeTmuxOutput] at h
  have hbody := List.append_cancel_left (List.append_cancel_right h)
  have hread := congrArg decodeTmuxOutput hbody
  rwa [decodeTmuxOutput_flatMap, decodeTmuxOutput_flatMap] at hread

/-- **The encoding is one line that tmux can read back**: behind the head of a
notification of a pane that a cached line is about comes printable ASCII, and then
CR LF; the body stands for exactly the output. -/
theorem encodeTmuxOutput_line (maxPending : Nat) (lines : List Text) (output : Text)
    (hfound : extractTmuxOutputPrefix maxPending 0 lines ≠ []) :
    ∃ pane body,
      (extractTmuxOutputPrefix maxPending 0 lines).map Cell.byte =
          ascii "%output %" ++ pane ++ [32] ∧
        32 ∉ pane ∧ (∃ line ∈ lines, PaneOutput pane (line.map Cell.byte)) ∧
        (encodeTmuxOutput (extractTmuxOutputPrefix maxPending 0 lines) output).map Cell.byte =
          (extractTmuxOutputPrefix maxPending 0 lines).map Cell.byte ++ body ++ [13, 10] ∧
        (∀ x ∈ body, 32 ≤ x ∧ x ≤ 126) ∧ decodeTmuxOutput body = output.map Cell.byte ∧
        ∀ output' : Text,
          (encodeTmuxOutput (extractTmuxOutputPrefix maxPending 0 lines) output).map Cell.byte =
              (encodeTmuxOutput (extractTmuxOutputPrefix maxPending 0 lines) output').map Cell.byte →
            output.map Cell.byte = output'.map Cell.byte := by
  obtain ⟨pane, hpane, hsolid, hline⟩ := extractTmuxOutputPrefix_bytes hfound
  exact ⟨pane, (output.map Cell.byte).flatMap encodeTmuxByte, hpane, hsolid, hline,
    map_byte_encodeTmuxOutput _ _, encodeTmuxOutput_printable output, decodeTmuxOutput_flatMap _,
    fun output' => encodeTmuxOutput_injective⟩

/-- The tenth notification names the pane; LF, a backslash and a byte above ASCII
are written in octal. -/
theorem encodeTmuxOutput_line_extended :
    extractTmuxOutputPrefix 1000 0
        (List.replicate 10 (plain (ascii "%extended-output %12 0 : x\r\n"))) =
      plain (ascii "%output %12 ") ∧
    ∃ body, (encodeTmuxOutput (plain (ascii "%output %12 ")) (plain [97, 10, 92, 255])).map
        Cell.byte = ascii "%output %12 " ++ body ++ [13, 10] ∧
      decodeTmuxOutput body = [97, 10, 92, 255] := by
  have hextract : extractTmuxOutputPrefix 1000 0
      (List.replicate 10 (plain (ascii "%extended-output %12 0 : x\r\n"))) =
        plain (ascii "%output %12 ") := by decide
  have hline := encodeTmuxOutput_line 1000
    (List.replicate 10 (plain (ascii "%extended-output %12 0 : x\r\n")))
    (plain [97, 10, 92, 255]) (by rw [hextract]; decide)
  rw [hextract, map_byte_plain, map_byte_plain] at hline
  obtain ⟨_, body, _, _, _, hbytes, _, hdecode, _⟩ := hline
  exact ⟨hextract, body, hbytes, hdecode⟩

/-! ## The warning -/

/-- `text` is the content itself, or one line of tmux control mode that stands for
it. -/
def Announces (text content : Text) : Prop :=
  text = content ∨ ∃ pane body, 32 ∉ pane ∧
    text.map Cell.byte = ascii "%output %" ++ pane ++ [32] ++ body ++ [13, 10] ∧
    (∀ x ∈ body, 32 ≤ x ∧ x ≤ 126) ∧ decodeTmuxOutput body = content.map Cell.byte

/-- The prefix of a forwarder: none, or the head of a notification. -/
def PaneHead (t : Text) : Prop :=
  t = [] ∨ ∃ pane, 32 ∉ pane ∧ t.map Cell.byte = ascii "%output %" ++ pane ++ [32]

theorem paneHead_extract (maxPending count : Nat) (lines : List Text) :
    PaneHead (extractTmuxOutputPrefix maxPending count lines) := by
  by_cases hfound : extractTmuxOutputPrefix maxPending count lines = []
  · exact .inl hfound
  · obtain ⟨pane, hpane, hsolid, _⟩ := extractTmuxOutputPrefix_bytes hfound
    exact .inr ⟨pane, hsolid, hpane⟩

theorem PaneHead.warningLine {panePrefix : Text} (h : PaneHead panePrefix) (newline : Text)
    (lines bytes : Nat) :
    Announces (warningLine panePrefix newline lines bytes) (warningText newline lines bytes) := by
  unfold Output.warningLine
  split
  · exact .inl rfl
  · rename_i hne
    rcases h with rfl | ⟨pane, hsolid, hhead⟩
    · exact absurd rfl hne
    · refine .inr ⟨pane, _, hsolid, ?_, encodeTmuxOutput_printable (warningText newline lines bytes),
        decodeTmuxOutput_flatMap _⟩
      rw [map_byte_encodeTmuxOutput, hhead]

end Tsshd.Output

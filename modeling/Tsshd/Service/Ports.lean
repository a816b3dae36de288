import Tsshd.Core.GoString

/-!
# Port specifications

`parsePortRanges` (service.go) reads the ports that tsshd may listen on. One loop
over the tokens of a segment looks ahead and behind for a `-` of its own, and the
index `k` of the last port that such a range has used keeps `10 - 12 - 15` from
using it twice.

The specification is a list of items (`Item`): a port, a range in one token, or a
range in three. `segLoop_items` follows the loop from item to item; what it needs
of the tokens behind it is that the last one is not a `-` and not used up
(`Behind`).
-/

namespace Tsshd.Service

open GoString

abbrev PortRange := UInt16 × UInt16

/-! ## The code -/

/-- `addPortRange`: the range it adds, if any. -/
def addPortRange (lowPort : GoString) (highPort : Option GoString) : List PortRange :=
  match parseUint16 lowPort with
  | none => []
  | some low =>
    if low = 0 then []
    else
      match highPort with
      | none => [(low.toUInt16, low.toUInt16)]
      | some text =>
        match parseUint16 text with
        | none => []
        | some high =>
          if high = 0 then []
          else if high < low then []
          else [(low.toUInt16, high.toUInt16)]

/-- The loop over the tokens of a segment, from index `i` on. -/
def segLoop (tokens : List GoString) : Nat → Nat → Int → List PortRange → List PortRange
  | 0, _, _, ranges => ranges
  | fuel + 1, i, k, ranges =>
    match tokens[i]? with
    | none => ranges
    | some token =>
      -- combined form like "8000-9000"
      if token.contains (.char '-') && token ≠ str "-" then
        match split token '-' with
        | [low, high] =>
          if low.isEmpty || high.isEmpty then segLoop tokens fuel (i + 1) k ranges
          else segLoop tokens fuel (i + 1) k (ranges ++ addPortRange low (some high))
        | _ => segLoop tokens fuel (i + 1) k ranges
      -- single "-"
      else if token = str "-" then
        if i = 0 || tokens.length ≤ i + 1 || (i : Int) - 1 ≤ k then
          segLoop tokens fuel (i + 2) k ranges
        else
          segLoop tokens fuel (i + 2) (i + 1)
            (ranges ++ addPortRange (tokens.getD (i - 1) []) (some (tokens.getD (i + 1) [])))
      -- part of a range
      else if tokens[i + 1]? = some (str "-") then segLoop tokens fuel (i + 1) k ranges
      -- plain number
      else if 0 < i && tokens[i - 1]? = some (str "-") then
        segLoop tokens fuel (i + 1) k ranges
      else segLoop tokens fuel (i + 1) k (ranges ++ addPortRange token none)

def parseSegment (ranges : List PortRange) (seg : GoString) : List PortRange :=
  segLoop (GoString.fields seg) (GoString.fields seg).length 0 (-1) ranges

def parsePortRanges (tsshdPort : GoString) : List PortRange :=
  (split tsshdPort ',').foldl parseSegment []

/-! ## Only valid ranges -/

/-- A range of ports, from the lower to the higher. -/
def Valid (r : PortRange) : Prop := 1 ≤ r.1.toNat ∧ r.1.toNat ≤ r.2.toNat ∧ r.2.toNat ≤ 65535

theorem toUInt16_toNat {n : Nat} (h : n ≤ 65535) : n.toUInt16.toNat = n := by
  rw [Nat.toUInt16, UInt16.toNat_ofNat', Nat.mod_eq_of_lt (by omega)]

theorem valid_addPortRange (low : GoString) (high : Option GoString) :
    ∀ r ∈ addPortRange low high, Valid r := by
  have hval {s : GoString} {n : Nat} (h : parseUint16 s = some n) : n.toUInt16.toNat = n :=
    toUInt16_toNat (parseUint16_le h)
  unfold addPortRange
  intro r hr
  split at hr
  · cases hr
  rename_i l hl
  split at hr
  · cases hr
  split at hr
  · rw [List.mem_singleton.mp hr]
    have := parseUint16_le hl
    simp only [Valid, hval hl]
    omega
  · split at hr
    · cases hr
    rename_i h hh
    split at hr
    · cases hr
    split at hr
    · cases hr
    · rw [List.mem_singleton.mp hr]
      have := parseUint16_le hh
      simp only [Valid, hval hl, hval hh]
      omega

theorem valid_append {ranges added : List PortRange} (h : ∀ r ∈ ranges, Valid r)
    (hadded : ∀ r ∈ added, Valid r) : ∀ r ∈ ranges ++ added, Valid r := by
  intro r hr
  rcases List.mem_append.mp hr with hr | hr
  · exact h r hr
  · exact hadded r hr

theorem valid_segLoop {tokens : List GoString} {fuel i : Nat} {k : Int}
    {ranges : List PortRange} (h : ∀ r ∈ ranges, Valid r) :
    ∀ r ∈ segLoop tokens fuel i k ranges, Valid r := by
  induction fuel generalizing i k ranges with
  | zero => exact h
  | succ fuel ih =>
    unfold segLoop
    repeat' split
    all_goals first
      | exact h
      | exact ih h
      | exact ih (valid_append h (valid_addPortRange _ _))

theorem valid_parsePortRanges (tsshdPort : GoString) : ∀ r ∈ parsePortRanges tsshdPort, Valid r := by
  have hall (segs : List GoString) {ranges : List PortRange} (h : ∀ r ∈ ranges, Valid r) :
      ∀ r ∈ segs.foldl parseSegment ranges, Valid r := by
    induction segs generalizing ranges with
    | nil => exact h
    | cons seg segs ih => exact ih (valid_segLoop h)
  exact hall _ (by simp)

/-! ## Items -/

/-- A decimal number, of any length. -/
structure Number where
  digits : GoString
  ne_nil : digits ≠ []
  decimal : ∀ r ∈ digits, isDigit r = true

def Number.value (n : Number) : Nat := GoString.decimal n.digits

inductive Item
  /-- `N` -/
  | port (n : Number)
  /-- `A-B` -/
  | joined (a b : Number)
  /-- `A - B` -/
  | spaced (a b : Number)

def Item.tokens : Item → List GoString
  | .port n => [n.digits]
  | .joined a b => [a.digits ++ str "-" ++ b.digits]
  | .spaced a b => [a.digits, str "-", b.digits]

/-- The range from `a` to `b`, if these are ports in order. -/
def rangeOf (a b : Nat) : List (Nat × Nat) :=
  if 1 ≤ a ∧ a ≤ b ∧ b ≤ 65535 then [(a, b)] else []

/-- What an item stands for: nothing if it is invalid. -/
def Item.range : Item → List (Nat × Nat)
  | .port n => rangeOf n.value n.value
  | .joined a b | .spaced a b => rangeOf a.value b.value

/-- A range in numbers. -/
def PortRange.toNat (r : PortRange) : Nat × Nat := (r.1.toNat, r.2.toNat)

theorem Number.parse (n : Number) :
    parseUint16 n.digits = if n.value ≤ 65535 then some n.value else none :=
  parseUint16_decimal n.ne_nil n.decimal

/-- `addPortRange` adds the range of two numbers. -/
theorem addPortRange_numbers (a b : Number) :
    (addPortRange a.digits (some b.digits)).map PortRange.toNat = rangeOf a.value b.value := by
  simp only [addPortRange, rangeOf, a.parse, b.parse]
  by_cases ha : a.value ≤ 65535
  · by_cases hb : b.value ≤ 65535
    · simp only [if_pos ha, if_pos hb]
      -- what is left is what the code checks
      repeat' split
      all_goals first
        | omega
        | simp [PortRange.toNat, toUInt16_toNat ha, toUInt16_toNat hb]
    · have hnot : ¬ (1 ≤ a.value ∧ a.value ≤ b.value ∧ b.value ≤ 65535) := by omega
      simp only [if_pos ha, if_neg hb, if_neg hnot]
      split <;> rfl
  · have hnot : ¬ (1 ≤ a.value ∧ a.value ≤ b.value ∧ b.value ≤ 65535) := by omega
    simp only [if_neg ha, if_neg hnot]
    rfl

theorem addPortRange_number (n : Number) :
    (addPortRange n.digits none).map PortRange.toNat = rangeOf n.value n.value := by
  simp only [addPortRange, rangeOf, n.parse]
  by_cases hn : n.value ≤ 65535
  · simp only [if_pos hn]
    repeat' split
    all_goals first | omega | simp [PortRange.toNat, toUInt16_toNat hn]
  · have hnot : ¬ (1 ≤ n.value ∧ n.value ≤ n.value ∧ n.value ≤ 65535) := by omega
    simp only [if_neg hn, if_neg hnot]
    rfl

/-! ## From item to item -/

/-- The `-` between two numbers. -/
theorem dash_not_digit {n : Number} : .char '-' ∉ n.digits := by
  intro h
  exact isDigit_ne (n.decimal _ h) (by decide) rfl

theorem Number.ne_dash (n : Number) : n.digits ≠ str "-" := by
  intro h
  have hmem : .char '-' ∈ n.digits := by
    rw [h]
    decide
  exact dash_not_digit hmem

theorem joined_ne_dash (a b : Number) : a.digits ++ str "-" ++ b.digits ≠ str "-" := by
  intro h
  have hlen := congrArg List.length h
  have ha := List.length_pos_iff.mpr a.ne_nil
  have hdash : (str "-").length = 1 := by decide
  simp only [List.length_append, hdash] at hlen
  omega

theorem split_joined (a b : Number) :
    split (a.digits ++ str "-" ++ b.digits) '-' = [a.digits, b.digits] := by
  have hnone : ∀ l ∈ [a.digits, b.digits], Rune.char '-' ∉ l := by
    simp only [List.mem_cons, List.not_mem_nil, or_false, forall_eq_or_imp, forall_eq]
    exact ⟨dash_not_digit, dash_not_digit⟩
  have hsplit := List.splitOn_intercalate (Rune.char '-') hnone (by simp)
  simpa [split, str, List.intercalate] using hsplit

/-- The first token of an item is no `-`. -/
theorem Item.head_ne_dash (item : Item) (rest : List GoString) :
    (item.tokens ++ rest)[0]? ≠ some (str "-") := by
  cases item with
  | port n => simpa [Item.tokens] using n.ne_dash
  | joined a b => simpa [Item.tokens] using joined_ne_dash a b
  | spaced a b => simpa [Item.tokens] using a.ne_dash

theorem items_head_ne_dash (items : List Item) : (items.flatMap Item.tokens)[0]? ≠ some (str "-") := by
  cases items with
  | nil => simp
  | cons item items =>
    rw [List.flatMap_cons]
    exact item.head_ne_dash _

/-- What the loop has behind it when it comes to an item: no `-` that would claim
the next token, and no token that is used up. -/
structure Behind (front : List GoString) (k : Int) : Prop where
  last : front.getLast? ≠ some (str "-")
  used : k < front.length

section Loop

variable {front rest : List GoString} {k : Int} {fuel : Nat} {ranges : List PortRange}

theorem getElem?_front (i : Nat) : (front ++ rest)[front.length + i]? = rest[i]? := by
  rw [List.getElem?_append_right (Nat.le_add_right _ _), Nat.add_sub_cancel_left]

/-- The token behind is not a `-`. -/
theorem Behind.not_dash (h : Behind front k) :
    (0 < front.length && (front ++ rest)[front.length - 1]? = some (str "-") : Bool) = false := by
  rw [Bool.and_eq_false_iff, decide_eq_false_iff_not, decide_eq_false_iff_not]
  by_cases hpos : 0 < front.length
  · refine .inr ?_
    rw [List.getElem?_append_left (by omega), ← List.getLast?_eq_getElem?]
    exact h.last
  · exact .inl hpos

theorem segLoop_port (n : Number) (h : Behind front k) (hrest : rest[0]? ≠ some (str "-")) :
    segLoop (front ++ n.digits :: rest) (fuel + 1) front.length k ranges =
      segLoop (front ++ n.digits :: rest) fuel (front.length + 1) k
        (ranges ++ addPortRange n.digits none) := by
  have hthis : (front ++ n.digits :: rest)[front.length]? = some n.digits := getElem?_front 0
  have hnext : (front ++ n.digits :: rest)[front.length + 1]? = rest[0]? := getElem?_front 1
  have hcontains : n.digits.contains (.char '-') = false := by simpa using dash_not_digit
  rw [segLoop, hthis]
  simp only [hcontains, Bool.false_and, Bool.false_eq_true, if_false, n.ne_dash, hnext, hrest,
    h.not_dash]

theorem segLoop_joined (a b : Number) :
    segLoop (front ++ (a.digits ++ str "-" ++ b.digits) :: rest) (fuel + 1) front.length k ranges =
      segLoop (front ++ (a.digits ++ str "-" ++ b.digits) :: rest) fuel (front.length + 1) k
        (ranges ++ addPortRange a.digits (some b.digits)) := by
  have hthis : (front ++ (a.digits ++ str "-" ++ b.digits) :: rest)[front.length]? =
      some (a.digits ++ str "-" ++ b.digits) := getElem?_front 0
  have hcontains : (a.digits ++ str "-" ++ b.digits).contains (.char '-') = true := by
    simp [str]
  have ha : a.digits.isEmpty = false := List.isEmpty_eq_false_iff.mpr a.ne_nil
  have hb : b.digits.isEmpty = false := List.isEmpty_eq_false_iff.mpr b.ne_nil
  rw [segLoop, hthis]
  simp only [hcontains, joined_ne_dash a b, ne_eq, not_false_eq_true, decide_true, Bool.and_self,
    if_true, split_joined, ha, hb, Bool.or_self, Bool.false_eq_true, if_false]

/-- Two rounds: the first passes the lower port over, the second takes both. -/
theorem segLoop_spaced (a b : Number) (h : Behind front k) :
    segLoop (front ++ a.digits :: str "-" :: b.digits :: rest) (fuel + 2) front.length k ranges =
      segLoop (front ++ a.digits :: str "-" :: b.digits :: rest) fuel (front.length + 3)
        (front.length + 2) (ranges ++ addPortRange a.digits (some b.digits)) := by
  have hlow : (front ++ a.digits :: str "-" :: b.digits :: rest)[front.length]? = some a.digits :=
    getElem?_front 0
  have hdash : (front ++ a.digits :: str "-" :: b.digits :: rest)[front.length + 1]? =
      some (str "-") := getElem?_front 1
  have hhigh : (front ++ a.digits :: str "-" :: b.digits :: rest)[front.length + 2]? =
      some b.digits := getElem?_front 2
  have hcontains : a.digits.contains (.char '-') = false := by simpa using dash_not_digit
  have hinside : ¬ (front ++ a.digits :: str "-" :: b.digits :: rest).length ≤ front.length + 2 := by
    simp only [List.length_append, List.length_cons]
    omega
  have hunused : ¬ ((front.length + 1 : Nat) : Int) - 1 ≤ k := by
    have := h.used
    omega
  have hindex : ((front.length + 1 : Nat) : Int) + 1 = front.length + 2 := by omega
  rw [segLoop, hlow]
  simp only [hcontains, Bool.false_and, Bool.false_eq_true, if_false, a.ne_dash, hdash, if_true]
  rw [segLoop, hdash]
  simp only [ne_eq, not_true_eq_false, decide_false, Bool.and_false, Bool.false_eq_true, if_false,
    if_true, Nat.add_one_ne_zero, hinside, hunused, Bool.or_self, Nat.add_sub_cancel,
    List.getD_eq_getElem?_getD, hlow, hhigh, Option.getD_some, hindex]

theorem Behind.push {token : GoString} (h : Behind front k) (htoken : token ≠ str "-") :
    Behind (front ++ [token]) k := by
  refine ⟨?_, ?_⟩
  · rw [List.getLast?_concat]
    exact fun heq => htoken (Option.some.inj heq)
  · have := h.used
    rw [List.length_append, List.length_singleton]
    omega

/-- The loop takes one item and stands behind it. -/
theorem segLoop_item (item : Item) (h : Behind front k) (hrest : rest[0]? ≠ some (str "-"))
    (hfuel : item.tokens.length ≤ fuel) :
    ∃ fuel' k' added, segLoop (front ++ (item.tokens ++ rest)) fuel front.length k ranges =
        segLoop (front ++ item.tokens ++ rest) fuel' (front ++ item.tokens).length k'
          (ranges ++ added) ∧
      fuel ≤ fuel' + item.tokens.length ∧ Behind (front ++ item.tokens) k' ∧
      added.map PortRange.toNat = item.range := by
  rw [← List.append_assoc]
  cases item with
  | port n =>
    obtain ⟨fuel, rfl⟩ := Nat.exists_eq_add_of_le' hfuel
    refine ⟨fuel, k, addPortRange n.digits none, ?_, Nat.le_refl _, h.push n.ne_dash,
      addPortRange_number n⟩
    rw [List.length_append]
    show segLoop (front ++ [n.digits] ++ rest) _ _ _ _ = segLoop (front ++ [n.digits] ++ rest) _ _ _ _
    rw [← List.append_cons]
    exact segLoop_port n h hrest
  | joined a b =>
    obtain ⟨fuel, rfl⟩ := Nat.exists_eq_add_of_le' hfuel
    refine ⟨fuel, k, addPortRange a.digits (some b.digits), ?_, Nat.le_refl _,
      h.push (joined_ne_dash a b), addPortRange_numbers a b⟩
    rw [List.length_append]
    show segLoop (front ++ [a.digits ++ str "-" ++ b.digits] ++ rest) _ _ _ _ =
      segLoop (front ++ [a.digits ++ str "-" ++ b.digits] ++ rest) _ _ _ _
    rw [← List.append_cons]
    exact segLoop_joined a b
  | spaced a b =>
    obtain ⟨fuel, rfl⟩ := Nat.exists_eq_add_of_le' (Nat.le_of_succ_le hfuel)
    refine ⟨fuel, front.length + 2, addPortRange a.digits (some b.digits), ?_, ?_, ?_,
      addPortRange_numbers a b⟩
    · have htokens : front ++ (Item.spaced a b).tokens ++ rest =
          front ++ a.digits :: str "-" :: b.digits :: rest := by
        simp [Item.tokens]
      rw [htokens, List.length_append]
      exact segLoop_spaced a b h
    · exact Nat.add_le_add_left (Nat.le_succ 2) fuel
    · refine ⟨?_, ?_⟩
      · rw [List.getLast?_append]
        exact fun heq => b.ne_dash (Option.some.inj heq)
      · rw [List.length_append]
        exact Int.lt_succ _

/-- **The loop, item by item.** -/
theorem segLoop_items (items : List Item) (h : Behind front k)
    (hfuel : (items.flatMap Item.tokens).length ≤ fuel) :
    (segLoop (front ++ items.flatMap Item.tokens) fuel front.length k ranges).map PortRange.toNat =
      ranges.map PortRange.toNat ++ items.flatMap Item.range := by
  induction items generalizing front k fuel ranges with
  | nil =>
    have hend : (front ++ [].flatMap Item.tokens)[front.length]? = none := by simp
    cases fuel with
    | zero => simp [segLoop]
    | succ fuel =>
      rw [segLoop, hend]
      simp
  | cons item items ih =>
    have hhead := items_head_ne_dash items
    rw [List.flatMap_cons, List.length_append] at hfuel
    have hitem : item.tokens.length ≤ fuel := by omega
    obtain ⟨fuel', k', added, hstep, hless, hbehind, hadded⟩ := segLoop_item item h hhead hitem
    rw [List.flatMap_cons, hstep, ih hbehind (by omega), List.map_append, hadded,
      List.flatMap_cons, List.append_assoc]

end Loop

/-! ## The specification -/

/-- A segment: items apart from each other, with any white space. -/
def Segment (items : List Item) (seg : GoString) : Prop :=
  Spaced Rune.isSpace (items.flatMap Item.tokens) seg

theorem parseSegment_items {items : List Item} {seg : GoString} (h : Segment items seg)
    (ranges : List PortRange) :
    (parseSegment ranges seg).map PortRange.toNat =
      ranges.map PortRange.toNat ++ items.flatMap Item.range := by
  have hfields : GoString.fields seg = items.flatMap Item.tokens := h.fields
  have hstart : Behind [] (-1) := ⟨by simp, by simp⟩
  rw [parseSegment, hfields]
  exact segLoop_items items hstart (Nat.le_refl _)

/-- White space and items have no comma. -/
theorem Segment.no_comma {items : List Item} {seg : GoString} (h : Segment items seg) :
    .char ',' ∉ seg := by
  have hnumber (n : Number) : Rune.char ',' ∉ n.digits := by
    intro hmem
    exact isDigit_ne (n.decimal _ hmem) (by decide) rfl
  have htokens : ∀ token ∈ items.flatMap Item.tokens, Rune.char ',' ∉ token := by
    intro token htoken
    obtain ⟨item, -, hitem⟩ := List.mem_flatMap.mp htoken
    cases item with
    | port n =>
      rw [List.mem_singleton.mp hitem]
      exact hnumber n
    | joined a b =>
      rw [List.mem_singleton.mp hitem]
      simp [hnumber, str]
    | spaced a b =>
      simp only [Item.tokens, List.mem_cons, List.not_mem_nil, or_false] at hitem
      rcases hitem with rfl | rfl | rfl
      · exact hnumber a
      · decide
      · exact hnumber b
  have hall {ws : List GoString} {text : GoString} (hs : Spaced Rune.isSpace ws text)
      (hws : ∀ w ∈ ws, Rune.char ',' ∉ w) : Rune.char ',' ∉ text := by
    induction hs with
    | nil => simp
    | gap hx _ ih =>
      rw [List.mem_cons, not_or]
      refine ⟨?_, ih hws⟩
      rintro rfl
      exact absurd hx (by decide)
    | word _ _ _ _ ih =>
      rw [List.mem_append, not_or]
      exact ⟨hws _ List.mem_cons_self, ih fun w hw => hws w (List.mem_cons_of_mem _ hw)⟩
  exact hall h htokens

theorem parsePortRanges_segments {segments : List (List Item × GoString)}
    (h : ∀ s ∈ segments, Segment s.1 s.2) :
    (parsePortRanges ([.char ','].intercalate (segments.map (·.2)))).map PortRange.toNat =
      (segments.flatMap (·.1)).flatMap Item.range := by
  have hfold (segs : List (List Item × GoString)) (hsegs : ∀ s ∈ segs, Segment s.1 s.2)
      (ranges : List PortRange) :
      ((segs.map (·.2)).foldl parseSegment ranges).map PortRange.toNat =
        ranges.map PortRange.toNat ++ (segs.flatMap (·.1)).flatMap Item.range := by
    induction segs generalizing ranges with
    | nil => simp
    | cons s segs ih =>
      rw [List.map_cons, List.foldl_cons, ih fun s' hs' => hsegs s' (List.mem_cons_of_mem s hs'),
        parseSegment_items (hsegs s List.mem_cons_self), List.flatMap_cons, List.flatMap_append,
        List.append_assoc]
  cases hne : segments with
  | nil => decide
  | cons s segs =>
    have hcommas : ∀ seg ∈ segments.map (·.2), Rune.char ',' ∉ seg := by
      intro seg hseg
      obtain ⟨s, hs, rfl⟩ := List.mem_map.mp hseg
      exact (h s hs).no_comma
    have hsplit := List.splitOn_intercalate (Rune.char ',') hcommas (by simp [hne])
    rw [← hne, parsePortRanges, split, hsplit, hfold segments h, List.map_nil, List.nil_append]

/-- **Port specifications.** Every range that comes out has `1 ≤ low ≤ high ≤ 65535`;
and a comma-separated list of segments of items gives, in order, the ranges of
the items that are valid, whatever the others are. -/
theorem port_ranges :
    (∀ tsshdPort, ∀ r ∈ parsePortRanges tsshdPort,
      1 ≤ r.1.toNat ∧ r.1.toNat ≤ r.2.toNat ∧ r.2.toNat ≤ 65535) ∧
    ∀ segments : List (List Item × GoString), (∀ s ∈ segments, Segment s.1 s.2) →
      (parsePortRanges ([.char ','].intercalate (segments.map (·.2)))).map PortRange.toNat =
        (segments.flatMap (·.1)).flatMap Item.range :=
  ⟨valid_parsePortRanges, fun _ => parsePortRanges_segments⟩

/-- Valid and invalid items next to each other, in two segments. -/
theorem port_ranges_mixed :
    ∃ segments : List (List Item × GoString), (∀ s ∈ segments, Segment s.1 s.2) ∧
      [.char ','].intercalate (segments.map (·.2)) = str "1-3 0 5 ,7 - 9\t9 - 7 70000 11" ∧
      (parsePortRanges (str "1-3 0 5 ,7 - 9\t9 - 7 70000 11")).map PortRange.toNat =
        (segments.flatMap (·.1)).flatMap Item.range ∧
      (segments.flatMap (·.1)).flatMap Item.range = [(1, 3), (5, 5), (7, 9), (11, 11)] := by
  let number (s : String) (h : str s ≠ [] ∧ ∀ r ∈ str s, isDigit r = true) : Number :=
    ⟨str s, h.1, h.2⟩
  let first : List Item :=
    [.joined (number "1" (by decide)) (number "3" (by decide)), .port (number "0" (by decide)),
      .port (number "5" (by decide))]
  let second : List Item :=
    [.spaced (number "7" (by decide)) (number "9" (by decide)),
      .spaced (number "9" (by decide)) (number "7" (by decide)),
      .port (number "70000" (by decide)), .port (number "11" (by decide))]
  have hsegments : ∀ s ∈ [(first, str "1-3 0 5 "), (second, str "7 - 9\t9 - 7 70000 11")],
      Segment s.1 s.2 := by
    intro s hs
    simp only [List.mem_cons, List.not_mem_nil, or_false] at hs
    rcases hs with rfl | rfl
    · exact spaced_iff.mpr (by decide)
    · exact spaced_iff.mpr (by decide)
  have htext : [.char ','].intercalate
      ([(first, str "1-3 0 5 "), (second, str "7 - 9\t9 - 7 70000 11")].map (·.2)) =
      str "1-3 0 5 ,7 - 9\t9 - 7 70000 11" := by decide
  refine ⟨_, hsegments, htext, ?_, by decide⟩
  rw [← htext]
  exact port_ranges.2 _ hsegments

end Tsshd.Service

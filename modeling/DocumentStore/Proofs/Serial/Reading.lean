import DocumentStore.Proofs.Serial.Formats
import DocumentStore.Proofs.Serial.Scalars

/-!
# Reading what was written

The text of a JSON value is read back as the value, up to the depth that texts may have.  Of a double it is
only used that its own text is read back as the double: not every double is, since the digits of a long
number are cut and its scale is rounded.
-/

namespace DocumentStore

namespace Json

/-! ## Blanks in front -/

theorem skipBlanks_cons {c : Char} (h : isBlank c = false) (cs : List Char) :
    skipBlanks (c :: cs) = c :: cs := by
  rw [skipBlanks, List.dropWhile_cons_of_neg (by simp [h])]

theorem skipBlanks_skipBlanks (cs : List Char) : skipBlanks (skipBlanks cs) = skipBlanks cs := by
  induction cs with
  | nil => rfl
  | cons c cs ih =>
    by_cases hc : isBlank c = true
    · have hskip : skipBlanks (c :: cs) = skipBlanks cs := List.dropWhile_cons_of_pos hc
      rw [hskip, ih]
    · rw [skipBlanks_cons (by simpa using hc), skipBlanks_cons (by simpa using hc)]

theorem skipBlanks_append {cs rest : List Char} (h : skipBlanks cs ≠ []) :
    skipBlanks (cs ++ rest) = skipBlanks cs ++ rest := by
  rw [skipBlanks, List.dropWhile_append, if_neg (by simpa [skipBlanks] using h)]
  rfl

-- the readers call each other: they are unfolded together, ahead of the lemmas about one of them
mutual

theorem readValue_skipBlanks (fuel depth : Nat) (cs : List Char) :
    readValue fuel depth (skipBlanks cs) = readValue fuel depth cs := by
  cases fuel with
  | zero => rfl
  | succ fuel => rw [readValue.eq_2, skipBlanks_skipBlanks, readValue.eq_2]

theorem readItems_skipBlanks (fuel depth : Nat) (cs : List Char) :
    readItems fuel depth (skipBlanks cs) = readItems fuel depth cs := by
  cases fuel with
  | zero => rfl
  | succ fuel => rw [readItems.eq_2, readValue_skipBlanks, readItems.eq_2]

theorem readFields_skipBlanks (fuel depth : Nat) (cs : List Char) :
    readFields fuel depth (skipBlanks cs) = readFields fuel depth cs := by
  cases fuel with
  | zero => rfl
  | succ fuel => rw [readFields.eq_2, skipBlanks_skipBlanks, readFields.eq_2]

end

/-! ## Numbers among other values -/

theorem isBlank_of_isDigit {c : Char} (h : c.isDigit = true) : isBlank c = false := by
  have hne : c ≠ ' ' ∧ c ≠ '\n' ∧ c ≠ '\r' ∧ c ≠ '\t' := by
    refine ⟨?_, ?_, ?_, ?_⟩ <;> (rintro rfl; cases h)
  simp [isBlank, hne]

/-- A number without its sign begins with a digit. -/
theorem exists_digit_of_readNumber {negative : Bool} {cs : List Char} {read : Json × List Char}
    (h : readNumber negative cs = some read) : ∃ c tail, cs = c :: tail ∧ c.isDigit = true := by
  rw [readNumber_eq] at h
  cases cs with
  | nil => cases h
  | cons c tail =>
    by_cases hc : c.isDigit = true
    · exact ⟨c, tail, rfl, hc⟩
    · rw [if_pos (by simp [spanDigits, hc])] at h
      cases h

theorem readValue_of_digit {c : Char} (h : c.isDigit = true) (fuel depth : Nat) {cs tail : List Char}
    (hcs : skipBlanks cs = c :: tail) :
    readValue (fuel + 1) depth cs = readNumber false (c :: tail) := by
  rw [readValue.eq_2, hcs]
  split
  case h_8 => rfl
  all_goals
    rename_i heq
    obtain rfl := List.head_eq_of_cons_eq heq
    cases h

theorem readValue_of_minus (fuel depth : Nat) {cs tail : List Char}
    (hcs : skipBlanks cs = '-' :: tail) :
    readValue (fuel + 1) depth cs = readNumber true tail := by
  rw [readValue.eq_2, hcs]
  rfl

/-- A number is read behind its sign. -/
theorem readValue_number {negative : Bool} {cs tail : List Char} {j : Json} {behind : List Char}
    (fuel depth : Nat) (hcs : skipBlanks cs = if negative then '-' :: tail else tail)
    (h : readNumber negative tail = some (j, behind)) :
    readValue (fuel + 1) depth cs = some (j, behind) := by
  cases negative with
  | true => rw [readValue_of_minus fuel depth hcs, h]
  | false =>
    obtain ⟨c, tail, rfl, hc⟩ := exists_digit_of_readNumber h
    rw [readValue_of_digit hc fuel depth hcs, h]

/-- Where a double is read, there is a number behind its sign. -/
theorem readNumber_of_readValue {fuel depth : Nat} {cs behind : List Char} {x : Double}
    (h : readValue fuel depth cs = some (.double x, behind)) :
    ∃ negative tail, skipBlanks cs = (if negative then '-' :: tail else tail) ∧
      readNumber negative tail = some (.double x, behind) := by
  cases fuel with
  | zero => cases h
  | succ fuel =>
    rw [readValue.eq_2] at h
    split at h
    case h_1 | h_2 | h_3 => cases h
    case h_4 =>
      obtain ⟨_, _, h⟩ := Option.bind_eq_some_iff.1 h
      cases h
    case h_5 | h_6 =>
      split at h
      · cases h
      · split at h
        · cases h
        · obtain ⟨_, _, h⟩ := Option.bind_eq_some_iff.1 h
          cases h
    case h_7 tail heq => exact ⟨true, tail, heq, h⟩
    case h_8 => exact ⟨false, _, rfl, h⟩

/-! ## Values in front of more text -/

/-- A value is read at the start of a text, and the rest of the text is left, perhaps behind blanks. -/
def Reads (fuel depth : Nat) (cs : List Char) (j : Json) (rest : List Char) : Prop :=
  ∃ behind, readValue fuel depth cs = some (j, behind) ∧ skipBlanks behind = rest

variable {fuel depth : Nat} {rest : List Char}

/-- A number that is all of a text is read at the start of a longer one. -/
theorem reads_number {negative : Bool} {cs tail behind : List Char} {j : Json}
    (hcs : skipBlanks cs = if negative then '-' :: tail else tail)
    (h : readNumber negative tail = some (j, behind)) (hbehind : skipBlanks behind = [])
    (hfuel : 0 < fuel) (hrest : Delimited rest) : Reads fuel depth (cs ++ rest) j rest := by
  obtain ⟨fuel, rfl⟩ := Nat.exists_eq_add_one.2 hfuel
  have hne : skipBlanks cs ≠ [] := by
    obtain ⟨c, tail', rfl, -⟩ := exists_digit_of_readNumber h
    cases negative <;> simp [hcs]
  have hstart : skipBlanks (cs ++ rest) =
      if negative then '-' :: (tail ++ rest) else tail ++ rest := by
    rw [skipBlanks_append hne, hcs]
    cases negative <;> rfl
  refine ⟨behind ++ rest, readValue_number fuel depth hstart (readNumber_append hrest h), ?_⟩
  rw [skipBlanks, List.dropWhile_append, if_pos (by simpa [skipBlanks] using hbehind)]
  exact skipBlanks_of_delimited hrest

theorem toList_toString_int (n : Int) : (toString n).toList =
    if n < 0 then '-' :: Nat.toDigits 10 n.natAbs else Nat.toDigits 10 n.natAbs := by
  show n.repr.toList = _
  rw [Int.repr_eq_if]
  by_cases hn : n < 0
  · rw [if_neg (by omega), if_pos hn, String.toList_append, Nat.repr_eq_ofList_toDigits,
      show (-n).toNat = n.natAbs by omega, String.toList_ofList, String.toList_ofList]
    rfl
  · rw [if_pos (by omega), if_neg hn, Nat.repr_eq_ofList_toDigits, String.toList_ofList,
      show n.toNat = n.natAbs by omega]

theorem reads_integer {n : Int} (hlow : Int64.minValue.toInt ≤ n) (hhigh : n < UInt64.size)
    (hfuel : 0 < fuel) (hrest : Delimited rest) :
    Reads fuel depth ((toString n).toList ++ rest) (.integer n) rest := by
  have hread : readNumber (decide (n < 0)) (Nat.toDigits 10 n.natAbs) = some (.integer n, []) := by
    by_cases hn : n < 0
    · rw [decide_eq_true hn, readNumber_toDigits (by rw [if_pos rfl]; omega), if_pos rfl,
        show -(n.natAbs : Int) = n by omega]
    · rw [decide_eq_false hn, readNumber_toDigits (by rw [if_neg (by decide)]; omega),
        if_neg (by decide), show (n.natAbs : Int) = n by omega]
  refine reads_number ?_ hread rfl hfuel hrest
  obtain ⟨c, tail, hdigits, hc⟩ := exists_digit_of_readNumber hread
  rw [toList_toString_int, hdigits]
  by_cases hn : n < 0
  · rw [if_pos hn, decide_eq_true hn]
    exact skipBlanks_cons rfl _
  · rw [if_neg hn, decide_eq_false hn]
    exact skipBlanks_cons (isBlank_of_isDigit hc) _

/-- A text spells a value if it is read as the value, and nothing is left. -/
theorem parse?_eq_some_iff {s : String} {j : Json} :
    parse? s = some j ↔ Reads (s.length + 1) 128 s.toList j [] := by
  constructor
  · intro h
    obtain ⟨⟨j', behind⟩, hread, hend⟩ := Option.bind_eq_some_iff.1 h
    change (if (skipBlanks behind).isEmpty then some j' else none) = some j at hend
    by_cases hempty : (skipBlanks behind).isEmpty = true
    · rw [if_pos hempty] at hend
      cases hend
      exact ⟨behind, hread, List.isEmpty_iff.1 hempty⟩
    · rw [if_neg hempty] at hend
      cases hend
  · rintro ⟨behind, hread, hend⟩
    rw [parse?, hread]
    show (if (skipBlanks behind).isEmpty then some j else none) = some j
    rw [hend]
    rfl

/-- A text that is read as a double is read as the double in front of more text. -/
theorem reads_double {s : String} {x : Double} (h : parse? s = some (.double x)) (hfuel : 0 < fuel)
    (hrest : Delimited rest) : Reads fuel depth (s.toList ++ rest) (.double x) rest := by
  obtain ⟨behind, hread, hbehind⟩ := parse?_eq_some_iff.1 h
  obtain ⟨negative, tail, hcs, hnumber⟩ := readNumber_of_readValue hread
  exact reads_number hcs hnumber hbehind hfuel hrest

theorem reads_string (s : String) (hfuel : 0 < fuel) (hrest : Delimited rest) :
    Reads fuel depth ((quoted s).toList ++ rest) (.string s) rest := by
  obtain ⟨fuel, rfl⟩ := Nat.exists_eq_add_one.2 hfuel
  refine ⟨rest, ?_, skipBlanks_of_delimited hrest⟩
  rw [toList_quoted, List.cons_append, List.append_assoc, readValue.eq_2]
  show Option.bind (readString _) _ = _
  rw [List.singleton_append, readString_escaped]
  show some (Json.string (String.ofList s.toList), rest) = _
  rw [String.ofList_toList]

/-! ## Arrays and objects -/

/-- No value begins with a closing bracket. -/
theorem skipBlanks_ne_bracket {cs tail behind : List Char} {items : List Json}
    (h : readItems fuel depth cs = some (items, behind)) : skipBlanks cs ≠ ']' :: tail := by
  intro hcs
  rw [← readItems_skipBlanks, hcs] at h
  obtain _ | _ | fuel := fuel
  · cases h
  · cases h
  · cases h

theorem reads_array {cs : List Char} {items : List Json} (hdepth : 1 < depth)
    (h : readItems fuel (depth - 1) cs = some (items, rest)) (hrest : Delimited rest) :
    Reads (fuel + 1) depth ('[' :: cs) (.array items) rest := by
  refine ⟨rest, ?_, skipBlanks_of_delimited hrest⟩
  rw [readValue.eq_2]
  show (if depth ≤ 1 then none else _) = _
  rw [if_neg (by omega)]
  split
  · rename_i hcs
    exact absurd hcs (skipBlanks_ne_bracket h)
  · rw [readItems_skipBlanks, h]
    rfl

/-- No field begins with a closing brace. -/
theorem skipBlanks_ne_brace {cs tail behind : List Char} {fields : List (String × Json)}
    (h : readFields fuel depth cs = some (fields, behind)) : skipBlanks cs ≠ '\x7d' :: tail := by
  intro hcs
  rw [← readFields_skipBlanks, hcs] at h
  obtain _ | fuel := fuel
  · cases h
  · cases h

theorem reads_object {cs : List Char} {fields : List (String × Json)} (hdepth : 1 < depth)
    (h : readFields fuel (depth - 1) cs = some (fields, rest)) (hrest : Delimited rest) :
    Reads (fuel + 1) depth ('\x7b' :: cs) (.object fields) rest := by
  refine ⟨rest, ?_, skipBlanks_of_delimited hrest⟩
  rw [readValue.eq_2]
  show (if depth ≤ 1 then none else _) = _
  rw [if_neg (by omega)]
  split
  · rename_i hcs
    exact absurd hcs (skipBlanks_ne_brace h)
  · rw [readFields_skipBlanks, h]
    rfl

theorem readItems_last {cs : List Char} {j : Json} (h : Reads fuel depth cs j (']' :: rest)) :
    readItems (fuel + 1) depth cs = some ([j], rest) := by
  obtain ⟨behind, hread, hbehind⟩ := h
  rw [readItems.eq_2, hread]
  simp only [Option.bind_eq_bind, Option.bind_some, hbehind]
  rfl

theorem readItems_cons {cs cs' : List Char} {j : Json} {items : List Json}
    (h : Reads fuel depth cs j (',' :: cs')) (hitems : readItems fuel depth cs' = some (items, rest)) :
    readItems (fuel + 1) depth cs = some (j :: items, rest) := by
  obtain ⟨behind, hread, hbehind⟩ := h
  rw [readItems.eq_2, hread]
  simp only [Option.bind_eq_bind, Option.bind_some, hbehind, hitems]
  rfl

theorem readFields_last {name : String} {cs : List Char} {j : Json}
    (h : Reads fuel depth cs j ('\x7d' :: rest)) :
    readFields (fuel + 1) depth ((quoted name).toList ++ ':' :: cs) = some ([(name, j)], rest) := by
  obtain ⟨behind, hread, hbehind⟩ := h
  rw [toList_quoted, List.cons_append, List.append_assoc, readFields.eq_2]
  show Option.bind (readString _) _ = _
  rw [List.singleton_append, readString_escaped]
  show Option.bind (readValue fuel depth cs) _ = _
  rw [hread]
  simp only [Option.bind_some, hbehind, String.ofList_toList]
  rfl

theorem readFields_cons {name : String} {cs cs' : List Char} {j : Json}
    {fields : List (String × Json)} (h : Reads fuel depth cs j (',' :: cs'))
    (hfields : readFields fuel depth cs' = some (fields, rest)) :
    readFields (fuel + 1) depth ((quoted name).toList ++ ':' :: cs) =
      some ((name, j) :: fields, rest) := by
  obtain ⟨behind, hread, hbehind⟩ := h
  rw [toList_quoted, List.cons_append, List.append_assoc, readFields.eq_2]
  show Option.bind (readString _) _ = _
  rw [List.singleton_append, readString_escaped]
  show Option.bind (readValue fuel depth cs) _ = _
  rw [hread]
  simp only [Option.bind_some, Option.bind_eq_bind, hbehind, hfields, String.ofList_toList]
  rfl

/-! ## The reader and the writer -/

def ReadsBack (x : Double) : Prop := parse? (double x).text = some (double x)

/-- The texts of items or fields stand behind each other with commas in between. -/
theorem toList_intercalate_cons (t u : String) (ts : List String) :
    (",".intercalate (t :: u :: ts)).toList =
      t.toList ++ ',' :: (",".intercalate (u :: ts)).toList := by
  rw [String.intercalate_cons_cons, String.toList_append, String.toList_append, List.append_assoc]
  rfl

theorem toList_text_array (items : List Json) (rest : List Char) :
    (array items).text.toList ++ rest =
      '[' :: ((",".intercalate (itemTexts items)).toList ++ ']' :: rest) := by
  rw [text, String.toList_append, String.toList_append, List.append_assoc, List.append_assoc]
  rfl

theorem toList_text_object (fields : List (String × Json)) (rest : List Char) :
    (object fields).text.toList ++ rest =
      '\x7b' :: ((",".intercalate (fieldTexts fields)).toList ++ '\x7d' :: rest) := by
  rw [text, String.toList_append, String.toList_append, List.append_assoc, List.append_assoc]
  rfl

theorem toList_fieldText (name : String) (j : Json) (rest : List Char) :
    (quoted name ++ ":" ++ j.text).toList ++ rest =
      (quoted name).toList ++ ':' :: (j.text.toList ++ rest) := by
  rw [String.toList_append, String.toList_append, List.append_assoc, List.append_assoc]
  rfl

theorem length_text_array (items : List Json) :
    (array items).text.toList.length = (",".intercalate (itemTexts items)).toList.length + 2 := by
  have h := congrArg List.length (toList_text_array items [])
  rwa [List.append_nil, List.length_cons, List.length_append, List.length_singleton] at h

theorem length_text_object (fields : List (String × Json)) :
    (object fields).text.toList.length = (",".intercalate (fieldTexts fields)).toList.length + 2 := by
  have h := congrArg List.length (toList_text_object fields [])
  rwa [List.append_nil, List.length_cons, List.length_append, List.length_singleton] at h

theorem length_lt_fieldText (name : String) (j : Json) :
    j.text.toList.length < (quoted name ++ ":" ++ j.text).toList.length := by
  have h := congrArg List.length (toList_fieldText name j [])
  rw [List.append_nil, List.append_nil, List.length_append, List.length_cons] at h
  omega

mutual

/-- A text of which every number is read back is read back itself, wherever it stands. The fuel is enough
if there is more than one for each character. -/
theorem reads_text : (j : Json) → (fuel depth : Nat) → (rest : List Char) → j.Portable ReadsBack →
    j.text.toList.length < fuel → j.nesting < depth → Delimited rest →
    Reads fuel depth (j.text.toList ++ rest) j rest
  | null, fuel, _, rest => by
    intro _ hfuel _ hrest
    obtain ⟨fuel, rfl⟩ := Nat.exists_eq_add_one.2 (Nat.zero_lt_of_lt hfuel)
    rw [text]
    exact ⟨rest, rfl, skipBlanks_of_delimited hrest⟩
  | bool b, fuel, _, rest => by
    intro _ hfuel _ hrest
    obtain ⟨fuel, rfl⟩ := Nat.exists_eq_add_one.2 (Nat.zero_lt_of_lt hfuel)
    rw [text]
    cases b <;> exact ⟨rest, rfl, skipBlanks_of_delimited hrest⟩
  | integer n, _, _, _ => by
    intro h hfuel _ hrest
    rw [Portable] at h
    rw [text]
    exact reads_integer h.1 h.2 (Nat.zero_lt_of_lt hfuel) hrest
  | double x, _, _, _ => by
    intro h hfuel _ hrest
    rw [Portable] at h
    exact reads_double h (Nat.zero_lt_of_lt hfuel) hrest
  | string s, _, _, _ => by
    intro _ hfuel _ hrest
    rw [text]
    exact reads_string s (Nat.zero_lt_of_lt hfuel) hrest
  | array [], fuel, depth, rest => by
    intro _ hfuel hdepth hrest
    obtain ⟨fuel, rfl⟩ := Nat.exists_eq_add_one.2 (Nat.zero_lt_of_lt hfuel)
    rw [nesting] at hdepth
    refine ⟨rest, ?_, skipBlanks_of_delimited hrest⟩
    rw [toList_text_array, readValue.eq_2]
    exact if_neg (by omega)
  | array (j :: items), fuel, depth, rest => by
    intro h hfuel hdepth hrest
    rw [Portable] at h
    rw [nesting] at hdepth
    rw [length_text_array] at hfuel
    obtain ⟨fuel, rfl⟩ := Nat.exists_eq_add_one.2 (Nat.zero_lt_of_lt hfuel)
    rw [toList_text_array]
    -- an item is shorter than the text around it and nested one level less
    exact reads_array (by omega) (readItems_texts (j :: items) fuel (depth - 1) rest
      (List.cons_ne_nil _ _) h (by omega) (by omega)) hrest
  | object [], fuel, depth, rest => by
    intro _ hfuel hdepth hrest
    obtain ⟨fuel, rfl⟩ := Nat.exists_eq_add_one.2 (Nat.zero_lt_of_lt hfuel)
    rw [nesting] at hdepth
    refine ⟨rest, ?_, skipBlanks_of_delimited hrest⟩
    rw [toList_text_object, readValue.eq_2]
    exact if_neg (by omega)
  | object (field :: fields), fuel, depth, rest => by
    intro h hfuel hdepth hrest
    rw [Portable] at h
    rw [nesting] at hdepth
    rw [length_text_object] at hfuel
    obtain ⟨fuel, rfl⟩ := Nat.exists_eq_add_one.2 (Nat.zero_lt_of_lt hfuel)
    rw [toList_text_object]
    exact reads_object (by omega) (readFields_texts (field :: fields) fuel (depth - 1) rest
      (List.cons_ne_nil _ _) h (by omega) (by omega)) hrest

theorem readItems_texts : (items : List Json) → (fuel depth : Nat) → (rest : List Char) →
    items ≠ [] → PortableItems ReadsBack items →
    (",".intercalate (itemTexts items)).toList.length + 1 < fuel → itemNesting items < depth →
    readItems fuel depth ((",".intercalate (itemTexts items)).toList ++ ']' :: rest) =
      some (items, rest)
  | [], _, _, _ => fun hne => absurd rfl hne
  | [j], fuel, depth, rest => by
    intro _ h hfuel hdepth
    obtain ⟨fuel, rfl⟩ := Nat.exists_eq_add_one.2 (Nat.zero_lt_of_lt hfuel)
    rw [PortableItems] at h
    rw [itemNesting] at hdepth
    rw [itemTexts, itemTexts, String.intercalate_singleton] at hfuel ⊢
    exact readItems_last (reads_text j fuel depth (']' :: rest) h.1 (by omega) (by omega)
      (.inr (.inl rfl)))
  | j :: k :: items, fuel, depth, rest => by
    intro _ h hfuel hdepth
    obtain ⟨fuel, rfl⟩ := Nat.exists_eq_add_one.2 (Nat.zero_lt_of_lt hfuel)
    rw [PortableItems] at h
    rw [itemNesting] at hdepth
    rw [itemTexts, itemTexts, toList_intercalate_cons, ← itemTexts] at hfuel ⊢
    rw [List.length_append, List.length_cons] at hfuel
    rw [List.append_assoc, List.cons_append]
    exact readItems_cons
      (reads_text j fuel depth _ h.1 (by omega) (by omega) (.inl rfl))
      (readItems_texts (k :: items) fuel depth rest (List.cons_ne_nil _ _) h.2 (by omega) (by omega))

theorem readFields_texts : (fields : List (String × Json)) → (fuel depth : Nat) →
    (rest : List Char) → fields ≠ [] → PortableFields ReadsBack fields →
    (",".intercalate (fieldTexts fields)).toList.length + 1 < fuel → fieldNesting fields < depth →
    readFields fuel depth ((",".intercalate (fieldTexts fields)).toList ++ '\x7d' :: rest) =
      some (fields, rest)
  | [], _, _, _ => fun hne => absurd rfl hne
  | [(name, j)], fuel, depth, rest => by
    intro _ h hfuel hdepth
    obtain ⟨fuel, rfl⟩ := Nat.exists_eq_add_one.2 (Nat.zero_lt_of_lt hfuel)
    rw [PortableFields] at h
    rw [fieldNesting] at hdepth
    rw [fieldTexts, fieldTexts, String.intercalate_singleton] at hfuel ⊢
    have hlt := length_lt_fieldText name j
    rw [toList_fieldText]
    exact readFields_last (reads_text j fuel depth _ h.1 (by omega) (by omega) (.inr (.inr rfl)))
  | (name, j) :: (name', k) :: fields, fuel, depth, rest => by
    intro _ h hfuel hdepth
    obtain ⟨fuel, rfl⟩ := Nat.exists_eq_add_one.2 (Nat.zero_lt_of_lt hfuel)
    rw [PortableFields] at h
    rw [fieldNesting] at hdepth
    rw [fieldTexts, fieldTexts, toList_intercalate_cons, ← fieldTexts] at hfuel ⊢
    rw [List.length_append, List.length_cons] at hfuel
    have hlt := length_lt_fieldText name j
    rw [List.append_assoc, toList_fieldText, List.cons_append]
    exact readFields_cons
      (reads_text j fuel depth _ h.1 (by omega) (by omega) (.inl rfl))
      (readFields_texts ((name', k) :: fields) fuel depth rest (List.cons_ne_nil _ _) h.2
        (by omega) (by omega))

end

/-- What was written is read back. -/
theorem parse?_text {j : Json} (h : j.Portable ReadsBack) (hnesting : j.nesting ≤ 127) :
    parse? j.text = some j := by
  rw [parse?_eq_some_iff]
  have hread := reads_text j (j.text.length + 1) 128 [] h (by rw [String.length_toList]; omega)
    (by omega) trivial
  rwa [List.append_nil] at hread

end Json

theorem JsonFormat.compact_lossless : compact.Lossless Json.ReadsBack 127 :=
  fun _ h hnesting => Json.parse?_text h hnesting

end DocumentStore

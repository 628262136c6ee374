import DocumentStore.Serial.Compact
import Mathlib.Data.List.TakeWhile

/-!
# Reading strings and numbers

Every escape in the text of a string is read as the character that it stands for.  A number is read in front
of a comma, a bracket or a brace as it is read alone, and integers of 64 bits are read back from their
digits.
-/

namespace DocumentStore

namespace Json

/-! ## Strings -/

theorem ofHex?_of_control : ∀ n < 0x20,
    Text.ofHex? ['0', '0', Nat.digitChar (n / 16), Nat.digitChar (n % 16)] = some n := by
  decide

theorem readString_cons {c : Char} (hcontrol : ¬ c.toNat < 0x20) (hquote : c ≠ '"')
    (hslash : c ≠ '\\') (cs : List Char) :
    readString (c :: cs) = (readString cs).map fun read => (c :: read.1, read.2) := by
  rw [readString.eq_4 c cs hquote (fun _ _ _ _ _ h => absurd h hslash)
    (fun _ _ h => absurd h hslash), if_neg (by simp [hcontrol, hslash])]
  cases readString cs <;> rfl

theorem readString_escape {c letter : Char} (h : unescape letter = some c) (cs : List Char) :
    readString ('\\' :: letter :: cs) = (readString cs).map fun read => (c :: read.1, read.2) := by
  have hu : letter ≠ 'u' := by
    rintro rfl
    simp [unescape] at h
  rw [readString.eq_3 letter cs fun _ _ _ _ _ h => absurd h hu, h]
  cases readString cs <;> rfl

theorem readString_control {c : Char} (h : c.toNat < 0x20) (cs : List Char) :
    readString ('\\' :: 'u' :: '0' :: '0' :: Nat.digitChar (c.toNat / 16) ::
      Nat.digitChar (c.toNat % 16) :: cs) =
      (readString cs).map fun read => (c :: read.1, read.2) := by
  rw [readString.eq_2, ofHex?_of_control _ h]
  have hlow : ¬ (decide (0xd800 ≤ c.toNat) && decide (c.toNat < 0xdc00)) = true := by
    simp
    omega
  have hhigh : ¬ (decide (0xdc00 ≤ c.toNat) && decide (c.toNat < 0xe000)) = true := by
    simp
    omega
  show (if _ then _ else _) = _
  rw [if_neg hlow, if_neg hhigh, Char.ofNat_toNat]
  cases readString cs <;> rfl

/-- Every escape is read as the character that it was written for. -/
theorem readString_escapeChar (c : Char) (cs : List Char) :
    readString ((escapeChar c).toList ++ cs) =
      (readString cs).map fun read => (c :: read.1, read.2) := by
  unfold escapeChar
  split
  case h_8 _ hquote hslash _ _ _ _ _ =>
    by_cases hcontrol : c.toNat < 0x20
    · rw [if_pos hcontrol, Text.hexByte]
      have hbyte : (UInt8.ofNat c.toNat).toNat = c.toNat := by
        rw [UInt8.toNat_ofNat']
        omega
      rw [hbyte, String.toList_append, String.toList_ofList, String.toList_ofList]
      exact readString_control hcontrol cs
    · rw [if_neg hcontrol, Char.toString_eq_singleton, String.toList_singleton]
      exact readString_cons hcontrol (fun h => hquote h) (fun h => hslash h) cs
  all_goals exact readString_escape (by rfl) cs

theorem readString_escaped (cs rest : List Char) :
    readString ((String.join (cs.map escapeChar)).toList ++ '"' :: rest) = some (cs, rest) := by
  induction cs with
  | nil => rfl
  | cons c cs ih =>
    rw [String.toList_join] at ih ⊢
    rw [List.map_cons, List.flatMap_cons, List.append_assoc, readString_escapeChar, ih]
    rfl

theorem toList_quoted (s : String) :
    (quoted s).toList = '"' :: ((String.join (s.toList.map escapeChar)).toList ++ ['"']) := by
  rw [quoted, String.toList_append, String.toList_append]
  rfl

/-! ## What may stand behind a value -/

/-- Nothing, or a comma, a bracket or a brace: what no number goes on with. -/
def Delimited : List Char → Prop
  | [] => True
  | c :: _ => c = ',' ∨ c = ']' ∨ c = '\x7d'

theorem skipBlanks_of_delimited {rest : List Char} (h : Delimited rest) : skipBlanks rest = rest := by
  cases rest with
  | nil => rfl
  | cons c rest => rcases h with rfl | rfl | rfl <;> rfl

theorem spanDigits_of_delimited {rest : List Char} (h : Delimited rest) :
    spanDigits rest = ([], rest) := by
  cases rest with
  | nil => rfl
  | cons c rest => rcases h with rfl | rfl | rfl <;> rfl

/-- The digits at the start of a text do not go on behind it. -/
theorem spanDigits_append {rest : List Char} (h : Delimited rest) (cs : List Char) :
    spanDigits (cs ++ rest) = ((spanDigits cs).1, (spanDigits cs).2 ++ rest) := by
  induction cs with
  | nil => exact spanDigits_of_delimited h
  | cons c cs ih =>
    have hcs := Prod.ext_iff.1 ih
    by_cases hc : c.isDigit = true
    · simpa [spanDigits, hc] using hcs
    · simp [spanDigits, hc]

/-- Where digits must stand, what was read from a text is read with more behind it. -/
theorem someDigits_append {α : Type} {f : List Char → α} {a : α} {cs behind rest : List Char}
    (h : Delimited rest)
    (hread : (if (spanDigits cs).1.isEmpty then none
      else some (f (spanDigits cs).1, (spanDigits cs).2)) = some (a, behind)) :
    (if (spanDigits (cs ++ rest)).1.isEmpty then none
      else some (f (spanDigits (cs ++ rest)).1, (spanDigits (cs ++ rest)).2)) =
        some (a, behind ++ rest) := by
  rw [spanDigits_append h]
  by_cases hempty : (spanDigits cs).1.isEmpty = true
  · rw [if_pos hempty] at hread
    cases hread
  · rw [if_neg hempty] at hread ⊢
    cases hread
    rfl

theorem readFraction_of_ne {c : Char} (h : c ≠ '.') (cs : List Char) :
    readFraction (c :: cs) = some (none, c :: cs) := by
  unfold readFraction
  split
  · rename_i heq
    exact absurd (List.head_eq_of_cons_eq heq) h
  · rfl

theorem readFraction_of_delimited {rest : List Char} (h : Delimited rest) :
    readFraction rest = some (none, rest) := by
  cases rest with
  | nil => rfl
  | cons c rest => rcases h with rfl | rfl | rfl <;> rfl

theorem readFraction_append {rest cs behind : List Char} {fraction : Option (List Char)}
    (h : Delimited rest) (hread : readFraction cs = some (fraction, behind)) :
    readFraction (cs ++ rest) = some (fraction, behind ++ rest) := by
  rcases cs with _ | ⟨c, cs⟩
  · cases hread
    exact readFraction_of_delimited h
  · by_cases hc : c = '.'
    · subst hc
      exact someDigits_append h hread
    · rw [readFraction_of_ne hc] at hread
      cases hread
      exact readFraction_of_ne hc _

theorem readExponent_of_ne {c : Char} (he : c ≠ 'e') (hE : c ≠ 'E') (cs : List Char) :
    readExponent (c :: cs) = some (none, c :: cs) := by
  unfold readExponent
  split
  · rename_i heq
    exact absurd (List.head_eq_of_cons_eq heq) he
  · rename_i heq
    exact absurd (List.head_eq_of_cons_eq heq) hE
  · rfl

theorem readExponent_of_delimited {rest : List Char} (h : Delimited rest) :
    readExponent rest = some (none, rest) := by
  cases rest with
  | nil => rfl
  | cons c rest => rcases h with rfl | rfl | rfl <;> rfl

def readExponentDigits (negative : Bool) (cs : List Char) : Option (Option Int × List Char) :=
  let n : Int := Nat.ofDigitChars 10 (spanDigits cs).1 0
  if (spanDigits cs).1.isEmpty then none
  else some (some (if negative then -n else n), (spanDigits cs).2)

theorem readExponentDigits_append {rest cs behind : List Char} {exponent : Option Int}
    {negative : Bool} (h : Delimited rest)
    (hread : readExponentDigits negative cs = some (exponent, behind)) :
    readExponentDigits negative (cs ++ rest) = some (exponent, behind ++ rest) :=
  someDigits_append (f := fun digits =>
    let n : Int := Nat.ofDigitChars 10 digits 0
    some (if negative then -n else n)) h hread

theorem readExponent_cons {c : Char} (h : c = 'e' ∨ c = 'E') (sign : Char) (cs : List Char) :
    readExponent (c :: sign :: cs) =
      if sign = '+' then readExponentDigits false cs
      else if sign = '-' then readExponentDigits true cs
      else readExponentDigits false (sign :: cs) := by
  by_cases hplus : sign = '+'
  · subst hplus
    rcases h with rfl | rfl <;> rfl
  · rw [if_neg hplus]
    by_cases hminus : sign = '-'
    · subst hminus
      rcases h with rfl | rfl <;> rfl
    · rw [if_neg hminus]
      have hne : ∀ tail, sign :: cs ≠ '+' :: tail := fun tail heq =>
        hplus (List.head_eq_of_cons_eq heq)
      have hne' : ∀ tail, sign :: cs ≠ '-' :: tail := fun tail heq =>
        hminus (List.head_eq_of_cons_eq heq)
      rcases h with rfl | rfl
      · exact readExponent.eq_3 _ hne hne'
      · exact readExponent.eq_6 _ hne hne'

theorem readExponent_append {rest cs behind : List Char} {exponent : Option Int}
    (h : Delimited rest) (hread : readExponent cs = some (exponent, behind)) :
    readExponent (cs ++ rest) = some (exponent, behind ++ rest) := by
  rcases cs with _ | ⟨c, cs⟩
  · cases hread
    exact readExponent_of_delimited h
  · by_cases hc : c = 'e' ∨ c = 'E'
    · -- an exponent needs a digit, with or without a sign in front
      rcases cs with _ | ⟨sign, cs⟩
      · rcases hc with rfl | rfl <;> cases hread
      · rw [readExponent_cons hc] at hread
        rw [List.cons_append, List.cons_append, readExponent_cons hc]
        by_cases hplus : sign = '+'
        · rw [if_pos hplus] at hread ⊢
          exact readExponentDigits_append h hread
        · rw [if_neg hplus] at hread ⊢
          by_cases hminus : sign = '-'
          · rw [if_pos hminus] at hread ⊢
            exact readExponentDigits_append h hread
          · rw [if_neg hminus] at hread ⊢
            exact readExponentDigits_append h hread
    · rw [not_or] at hc
      rw [readExponent_of_ne hc.1 hc.2] at hread
      cases hread
      exact readExponent_of_ne hc.1 hc.2 _

def numberOf (negative : Bool) (digits : List Char) (fraction : Option (List Char))
    (exponent : Option Int) : Option Json :=
  let n : Nat := Nat.ofDigitChars 10 digits 0
  let scaled := ((Scaled.mk 0 0).addDigits false digits).addDigits true (fraction.getD [])
  let isInteger := fraction.isNone && exponent.isNone &&
    if negative then n ≠ 0 && Int64.minValue.toInt ≤ -(n : Int) else n < UInt64.size
  if isInteger then some (.integer (if negative then -n else n))
  else
    ({ scaled with exponent := scaled.exponent + exponent.getD 0 } : Scaled).toDouble?.map fun x =>
      .double (if negative then negate x else x)

theorem readNumber_eq (negative : Bool) (cs : List Char) :
    readNumber negative cs =
      if (spanDigits cs).1.isEmpty ||
          (spanDigits cs).1.head? = some '0' && (spanDigits cs).1.length ≠ 1 then none
      else (readFraction (spanDigits cs).2).bind fun fraction =>
        (readExponent fraction.2).bind fun exponent =>
          (numberOf negative (spanDigits cs).1 fraction.1 exponent.1).map fun j => (j, exponent.2) := by
  unfold readNumber
  generalize spanDigits cs = span
  obtain ⟨digits, tail⟩ := span
  by_cases hbad : (digits.isEmpty || digits.head? = some '0' && digits.length ≠ 1) = true
  · rw [if_pos hbad]
    exact if_pos hbad
  · rw [if_neg hbad]
    refine (if_neg hbad).trans ?_
    show Option.bind _ _ = Option.bind _ _
    congr 1
    funext ⟨fraction, tail⟩
    show Option.bind _ _ = Option.bind _ _
    congr 1
    funext ⟨exponent, tail⟩
    show _ = Option.map _ (if _ then _ else _)
    rw [apply_ite (Option.map fun j => (j, tail))]
    refine congrArg (ite _ _) ?_
    cases Scaled.toDouble? _ <;> rfl

/-- A number is read in front of what cannot belong to it as it is read alone. -/
theorem readNumber_append {rest cs behind : List Char} {negative : Bool} {j : Json}
    (h : Delimited rest) (hread : readNumber negative cs = some (j, behind)) :
    readNumber negative (cs ++ rest) = some (j, behind ++ rest) := by
  rw [readNumber_eq] at hread
  rw [readNumber_eq, spanDigits_append h]
  by_cases hbad : ((spanDigits cs).1.isEmpty ||
      (spanDigits cs).1.head? = some '0' && (spanDigits cs).1.length ≠ 1) = true
  · rw [if_pos hbad] at hread
    cases hread
  · rw [if_neg hbad] at hread ⊢
    obtain ⟨⟨fraction, tail⟩, hfraction, hread⟩ := Option.bind_eq_some_iff.1 hread
    obtain ⟨⟨exponent, tail'⟩, hexponent, hread⟩ := Option.bind_eq_some_iff.1 hread
    obtain ⟨read, hnumber, hpair⟩ := Option.map_eq_some_iff.1 hread
    cases hpair
    rw [readFraction_append h hfraction, Option.bind_some, readExponent_append h hexponent,
      Option.bind_some, hnumber]
    rfl

/-! ## Integers -/

theorem head?_toDigits_ne {n : Nat} (h : n ≠ 0) : (Nat.toDigits 10 n).head? ≠ some '0' := by
  induction n using Nat.strongRecOn with
  | ind n ih =>
    by_cases hlt : n < 10
    · rw [Nat.toDigits_of_lt_base hlt]
      have hdigits : ∀ m < 10, m ≠ 0 → [Nat.digitChar m].head? ≠ some '0' := by decide
      exact hdigits n hlt h
    · -- the digits before the last one are those of a smaller number
      have hrest := ih (n / 10) (by omega) (by omega)
      have hne : Nat.toDigits 10 (n / 10) ≠ [] := Nat.toDigits_ne_nil
      obtain ⟨c, cs, hcons⟩ := List.exists_cons_of_ne_nil hne
      rw [Nat.toDigits_of_base_le (by omega) (by omega), hcons]
      rw [hcons] at hrest
      exact hrest

theorem spanDigits_toDigits (n : Nat) : spanDigits (Nat.toDigits 10 n) = (Nat.toDigits 10 n, []) := by
  have hdigit : ∀ c ∈ Nat.toDigits 10 n, c.isDigit = true := fun c =>
    Nat.isDigit_of_mem_toDigits (by decide) (by decide)
  rw [spanDigits, List.takeWhile_eq_self_iff.2 hdigit, List.dropWhile_eq_nil_iff.2 hdigit]

theorem readNumber_toDigits {n : Nat} {negative : Bool}
    (h : if negative then n ≠ 0 ∧ Int64.minValue.toInt ≤ -(n : Int) else n < UInt64.size) :
    readNumber negative (Nat.toDigits 10 n) = some (.integer (if negative then -n else n), []) := by
  have hgood : ¬ ((Nat.toDigits 10 n).isEmpty ||
      (Nat.toDigits 10 n).head? = some '0' && (Nat.toDigits 10 n).length ≠ 1) = true := by
    by_cases hn : n = 0
    · subst hn
      decide
    · simp [head?_toDigits_ne hn, Nat.toDigits_ne_nil]
  rw [readNumber_eq, spanDigits_toDigits, if_neg hgood]
  show Option.map _ (numberOf negative (Nat.toDigits 10 n) none none) = _
  rw [numberOf, Nat.ofDigitChars_ten_toDigits, if_pos]
  · rfl
  · cases negative <;> simpa using h

end Json

end DocumentStore

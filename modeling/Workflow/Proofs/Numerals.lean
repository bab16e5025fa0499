import Mathlib.Algebra.Group.Nat.Defs
import Workflow.Json.Parser
import Workflow.Timestamp
import Workflow.Uuid

/-!
# Numerals are read back

The digits of a number spell the number, in base ten and in base sixteen, also behind zeros that
fill a width. An identifier of 128 bits has thirty-two digits, and its hyphenated text is read back.
-/

namespace Workflow

/-! ### Base ten -/

theorem Timestamp.digitsValue_eq (digits : List Char) :
    digitsValue digits = Nat.ofDigitChars 10 digits 0 := by
  simp only [digitsValue, Nat.ofDigitChars_eq_foldl, Nat.mul_comm]
  rfl

theorem Timestamp.digitsValue_toDigits (n : Nat) : digitsValue (Nat.toDigits 10 n) = n := by
  rw [digitsValue_eq, Nat.ofDigitChars_ten_toDigits]

/-- Zeros in front of a number do not change it. -/
theorem Timestamp.digitsValue_padded (width n : Nat) : digitsValue (padded width n) = n := by
  rw [digitsValue_eq, padded, Nat.ofDigitChars_append, Nat.ofDigitChars_replicate_zero,
    Nat.mul_zero, Nat.ofDigitChars_ten_toDigits]

theorem Timestamp.isDigit_of_mem_padded {width n : Nat} {c : Char} (h : c ∈ padded width n) :
    c.isDigit = true := by
  rcases List.mem_append.mp h with h | h
  · rw [List.eq_of_mem_replicate h]
    rfl
  · exact Nat.isDigit_of_mem_toDigits (by decide) (by decide) h

/-- A number that fits a width has so many digits. -/
theorem Timestamp.length_padded {width n : Nat} (hw : 0 < width) (hn : n < 10 ^ width) :
    (padded width n).length = width := by
  have fits := (Nat.length_toDigits_le_iff (by decide) hw).mpr hn
  rw [padded, List.length_append, List.length_replicate, Nat.sub_add_cancel fits]

theorem Timestamp.padded_ne_nil (width n : Nat) : padded width n ≠ [] :=
  fun h => Nat.toDigits_ne_nil (List.append_eq_nil_iff.mp h).2

/-- The first digit of a positive number is not zero. -/
theorem exists_toDigits (n : Nat) :
    ∃ c rest, Nat.toDigits 10 n = c :: rest ∧ (n ≠ 0 → c ≠ '0') := by
  induction n using Nat.strongRecOn with
  | ind n ih =>
    rw [Nat.toDigits_eq_if (by decide)]
    split
    · next hn =>
      have nonzero : ∀ d < 10, d ≠ 0 → d.digitChar ≠ '0' := by decide
      exact ⟨_, _, rfl, nonzero n hn⟩
    · obtain ⟨c, rest, hd, hc⟩ := ih (n / 10) (by omega)
      exact ⟨c, _, congrArg (· ++ _) hd, fun _ => hc (by omega)⟩

/-! ### Base sixteen -/

namespace Hex

theorem digitValue?_digitChar {d : Nat} (h : d < 16) : digitValue? d.digitChar = some d := by
  revert d
  decide

theorem number?_append (l : List Char) (c : Char) :
    number? (l ++ [c]) = (number? l).bind fun n => (digitValue? c).map (n * 16 + ·) := by
  simp [number?, List.foldlM_append]

/-- The digits of a number spell it. -/
theorem number?_toDigits (n : Nat) : number? (Nat.toDigits 16 n) = some n := by
  induction n using Nat.strongRecOn with
  | ind n ih =>
    rw [Nat.toDigits_eq_if (by decide)]
    split
    · next hn =>
      have digit := number?_append [] n.digitChar
      rw [digitValue?_digitChar hn] at digit
      exact digit.trans (congrArg some (Nat.zero_add n))
    · rw [number?_append, ih (n / 16) (by omega), Option.bind_some,
        digitValue?_digitChar (Nat.mod_lt n (by decide)), Option.map_some, Nat.div_add_mod']

/-- Zeros in front of a number do not change it. -/
theorem number?_padded (width n : Nat) : number? (padded width n) = some n := by
  have zeros (k : Nat) (ds : List Char) : number? (List.replicate k '0' ++ ds) = number? ds := by
    induction k with
    | zero => rfl
    | succ k ih => exact ih
  rw [padded, zeros, number?_toDigits]

theorem length_padded {width n : Nat} (hw : 0 < width) (hn : n < 16 ^ width) :
    (padded width n).length = width := by
  have fits := (Nat.length_toDigits_le_iff (by decide) hw).mpr hn
  rw [padded, List.length_append, List.length_replicate, Nat.sub_add_cancel fits]

/-- The digits of a number are visible ASCII characters. -/
theorem visible_of_mem_toDigits {n : Nat} {c : Char} (h : c ∈ Nat.toDigits 16 n) :
    32 < c.toNat ∧ c.toNat < 127 := by
  have digit {d : Nat} (hd : d < 16) : 32 < d.digitChar.toNat ∧ d.digitChar.toNat < 127 := by
    revert d
    decide
  induction n using Nat.strongRecOn with
  | ind n ih =>
    rw [Nat.toDigits_eq_if (by decide)] at h
    split at h
    · next hn => exact List.mem_singleton.mp h ▸ digit hn
    · rcases List.mem_append.mp h with h | h
      · exact ih (n / 16) (by omega) h
      · exact List.mem_singleton.mp h ▸ digit (Nat.mod_lt n (by decide))

theorem visible_of_mem_padded {width n : Nat} {c : Char} (h : c ∈ padded width n) :
    32 < c.toNat ∧ c.toNat < 127 := by
  rcases List.mem_append.mp h with h | h
  · exact (List.mem_replicate.mp h).2 ▸ by decide
  · exact visible_of_mem_toDigits h

end Hex

/-! ### Identifiers of 128 bits -/

namespace Uuid

theorem ofNat_number (u : Uuid) : ofNat u.number.val = u :=
  congrArg Uuid.mk (Fin.ext (Nat.mod_eq_of_lt u.number.isLt))

theorem length_digits (u : Uuid) : u.digits.length = 32 :=
  Hex.length_padded (by decide) u.number.isLt

theorem ofDigits?_digits (u : Uuid) : ofDigits? u.digits = some u := by
  rw [ofDigits?, if_pos u.length_digits, digits, Hex.number?_padded, Option.map_some, ofNat_number]

/-- Groups of digits in turn are the digits. -/
theorem groups_eq (ds : List Char) : ds.take 8 ++ ((ds.drop 8).take 4 ++ ((ds.drop 12).take 4 ++
    ((ds.drop 16).take 4 ++ ds.drop 20))) = ds := by
  have join (m n : Nat) : (ds.drop m).take n ++ ds.drop (m + n) = ds.drop m := by
    rw [← List.drop_drop, List.take_append_drop]
  rw [join 16 4, join 12 4, join 8 4, List.take_append_drop]

/-- Hyphenated digits are read as the digits. -/
theorem ofHyphenated?_hyphenate {ds : List Char} (h : ds.length = 32) :
    ofHyphenated? (hyphenate ds) = ofDigits? ds := by
  have whole : (hyphenate ds).take 8 ++ ((hyphenate ds).drop 9).take 4 ++
      ((hyphenate ds).drop 14).take 4 ++ ((hyphenate ds).drop 19).take 4 ++
      (hyphenate ds).drop 24 = ds := by
    simp [hyphenate, List.drop_append, List.drop_take, h, groups_eq]
  rw [ofHyphenated?]
  simp only [whole, if_true]

theorem length_hyphenate {ds : List Char} (h : ds.length = 32) : (hyphenate ds).length = 36 := by
  simp [hyphenate, h]

/-- **The text of an identifier is read back.** -/
theorem parse?_print (u : Uuid) : parse? u.print = some u := by
  have length := length_hyphenate u.length_digits
  rw [parse?, print, String.toList_ofList]
  simp only [length]
  rw [ofHyphenated?_hyphenate u.length_digits, ofDigits?_digits]

/-- An identifier is written in visible ASCII characters. -/
theorem visible_of_mem_print {u : Uuid} {c : Char} (h : c ∈ u.print.toList) :
    32 < c.toNat ∧ c.toNat < 127 := by
  have digit {ds : List Char} (hs : ds ⊆ u.digits) (hc : c ∈ ds) : 32 < c.toNat ∧ c.toNat < 127 :=
    Hex.visible_of_mem_padded (hs hc)
  have hyphen (hc : c = '-') : 32 < c.toNat ∧ c.toNat < 127 := hc ▸ by decide
  rw [print, String.toList_ofList, hyphenate] at h
  simp only [List.mem_append, List.mem_cons] at h
  rcases h with (((h | h | h) | h | h) | h | h) | h | h
  all_goals first
    | exact hyphen h
    | exact digit (fun _ hd => List.mem_of_mem_drop (List.mem_of_mem_take hd)) h
    | exact digit (fun _ hd => List.mem_of_mem_take hd) h
    | exact digit (fun _ hd => List.mem_of_mem_drop hd) h

end Uuid

end Workflow

import Mathlib.Data.List.DropRight
import Workflow.Json.Printer
import Workflow.Proofs.Numerals

/-!
# JSON texts are read back

The reader sees the octets of a text. A string is read back character by character, escaped or not,
a number digit by digit, and arrays and objects item by item, with blanks between their parts. A
reader with two steps for each octet, and as many levels as a document has, takes the text of the
document and stops behind it. Both printed forms of a document are read as the document.
-/

namespace Workflow.Json

/-! ### Characters and octets -/

/-- An octet as the character of its number. -/
def octetChar (b : UInt8) : Char :=
  Char.ofNat b.toNat

/-- The octets of a text as characters. -/
def spelled (cs : List Char) : List Char :=
  cs.flatMap fun c => (String.utf8EncodeChar c).map octetChar

theorem spelled_encode (cs : List Char) :
    (Utf8.encode (String.ofList cs)).map octetChar = spelled cs := by
  rw [Utf8.encode, String.toUTF8, String.toByteArray_ofList, List.utf8Encode, List.data_toByteArray,
    spelled, List.map_flatMap]

@[simp]
theorem spelled_append (l r : List Char) : spelled (l ++ r) = spelled l ++ spelled r :=
  List.flatMap_append

theorem toNat_octetChar (b : UInt8) : (octetChar b).toNat = b.toNat := by
  have small := b.toNat_lt
  rw [octetChar, Char.ofNat, dif_pos (.inl (by omega))]
  rfl

theorem ofNat_octetChar (b : UInt8) : UInt8.ofNat (octetChar b).toNat = b := by
  rw [toNat_octetChar, UInt8.ofNat_toNat]

/-- A character of ASCII has one octet. -/
theorem encodeChar_ascii {c : Char} (h : c.toNat < 128) :
    String.utf8EncodeChar c = [UInt8.ofNat c.toNat] :=
  if_pos (Nat.le_of_lt_succ h)

/-- A character beyond ASCII has octets beyond ASCII. -/
theorem le_of_mem_encodeChar {c : Char} (h : ¬ c.toNat < 128) {b : UInt8}
    (hb : b ∈ String.utf8EncodeChar c) : 128 ≤ b.toNat := by
  have beyond : ¬ c.val.toNat ≤ 127 := fun hc => h (Nat.lt_succ_of_le hc)
  rw [String.utf8EncodeChar] at hb
  simp only [beyond, if_false] at hb
  repeat' split at hb
  all_goals
    simp only [List.mem_cons, List.not_mem_nil, or_false] at hb
    rcases hb with rfl | rfl | rfl | rfl
  all_goals
    rw [UInt8.toNat_ofNat']
    omega

/-- A character of ASCII is spelled as it is. -/
theorem spelled_cons {c : Char} (h : c.toNat < 128) (cs : List Char) :
    spelled (c :: cs) = c :: spelled cs := by
  have same : octetChar (UInt8.ofNat c.toNat) = c := by
    rw [octetChar, UInt8.toNat_ofNat', Nat.mod_eq_of_lt (by omega), Char.ofNat_toNat]
  rw [spelled, List.flatMap_cons, encodeChar_ascii h, List.map_singleton, same]
  rfl

theorem spelled_ascii {cs : List Char} (h : ∀ c ∈ cs, c.toNat < 128) : spelled cs = cs := by
  induction cs with
  | nil => rfl
  | cons c cs ih =>
    rw [spelled_cons (h c List.mem_cons_self), ih fun d hd => h d (List.mem_cons_of_mem c hd)]

/-! ### Strings -/

/-- The reader takes some characters before a closing quote for octets. -/
def Quotes (cs : List Char) (octets : Bytes) : Prop :=
  ∀ (fuel : Nat) (rest : List Char), cs.length < fuel →
    readString fuel (cs ++ '"' :: rest) = some (octets, rest)

namespace Quotes

variable {cs : List Char} {octets : Bytes}

theorem nil : Quotes [] [] := by
  intro fuel rest hf
  obtain ⟨fuel, rfl⟩ : ∃ f, fuel = f + 1 := ⟨fuel - 1, (Nat.sub_add_cancel hf).symm⟩
  rfl

/-- An octet that needs no escape stands for itself. -/
theorem plain (h : Quotes cs octets) {b : UInt8} (hc : 32 ≤ b.toNat) (hq : b ≠ 34) (hs : b ≠ 92) :
    Quotes (octetChar b :: cs) (b :: octets) := by
  intro fuel rest hf
  obtain ⟨fuel, rfl⟩ : ∃ f, fuel = f + 1 := ⟨fuel - 1, (Nat.sub_add_cancel (by omega)).symm⟩
  have quote : octetChar b ≠ '"' := fun he => hq (by rw [← ofNat_octetChar b, he]; rfl)
  have slash : octetChar b ≠ '\\' := fun he => hs (by rw [← ofNat_octetChar b, he]; rfl)
  have printable : ¬ (octetChar b).toNat < 32 := by
    rw [toNat_octetChar]
    omega
  rw [List.cons_append, readString, if_neg printable, h fuel rest (Nat.lt_of_succ_lt_succ hf),
    Option.map_some, ofNat_octetChar]
  · exact fun he => quote he
  · exact fun _ he => absurd he slash
  · exact fun _ _ he => absurd he slash
  · exact fun he => absurd he slash

/-- A letter behind a backslash stands for an octet. -/
theorem escape (h : Quotes cs octets) {e : Char} {b : UInt8} (he : shortEscape? e = some b) :
    Quotes ('\\' :: e :: cs) (b :: octets) := by
  intro fuel rest hf
  rw [List.length_cons, List.length_cons] at hf
  obtain ⟨fuel, rfl⟩ : ∃ f, fuel = f + 1 := ⟨fuel - 1, by omega⟩
  have letter : e ≠ 'u' := by
    rintro rfl
    cases he
  rw [List.cons_append, List.cons_append, readString, he]
  · simp only [Option.bind_eq_bind, Option.bind_some, h fuel rest (by omega)]
    rfl
  · exact letter

/-- Four digits spell a control character. -/
theorem readUnicode_padded {n : Nat} (hn : n < 32) (rest : List Char) :
    readUnicode (Hex.padded 4 n ++ rest) = some ([UInt8.ofNat n], rest) := by
  have length : (Hex.padded 4 n).length = 4 := Hex.length_padded (by decide) (by omega)
  have read : readUnit (Hex.padded 4 n ++ rest) = some (n, rest) := by
    have value := Hex.number?_padded 4 n
    match hp : Hex.padded 4 n, length with
    | [a, b, c, d], _ =>
      rw [hp] at value
      simp only [List.cons_append, List.nil_append, readUnit, value, Option.map_some]
  have low : ¬ (0xD800 ≤ n ∧ n < 0xDC00) := by omega
  rw [readUnicode, read]
  simp only [Option.bind_eq_bind, Option.bind_some, if_neg low, unitOctets]
  rw [if_pos (by omega)]
  rfl

/-- Four digits behind a backslash and the letter `u` stand for a control character. -/
theorem control (h : Quotes cs octets) {n : Nat} (hn : n < 32) :
    Quotes ('\\' :: 'u' :: Hex.padded 4 n ++ cs) (UInt8.ofNat n :: octets) := by
  intro fuel rest hf
  rw [List.length_append] at hf
  obtain ⟨fuel, rfl⟩ : ∃ f, fuel = f + 1 := ⟨fuel - 1, by omega⟩
  have code := readUnicode_padded hn (cs ++ '"' :: rest)
  have more := h fuel rest (by rw [List.length_cons] at hf; omega)
  rw [List.cons_append, List.cons_append, List.cons_append, List.cons_append, List.append_assoc,
    readString]
  simp only [Option.bind_eq_bind, code, Option.bind_some, more]
  rfl

/-- Octets beyond ASCII stand for themselves. -/
theorem beyond (h : Quotes cs octets) {bs : Bytes} (hb : ∀ b ∈ bs, 128 ≤ b.toNat) :
    Quotes (bs.map octetChar ++ cs) (bs ++ octets) := by
  induction bs with
  | nil => exact h
  | cons b bs ih =>
    have far := hb b List.mem_cons_self
    refine (ih fun d hd => hb d (List.mem_cons_of_mem b hd)).plain (by omega) ?_ ?_
    all_goals
      rintro rfl
      exact absurd far (by decide)

/-- A character of a text, escaped where it must be, is read as its octets. -/
theorem char (h : Quotes cs octets) (c : Char) :
    Quotes (spelled (escapeChar c) ++ cs) (String.utf8EncodeChar c ++ octets) := by
  have letter {c e : Char} {b : UInt8} (he : shortEscape? e = some b) (hl : e.toNat < 128)
      (hb : String.utf8EncodeChar c = [b]) :
      Quotes (spelled ['\\', e] ++ cs) (String.utf8EncodeChar c ++ octets) := by
    rw [spelled_ascii (by simpa using hl), hb]
    exact h.escape he
  rw [escapeChar]
  split
  · next special =>
    rcases special with rfl | rfl <;> exact letter rfl (by decide) rfl
  split
  · next hc => exact hc ▸ letter rfl (by decide) rfl
  split
  · next hc => exact hc ▸ letter rfl (by decide) rfl
  split
  · next hc => exact hc ▸ letter rfl (by decide) rfl
  split
  · next hc => exact hc ▸ letter rfl (by decide) rfl
  split
  · next hc => exact hc ▸ letter rfl (by decide) rfl
  next special _ _ _ _ _ =>
  split
  · next low =>
    have ascii : ∀ d ∈ '\\' :: 'u' :: Hex.padded 4 c.toNat, d.toNat < 128 := by
      simpa using fun d hd => Nat.lt_succ_of_lt (Hex.visible_of_mem_padded hd).2
    rw [spelled_ascii ascii, encodeChar_ascii (by omega)]
    exact h.control low
  · next printable =>
    have whole : spelled [c] = (String.utf8EncodeChar c).map octetChar := List.append_nil _
    rw [whole]
    by_cases far : c.toNat < 128
    · have value : (UInt8.ofNat c.toNat).toNat = c.toNat := by
        rw [UInt8.toNat_ofNat']
        omega
      have other {d : Char} (hd : c ≠ d) (hn : d.toNat < 256) :
          UInt8.ofNat c.toNat ≠ UInt8.ofNat d.toNat := by
        intro he
        have same := congrArg UInt8.toNat he
        rw [value, UInt8.toNat_ofNat', Nat.mod_eq_of_lt hn] at same
        exact hd (Char.toNat_inj.mp same)
      rw [encodeChar_ascii far]
      exact h.plain (by omega) (other (d := '"') (fun he => special (.inl he)) (by decide))
        (other (d := '\\') (fun he => special (.inr he)) (by decide))
    · exact h.beyond fun b hb => le_of_mem_encodeChar far hb

end Quotes

/-- A printed text is read as its octets. -/
theorem quotes_escaped (s : List Char) :
    Quotes (spelled (s.flatMap escapeChar)) (s.flatMap String.utf8EncodeChar) := by
  induction s with
  | nil => exact .nil
  | cons c s ih =>
    rw [List.flatMap_cons, List.flatMap_cons, spelled_append]
    exact ih.char c

theorem toUTF8_flatMap (s : String) : s.toList.flatMap String.utf8EncodeChar = Utf8.encode s := by
  rw [Utf8.encode, String.toUTF8, ← String.utf8Encode_toList, List.utf8Encode,
    List.data_toByteArray]

theorem spelled_printString (s : String) :
    spelled (printString s) = '"' :: (spelled (s.toList.flatMap escapeChar) ++ ['"']) := by
  rw [printString, List.cons_append, spelled_cons (by decide), spelled_append]
  rfl

theorem length_printString (s : String) : 2 ≤ (spelled (printString s)).length := by
  rw [spelled_printString, List.length_cons, List.length_append, List.length_singleton]
  omega

/-- A printed text is read as its octets, up to its closing quote. -/
theorem readString_printString (s : String) (fuel : Nat)
    (hf : (spelled (printString s)).length ≤ fuel + 1) (rest : List Char) :
    ∃ inner, spelled (printString s) = '"' :: inner ∧
      readString fuel (inner ++ rest) = some (Utf8.encode s, rest) := by
  refine ⟨_, spelled_printString s, ?_⟩
  rw [spelled_printString, List.length_cons, List.length_append, List.length_singleton] at hf
  rw [List.append_assoc, ← toUTF8_flatMap]
  exact quotes_escaped s.toList fuel rest (by omega)

/-! ### Blanks -/

theorem skipBlanks_append {gap : List Char} (h : ∀ c ∈ gap, isBlank c = true) (cs : List Char) :
    skipBlanks (gap ++ cs) = skipBlanks cs :=
  List.dropWhile_append_of_pos h

theorem skipBlanks_skipBlanks (cs : List Char) : skipBlanks (skipBlanks cs) = skipBlanks cs :=
  List.dropWhile_idempotent _ cs

theorem readValue_congr {l r : List Char} (h : skipBlanks l = skipBlanks r) (fuel depth : Nat) :
    readValue fuel depth l = readValue fuel depth r := by
  cases fuel with
  | zero => rfl
  | succ fuel => rw [readValue, readValue, h]

theorem readItems_congr {l r : List Char} (h : skipBlanks l = skipBlanks r) (fuel depth : Nat) :
    readItems fuel depth l = readItems fuel depth r := by
  cases fuel with
  | zero => rfl
  | succ fuel => rw [readItems, readItems, readValue_congr h]

theorem readFields_congr {l r : List Char} (h : skipBlanks l = skipBlanks r) (fuel depth : Nat) :
    readFields fuel depth l = readFields fuel depth r := by
  cases fuel with
  | zero => rfl
  | succ fuel => rw [readFields, readFields, h]

theorem isBlank_ascii {c : Char} (h : isBlank c = true) : c.toNat < 128 := by
  simp only [isBlank, Bool.or_eq_true, beq_iff_eq] at h
  rcases h with ((rfl | rfl) | rfl) | rfl <;> decide

theorem spelled_blanks {gap : List Char} (h : ∀ c ∈ gap, isBlank c = true) : spelled gap = gap :=
  spelled_ascii fun c hc => isBlank_ascii (h c hc)

/-! ### Values -/

/-- What follows a number does not go on with it. -/
def Stops (rest : List Char) : Prop :=
  ∀ c ∈ rest.head?, c.isDigit = false ∧ c ≠ '.' ∧ c ≠ 'e' ∧ c ≠ 'E'

theorem isDigit_range {c : Char} (h : c.isDigit = true) : 48 ≤ c.toNat ∧ c.toNat ≤ 57 := by
  simpa [Char.isDigit, UInt32.le_iff_toNat_le] using h

theorem readDigits_append {ds rest : List Char} (hd : ∀ c ∈ ds, c.isDigit = true) (hn : ds ≠ [])
    (hr : Stops rest) : readDigits (ds ++ rest) = some (ds, rest) := by
  have taken : rest.takeWhile Char.isDigit = [] ∧ rest.dropWhile Char.isDigit = rest := by
    cases rest with
    | nil => exact ⟨rfl, rfl⟩
    | cons c rest =>
      have other := (hr c rfl).1
      exact ⟨List.takeWhile_cons_of_neg (by rw [other]; decide),
        List.dropWhile_cons_of_neg (by rw [other]; decide)⟩
  rw [readDigits, List.takeWhile_append_of_pos hd, List.dropWhile_append_of_pos hd, taken.1,
    taken.2, List.append_nil]
  cases ds with
  | nil => exact absurd rfl hn
  | cons c ds => rfl

/-- The digits of a number are read as its integer part. -/
theorem readWhole_toDigits (n : Nat) {rest : List Char} (hr : Stops rest) :
    readWhole (Nat.toDigits 10 n ++ rest) = some (Nat.toDigits 10 n, rest) := by
  have digits : ∀ c ∈ Nat.toDigits 10 n, c.isDigit = true :=
    fun _ => Nat.isDigit_of_mem_toDigits (by decide) (by decide)
  obtain ⟨c, ds, hd, first⟩ := exists_toDigits n
  rw [readWhole, readDigits_append digits Nat.toDigits_ne_nil hr, Option.bind_eq_bind,
    Option.bind_some]
  dsimp only
  split
  · next zero =>
    by_cases hn : n = 0
    · rw [hn] at zero
      cases zero
    · rw [hd] at zero
      exact absurd (List.cons.inj zero).1 (first hn)
  · rfl

theorem readFraction_stops {rest : List Char} (hr : Stops rest) :
    readFraction rest = some (none, rest) := by
  rw [readFraction]
  rintro behind rfl
  exact (hr '.' rfl).2.1 rfl

theorem readExponent_stops {rest : List Char} (hr : Stops rest) :
    readExponent rest = some (none, rest) := by
  cases rest with
  | nil => rfl
  | cons c rest =>
    obtain ⟨-, -, small, large⟩ := hr c rfl
    exact if_neg (not_or.mpr ⟨small, large⟩)

theorem head_toDigits (n : Nat) {c : Char} {tail rest : List Char}
    (h : Nat.toDigits 10 n ++ rest = c :: tail) : c.isDigit = true := by
  obtain ⟨d, ds, hd, -⟩ := exists_toDigits n
  have digit : d ∈ Nat.toDigits 10 n := by
    rw [hd]
    exact List.mem_cons_self
  rw [hd] at h
  exact (List.cons.inj h).1 ▸ Nat.isDigit_of_mem_toDigits (by decide) (by decide) digit

/-- A natural number that a word holds is read. -/
theorem readNumber_toDigits {n : Nat} (hn : n < wordBound) {rest : List Char} (hr : Stops rest) :
    readNumber (Nat.toDigits 10 n ++ rest) = some (nat n, rest) := by
  have spelt : digitsValue (Nat.toDigits 10 n) = n := Timestamp.digitsValue_toDigits n
  have value : makeNumber? false (Nat.toDigits 10 n) none none = some (.integer n) := by
    simp only [makeNumber?, spelt, Bool.false_eq_true, if_false, Option.isNone_none, Bool.true_and,
      decide_eq_true_eq, if_pos hn]
  rw [readNumber]
  · simp only [Bool.false_eq_true, if_false, Option.bind_eq_bind, readWhole_toDigits n hr,
      Option.bind_some, readFraction_stops hr, readExponent_stops hr, value]
    rfl
  · intro tail sign
    exact absurd (head_toDigits n sign) (by decide)

/-- What starts with a digit is read as a number. -/
theorem readValue_digit {c : Char} (h : c.isDigit = true) (fuel depth : Nat) (rest : List Char) :
    readValue (fuel + 1) depth (c :: rest) = readNumber (c :: rest) := by
  have solid : skipBlanks (c :: rest) = c :: rest := by
    refine List.dropWhile_cons_of_neg fun blank => ?_
    simp only [isBlank, Bool.or_eq_true, beq_iff_eq] at blank
    rcases blank with ((rfl | rfl) | rfl) | rfl <;> exact absurd h (by decide)
  have other {d : Char} {tail : List Char} (hd : d.isDigit = false) : c :: rest ≠ d :: tail := by
    intro he
    rw [(List.cons.inj he).1, hd] at h
    cases h
  rw [readValue, solid]
  split
  · next he => cases he
  · next he => exact absurd he (other rfl)
  · next he => exact absurd he (other rfl)
  · next he => exact absurd he (other rfl)
  · next he => exact absurd he (other rfl)
  · next he => exact absurd he (other rfl)
  · next he => exact absurd he (other rfl)
  · rfl

theorem ofOctets_encode (s : String) : ofOctets (Utf8.encode s) = string s := by
  rw [ofOctets, Utf8.decode?_encode]
  rfl

/-- The reader takes a text for a document of so many levels at most. -/
def Takes (depth : Nat) (text : List Char) (j : Json) : Prop :=
  ∀ (fuel : Nat) (rest : List Char), 2 * (spelled text).length ≤ fuel → Stops rest →
    readValue fuel depth (spelled text ++ rest) = some (j, rest)

/-- The reader takes a text before a closing bracket for items. -/
def TakesItems (depth : Nat) (text : List Char) (js : List Json) : Prop :=
  ∀ (fuel : Nat) (rest : List Char), 2 * (spelled text).length < fuel →
    readItems fuel depth (spelled text ++ ']' :: rest) = some (js, rest)

/-- The reader takes a text before a closing brace for fields. -/
def TakesFields (depth : Nat) (text : List Char) (fields : List (String × Json)) : Prop :=
  ∀ (fuel : Nat) (rest : List Char), 2 * (spelled text).length < fuel →
    readFields fuel depth (spelled text ++ '\x7d' :: rest) =
      some (fields.map fun f => (Utf8.encode f.1, f.2), rest)

namespace Takes

variable {depth : Nat} {text gap : List Char} {j : Json}

/-- Blanks in front of a document are passed over. -/
theorem behind (h : Takes depth text j) (hg : ∀ c ∈ gap, isBlank c = true) :
    Takes depth (gap ++ text) j := by
  intro fuel rest hf hr
  rw [spelled_append, List.length_append] at hf
  rw [spelled_append, spelled_blanks hg, List.append_assoc,
    readValue_congr (skipBlanks_append hg _), h fuel rest (by omega) hr]

theorem null : Takes depth "null".toList .null := by
  intro fuel rest hf _
  obtain ⟨fuel, rfl⟩ : ∃ f, fuel = f + 1 :=
    ⟨fuel - 1, (Nat.sub_add_cancel (Nat.le_trans (by decide) hf)).symm⟩
  rfl

theorem boolean (b : Bool) :
    Takes depth (if b then "true" else "false").toList (.boolean b) := by
  intro fuel rest hf _
  cases b
  all_goals
    obtain ⟨fuel, rfl⟩ : ∃ f, fuel = f + 1 :=
      ⟨fuel - 1, (Nat.sub_add_cancel (Nat.le_trans (by decide) hf)).symm⟩
    rfl

theorem string (s : String) : Takes depth (printString s) (.string s) := by
  intro fuel rest hf _
  have quoted := length_printString s
  obtain ⟨fuel, rfl⟩ : ∃ f, fuel = f + 1 := ⟨fuel - 1, by omega⟩
  obtain ⟨inner, whole, read⟩ := readString_printString s fuel (by omega) rest
  have step : readValue (fuel + 1) depth ('"' :: (inner ++ rest)) =
      (readString fuel (inner ++ rest)).map fun r => (ofOctets r.1, r.2) := rfl
  rw [whole, List.cons_append, step, read, Option.map_some]
  exact congrArg (fun j => some (j, rest)) (ofOctets_encode s)

theorem nat {n : Nat} (hn : n < wordBound) : Takes depth (printNumber (.integer n)) (.nat n) := by
  have digits : printNumber (.integer n) = Nat.toDigits 10 n :=
    (congrArg String.toList Nat.toString_eq_ofList_toDigits).trans String.toList_ofList
  have ascii : ∀ c ∈ Nat.toDigits 10 n, c.toNat < 128 := fun c hc => by
    have := isDigit_range (Nat.isDigit_of_mem_toDigits (by decide) (by decide) hc)
    omega
  intro fuel rest hf hr
  rw [digits, spelled_ascii ascii] at hf ⊢
  obtain ⟨c, ds, hd, -⟩ := exists_toDigits n
  have some_ : 1 ≤ (Nat.toDigits 10 n).length := by
    rw [hd]
    exact Nat.le_add_left 1 _
  obtain ⟨fuel, rfl⟩ : ∃ f, fuel = f + 1 := ⟨fuel - 1, by omega⟩
  have read := readNumber_toDigits hn hr
  rw [hd, List.cons_append] at read ⊢
  rw [readValue_digit (head_toDigits n (congrArg (· ++ rest) hd)), read]

end Takes

theorem stops_of_blanks {gap rest : List Char} (hg : ∀ c ∈ gap, isBlank c = true)
    (hr : Stops rest) : Stops (gap ++ rest) := by
  cases gap with
  | nil => exact hr
  | cons c gap =>
    rintro d hd
    obtain rfl : c = d := Option.some.inj hd
    have blank := hg c List.mem_cons_self
    simp only [isBlank, Bool.or_eq_true, beq_iff_eq] at blank
    rcases blank with ((rfl | rfl) | rfl) | rfl <;> decide

theorem stops_mark {c : Char} (h : c = ',' ∨ c = ']' ∨ c = '\x7d') (rest : List Char) :
    Stops (c :: rest) := by
  rintro d hd
  obtain rfl : c = d := Option.some.inj hd
  rcases h with rfl | rfl | rfl <;> decide

/-- What the reader takes for a value or for fields does not start with a closing mark. -/
theorem readValue_mark {c : Char} (h : c = ']' ∨ c = '\x7d') (fuel depth : Nat)
    (rest : List Char) : readValue fuel depth (c :: rest) = none := by
  cases fuel with
  | zero => rfl
  | succ fuel => rcases h with rfl | rfl <;> rfl

theorem readItems_closed {cs rest : List Char} (h : skipBlanks cs = ']' :: rest)
    (fuel depth : Nat) : readItems fuel depth cs = none := by
  rw [readItems_congr (h.trans (rfl : _ = skipBlanks (']' :: rest)))]
  cases fuel with
  | zero => rfl
  | succ fuel => rw [readItems, readValue_mark (.inl rfl), Option.bind_eq_bind, Option.bind_none]

theorem readFields_closed {cs rest : List Char} (h : skipBlanks cs = '\x7d' :: rest)
    (fuel depth : Nat) : readFields fuel depth cs = none := by
  rw [readFields_congr (h.trans (rfl : _ = skipBlanks ('\x7d' :: rest)))]
  cases fuel with
  | zero => rfl
  | succ fuel => rfl

/-- What does not close at once behind an opening bracket are items. -/
theorem readValue_bracket {cs : List Char} (h : ∀ rest, skipBlanks cs ≠ ']' :: rest)
    (fuel depth : Nat) : readValue (fuel + 1) (depth + 1) ('[' :: cs) =
      (readItems fuel depth cs).map fun (js, rest) => (array js, rest) := by
  have opened : skipBlanks ('[' :: cs) = '[' :: cs := rfl
  rw [readValue, opened, readItems_congr (skipBlanks_skipBlanks cs).symm]
  simp only

/-- What does not close at once behind an opening brace are fields. -/
theorem readValue_brace {cs : List Char} (h : ∀ rest, skipBlanks cs ≠ '\x7d' :: rest)
    (fuel depth : Nat) : readValue (fuel + 1) (depth + 1) ('\x7b' :: cs) =
      (readFields fuel depth cs).map fun (fs, rest) => (ofNamedOctets fs, rest) := by
  have opened : skipBlanks ('\x7b' :: cs) = '\x7b' :: cs := rfl
  rw [readValue, opened, readFields_congr (skipBlanks_skipBlanks cs).symm]
  simp only

namespace TakesItems

variable {depth : Nat} {text more gap : List Char} {j : Json} {js : List Json}

/-- The last item stands before blanks. -/
theorem last (h : Takes depth text j) (hg : ∀ c ∈ gap, isBlank c = true) :
    TakesItems depth (text ++ gap) [j] := by
  intro fuel rest hf
  rw [spelled_append, List.length_append] at hf
  obtain ⟨fuel, rfl⟩ : ∃ f, fuel = f + 1 := ⟨fuel - 1, by omega⟩
  have value := h fuel (gap ++ ']' :: rest) (by omega)
    (stops_of_blanks hg (stops_mark (.inr (.inl rfl)) rest))
  have closing : skipBlanks (gap ++ ']' :: rest) = ']' :: rest := skipBlanks_append hg _
  rw [spelled_append, spelled_blanks hg, List.append_assoc, readItems, value]
  simp only [Option.bind_eq_bind, Option.bind_some, closing]
  rfl

/-- An item before a comma is followed by others. -/
theorem cons (h : Takes depth text j) (hm : TakesItems depth more js) :
    TakesItems depth (text ++ ',' :: more) (j :: js) := by
  have comma : spelled (text ++ ',' :: more) = spelled text ++ ',' :: spelled more := by
    rw [spelled_append, spelled_cons (by decide)]
  intro fuel rest hf
  rw [comma, List.length_append, List.length_cons] at hf
  obtain ⟨fuel, rfl⟩ : ∃ f, fuel = f + 1 := ⟨fuel - 1, by omega⟩
  have value := h fuel (',' :: (spelled more ++ ']' :: rest)) (by omega)
    (stops_mark (.inl rfl) _)
  have others := hm fuel rest (by omega)
  have between : skipBlanks (',' :: (spelled more ++ ']' :: rest)) =
      ',' :: (spelled more ++ ']' :: rest) := rfl
  rw [comma, List.append_assoc, List.cons_append, readItems, value]
  simp only [Option.bind_eq_bind, Option.bind_some, between, others]
  rfl

/-- Items between brackets are an array. -/
theorem array (h : TakesItems depth text js) :
    Takes (depth + 1) ('[' :: text ++ [']']) (.array js) := by
  have whole : spelled ('[' :: text ++ [']']) = '[' :: (spelled text ++ [']']) := by
    rw [List.cons_append, spelled_cons (by decide), spelled_append]
    rfl
  intro fuel rest hf _
  rw [whole, List.length_cons, List.length_append, List.length_singleton] at hf
  obtain ⟨fuel, rfl⟩ : ∃ f, fuel = f + 1 := ⟨fuel - 1, by omega⟩
  have items := h fuel rest (by omega)
  have going : ∀ t, skipBlanks (spelled text ++ ']' :: rest) ≠ ']' :: t := by
    intro t closed
    rw [readItems_closed closed] at items
    cases items
  rw [whole, List.cons_append, List.append_assoc, List.singleton_append, readValue_bracket going,
    items, Option.map_some]

end TakesItems

theorem Takes.emptyArray {depth : Nat} : Takes (depth + 1) ['[', ']'] (.array []) := by
  intro fuel rest hf _
  obtain ⟨fuel, rfl⟩ : ∃ f, fuel = f + 1 :=
    ⟨fuel - 1, (Nat.sub_add_cancel (Nat.le_trans (by decide) hf)).symm⟩
  rfl

theorem Takes.emptyObject {depth : Nat} : Takes (depth + 1) ['\x7b', '\x7d'] (.object []) := by
  intro fuel rest hf _
  obtain ⟨fuel, rfl⟩ : ∃ f, fuel = f + 1 :=
    ⟨fuel - 1, (Nat.sub_add_cancel (Nat.le_trans (by decide) hf)).symm⟩
  rfl

namespace TakesFields

variable {depth : Nat} {name : String} {text more gap front : List Char} {j : Json}
variable {fs : List (String × Json)}

/-- The fields of an object by the octets of their names. -/
theorem ofNamedOctets_encode (fs : List (String × Json)) :
    ofNamedOctets (fs.map fun f => (Utf8.encode f.1, f.2)) = object fs := by
  have named : ∀ fs : List (String × Json),
      (fs.map fun f => (Utf8.encode f.1, f.2)).mapM (fun (field : Bytes × Json) =>
        (Utf8.decode? field.1).map fun name => (name, field.2)) = some fs := by
    intro fs
    induction fs with
    | nil => rfl
    | cons f fs ih =>
      simp only [List.map_cons, List.mapM_cons, Utf8.decode?_encode, Option.map_some, ih]
      rfl
  rw [ofNamedOctets, named fs]
  rfl

/-- How reading goes on behind a field. -/
def afterField (fuel depth : Nat) (field : Bytes × Json) (cs : List Char) :
    Option (List (Bytes × Json) × List Char) :=
  match skipBlanks cs with
  | ',' :: rest => do
    let (fs, rest) ← readFields fuel depth rest
    return (field :: fs, rest)
  | '\x7d' :: rest => some ([field], rest)
  | _ => none

/-- A name, a colon and a value are read behind blanks. -/
theorem readFields_field (h : Takes depth text j) (hg : ∀ c ∈ front, isBlank c = true)
    {fuel : Nat} {rest : List Char} (hr : Stops rest)
    (hf : 2 * (spelled (front ++ printString name ++ ':' :: text)).length ≤ fuel) :
    readFields (fuel + 1) depth (spelled (front ++ printString name ++ ':' :: text) ++ rest) =
      afterField fuel depth (Utf8.encode name, j) rest := by
  have colon : spelled (front ++ printString name ++ ':' :: text) =
      front ++ (spelled (printString name) ++ ':' :: spelled text) := by
    rw [spelled_append, spelled_append, spelled_blanks hg, spelled_cons (by decide),
      List.append_assoc]
  rw [colon, List.length_append, List.length_append, List.length_cons] at hf
  obtain ⟨inner, quoted, read⟩ := readString_printString name fuel (by omega)
    (':' :: (spelled text ++ rest))
  have value := h fuel rest (by omega) hr
  rw [colon, List.append_assoc, readFields_congr (skipBlanks_append hg _), List.append_assoc,
    quoted, List.cons_append, List.cons_append]
  have opened : skipBlanks ('"' :: (inner ++ ':' :: (spelled text ++ rest))) =
      '"' :: (inner ++ ':' :: (spelled text ++ rest)) := rfl
  have between : skipBlanks (':' :: (spelled text ++ rest)) = ':' :: (spelled text ++ rest) := rfl
  rw [readFields, opened]
  simp only [Option.bind_eq_bind, read, Option.bind_some, between, value]
  rfl

/-- The last field stands before blanks. -/
theorem last (h : Takes depth text j) (hf : ∀ c ∈ front, isBlank c = true)
    (hg : ∀ c ∈ gap, isBlank c = true) :
    TakesFields depth (front ++ printString name ++ ':' :: text ++ gap) [(name, j)] := by
  intro fuel rest hn
  rw [spelled_append, List.length_append] at hn
  obtain ⟨fuel, rfl⟩ : ∃ f, fuel = f + 1 := ⟨fuel - 1, by omega⟩
  have closing : skipBlanks (gap ++ '\x7d' :: rest) = '\x7d' :: rest := skipBlanks_append hg _
  rw [spelled_append, spelled_blanks hg, List.append_assoc,
    readFields_field h hf (stops_of_blanks hg (stops_mark (.inr (.inr rfl)) rest)) (by omega),
    afterField, closing]
  rfl

/-- A field before a comma is followed by others. -/
theorem cons (h : Takes depth text j) (hf : ∀ c ∈ front, isBlank c = true)
    (hm : TakesFields depth more fs) :
    TakesFields depth (front ++ printString name ++ ':' :: text ++ ',' :: more)
      ((name, j) :: fs) := by
  have comma : spelled (front ++ printString name ++ ':' :: text ++ ',' :: more) =
      spelled (front ++ printString name ++ ':' :: text) ++ ',' :: spelled more := by
    rw [spelled_append, spelled_cons (by decide)]
  intro fuel rest hn
  rw [comma, List.length_append, List.length_cons] at hn
  obtain ⟨fuel, rfl⟩ : ∃ f, fuel = f + 1 := ⟨fuel - 1, by omega⟩
  have others := hm fuel rest (by omega)
  have between : skipBlanks (',' :: (spelled more ++ '\x7d' :: rest)) =
      ',' :: (spelled more ++ '\x7d' :: rest) := rfl
  rw [comma, List.append_assoc, List.cons_append,
    readFields_field h hf (stops_mark (.inl rfl) _) (by omega), afterField, between]
  simp only [Option.bind_eq_bind, others, Option.bind_some]
  rfl

/-- Fields between braces are an object. -/
theorem object (h : TakesFields depth text fs) :
    Takes (depth + 1) ('\x7b' :: text ++ ['\x7d']) (.object fs) := by
  have whole : spelled ('\x7b' :: text ++ ['\x7d']) = '\x7b' :: (spelled text ++ ['\x7d']) := by
    rw [List.cons_append, spelled_cons (by decide), spelled_append]
    rfl
  intro fuel rest hf _
  rw [whole, List.length_cons, List.length_append, List.length_singleton] at hf
  obtain ⟨fuel, rfl⟩ : ∃ f, fuel = f + 1 := ⟨fuel - 1, by omega⟩
  have fields := h fuel rest (by omega)
  have going : ∀ t, skipBlanks (spelled text ++ '\x7d' :: rest) ≠ '\x7d' :: t := by
    intro t closed
    rw [readFields_closed closed] at fields
    cases fields
  rw [whole, List.cons_append, List.append_assoc, List.singleton_append, readValue_brace going,
    fields, Option.map_some]
  exact congrArg (fun j => some (j, rest)) (ofNamedOctets_encode fs)

end TakesFields

/-! ### Documents -/

/-- A document of so many levels at most, whose numbers are natural and held by a word. -/
inductive Plain : Nat → Json → Prop where
  | null {depth : Nat} : Plain depth null
  | boolean {depth : Nat} (b : Bool) : Plain depth (boolean b)
  | nat {depth n : Nat} (h : n < wordBound) : Plain depth (nat n)
  | string {depth : Nat} (s : String) : Plain depth (string s)
  | array {depth : Nat} {js : List Json} (h : ∀ j ∈ js, Plain depth j) :
    Plain (depth + 1) (array js)
  | object {depth : Nat} {fs : List (String × Json)} (h : ∀ f ∈ fs, Plain depth f.2) :
    Plain (depth + 1) (object fs)

namespace Plain

variable {depth : Nat} {j : Json}

theorem mono (h : Plain depth j) {more : Nat} (hd : depth ≤ more) : Plain more j := by
  induction h generalizing more with
  | null => exact .null
  | boolean b => exact .boolean b
  | nat hn => exact .nat hn
  | string s => exact .string s
  | array _ ih =>
    obtain ⟨more, rfl⟩ : ∃ m, more = m + 1 := ⟨more - 1, by omega⟩
    exact .array fun j hj => ih j hj (Nat.le_of_succ_le_succ hd)
  | object _ ih =>
    obtain ⟨more, rfl⟩ : ∃ m, more = m + 1 := ⟨more - 1, by omega⟩
    exact .object fun f hf => ih f hf (Nat.le_of_succ_le_succ hd)

theorem isReadable (h : Plain depth j) : j.isReadable = true := by
  induction h with
  | @array _ js h ih =>
    clear h
    rw [Json.isReadable]
    induction js with
    | nil => rfl
    | cons j js more =>
      rw [areReadable, ih j List.mem_cons_self,
        more fun k hk => ih k (List.mem_cons_of_mem j hk)]
      rfl
  | @object _ fs h ih =>
    clear h
    rw [Json.isReadable]
    induction fs with
    | nil => rfl
    | cons f fs more =>
      rw [fieldsAreReadable, fieldIsReadable, ih f List.mem_cons_self,
        more fun g hg => ih g (List.mem_cons_of_mem f hg)]
      rfl
  | _ => rfl

end Plain

/-! ### Printed documents -/

/-- Texts with a comma between each two. -/
def commas : List (List Char) → List Char
  | [] => []
  | [text] => text
  | text :: texts => text ++ ',' :: commas texts

theorem commas_cons {α : Type} (f : α → List Char) (a b : α) (l : List α) :
    commas ((a :: b :: l).map f) = f a ++ ',' :: commas ((b :: l).map f) :=
  rfl

theorem indentedItems_eq (level : Nat) (js : List Json) : indentedItems level js =
    commas (js.map fun j => lineBreak level ++ indentedChars level j) := by
  induction js with
  | nil => rfl
  | cons j js ih =>
    cases js with
    | nil => rfl
    | cons k js =>
      rw [indentedItems, ih, commas_cons]
      exact List.cons_ne_nil k js

theorem indentedFields_eq (level : Nat) (fs : List (String × Json)) : indentedFields level fs =
    commas (fs.map fun f =>
      lineBreak level ++ printString f.1 ++ ':' :: ([' '] ++ indentedChars level f.2)) := by
  have field (f : String × Json) : lineBreak level ++ indentedField level f =
      lineBreak level ++ printString f.1 ++ ':' :: ([' '] ++ indentedChars level f.2) := by
    cases f
    exact (List.append_assoc ..).symm
  induction fs with
  | nil => rfl
  | cons f fs ih =>
    cases fs with
    | nil => exact field f
    | cons g fs =>
      rw [indentedFields, ih, commas_cons, field]
      exact List.cons_ne_nil g fs

theorem TakesItems.of_commas {depth : Nat} {gap : List Char} {f : Json → List Char} {js : List Json}
    (hn : js ≠ []) (h : ∀ j ∈ js, Takes depth (f j) j) (hg : ∀ c ∈ gap, isBlank c = true) :
    TakesItems depth (commas (js.map f) ++ gap) js := by
  induction js with
  | nil => exact absurd rfl hn
  | cons j js ih =>
    have first := h j List.mem_cons_self
    cases js with
    | nil => exact .last first hg
    | cons k js =>
      have others := ih (List.cons_ne_nil k js) fun i hi => h i (List.mem_cons_of_mem j hi)
      rw [commas_cons, List.append_assoc, List.cons_append]
      exact .cons first others

theorem TakesFields.of_commas {depth : Nat} {front gap : List Char}
    {f : String × Json → List Char} {fs : List (String × Json)} (hn : fs ≠ [])
    (h : ∀ p ∈ fs, Takes depth (f p) p.2) (hf : ∀ c ∈ front, isBlank c = true)
    (hg : ∀ c ∈ gap, isBlank c = true) :
    TakesFields depth
      (commas (fs.map fun p => front ++ printString p.1 ++ ':' :: f p) ++ gap) fs := by
  induction fs with
  | nil => exact absurd rfl hn
  | cons p fs ih =>
    have first := h p List.mem_cons_self
    cases fs with
    | nil => exact .last first hf hg
    | cons q fs =>
      have others := ih (List.cons_ne_nil q fs) fun i hi => h i (List.mem_cons_of_mem p hi)
      rw [commas_cons, List.append_assoc, List.cons_append]
      exact .cons first hf others

theorem isBlank_of_mem_lineBreak (level : Nat) : ∀ c ∈ lineBreak level, isBlank c = true := by
  intro c hc
  rcases List.mem_cons.mp hc with rfl | hc
  · rfl
  · rw [List.eq_of_mem_replicate hc]
    rfl

namespace Plain

variable {depth : Nat} {j : Json}

/-- The indented text of a document is read as the document. -/
theorem takes_indented (h : Plain depth j) (level : Nat) :
    Takes depth (j.indentedChars level) j := by
  induction h generalizing level with
  | null => exact .null
  | boolean b => exact .boolean b
  | nat hn => exact .nat hn
  | string s => exact .string s
  | @array depth js _ ih =>
    cases js with
    | nil => exact .emptyArray
    | cons j js =>
      have items := TakesItems.of_commas (List.cons_ne_nil j js)
        (fun k hk => (ih k hk (level + 1)).behind (isBlank_of_mem_lineBreak (level + 1)))
        (isBlank_of_mem_lineBreak level)
      rw [← indentedItems_eq] at items
      exact items.array
  | @object depth fs _ ih =>
    cases fs with
    | nil => exact .emptyObject
    | cons f fs =>
      have blank : ∀ c ∈ [' '], isBlank c = true := fun c hc => by
        rw [List.mem_singleton.mp hc]
        rfl
      have fields := TakesFields.of_commas (List.cons_ne_nil f fs)
        (fun p hp => (ih p hp (level + 1)).behind blank) (isBlank_of_mem_lineBreak (level + 1))
        (isBlank_of_mem_lineBreak level)
      rw [← indentedFields_eq] at fields
      exact fields.object

end Plain

/-- A text that is taken for a document spells it. -/
theorem Takes.readDocument {depth : Nat} {text : List Char} {j : Json} (h : Takes depth text j) :
    readDocument depth (Utf8.encode (String.ofList text)) = some j := by
  have whole := h (2 * (spelled text).length + 2) [] (Nat.le_add_right _ 2)
    fun _ hc => absurd hc (Option.not_mem_none _)
  rw [List.append_nil] at whole
  have octets : (Utf8.encode (String.ofList text)).map (fun b => Char.ofNat b.toNat) =
      spelled text := spelled_encode text
  simp only [Json.readDocument, octets, whole, Option.bind_eq_bind, Option.bind_some]
  rfl

end Workflow.Json

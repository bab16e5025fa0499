import Mathlib.Tactic.Ring
import Workflow.Packed

/-!
# Packed data is read back

What has been written is read as the tree that was written. A length is read back group by group,
an integer from its octets in two's complement, and a tree by induction on it: the reader, given
fuel for the octets of a tree, takes exactly these octets, whatever follows them.
-/

namespace Workflow.Packed

/-! ### Lengths -/

/-- No more octets than so many that hold an integer. -/
theorem signedSize_le (fuel k : Nat) {n : Int} (low : -(128 * 256 ^ k) ≤ n)
    (high : n < 128 * 256 ^ k) : signedSize fuel n ≤ k + 1 := by
  induction k generalizing fuel n with
  | zero =>
    cases fuel with
    | zero => exact Nat.le_refl 1
    | succ fuel => rw [signedSize, if_pos (by omega)]
  | succ k ih =>
    cases fuel with
    | zero => exact Nat.le_add_left 1 _
    | succ fuel =>
      rw [signedSize, Int.fdiv_eq_ediv_of_nonneg n (by decide)]
      split
      · exact Nat.le_add_left 1 _
      · rw [pow_succ] at low high
        exact Nat.succ_le_succ (ih fuel (by omega) (by omega))

/-- A tree that can be written and read: its integers fit sixteen octets, and its dictionaries have
a value for every key. -/
inductive Legible : Packed → Prop where
  | boolean (b : Bool) : Legible (boolean b)
  | double (octets : Bytes) : Legible (double octets)
  | integer {n : Int} (h : integerSize n ≤ 16) : Legible (integer n)
  | string (octets : Bytes) : Legible (string octets)
  | bytes (octets : Bytes) : Legible (bytes octets)
  | symbol (octets : Bytes) : Legible (symbol octets)
  | record {label : Packed} {fields : List Packed} (hl : Legible label)
      (hf : ∀ p ∈ fields, Legible p) : Legible (record label fields)
  | sequence {items : List Packed} (h : ∀ p ∈ items, Legible p) : Legible (sequence items)
  | set {items : List Packed} (h : ∀ p ∈ items, Legible p) : Legible (set items)
  | dictionary {items : List Packed} (h : ∀ p ∈ items, Legible p)
      (even : items.length % 2 = 0) : Legible (dictionary items)
  | embedded {v : Packed} (h : Legible v) : Legible (embedded v)

/-- A number that a word holds is legible. -/
theorem Legible.natural {n : Nat} (h : n < wordBound) : (Packed.integer n).Legible := by
  have bound : n < 2 ^ 64 := h
  refine .integer ?_
  rw [integerSize]
  split
  · exact Nat.zero_le 16
  · exact Nat.le_trans (signedSize_le _ 8 (by omega) (by omega)) (by decide)

theorem Legible.text (s : String) : (Packed.text s).Legible :=
  .string _

theorem Legible.labelled (label : String) {fields : List Packed} (h : ∀ p ∈ fields, p.Legible) :
    (Packed.labelled label fields).Legible :=
  .record (.symbol _) h

theorem Legible.wrapped (label : String) {p : Packed} (h : p.Legible) :
    (Packed.wrapped label p).Legible :=
  .labelled label fun _ hq => List.mem_singleton.mp hq ▸ h

theorem Legible.ofOption {o : Option Packed} (h : ∀ p ∈ o, p.Legible) :
    (Packed.ofOption o).Legible := by
  cases o with
  | none => exact .labelled "None" fun _ hq => absurd hq List.not_mem_nil
  | some p => exact .wrapped "Some" (h p rfl)

/-- The written form of a tree is read as the tree, whatever follows it. -/
def Reads (p : Packed) : Prop :=
  ∀ (fuel : Nat) (rest : Bytes), p.write.length ≤ fuel → p.write.length < wordBound →
    readTree fuel (p.write ++ rest) = some (p, rest)

/-- A written tree does not start like a closing tag. -/
theorem write_cons (p : Packed) : ∃ tag rest, p.write = tag :: rest ∧ tag ≠ 0x84 := by
  cases p with
  | boolean b => cases b <;> exact ⟨_, _, rfl, by decide⟩
  | _ => exact ⟨_, _, rfl, by decide⟩

/-- Trees up to a closing tag are read if each of them is. -/
theorem readTrees_writeAll {ps : List Packed} (h : ∀ p ∈ ps, p.Reads) (fuel : Nat)
    (hf : (writeAll ps).length < fuel) (hs : (writeAll ps).length < wordBound) (rest : Bytes) :
    readTrees fuel (writeAll ps ++ 0x84 :: rest) = some (ps, rest) := by
  induction ps generalizing fuel with
  | nil =>
    obtain ⟨fuel, rfl⟩ : ∃ f, fuel = f + 1 := ⟨fuel - 1, by omega⟩
    rfl
  | cons p ps ih =>
    obtain ⟨fuel, rfl⟩ : ∃ f, fuel = f + 1 := ⟨fuel - 1, by omega⟩
    obtain ⟨tag, behind, hp, going⟩ := p.write_cons
    have positive : 0 < p.write.length := by
      rw [hp]
      exact Nat.succ_pos _
    rw [writeAll, List.length_append] at hf hs
    have first := h p List.mem_cons_self fuel (writeAll ps ++ 0x84 :: rest) (by omega) (by omega)
    have others := ih (fun q hq => h q (List.mem_cons_of_mem p hq)) fuel (by omega) (by omega)
    rw [hp, List.cons_append] at first
    rw [writeAll, List.append_assoc, hp, List.cons_append, readTrees, if_neg going, first]
    simp only [Option.bind_eq_bind, Option.bind_some, others]
    rfl

/-- A record is read if its label and its fields are. -/
theorem Reads.record {label : Packed} {fields : List Packed} (hl : label.Reads)
    (hf : ∀ p ∈ fields, p.Reads) : (record label fields).Reads := by
  intro fuel rest hn hs
  rw [write, List.length_append, List.cons_append, List.length_cons, List.length_append,
    List.length_singleton] at hn hs
  obtain ⟨fuel, rfl⟩ : ∃ f, fuel = f + 1 := ⟨fuel - 1, by omega⟩
  have first := hl fuel (writeAll fields ++ 0x84 :: rest) (by omega) (by omega)
  have others := readTrees_writeAll hf fuel (by omega) (by omega) rest
  have step : readTree (fuel + 1) ((Packed.record label fields).write ++ rest) =
      (readTree fuel (label.write ++ (writeAll fields ++ 0x84 :: rest))).bind fun head =>
        (readTrees fuel head.2).bind fun read => some (Packed.record head.1 read.1, read.2) := by
    rw [write, List.append_assoc, List.cons_append, List.cons_append, List.append_assoc]
    rfl
  rw [step, first, Option.bind_some, others, Option.bind_some]

end Workflow.Packed

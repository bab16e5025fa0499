import Std.Data.ExtTreeMap
import Mathlib.Data.List.Perm.Basic

/-!
# Lookups and counts in maps

Lookups after a change, with equality of keys in place of comparison, and the number of values that
satisfy a condition. Owners, bookmarks and operations are counted this way.
-/

namespace Workflow.Table

variable {α β : Type} [Ord α] [Std.TransOrd α] [Std.LawfulEqOrd α]
variable (m : Std.ExtTreeMap α β)

/-- After an insertion the new value stands under its key. -/
theorem lookup_insert [DecidableEq α] (k a : α) (v : β) :
    (m.insert k v)[a]? = if k = a then some v else m[a]? := by
  rw [Std.ExtTreeMap.getElem?_insert]
  simp only [Std.LawfulEqOrd.compare_eq_iff_eq]

theorem contains_insert (k a : α) (v : β) :
    (m.insert k v).contains a = true ↔ k = a ∨ m.contains a = true := by
  rw [Std.ExtTreeMap.contains_insert, Bool.or_eq_true, beq_iff_eq,
    Std.LawfulEqOrd.compare_eq_iff_eq]

omit [Std.LawfulEqOrd α] in
theorem contains_of_lookup {k : α} {v : β} (h : m[k]? = some v) : m.contains k = true := by
  rw [Std.ExtTreeMap.contains_eq_isSome_getElem?, h]
  rfl

/-- After a removal nothing stands under the key. -/
theorem lookup_erase [DecidableEq α] (k a : α) : (m.erase k)[a]? = if k = a then none else m[a]? := by
  rw [Std.ExtTreeMap.getElem?_erase]
  simp only [Std.LawfulEqOrd.compare_eq_iff_eq]

/-- A modification changes the value under one key. -/
theorem lookup_modify [DecidableEq α] (k a : α) (f : β → β) :
    (m.modify k f)[a]? = if k = a then m[a]?.map f else m[a]? := by
  rw [Std.ExtTreeMap.getElem?_modify]
  simp only [Std.LawfulEqOrd.compare_eq_iff_eq]
  split
  · next h => rw [h]
  · rfl

/-- A filter keeps the values that satisfy it. -/
theorem lookup_filter (f : α → β → Bool) (a : α) : (m.filter f)[a]? = m[a]?.filter (f a) :=
  Std.ExtTreeMap.getElem?_filter'

omit [Std.LawfulEqOrd α] in
/-- The values are the second components of the entries. -/
theorem values_eq_map : m.values = m.toList.map Prod.snd := by
  have h : m.values = m.foldr (fun _ v l => v :: l) [] := by
    rcases m with ⟨q⟩
    induction q using Std.ExtDTreeMap.inductionOn with
    | mk m => rfl
  rw [h, Std.ExtTreeMap.foldr_eq_foldr_toList]
  induction m.toList with
  | nil => rfl
  | cons p ps ih => simp only [List.foldr_cons, ih, List.map_cons]

/-- No entry is listed twice. -/
theorem nodup_toList : m.toList.Nodup := by
  refine m.distinct_keys_toList.imp fun {a b} h he => ?_
  subst he
  exact h Std.ReflCmp.compare_self

omit [Std.LawfulEqOrd α] in
/-- Entries are listed in the order of their keys. -/
theorem ordered_toList : m.toList.Pairwise fun a b => compare a.1 b.1 = .lt :=
  m.ordered_keys_toList

/-- No key is listed twice. -/
theorem nodup_keys : m.keys.Nodup := by
  rw [← m.map_fst_toList_eq_keys, List.nodup_iff_pairwise_ne, List.pairwise_map]
  refine m.distinct_keys_toList.imp fun {a b} h he => ?_
  rw [he] at h
  exact h Std.ReflCmp.compare_self

/-- The keys are those under which something stands. -/
theorem mem_keys_iff {k : α} : k ∈ m.keys ↔ ∃ v, m[k]? = some v := by
  rw [← m.map_fst_toList_eq_keys, List.mem_map]
  constructor
  · rintro ⟨⟨a, v⟩, hm, rfl⟩
    exact ⟨v, m.mem_toList_iff_getElem?_eq_some.mp hm⟩
  · rintro ⟨v, hv⟩
    exact ⟨(k, v), m.mem_toList_iff_getElem?_eq_some.mpr hv, rfl⟩

omit [Std.LawfulEqOrd α] in
/-- The number of keys is the size. -/
theorem length_keys : m.keys.length = m.size := by
  rw [← m.map_fst_toList_eq_keys, List.length_map, m.length_toList]

/-- The number of values that satisfy a condition. -/
def count (p : β → Bool) : Nat :=
  m.values.countP p

omit [Std.LawfulEqOrd α] in
theorem count_eq_countP_toList (p : β → Bool) : count m p = m.toList.countP fun e => p e.2 := by
  rw [count, values_eq_map, List.countP_map]
  rfl

/-- Nothing is counted if no value satisfies the condition. -/
theorem count_eq_zero_iff {p : β → Bool} :
    count m p = 0 ↔ ∀ (k : α) (v : β), m[k]? = some v → p v = false := by
  rw [count_eq_countP_toList, List.countP_eq_zero]
  constructor
  · intro h k v hv
    simpa using h (k, v) (m.mem_toList_iff_getElem?_eq_some.mpr hv)
  · intro h e he
    simpa using h e.1 e.2 (m.mem_toList_iff_getElem?_eq_some.mp he)

/-- Something is counted if some value satisfies the condition. -/
theorem exists_of_count_ne_zero {p : β → Bool} (h : count m p ≠ 0) :
    ∃ (k : α) (v : β), m[k]? = some v ∧ p v = true := by
  by_contra hn
  refine h ((count_eq_zero_iff m).mpr fun k v hv => ?_)
  cases hp : p v with
  | false => rfl
  | true => exact absurd ⟨k, v, hv, hp⟩ hn

/-- An insertion under a new key adds one entry. -/
theorem toList_insert_perm [DecidableEq α] {k : α} {v : β} (hk : m[k]? = none) :
    (m.insert k v).toList.Perm ((k, v) :: m.toList) := by
  have hn : ((k, v) :: m.toList).Nodup := by
    refine List.nodup_cons.mpr ⟨fun hm => ?_, nodup_toList m⟩
    rw [m.mem_toList_iff_getElem?_eq_some.mp hm] at hk
    exact absurd hk (Option.some_ne_none v)
  refine (List.perm_ext_iff_of_nodup (nodup_toList _) hn).mpr fun ⟨a, b⟩ => ?_
  rw [Std.ExtTreeMap.mem_toList_iff_getElem?_eq_some, lookup_insert, List.mem_cons,
    Std.ExtTreeMap.mem_toList_iff_getElem?_eq_some]
  by_cases h : k = a
  · subst h
    simp only [if_pos, Option.some.injEq, Prod.mk.injEq, true_and, hk, reduceCtorEq, or_false]
    exact eq_comm
  · simp only [if_neg h, Prod.mk.injEq, Ne.symm h, false_and, false_or]

/-- An insertion under a new key counts at most one value more. -/
theorem count_insert [DecidableEq α] {k : α} {v : β} (p : β → Bool) (hk : m[k]? = none) :
    count (m.insert k v) p = count m p + if p v then 1 else 0 := by
  rw [count_eq_countP_toList, count_eq_countP_toList, (toList_insert_perm m hk).countP_eq,
    List.countP_cons]

/-- Inserting again what was removed changes nothing. -/
theorem insert_erase [DecidableEq α] {k : α} {v : β} (hk : m[k]? = some v) : (m.erase k).insert k v = m := by
  refine Std.ExtTreeMap.ext_getElem? fun a => ?_
  rw [lookup_insert, lookup_erase]
  by_cases h : k = a
  · rw [if_pos h, ← h, hk]
  · rw [if_neg h, if_neg h]

/-- A removal counts at most one value less. -/
theorem count_erase [DecidableEq α] {k : α} {v : β} (p : β → Bool) (hk : m[k]? = some v) :
    count m p = count (m.erase k) p + if p v then 1 else 0 := by
  have hn : (m.erase k)[k]? = none := by rw [lookup_erase, if_pos rfl]
  have hi := count_insert (m.erase k) (v:=v) p hn
  rwa [insert_erase m hk] at hi

/-- A filter that keeps the counted values changes no count. -/
theorem count_filter {f : α → β → Bool} {p : β → Bool}
    (h : ∀ (k : α) (v : β), m[k]? = some v → p v = true → f k v = true) :
    count (m.filter f) p = count m p := by
  rw [count_eq_countP_toList, count_eq_countP_toList, m.toList_filter, List.countP_filter]
  refine List.countP_congr fun e he => ?_
  have hv := m.mem_toList_iff_getElem?_eq_some.mp he
  cases hp : p e.2 with
  | false => simp
  | true => simp [h e.1 e.2 hv hp]

/-- Putting the entries of a list with distinct keys one after the other into an empty map. -/
theorem lookup_foldl_insert (l : List (α × β)) (hd : (l.map Prod.fst).Nodup)
    (t : Std.ExtTreeMap α β) (k : α) (v : β) :
    (l.foldl (fun t e => t.insert e.1 e.2) t)[k]? = some v ↔
      (k, v) ∈ l ∨ (k ∉ l.map Prod.fst ∧ t[k]? = some v) := by
  classical
  induction l generalizing t with
  | nil => simp
  | cons e l ih =>
    obtain ⟨he, hl⟩ := List.nodup_cons.mp hd
    rw [List.foldl_cons, ih hl, lookup_insert]
    simp only [List.mem_cons, List.map_cons, not_or]
    by_cases hk : e.1 = k
    · have hkl : k ∉ l.map Prod.fst := hk ▸ he
      have hm : (k, v) ∉ l := fun h => hkl (List.mem_map.mpr ⟨_, h, rfl⟩)
      simp only [hm, hkl, hk, not_false_eq_true, true_and, if_pos, Option.some.injEq, false_or,
        not_true_eq_false, false_and, or_false]
      rw [← hk, Prod.ext_iff]
      simp [eq_comm]
    · have hne : (k, v) ≠ e := fun h => hk (h ▸ rfl)
      simp [hk, hne, Ne.symm hk]

/-- The entries of a map make up the map again. -/
theorem foldl_insert_toList : m.toList.foldl (fun t e => t.insert e.1 e.2) ∅ = m := by
  have hd : (m.toList.map Prod.fst).Nodup := by
    rw [m.map_fst_toList_eq_keys]
    exact nodup_keys m
  refine Std.ExtTreeMap.ext_getElem? fun k => Option.ext fun v => ?_
  rw [lookup_foldl_insert _ hd]
  simp

end Workflow.Table

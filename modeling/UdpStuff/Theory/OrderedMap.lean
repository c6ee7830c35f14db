/-
# Theory.OrderedMap — `std::map` as an extensional tree map

Lookups after `emplace` (`insertIfNew`: an entry that is there stays) and after
`erase`, with the keys compared by equality, and the number of entries.
-/
import Mathlib

namespace UdpStuff.Theory.OrderedMap

open Std (ExtTreeMap)

set_option autoImplicit false

universe u v

variable {K : Type u} {V : Type v} [Ord K] [Std.TransOrd K] [Std.LawfulEqOrd K]

omit [Std.LawfulEqOrd K] in
theorem getElem?_eq_none_iff {m : ExtTreeMap K V} {k : K} : m[k]? = none ↔ k ∉ m := by
  rw [ExtTreeMap.mem_iff_isSome_getElem?]
  simp

theorem getElem?_emplace [DecidableEq K] (m : ExtTreeMap K V) (k a : K) (v : V) :
    (m.insertIfNew k v)[a]? = if a = k then some (m[k]?.getD v) else m[a]? := by
  simp only [ExtTreeMap.getElem?_insertIfNew, Std.LawfulEqCmp.compare_eq_iff_eq,
    ← getElem?_eq_none_iff]
  by_cases same : a = k
  · subst same
    cases m[a]? <;> simp
  · rw [if_neg same, if_neg]
    exact fun h => same h.1.symm

theorem getElem?_erase [DecidableEq K] (m : ExtTreeMap K V) (k a : K) :
    (m.erase k)[a]? = if a = k then none else m[a]? := by
  rw [ExtTreeMap.getElem?_erase]
  simp only [Std.LawfulEqCmp.compare_eq_iff_eq, @eq_comm K k a]

/-- Keys erased one after another from a map that is part of a state. -/
theorem getElem?_foldl_erase [DecidableEq K] {S : Type v} (map : S → ExtTreeMap K V)
    {clear : S → K → S} (erases : ∀ s k, map (clear s k) = (map s).erase k) (s : S)
    (keys : List K) (a : K) :
    (map (keys.foldl clear s))[a]? = if a ∈ keys then none else (map s)[a]? := by
  induction keys generalizing s with
  | nil => simp
  | cons k rest ih =>
      rw [List.foldl_cons, ih, erases, getElem?_erase]
      by_cases same : a = k <;> by_cases later : a ∈ rest <;> simp [same, later]

theorem nodup_toList (m : ExtTreeMap K V) : m.toList.Nodup := by
  refine List.Pairwise.imp (fun {a b} different equal => different ?_)
    ExtTreeMap.distinct_keys_toList
  rw [equal, Std.LawfulEqCmp.compare_eq_iff_eq]

/-- A list of entries under distinct keys that holds what the map holds is as long
as the map has entries. -/
theorem size_eq_length {m : ExtTreeMap K V} {entries : List (K × V)}
    (distinct : (entries.map Prod.fst).Nodup)
    (same : ∀ k v, m[k]? = some v ↔ (k, v) ∈ entries) : m.size = entries.length := by
  have perm : m.toList.Perm entries := by
    rw [List.perm_ext_iff_of_nodup (nodup_toList m) (List.Nodup.of_map Prod.fst distinct)]
    intro e
    rw [← same e.1 e.2]
    exact ExtTreeMap.mem_toList_iff_getElem?_eq_some
  rw [← perm.length_eq, ExtTreeMap.length_toList]

/-- A new entry is one more entry. -/
theorem toList_emplace_perm [DecidableEq K] {m : ExtTreeMap K V} {k : K} (free : m[k]? = none)
    (v : V) : (m.insertIfNew k v).toList.Perm (m.toList ++ [(k, v)]) := by
  have apart (a : K) (b : V) (member : (a, b) ∈ m.toList) : a ≠ k := by
    rintro rfl
    rw [ExtTreeMap.mem_toList_iff_getElem?_eq_some, free] at member
    cases member
  have nodup : (m.toList ++ [(k, v)]).Nodup := by
    refine List.nodup_append.mpr ⟨nodup_toList m, List.nodup_singleton _, ?_⟩
    rintro ⟨a, b⟩ member e last rfl
    cases List.mem_singleton.mp last
    exact apart k v member rfl
  rw [List.perm_ext_iff_of_nodup (nodup_toList _) nodup]
  rintro ⟨a, b⟩
  rw [List.mem_append, List.mem_singleton, ExtTreeMap.mem_toList_iff_getElem?_eq_some,
    ExtTreeMap.mem_toList_iff_getElem?_eq_some, getElem?_emplace, free, Option.getD_none]
  by_cases same : a = k
  · subst same
    rw [if_pos rfl, free]
    simp [eq_comm]
  · rw [if_neg same]
    simp [same]

/-- What is added up over the entries, in any order, is added up for a new one. -/
theorem foldl_emplace [DecidableEq K] {S : Type v} {f : S → K → V → S}
    (comm : ∀ s k v k' v', f (f s k v) k' v' = f (f s k' v') k v) {m : ExtTreeMap K V} {k : K}
    (free : m[k]? = none) (v : V) (init : S) :
    (m.insertIfNew k v).foldl f init = f (m.foldl f init) k v := by
  rw [ExtTreeMap.foldl_eq_foldl_toList, ExtTreeMap.foldl_eq_foldl_toList,
    (toList_emplace_perm free v).foldl_eq' (fun a _ b _ s => comm s a.1 a.2 b.1 b.2),
    List.foldl_append]
  rfl

theorem getElem?_insert [DecidableEq K] (m : ExtTreeMap K V) (k a : K) (v : V) :
    (m.insert k v)[a]? = if a = k then some v else m[a]? := by
  rw [ExtTreeMap.getElem?_insert]
  simp only [Std.LawfulEqCmp.compare_eq_iff_eq, @eq_comm K k a]

/-- Entries under distinct keys, inserted where they are kept. -/
theorem getElem?_foldl_insert [DecidableEq K] (keep : K × V → Prop) [DecidablePred keep]
    {entries : List (K × V)} (distinct : (entries.map Prod.fst).Nodup) (m : ExtTreeMap K V)
    (k : K) (v : V) :
    (entries.foldl (fun new e => if keep e then new.insert e.1 e.2 else new) m)[k]? = some v ↔
      (k, v) ∈ entries ∧ keep (k, v) ∨
        (∀ v', (k, v') ∈ entries → ¬ keep (k, v')) ∧ m[k]? = some v := by
  induction entries generalizing m with
  | nil => simp
  | cons e rest ih =>
      rw [List.map_cons, List.nodup_cons] at distinct
      obtain ⟨new, distinct⟩ := distinct
      rw [List.foldl_cons, ih distinct]
      obtain ⟨k', v'⟩ := e
      by_cases same : k = k'
      · subst same
        have apart (v'' : V) : (k, v'') ∉ rest := fun later =>
          new (List.mem_map.mpr ⟨_, later, rfl⟩)
        by_cases kept : keep (k, v')
        · simp only [if_pos kept, getElem?_insert, if_pos, apart, false_and, false_or,
            List.mem_cons, or_false]
          constructor
          · rintro ⟨-, same⟩
            cases same
            exact .inl ⟨rfl, kept⟩
          · rintro (⟨same, -⟩ | ⟨never, -⟩)
            · cases same
              exact ⟨fun v'' later => later.elim, rfl⟩
            · exact absurd kept (never v' rfl)
        · simp only [if_neg kept, apart, false_and, false_or, List.mem_cons, or_false]
          constructor
          · rintro ⟨-, there⟩
            refine .inr ⟨fun v'' same => ?_, there⟩
            cases same
            exact kept
          · rintro (⟨same, kept'⟩ | ⟨-, there⟩)
            · cases same
              exact absurd kept' kept
            · exact ⟨fun v'' later => later.elim, there⟩
      · have other : (if keep (k', v') then m.insert k' v' else m)[k]? = m[k]? := by
          split
          · rw [getElem?_insert, if_neg same]
          · rfl
        have first (v'' : V) : (k, v'') ≠ (k', v') := fun equal => same (Prod.ext_iff.mp equal).1
        simp only [other, List.mem_cons, first, false_or]

/-- A map rebuilt from the entries of another one that are kept. -/
theorem getElem?_rebuild [DecidableEq K] (keep : K × V → Prop) [DecidablePred keep]
    (m : ExtTreeMap K V) (k : K) (v : V) :
    (m.toList.foldl (fun new e => if keep e then new.insert e.1 e.2 else new)
        (∅ : ExtTreeMap K V))[k]? = some v ↔ m[k]? = some v ∧ keep (k, v) := by
  have distinct : (m.toList.map Prod.fst).Nodup := by
    rw [List.Nodup, List.pairwise_map]
    refine ExtTreeMap.distinct_keys_toList.imp fun {a b} differ same => differ ?_
    rw [same, Std.LawfulEqCmp.compare_eq_iff_eq]
  rw [getElem?_foldl_insert keep distinct]
  simp [ExtTreeMap.mem_toList_iff_getElem?_eq_some]

end UdpStuff.Theory.OrderedMap

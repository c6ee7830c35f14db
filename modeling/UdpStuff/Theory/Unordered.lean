/-
# Theory.Unordered — `std::unordered_set`, `map` and `multimap`

An unordered container is the list of what it holds, in the order that its iterators go
through it; nothing is known of that order.  A set holds no element twice, and a map no key;
erasing keeps the order of the rest.

* `UnorderedMap.find_erase`: lookups after `erase`;
* `UnorderedMultimap.equalRange_erase`: the same for all the values of a key.
-/
import Mathlib.Data.List.Nodup

namespace UdpStuff.Theory

set_option autoImplicit false

universe u v

structure UnorderedSet (α : Type u) where
  elems : List α
  nodup : elems.Nodup

namespace UnorderedSet

variable {α : Type u}

def clear (_s : UnorderedSet α) : UnorderedSet α := ⟨[], List.nodup_nil⟩

end UnorderedSet

structure UnorderedMap (K : Type u) (V : Type v) where
  entries : List (K × V)
  distinct : (entries.map Prod.fst).Nodup

namespace UnorderedMap

variable {K : Type u} {V : Type v} [DecidableEq K]

def find (m : UnorderedMap K V) (k : K) : Option V :=
  (m.entries.find? fun e => e.1 = k).map Prod.snd

def erase (m : UnorderedMap K V) (k : K) : UnorderedMap K V where
  entries := m.entries.filter fun e => e.1 ≠ k
  distinct := m.distinct.sublist (List.filter_sublist.map Prod.fst)

theorem find_erase (m : UnorderedMap K V) (k a : K) :
    (m.erase k).find a = if a = k then none else m.find a := by
  rw [find, erase, List.find?_filter]
  by_cases same : a = k
  · subst same
    rw [if_pos rfl, List.find?_eq_none.mpr]
    · rfl
    · intro e _
      simp
  · rw [if_neg same, find]
    congr 2
    funext e
    by_cases here : e.1 = a
    · simp [here, same]
    · simp [here]

end UnorderedMap

structure UnorderedMultimap (K : Type u) (V : Type v) where
  entries : List (K × V)

namespace UnorderedMultimap

variable {K : Type u} {V : Type v} [DecidableEq K]

def equalRange (m : UnorderedMultimap K V) (k : K) : List V :=
  (m.entries.filter fun e => e.1 = k).map Prod.snd

def erase (m : UnorderedMultimap K V) (k : K) : UnorderedMultimap K V :=
  ⟨m.entries.filter fun e => e.1 ≠ k⟩

theorem equalRange_erase (m : UnorderedMultimap K V) (k a : K) :
    (m.erase k).equalRange a = if a = k then [] else m.equalRange a := by
  rw [equalRange, erase, List.filter_filter]
  by_cases same : a = k
  · subst same
    rw [if_pos rfl, List.filter_eq_nil_iff.mpr]
    · rfl
    · intro e _
      simp
  · rw [if_neg same, equalRange]
    congr 1
    apply List.filter_congr
    intro e _
    by_cases here : e.1 = a
    · simp [here, same]
    · simp [here]

end UnorderedMultimap

end UdpStuff.Theory

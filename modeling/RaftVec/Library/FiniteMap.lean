import Mathlib

/-!
# Rebuilding a finite map from its entries

A map sent through a list of its values comes back under the keys found in the values.
When every value carries its own key, nothing is lost on the way. A map whose entries are
written over another's takes precedence where it has an entry.
-/

namespace FiniteMap

open Std

variable {K V W : Type*} [Ord K] [TransOrd K] [LawfulEqOrd K]

omit [LawfulEqOrd K] in
/-- The entries of a map are listed without repetition. -/
theorem nodup_toList (m : ExtTreeMap K V) : m.toList.Nodup := by
  apply List.Nodup.of_map Prod.fst
  rw [ExtTreeMap.map_fst_toList_eq_keys]
  exact ExtTreeMap.nodup_keys

/-- Rebuilding a map from its values under their own keys maps the values in place. -/
theorem getElem?_ofList_values [DecidableEq K] (m : ExtTreeMap K V) (key : V → K) (f : V → W)
    (hkey : ∀ k v, m[k]? = some v → key v = k) (k : K) :
    (ExtTreeMap.ofList (m.toList.map fun entry => (key entry.2, f entry.2)) compare)[k]? =
      m[k]?.map f := by
  have hkeyed : m.toList.map (fun entry => (key entry.2, f entry.2)) =
      m.toList.map fun entry => (entry.1, f entry.2) := by
    apply List.map_congr_left
    intro entry hentry
    rw [hkey entry.1 entry.2 (ExtTreeMap.mem_toList_iff_getElem?_eq_some.mp hentry)]
  rw [hkeyed]
  have hdistinct : (m.toList.map fun entry => (entry.1, f entry.2)).Pairwise
      fun a b => ¬ compare a.1 b.1 = .eq :=
    List.pairwise_map.mpr m.distinct_keys_toList
  cases hlookup : m[k]? with
  | some v =>
    have hmem : (k, f v) ∈ m.toList.map fun entry => (entry.1, f entry.2) :=
      List.mem_map.mpr ⟨(k, v), ExtTreeMap.mem_toList_iff_getElem?_eq_some.mpr hlookup, rfl⟩
    exact ExtTreeMap.getElem?_ofList_of_mem ReflCmp.compare_self hdistinct hmem
  | none =>
    apply ExtTreeMap.getElem?_ofList_of_contains_eq_false
    rw [List.contains_eq_mem, decide_eq_false_iff_not]
    intro hmem
    obtain ⟨pair, hpair, hfst⟩ := List.mem_map.mp hmem
    obtain ⟨entry, hentry, rfl⟩ := List.mem_map.mp hpair
    subst hfst
    rw [ExtTreeMap.mem_toList_iff_getElem?_eq_some.mp hentry] at hlookup
    cases hlookup

/-- A map whose listing has no last entry holds nothing. -/
theorem getElem?_of_getLast?_none {m : ExtTreeMap K V} (h : m.toList.getLast? = none) (k : K) :
    m[k]? = none := by
  rw [List.getLast?_eq_none_iff] at h
  cases hlookup : m[k]? with
  | none => rfl
  | some v =>
    have hmem := ExtTreeMap.mem_toList_iff_getElem?_eq_some.mpr hlookup
    rw [h] at hmem
    cases hmem

/-- The last entry of the listing is held and has the greatest key. -/
theorem getElem?_of_getLast? {m : ExtTreeMap K V} {entry : K × V} (h : m.toList.getLast? = some entry) :
    m[entry.1]? = some entry.2 ∧ ∀ k ∈ m, (compare k entry.1).isLE := by
  obtain ⟨front, hfront⟩ := List.getLast?_eq_some_iff.mp h
  have hordered := m.ordered_keys_toList
  rw [hfront, List.pairwise_append] at hordered
  refine ⟨ExtTreeMap.mem_toList_iff_getElem?_eq_some.mp (by simp [hfront]), ?_⟩
  intro k hk
  obtain ⟨v, hv⟩ := Option.isSome_iff_exists.mp (ExtTreeMap.mem_iff_isSome_getElem?.mp hk)
  have hmem := ExtTreeMap.mem_toList_iff_getElem?_eq_some.mpr hv
  rw [hfront, List.mem_append, List.mem_singleton] at hmem
  cases hmem with
  | inl hbefore =>
    rw [hordered.2.2 (k, v) hbefore entry (List.mem_singleton_self entry)]
    rfl
  | inr hlast =>
    subst hlast
    exact ReflCmp.isLE_rfl

/-- The only listing of a map's entries in key order is its own. -/
theorem toList_eq_of_ordered {m : ExtTreeMap K V} {entries : List (K × V)}
    (hordered : entries.Pairwise fun a b => compare a.1 b.1 = .lt)
    (hmem : ∀ entry, entry ∈ entries ↔ m[entry.1]? = some entry.2) : m.toList = entries := by
  have hnodup : entries.Nodup := by
    apply hordered.imp
    intro a b hlt heq
    have hself : compare b.1 b.1 = .eq := ReflCmp.compare_self
    rw [heq, hself] at hlt
    cases hlt
  have hperm : m.toList.Perm entries := by
    rw [List.perm_ext_iff_of_nodup (nodup_toList m) hnodup]
    intro entry
    rw [hmem, ExtTreeMap.mem_toList_iff_getElem?_eq_some]
  refine hperm.eq_of_pairwise ?_ m.ordered_keys_toList hordered
  intro a b _ _ hab hba
  have hswap : compare a.1 b.1 = (compare b.1 a.1).swap := OrientedCmp.eq_swap
  rw [hswap, hba] at hab
  cases hab

/-- A list of a map's entries that has each key once, and all of them, gives the map back. -/
theorem ofList_eq_of_entries [DecidableEq K] {m : ExtTreeMap K V} {entries : List (K × V)}
    (hnodup : (entries.map Prod.fst).Nodup) (hheld : ∀ entry ∈ entries, m[entry.1]? = some entry.2)
    (hall : ∀ k, k ∈ m → k ∈ entries.map Prod.fst) : ExtTreeMap.ofList entries compare = m := by
  have hdistinct : entries.Pairwise fun a b => ¬ compare a.1 b.1 = .eq := by
    refine (List.pairwise_map.mp hnodup).imp ?_
    intro a b hne heq
    exact hne (LawfulEqCmp.eq_of_compare heq)
  apply ExtTreeMap.ext_getElem?
  intro k
  by_cases hk : k ∈ entries.map Prod.fst
  · obtain ⟨entry, hentry, rfl⟩ := List.mem_map.mp hk
    rw [hheld entry hentry]
    exact ExtTreeMap.getElem?_ofList_of_mem ReflCmp.compare_self hdistinct hentry
  · rw [ExtTreeMap.getElem?_eq_none (mt (hall k) hk)]
    apply ExtTreeMap.getElem?_ofList_of_contains_eq_false
    rw [List.contains_eq_mem, decide_eq_false_iff_not]
    exact hk

/-- A map restricted to some keys lists the entries with those keys. -/
theorem toList_perm_filter [DecidableEq K] {m restricted : ExtTreeMap K V} (p : K → Bool)
    (h : ∀ k, restricted[k]? = if p k then m[k]? else none) :
    restricted.toList.Perm (m.toList.filter fun entry => p entry.1) := by
  rw [List.perm_ext_iff_of_nodup (nodup_toList restricted) ((nodup_toList m).filter _)]
  intro entry
  rw [List.mem_filter, ExtTreeMap.mem_toList_iff_getElem?_eq_some,
    ExtTreeMap.mem_toList_iff_getElem?_eq_some, h]
  cases p entry.1 <;> simp

/-- Inserting entries with distinct keys overwrites what they name. -/
theorem getElem?_foldl_insert [DecidableEq K] {entries : List (K × V)} (hnodup : (entries.map Prod.fst).Nodup)
    (f : V → W) (m : ExtTreeMap K W) (k : K) :
    (entries.foldl (fun m entry => m.insert entry.1 (f entry.2)) m)[k]? =
      ((entries.find? fun entry => entry.1 = k).map fun entry => f entry.2).or m[k]? := by
  induction entries generalizing m with
  | nil => rfl
  | cons entry entries ih =>
    obtain ⟨hfresh, hrest⟩ := List.nodup_cons.mp hnodup
    rw [List.foldl_cons, ih hrest, List.find?_cons, ExtTreeMap.getElem?_insert]
    by_cases hkey : entry.1 = k
    · have hnone : entries.find? (fun entry => entry.1 = k) = none := by
        rw [List.find?_eq_none]
        intro other hother hsame
        rw [decide_eq_true_eq] at hsame
        exact hfresh (hkey.trans hsame.symm ▸ List.mem_map_of_mem hother)
      simp [hnone, hkey]
    · simp [hkey]

/-- Inserting a whole map overwrites what it holds. -/
theorem getElem?_foldl_toList [DecidableEq K] (entries : ExtTreeMap K V) (f : V → W) (m : ExtTreeMap K W) (k : K) :
    (entries.toList.foldl (fun m entry => m.insert entry.1 (f entry.2)) m)[k]? = (entries[k]?.map f).or m[k]? := by
  have hkeys : (entries.toList.map Prod.fst).Nodup := by
    rw [ExtTreeMap.map_fst_toList_eq_keys]
    exact ExtTreeMap.nodup_keys
  rw [getElem?_foldl_insert hkeys]
  congr 1
  cases hlookup : entries[k]? with
  | none =>
    have hnone : entries.toList.find? (fun entry => entry.1 = k) = none := by
      rw [List.find?_eq_none]
      rintro ⟨key, v⟩ hentry hsame
      obtain rfl : key = k := of_decide_eq_true hsame
      rw [ExtTreeMap.mem_toList_iff_getElem?_eq_some.mp hentry] at hlookup
      cases hlookup
    rw [hnone]
    rfl
  | some v =>
    cases hfind : entries.toList.find? fun entry => entry.1 = k with
    | none =>
      have hmem := ExtTreeMap.mem_toList_iff_getElem?_eq_some.mpr hlookup
      simpa using List.find?_eq_none.mp hfind _ hmem
    | some entry =>
      have hkey : entry.1 = k := by simpa using List.find?_some hfind
      have hheld := ExtTreeMap.mem_toList_iff_getElem?_eq_some.mp (List.mem_of_find?_eq_some hfind)
      rw [hkey, hlookup] at hheld
      rw [Option.map_some, Option.map_some, Option.some.inj hheld]

end FiniteMap

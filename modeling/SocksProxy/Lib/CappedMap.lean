import Mathlib.Data.List.InsertIdx
import Mathlib.Data.List.Nodup
import Mathlib.Logic.Function.Basic
import Mathlib.Tactic.Common

/-! Finite maps that remember the order of insertion and hold a bounded number of keys. -/
namespace SocksProxy

structure CappedMap (κ α : Type) (capacity : ℕ) where
  keys : List κ
  value : κ → Option α
  nodup : keys.Nodup
  bounded : keys.length ≤ capacity
  mem_keys : ∀ k, k ∈ keys ↔ (value k).isSome = true

namespace CappedMap

variable {κ α : Type} {capacity : ℕ}

def empty : CappedMap κ α capacity :=
  ⟨[], fun _ => none, List.nodup_nil, Nat.zero_le _, by simp⟩

/-! A list of records, in the order of the keys, whose fields are the keys and values. -/

variable {ρ : Type} {key : ρ → κ} {val : ρ → α} {m m' : CappedMap κ α capacity} {rs : List ρ}
  {k : κ} {v : α} {p : ρ → Bool}

structure Represents (key : ρ → κ) (val : ρ → α) (rs : List ρ) (m : CappedMap κ α capacity) :
    Prop where
  keys : rs.map key = m.keys
  values : ∀ r ∈ rs, m.value (key r) = some (val r)

theorem represents_empty (key : ρ → κ) (val : ρ → α) :
    Represents key val [] (empty : CappedMap κ α capacity) :=
  ⟨rfl, nofun⟩

theorem Represents.length (h : Represents key val rs m) : rs.length = m.keys.length := by
  rw [← h.keys, List.length_map]

theorem Represents.nodup (h : Represents key val rs m) : (rs.map key).Nodup := by
  rw [h.keys]
  exact m.nodup

theorem Represents.key_ne (h : Represents key val rs m) {i j : ℕ} (hi : i < rs.length)
    (hj : j < rs.length) (hne : j ≠ i) : key rs[j] ≠ key rs[i] := by
  intro he
  have hi' : i < (rs.map key).length := by rwa [List.length_map]
  have hj' : j < (rs.map key).length := by rwa [List.length_map]
  have hmap : (rs.map key)[j] = (rs.map key)[i] := by
    rw [List.getElem_map, List.getElem_map]
    exact he
  exact hne (h.nodup.getElem_inj_iff.mp hmap)

/-- The search for the first record with a key finds it exactly when the map has it. -/
theorem Represents.findIdx?_eq_none (h : Represents key val rs m)
    (hp : ∀ r, p r = true ↔ key r = k) : rs.findIdx? p = none ↔ k ∉ m.keys := by
  rw [List.findIdx?_eq_none_iff, ← h.keys, List.mem_map]
  constructor
  · rintro hno ⟨r, hr, hk⟩
    exact absurd ((hp r).mpr hk) (by rw [hno r hr]; nofun)
  · intro hno r hr
    exact Bool.eq_false_iff.mpr fun hpr => hno ⟨r, hr, (hp r).mp hpr⟩

theorem Represents.findIdx?_eq_some (h : Represents key val rs m)
    (hp : ∀ r, p r = true ↔ key r = k) {i : ℕ} (hi : rs.findIdx? p = some i) :
    ∃ hlt : i < rs.length, key rs[i] = k ∧ k ∈ m.keys ∧ m.value k = some (val rs[i]) := by
  obtain ⟨hlt, hkey, -⟩ := List.findIdx?_eq_some_iff_getElem.mp hi
  have hk : key rs[i] = k := (hp _).mp hkey
  have hmem : rs[i] ∈ rs := List.getElem_mem hlt
  refine ⟨hlt, hk, ?_, ?_⟩
  · rw [← h.keys, ← hk]
    exact List.mem_map_of_mem hmem
  · rw [← hk]
    exact h.values _ hmem

variable [DecidableEq κ]

/-- Nothing when the key is taken or the map is full. -/
def insert (m : CappedMap κ α capacity) (k : κ) (v : α) : Option (CappedMap κ α capacity) :=
  if h : k ∉ m.keys ∧ m.keys.length < capacity then
    some {
      keys := m.keys ++ [k]
      value := Function.update m.value k (some v)
      nodup := by
        rw [List.nodup_append]
        refine ⟨m.nodup, List.nodup_singleton k, ?_⟩
        intro a ha b hb hab
        rw [List.mem_singleton.mp hb] at hab
        exact h.1 (hab ▸ ha)
      bounded := by
        rw [List.length_append]
        exact h.2
      mem_keys := by
        intro k'
        rw [List.mem_append, List.mem_singleton, m.mem_keys]
        by_cases hk : k' = k
        · simp [hk]
        · simp [hk] }
  else none

def set (m : CappedMap κ α capacity) (k : κ) (v : α) : Option (CappedMap κ α capacity) :=
  if h : k ∈ m.keys then
    some { m with
      value := Function.update m.value k (some v)
      mem_keys := by
        intro k'
        by_cases hk : k' = k
        · simp [hk, h]
        · simp [hk, m.mem_keys] }
  else none

def erase (m : CappedMap κ α capacity) (k : κ) : Option (CappedMap κ α capacity) :=
  if k ∈ m.keys then
    some {
      keys := m.keys.erase k
      value := Function.update m.value k none
      nodup := m.nodup.erase k
      bounded := Nat.le_trans List.length_erase_le m.bounded
      mem_keys := by
        intro k'
        rw [m.nodup.mem_erase_iff]
        by_cases hk : k' = k
        · simp [hk]
        · simp [hk, m.mem_keys] }
  else none

theorem insert_eq_none (h : k ∈ m.keys) : m.insert k v = none :=
  dif_neg fun hn => hn.1 h

theorem exists_insert (v : α) (h : k ∉ m.keys) (hroom : m.keys.length < capacity) :
    ∃ m', m.insert k v = some m' := by
  unfold CappedMap.insert
  exact ⟨_, dif_pos ⟨h, hroom⟩⟩

theorem exists_set (v : α) (h : k ∈ m.keys) : ∃ m', m.set k v = some m' := by
  unfold CappedMap.set
  exact ⟨_, dif_pos h⟩

theorem exists_erase (h : k ∈ m.keys) : ∃ m', m.erase k = some m' := by
  unfold CappedMap.erase
  exact ⟨_, if_pos h⟩

theorem Represents.insert (h : Represents key val rs m) (hi : m.insert k v = some m') {r : ρ}
    (hk : key r = k) (hv : val r = v) : Represents key val (rs ++ [r]) m' := by
  unfold CappedMap.insert at hi
  split_ifs at hi with hnew
  obtain rfl := Option.some.inj hi
  refine ⟨?_, ?_⟩
  · rw [List.map_append, h.keys, List.map_cons, hk]
    rfl
  · intro r' hr'
    rcases List.mem_append.mp hr' with hr' | hr'
    · have hne : key r' ≠ k := by
        rintro rfl
        exact hnew.1 (h.keys ▸ List.mem_map_of_mem hr')
      change Function.update m.value k (some v) (key r') = _
      rw [Function.update_of_ne hne]
      exact h.values r' hr'
    · rw [List.mem_singleton.mp hr', hk, hv]
      exact Function.update_self _ _ _

theorem Represents.set (h : Represents key val rs m) (hs : m.set k v = some m') {i : ℕ}
    (hlt : i < rs.length) (hk : key rs[i] = k) {f : ρ → ρ} (hf : ∀ r, key (f r) = key r)
    (hv : val (f rs[i]) = v) : Represents key val (rs.modify i f) m' := by
  unfold CappedMap.set at hs
  split_ifs at hs with hmem
  obtain rfl := Option.some.inj hs
  have hlen : (rs.modify i f).length = rs.length := List.length_modify ..
  refine ⟨?_, ?_⟩
  · rw [← h.keys]
    refine List.ext_getElem (by simp) ?_
    intro j hj hj'
    rw [List.getElem_map, List.getElem_map, List.getElem_modify]
    split_ifs
    · exact hf _
    · rfl
  · intro r hr
    obtain ⟨j, hj, rfl⟩ := List.mem_iff_getElem.mp hr
    have hj' : j < rs.length := by rwa [hlen] at hj
    rw [List.getElem_modify]
    change Function.update m.value k (some v) _ = _
    by_cases hij : i = j
    · subst hij
      rw [if_pos rfl, hf, hk, Function.update_self, hv]
    · rw [if_neg hij, Function.update_of_ne]
      · exact h.values _ (List.getElem_mem hj')
      · rw [← hk]
        exact h.key_ne hlt hj' (Ne.symm hij)

theorem Represents.erase (h : Represents key val rs m) (he : m.erase k = some m') {i : ℕ}
    (hlt : i < rs.length) (hk : key rs[i] = k) : Represents key val (rs.eraseIdx i) m' := by
  unfold CappedMap.erase at he
  split_ifs at he with hmem
  obtain rfl := Option.some.inj he
  refine ⟨?_, ?_⟩
  · change _ = m.keys.erase k
    have hlt' : i < m.keys.length := by
      rw [← h.length]
      exact hlt
    have hget : m.keys[i] = k := by
      have hsame : m.keys[i]? = some k := by
        rw [← h.keys, List.getElem?_map, List.getElem?_eq_getElem hlt, Option.map_some, hk]
      exact (List.getElem?_eq_some_iff.mp hsame).2
    rw [← hget, m.nodup.erase_getElem i hlt', ← h.keys]
    exact (List.eraseIdx_map ..).symm
  · intro r hr
    obtain ⟨j, hj, rfl⟩ := List.mem_iff_getElem.mp (List.mem_of_mem_eraseIdx hr)
    change Function.update m.value k none _ = _
    rw [Function.update_of_ne]
    · exact h.values _ (List.getElem_mem hj)
    · rw [← hk]
      refine h.key_ne hlt hj ?_
      rintro rfl
      have hnodup : rs.Nodup := List.Nodup.of_map key h.nodup
      obtain ⟨j', hj', hne, heq⟩ := List.mem_eraseIdx_iff_getElem.mp hr
      exact hne (hnodup.getElem_inj_iff.mp heq)

end CappedMap

end SocksProxy

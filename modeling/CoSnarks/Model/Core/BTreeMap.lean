import Mathlib.Order.Basic
import Mathlib.Data.String.Basic

/-! # Ordered maps with canonical iteration

`std::collections::BTreeMap` as the input-merging code observes it. Keys are ordered by their
`Ord` instance, as in Rust; iteration visits the entries in strictly increasing key order,
`insert` and `remove` hand back the value they displace, and `len` counts entries. The strict
order is a field of the map, so no map with a repeated key can be built.
-/

namespace CoSnarks.Model.Core

open Batteries

/-- Entries in strictly increasing key order. -/
structure BTreeMap (K V : Type) [Ord K] where
  entries : List (K × V)
  sorted : entries.Pairwise (fun a b => compare a.1 b.1 = .lt)

namespace BTreeMap

variable {K V : Type}

section Entries

variable [DecidableEq K]

/-- Lookup along a list of entries; the first entry with the key answers. -/
def lookup (key : K) : List (K × V) → Option V
  | [] => none
  | (k, v) :: rest => if k = key then some v else lookup key rest

/-- Removal of the entry with a key, returning its value. -/
def removeEntry (key : K) : List (K × V) → Option V × List (K × V)
  | [] => (none, [])
  | (k, v) :: rest =>
    if key = k then (some v, rest)
    else ((removeEntry key rest).1, (k, v) :: (removeEntry key rest).2)

@[simp] theorem lookup_nil (key : K) : lookup key ([] : List (K × V)) = none := rfl

@[simp] theorem lookup_cons (key k : K) (v : V) (rest : List (K × V)) :
    lookup key ((k, v) :: rest) = if k = key then some v else lookup key rest := rfl

theorem lookup_eq_none {key : K} {entries : List (K × V)}
    (absent : ∀ entry ∈ entries, entry.1 ≠ key) : lookup key entries = none := by
  induction entries with
  | nil => rfl
  | cons entry rest ih =>
    obtain ⟨k, v⟩ := entry
    simp only [lookup_cons, absent (k, v) (List.mem_cons_self _ _), if_false]
    exact ih fun other member => absent other (List.mem_cons_of_mem _ member)

theorem mem_of_lookup {key : K} {value : V} {entries : List (K × V)}
    (found : lookup key entries = some value) : (key, value) ∈ entries := by
  induction entries with
  | nil => cases found
  | cons entry rest ih =>
    obtain ⟨k, v⟩ := entry
    simp only [lookup_cons] at found
    split_ifs at found with same
    · cases found
      rw [same]
      exact List.mem_cons_self _ _
    · exact List.mem_cons_of_mem _ (ih found)

theorem removeEntry_sublist (key : K) (entries : List (K × V)) :
    (removeEntry key entries).2.Sublist entries := by
  induction entries with
  | nil => exact List.Sublist.slnil
  | cons head rest ih =>
    obtain ⟨k, v⟩ := head
    simp only [removeEntry]
    split_ifs
    · exact List.sublist_cons_self _ _
    · exact ih.cons₂ _

theorem removeEntry_fst (key : K) (entries : List (K × V)) :
    (removeEntry key entries).1 = lookup key entries := by
  induction entries with
  | nil => rfl
  | cons head rest ih =>
    obtain ⟨k, v⟩ := head
    by_cases same : key = k
    · subst same
      simp [removeEntry]
    · simp [removeEntry, same, Ne.symm same, ih]

end Entries

section Order

variable [Ord K]

/-- Sorted insertion, returning the replaced value. -/
def insertEntry (key : K) (value : V) : List (K × V) → Option V × List (K × V)
  | [] => (none, [(key, value)])
  | (k, v) :: rest =>
    match compare key k with
    | .lt => (none, (key, value) :: (k, v) :: rest)
    | .eq => (some v, (key, value) :: rest)
    | .gt => ((insertEntry key value rest).1, (k, v) :: (insertEntry key value rest).2)

theorem mem_insertEntry {key : K} {value : V} {entries : List (K × V)} {entry : K × V}
    (member : entry ∈ (insertEntry key value entries).2) : entry.1 = key ∨ entry ∈ entries := by
  induction entries with
  | nil => simp_all [insertEntry]
  | cons head rest ih =>
    obtain ⟨k, v⟩ := head
    simp only [insertEntry] at member
    split at member
    · rcases List.mem_cons.mp member with rfl | old
      · exact .inl rfl
      · exact .inr old
    · rcases List.mem_cons.mp member with rfl | later
      · exact .inl rfl
      · exact .inr (List.mem_cons_of_mem _ later)
    · rcases List.mem_cons.mp member with rfl | later
      · exact .inr (List.mem_cons_self _ _)
      · exact (ih later).imp_right (List.mem_cons_of_mem _)

variable [TransOrd K]

theorem ne_of_compare_lt {a b : K} (below : compare a b = .lt) : a ≠ b := by
  rintro rfl
  simp [OrientedCmp.cmp_refl] at below

variable [DecidableEq K]

/-- Keys after the head of sorted entries are strictly above it, so they miss its key. -/
theorem lookup_of_sorted_cons {key : K} {rest : List (K × V)}
    (above : ∀ entry ∈ rest, compare key entry.1 = .lt) : lookup key rest = none :=
  lookup_eq_none fun entry member => (ne_of_compare_lt (above entry member)).symm

/-- In sorted entries, the key of an entry finds that entry. -/
theorem lookup_of_mem {key : K} {value : V} {entries : List (K × V)}
    (sorted : entries.Pairwise (fun a b => compare a.1 b.1 = .lt)) (member : (key, value) ∈ entries) :
    lookup key entries = some value := by
  induction entries with
  | nil => cases member
  | cons entry rest ih =>
    obtain ⟨k, v⟩ := entry
    rw [List.pairwise_cons] at sorted
    rcases List.mem_cons.mp member with same | later
    · cases same
      simp
    · simp only [lookup_cons, ne_of_compare_lt (sorted.1 _ later), if_false]
      exact ih sorted.2 later

theorem lookup_removeEntry (key other : K) {entries : List (K × V)}
    (sorted : entries.Pairwise (fun a b => compare a.1 b.1 = .lt)) :
    lookup other (removeEntry key entries).2 =
      if key = other then none else lookup other entries := by
  induction entries with
  | nil => simp [removeEntry]
  | cons head rest ih =>
    obtain ⟨k, v⟩ := head
    rw [List.pairwise_cons] at sorted
    by_cases same : key = k
    · subst same
      by_cases found : key = other
      · subst found
        simpa [removeEntry] using lookup_of_sorted_cons (V := V) sorted.1
      · simp [removeEntry, found]
    · simp only [removeEntry, same, if_false, lookup_cons, ih sorted.2]
      by_cases hk : k = other
      · subst hk
        simp [same]
      · simp [hk]

/-- Sorted entries are determined by their lookups. -/
theorem entries_eq_of_lookup :
    ∀ {entries others : List (K × V)}, entries.Pairwise (fun a b => compare a.1 b.1 = .lt) →
      others.Pairwise (fun a b => compare a.1 b.1 = .lt) →
      (∀ key, lookup key entries = lookup key others) → entries = others
  | [], [], _, _, _ => rfl
  | [], (k, v) :: _, _, _, same => by simpa using same k
  | (k, v) :: _, [], _, _, same => by simpa using same k
  | (k, v) :: rest, (k', v') :: rest', sorted, sorted', same => by
    rw [List.pairwise_cons] at sorted sorted'
    have head : k = k' := by
      by_contra distinct
      have mine : (k, v) ∈ rest' := by
        have found := same k
        simp only [lookup_cons, if_pos rfl, if_neg (Ne.symm distinct)] at found
        exact mem_of_lookup found.symm
      have theirs : (k', v') ∈ rest := by
        have found := same k'
        simp only [lookup_cons, if_pos rfl, if_neg distinct] at found
        exact mem_of_lookup found
      have below := sorted.1 _ theirs
      rw [OrientedCmp.cmp_eq_gt.mpr (sorted'.1 _ mine)] at below
      cases below
    subst head
    obtain rfl : v = v' := by simpa using same k
    refine congrArg _ (entries_eq_of_lookup sorted.2 sorted'.2 fun key => ?_)
    by_cases first : k = key
    · subst first
      rw [lookup_of_sorted_cons sorted.1, lookup_of_sorted_cons sorted'.1]
    · simpa [first] using same key

variable [BEqOrd K]

omit [TransOrd K] in
theorem compare_eq_iff {a b : K} : compare a b = .eq ↔ a = b := BEqCmp.cmp_iff_eq

theorem insertEntry_sorted (key : K) (value : V) {entries : List (K × V)}
    (sorted : entries.Pairwise (fun a b => compare a.1 b.1 = .lt)) :
    (insertEntry key value entries).2.Pairwise (fun a b => compare a.1 b.1 = .lt) := by
  induction entries with
  | nil => simp [insertEntry]
  | cons head rest ih =>
    obtain ⟨k, v⟩ := head
    rw [List.pairwise_cons] at sorted
    simp only [insertEntry]
    split
    · rename_i below
      refine List.Pairwise.cons (fun other member => ?_) (List.Pairwise.cons sorted.1 sorted.2)
      rcases List.mem_cons.mp member with rfl | later
      · exact below
      · exact TransCmp.lt_trans below (sorted.1 _ later)
    · rename_i same
      obtain rfl := compare_eq_iff.mp same
      exact List.Pairwise.cons sorted.1 sorted.2
    · rename_i above
      refine List.Pairwise.cons (fun other member => ?_) (ih sorted.2)
      rcases mem_insertEntry member with first | old
      · exact first ▸ OrientedCmp.cmp_eq_gt.mp above
      · exact sorted.1 _ old

theorem lookup_insertEntry (key other : K) (value : V) (entries : List (K × V)) :
    lookup other (insertEntry key value entries).2 =
      if key = other then some value else lookup other entries := by
  induction entries with
  | nil => simp [insertEntry]
  | cons head rest ih =>
    obtain ⟨k, v⟩ := head
    simp only [insertEntry]
    split
    · simp
    · rename_i same
      obtain rfl := compare_eq_iff.mp same
      by_cases found : key = other <;> simp [found]
    · rename_i above
      have distinct : k ≠ key := ne_of_compare_lt (OrientedCmp.cmp_eq_gt.mp above)
      simp only [lookup_cons, ih]
      by_cases hk : k = other
      · subst hk
        simp [distinct.symm]
      · simp [hk]

theorem insertEntry_fst (key : K) (value : V) {entries : List (K × V)}
    (sorted : entries.Pairwise (fun a b => compare a.1 b.1 = .lt)) :
    (insertEntry key value entries).1 = lookup key entries := by
  induction entries with
  | nil => rfl
  | cons head rest ih =>
    obtain ⟨k, v⟩ := head
    rw [List.pairwise_cons] at sorted
    simp only [insertEntry, lookup_cons]
    split
    · rename_i below
      rw [if_neg (ne_of_compare_lt below).symm]
      exact (lookup_of_sorted_cons fun entry member =>
        TransCmp.lt_trans below (sorted.1 entry member)).symm
    · rename_i same
      obtain rfl := compare_eq_iff.mp same
      simp
    · rename_i above
      rw [if_neg (ne_of_compare_lt (OrientedCmp.cmp_eq_gt.mp above))]
      exact ih sorted.2

end Order

section Map

variable [Ord K]

/-- `BTreeMap::new`. -/
def new : BTreeMap K V := ⟨[], .nil⟩

/-- `BTreeMap::len`. -/
def len (map : BTreeMap K V) : Nat := map.entries.length

/-- `BTreeMap::keys`, in iteration order. -/
def keys (map : BTreeMap K V) : List K := map.entries.map Prod.fst

@[simp] theorem keys_new : (new : BTreeMap K V).keys = [] := rfl

theorem ext_entries {map other : BTreeMap K V} (same : map.entries = other.entries) :
    map = other := by
  cases map
  cases other
  cases same
  rfl

variable [DecidableEq K]

instance [DecidableEq V] : DecidableEq (BTreeMap K V) := fun map other =>
  decidable_of_iff (map.entries = other.entries) ⟨ext_entries, fun same => same ▸ rfl⟩

/-- `BTreeMap::get`. -/
def get (map : BTreeMap K V) (key : K) : Option V := lookup key map.entries

/-- `BTreeMap::contains_key`. -/
def containsKey (map : BTreeMap K V) (key : K) : Bool := (map.get key).isSome

@[simp] theorem get_new (key : K) : (new : BTreeMap K V).get key = none := rfl

theorem containsKey_iff (map : BTreeMap K V) (key : K) :
    map.containsKey key = true ↔ ∃ value, map.get key = some value :=
  Option.isSome_iff_exists

theorem mem_of_get {map : BTreeMap K V} {key : K} {value : V}
    (found : map.get key = some value) : (key, value) ∈ map.entries :=
  mem_of_lookup found

/-- `BTreeMap::remove`: the removed value and the updated map. -/
def remove (map : BTreeMap K V) (key : K) : Option V × BTreeMap K V :=
  ((removeEntry key map.entries).1,
    ⟨(removeEntry key map.entries).2, map.sorted.sublist (removeEntry_sublist key map.entries)⟩)

@[simp] theorem remove_fst (map : BTreeMap K V) (key : K) :
    (map.remove key).1 = map.get key :=
  removeEntry_fst key map.entries

/-- The pair a removal returns, with its first component read as a lookup. -/
theorem remove_eq (map : BTreeMap K V) (key : K) :
    map.remove key = (map.get key, (map.remove key).2) :=
  Prod.ext (remove_fst ..) rfl

variable [TransOrd K]

@[simp] theorem get_remove (map : BTreeMap K V) (key other : K) :
    (map.remove key).2.get other = if key = other then none else map.get other :=
  lookup_removeEntry key other map.sorted

theorem get_of_mem {map : BTreeMap K V} {key : K} {value : V}
    (member : (key, value) ∈ map.entries) : map.get key = some value :=
  lookup_of_mem map.sorted member

theorem get_eq_none_iff (map : BTreeMap K V) (key : K) :
    map.get key = none ↔ key ∉ map.keys := by
  constructor
  · intro absent member
    obtain ⟨⟨k, v⟩, entry, same⟩ := List.mem_map.mp member
    cases same
    simp [get_of_mem entry] at absent
  · intro absent
    exact lookup_eq_none fun entry member same =>
      absent (List.mem_map.mpr ⟨entry, member, same⟩)

/-- Maps with the same value under every key are equal. -/
theorem ext_get {map other : BTreeMap K V} (same : ∀ key, map.get key = other.get key) :
    map = other :=
  ext_entries (entries_eq_of_lookup map.sorted other.sorted same)

omit [DecidableEq K] in
theorem keys_nodup (map : BTreeMap K V) : map.keys.Nodup :=
  (List.pairwise_map.mpr map.sorted).imp ne_of_compare_lt

@[simp] theorem containsKey_iff_mem (map : BTreeMap K V) (key : K) :
    map.containsKey key = true ↔ key ∈ map.keys := by
  simp only [containsKey, get, keys, Option.isSome_iff_exists, List.mem_map]
  constructor
  · rintro ⟨value, found⟩
    exact ⟨(key, value), mem_of_lookup found, rfl⟩
  · rintro ⟨⟨k, value⟩, member, rfl⟩
    exact ⟨value, lookup_of_mem map.sorted member⟩

theorem mem_keys_iff (map : BTreeMap K V) (key : K) :
    key ∈ map.keys ↔ ∃ value, map.get key = some value := by
  rw [← containsKey_iff_mem, containsKey_iff]

@[simp] theorem mem_keys_remove (map : BTreeMap K V) (key other : K) :
    other ∈ (map.remove key).2.keys ↔ key ≠ other ∧ other ∈ map.keys := by
  simp only [mem_keys_iff, get_remove]
  split_ifs <;> simp_all

variable [BEqOrd K]

/-- `BTreeMap::insert`: the displaced value and the updated map. -/
def insert (map : BTreeMap K V) (key : K) (value : V) : Option V × BTreeMap K V :=
  ((insertEntry key value map.entries).1,
    ⟨(insertEntry key value map.entries).2, insertEntry_sorted key value map.sorted⟩)

@[simp] theorem get_insert (map : BTreeMap K V) (key other : K) (value : V) :
    (map.insert key value).2.get other = if key = other then some value else map.get other :=
  lookup_insertEntry key other value map.entries

@[simp] theorem insert_fst (map : BTreeMap K V) (key : K) (value : V) :
    (map.insert key value).1 = map.get key :=
  insertEntry_fst key value map.sorted

@[simp] theorem mem_keys_insert (map : BTreeMap K V) (key other : K) (value : V) :
    other ∈ (map.insert key value).2.keys ↔ key = other ∨ other ∈ map.keys := by
  simp only [mem_keys_iff, get_insert]
  split_ifs <;> simp_all

/-- The pair an insertion returns, with its first component read as a lookup. -/
theorem insert_eq (map : BTreeMap K V) (key : K) (value : V) :
    map.insert key value = (map.get key, (map.insert key value).2) :=
  Prod.ext (insert_fst ..) rfl

/-- Inserting under a name the map lacks, or under a name with the same value, keeps every
entry. -/
theorem get_insert_of_agrees {map : BTreeMap K V} {key : K} {value : V}
    (agrees : ∀ old, map.get key = some old → old = value) {other : K} {found : V}
    (entry : map.get other = some found) : (map.insert key value).2.get other = some found := by
  rw [get_insert]
  split_ifs with same
  · subst same
    rw [agrees found entry]
  · exact entry

theorem get_insert_of_absent {map : BTreeMap K V} {key : K} {value : V}
    (absent : map.get key = none) {other : K} {found : V}
    (entry : map.get other = some found) : (map.insert key value).2.get other = some found :=
  get_insert_of_agrees (fun _ present => by simp [absent] at present) entry

theorem get_eq_none_of_insert {map : BTreeMap K V} {key other : K} {value : V}
    (absent : (map.insert key value).2.get other = none) : map.get other = none := by
  rw [get_insert] at absent
  split_ifs at absent
  exact absent

/-- A name removed and inserted again holds the new value; every other name is untouched. -/
@[simp] theorem get_insert_remove (map : BTreeMap K V) (key other : K) (value : V) :
    ((map.remove key).2.insert key value).2.get other =
      if key = other then some value else map.get other := by
  simp only [get_insert, get_remove]
  split_ifs <;> rfl

end Map

end BTreeMap

end CoSnarks.Model.Core

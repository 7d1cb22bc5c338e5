import Cdec.Basic

/-!
# `Cdec.FastAlign.UMap` — the hash maps of `TTable`

`TTable::Word2Double` is `std::tr1::unordered_map<WordID, double>` and
`TTable::Word2Word2Double` an `unordered_map` from `WordID` to
`Word2Double`.  The programs use four operations on them: a lookup
(`find`), `operator[]` followed by an update of the entry (which inserts a
value-initialised entry first when the key is absent), a rewrite of every
value in place, and iteration.

A map is modelled by its entries in iteration order, each key at most once;
the key invariant is a field, so no map with a repeated key can be built.
The model iterates in insertion order.  The C++ order is unspecified but
fixed by the sequence of operations, which is all the theorems about
iteration use: that two runs performing the same operations iterate alike,
and that every entry is visited once.
-/

namespace Cdec

/-- `std::tr1::unordered_map<WordID, V>`: its entries in the order the map
iterates them, no key twice. -/
structure UMap (V : Type) where
  entries : List (WordID × V)
  nodup : (entries.map Prod.fst).Nodup

namespace UMap

variable {V W : Type}

/-- The value stored under `k` in an entry list, if any. -/
def lookup (k : WordID) : List (WordID × V) → Option V
  | [] => none
  | (k', v) :: es => if k' = k then some v else lookup k es

/-- `m[k]` then `g` applied to the entry, on an entry list: the entry of `k`
is rewritten in place, or `(k, g d)` is added last when `k` is absent. -/
def alterList (k : WordID) (d : V) (g : V → V) : List (WordID × V) → List (WordID × V)
  | [] => [(k, g d)]
  | (k', v) :: es => if k' = k then (k', g v) :: es else (k', v) :: alterList k d g es

theorem keys_alterList (k : WordID) (d : V) (g : V → V) (es : List (WordID × V)) :
    (alterList k d g es).map Prod.fst
      = if k ∈ es.map Prod.fst then es.map Prod.fst else es.map Prod.fst ++ [k] := by
  induction es with
  | nil => rfl
  | cons e es ih =>
      obtain ⟨k', v⟩ := e
      by_cases h : k' = k
      · subst h
        simp only [alterList, if_pos, List.map_cons, List.mem_cons, true_or, if_true]
      · have hm : k ∈ k' :: es.map Prod.fst ↔ k ∈ es.map Prod.fst := by
          rw [List.mem_cons, or_iff_right (Ne.symm h)]
        rw [alterList, if_neg h, List.map_cons, List.map_cons, ih, if_congr hm rfl rfl]
        split_ifs <;> rfl

theorem nodup_alterList (k : WordID) (d : V) (g : V → V) {es : List (WordID × V)}
    (h : (es.map Prod.fst).Nodup) : ((alterList k d g es).map Prod.fst).Nodup := by
  rw [keys_alterList]
  split_ifs with hk
  · exact h
  · exact h.append (List.nodup_singleton k) (List.disjoint_singleton.mpr hk)

/-- The empty map. -/
def empty : UMap V := ⟨[], List.nodup_nil⟩

/-- The keys, in iteration order. -/
def keys (m : UMap V) : List WordID := m.entries.map Prod.fst

/-- `m.find(k)`: the value stored under `k`, if any. -/
def find? (m : UMap V) (k : WordID) : Option V := lookup k m.entries

/-- `m[k]` followed by an update `g` of the entry; `d` is the value
`operator[]` inserts when `k` is absent. -/
def alter (m : UMap V) (k : WordID) (d : V) (g : V → V) : UMap V :=
  ⟨alterList k d g m.entries, nodup_alterList k d g m.nodup⟩

/-- Every value rewritten in place, keys and order kept. -/
def mapVal (m : UMap V) (g : WordID → V → W) : UMap W :=
  ⟨m.entries.map fun e => (e.1, g e.1 e.2), by simpa [Function.comp_def] using m.nodup⟩

/-- The sum, over the entries, of `g key value`. -/
def sum {R : Type} [AddCommMonoid R] (m : UMap V) (g : WordID → V → R) : R :=
  (m.entries.map fun e => g e.1 e.2).sum

/-! ## Lookup -/

theorem lookup_alterList_self (k : WordID) (d : V) (g : V → V) (es : List (WordID × V)) :
    lookup k (alterList k d g es) = some (g ((lookup k es).getD d)) := by
  induction es with
  | nil => simp [alterList, lookup]
  | cons e es ih =>
      obtain ⟨k', v⟩ := e
      by_cases h : k' = k <;> simp [alterList, lookup, h, ih]

theorem lookup_alterList_ne {k k' : WordID} (d : V) (g : V → V) (h : k' ≠ k)
    (es : List (WordID × V)) : lookup k' (alterList k d g es) = lookup k' es := by
  induction es with
  | nil => simp [alterList, lookup, Ne.symm h]
  | cons e es ih =>
      obtain ⟨k'', v⟩ := e
      by_cases h' : k'' = k
      · subst h'; simp [alterList, lookup, Ne.symm h]
      · simp [alterList, lookup, h', ih]

theorem lookup_isSome (k : WordID) (es : List (WordID × V)) :
    (lookup k es).isSome ↔ k ∈ es.map Prod.fst := by
  induction es with
  | nil => simp only [lookup, Option.isSome_none, Bool.false_eq_true, List.map_nil, List.not_mem_nil]
  | cons e es ih =>
      obtain ⟨k', v⟩ := e
      by_cases h : k' = k
      · simp only [lookup, h, if_true, Option.isSome_some, List.map_cons, List.mem_cons, true_or]
      · rw [lookup, if_neg h, ih, List.map_cons, List.mem_cons]
        exact (or_iff_right (Ne.symm h)).symm

theorem lookup_of_mem {k : WordID} {v : V} {es : List (WordID × V)}
    (hn : (es.map Prod.fst).Nodup) (h : (k, v) ∈ es) : lookup k es = some v := by
  induction es with
  | nil => cases h
  | cons e es ih =>
      obtain ⟨k', v'⟩ := e
      simp only [List.map_cons, List.nodup_cons] at hn
      rcases List.mem_cons.mp h with h | h
      · cases h; simp [lookup]
      · have hk : k' ≠ k := fun hk => hn.1 (hk ▸ List.mem_map_of_mem Prod.fst h)
        simp [lookup, hk, ih hn.2 h]

theorem mem_of_lookup {k : WordID} {v : V} {es : List (WordID × V)} (h : lookup k es = some v) :
    (k, v) ∈ es := by
  induction es with
  | nil => cases h
  | cons e es ih =>
      obtain ⟨k', v'⟩ := e
      unfold lookup at h
      split_ifs at h with hk
      · cases h; subst hk; exact List.mem_cons_self _ _
      · exact List.mem_cons_of_mem _ (ih h)

@[simp] theorem find?_empty (k : WordID) : (empty : UMap V).find? k = none := rfl

@[simp] theorem find?_alter_self (m : UMap V) (k : WordID) (d : V) (g : V → V) :
    (m.alter k d g).find? k = some (g ((m.find? k).getD d)) :=
  lookup_alterList_self k d g m.entries

theorem find?_alter_ne (m : UMap V) {k k' : WordID} (d : V) (g : V → V) (h : k' ≠ k) :
    (m.alter k d g).find? k' = m.find? k' :=
  lookup_alterList_ne d g h m.entries

theorem lookup_map (g : WordID → V → W) (k : WordID) (es : List (WordID × V)) :
    lookup k (es.map fun e => (e.1, g e.1 e.2)) = (lookup k es).map (g k) := by
  induction es with
  | nil => rfl
  | cons e es ih =>
      obtain ⟨k', v⟩ := e
      by_cases h : k' = k
      · subst h; simp [lookup]
      · simp [lookup, h, ih]

@[simp] theorem find?_mapVal (m : UMap V) (g : WordID → V → W) (k : WordID) :
    (m.mapVal g).find? k = (m.find? k).map (g k) :=
  lookup_map g k m.entries

theorem find?_isSome (m : UMap V) (k : WordID) : (m.find? k).isSome ↔ k ∈ m.keys :=
  lookup_isSome k m.entries

theorem find?_of_mem (m : UMap V) {k : WordID} {v : V} (h : (k, v) ∈ m.entries) :
    m.find? k = some v :=
  lookup_of_mem m.nodup h

theorem mem_of_find? (m : UMap V) {k : WordID} {v : V} (h : m.find? k = some v) :
    (k, v) ∈ m.entries :=
  mem_of_lookup h

/-! ## Keys -/

@[simp] theorem keys_empty : (empty : UMap V).keys = [] := rfl

@[simp] theorem keys_mapVal (m : UMap V) (g : WordID → V → W) : (m.mapVal g).keys = m.keys := by
  simp [keys, mapVal, Function.comp_def]

theorem keys_alter (m : UMap V) (k : WordID) (d : V) (g : V → V) :
    (m.alter k d g).keys = if k ∈ m.keys then m.keys else m.keys ++ [k] :=
  keys_alterList k d g m.entries

theorem mem_keys_alter (m : UMap V) (k k' : WordID) (d : V) (g : V → V) :
    k' ∈ (m.alter k d g).keys ↔ k' = k ∨ k' ∈ m.keys := by
  rw [keys_alter]
  split_ifs with h
  · exact ⟨Or.inr, fun h' => h'.elim (· ▸ h) id⟩
  · simp [or_comm]

/-! ## Sums over the entries

`alter` changes one summand: the one of the altered key, or, when the key
was absent, adds one whose default contributed nothing. -/

theorem sum_alterList {R : Type} [AddCommGroup R] (h : WordID → V → R) (k : WordID) (d : V)
    (g : V → V) (hd : h k d = 0) (es : List (WordID × V)) :
    ((alterList k d g es).map fun e => h e.1 e.2).sum
      = (es.map fun e => h e.1 e.2).sum + h k (g ((lookup k es).getD d))
          - h k ((lookup k es).getD d) := by
  induction es with
  | nil => simp [alterList, lookup, hd]
  | cons e es ih =>
      obtain ⟨k', v⟩ := e
      by_cases hk : k' = k
      · subst hk; simp [alterList, lookup]; abel
      · simp [alterList, lookup, hk, ih]; abel

theorem sum_alter {R : Type} [AddCommGroup R] (m : UMap V) (h : WordID → V → R) (k : WordID)
    (d : V) (g : V → V) (hd : h k d = 0) :
    (m.alter k d g).sum h = m.sum h + h k (g ((m.find? k).getD d)) - h k ((m.find? k).getD d) :=
  sum_alterList h k d g hd m.entries

@[simp] theorem sum_empty {R : Type} [AddCommMonoid R] (h : WordID → V → R) :
    (empty : UMap V).sum h = 0 := rfl

theorem sum_mapVal {R : Type} [AddCommMonoid R] (m : UMap V) (g : WordID → V → W)
    (h : WordID → W → R) : (m.mapVal g).sum h = m.sum fun k v => h k (g k v) := by
  simp [sum, mapVal, Function.comp_def]

/-! ## Iteration order

Two maps that find the same value under every key hold the same entries,
perhaps in another order, so a sum over the entries cannot tell them apart. -/

theorem mem_entries_iff (m : UMap V) {k : WordID} {v : V} :
    (k, v) ∈ m.entries ↔ m.find? k = some v :=
  ⟨find?_of_mem m, mem_of_find? m⟩

theorem entries_perm_of_find? {m m' : UMap V} (h : ∀ k, m.find? k = m'.find? k) :
    m.entries.Perm m'.entries :=
  (List.perm_ext_iff_of_nodup (m.nodup.of_map _) (m'.nodup.of_map _)).mpr fun ⟨k, v⟩ => by
    rw [mem_entries_iff, mem_entries_iff, h]

theorem sum_congr_find? {R : Type} [AddCommMonoid R] {m m' : UMap V}
    (h : ∀ k, m.find? k = m'.find? k) (g : WordID → V → R) : m.sum g = m'.sum g :=
  ((entries_perm_of_find? h).map _).sum_eq

end UMap

end Cdec

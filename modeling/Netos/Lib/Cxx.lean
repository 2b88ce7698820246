import Mathlib.Data.List.AList
import Mathlib.Data.List.Induction

/-!
# Unordered containers and durations

Pieces of the C++ standard library. A `std::unordered_map` is an association list with distinct keys
(`AList`), on which this module adds the erasing loop (`filter`) and the updating loop
(`mapValues`), each with its lookup law. A loop over such a container visits it in an order that the
language does not specify: an `Iteration` is one such order, and what is proved for every
`Iteration` holds whatever the implementation does. Times of the steady clock are integers of
nanoseconds.
-/

namespace Cxx

/-- `std::unordered_map`. -/
abbrev UnorderedMap (κ ν : Type) := AList fun _ : κ => ν

/-- `std::unordered_set`. -/
abbrev UnorderedSet (κ : Type) := AList fun _ : κ => Unit

/-- `std::chrono::milliseconds`, in nanoseconds. -/
def milliseconds (n : ℤ) : ℤ := n * 1000000

/-- An order in which a loop visits the elements of an unordered container: every element once. -/
structure Iteration where
  /-- The elements in the order visited. -/
  order : {α : Type} → List α → List α
  /-- Each element is visited exactly as often as it occurs. -/
  perm : ∀ {α : Type} (l : List α), (order l).Perm l

/-- The order of the list itself. -/
instance : Inhabited Iteration := ⟨⟨fun l => l, fun l => List.Perm.refl l⟩⟩

/-- A loop visits exactly the elements. -/
theorem Iteration.mem_order (it : Iteration) {α : Type} {l : List α} {x : α} :
    x ∈ it.order l ↔ x ∈ l :=
  (it.perm l).mem_iff

variable {κ ν μ : Type}

/-- The loop that erases the entries which do not satisfy a test. -/
def filter (p : κ → ν → Bool) (m : UnorderedMap κ ν) : UnorderedMap κ ν :=
  ⟨m.entries.filter fun e => p e.1 e.2, m.nodupKeys.sublist List.filter_sublist⟩

/-- The loop that replaces every value. -/
def mapValues (f : κ → ν → μ) (m : UnorderedMap κ ν) : UnorderedMap κ μ :=
  ⟨m.entries.map fun e => ⟨e.1, f e.1 e.2⟩, m.nodupKeys.map₂ f⟩

/-- The number of entries. -/
def size (m : UnorderedMap κ ν) : ℕ := m.entries.length

variable [DecidableEq κ]

/-- An entry is found under its key. -/
theorem lookup_eq_some_iff {m : UnorderedMap κ ν} {k : κ} {v : ν} :
    m.lookup k = some v ↔ ⟨k, v⟩ ∈ m.entries :=
  AList.mem_lookup_iff

/-- After the erasing loop, an entry is found if it was there and passes the test. -/
theorem lookup_filter (p : κ → ν → Bool) (m : UnorderedMap κ ν) (k : κ) :
    (filter p m).lookup k = (m.lookup k).filter (p k) := by
  ext v
  rw [lookup_eq_some_iff, Option.filter_eq_some_iff, lookup_eq_some_iff]
  simp [filter]

/-- After the updating loop, the new value of an entry is found. -/
theorem lookup_mapValues (f : κ → ν → μ) (m : UnorderedMap κ ν) (k : κ) :
    (mapValues f m).lookup k = (m.lookup k).map (f k) := by
  ext v
  rw [lookup_eq_some_iff, Option.map_eq_some_iff]
  simp only [mapValues, List.mem_map, Sigma.mk.injEq, lookup_eq_some_iff]
  constructor
  · rintro ⟨⟨k', v'⟩, hmem, rfl, hv⟩
    exact ⟨v', hmem, by simpa using hv⟩
  · rintro ⟨v', hmem, rfl⟩
    exact ⟨⟨k, v'⟩, hmem, rfl, HEq.rfl⟩

/-- After a loop of `insert_or_assign` from an empty map, the last value of a key is found. -/
theorem lookup_foldl_insert (l : List (κ × ν)) (k : κ) :
    AList.lookup k (l.foldl (fun m e => m.insert e.1 e.2) (∅ : UnorderedMap κ ν)) =
      (l.filterMap fun e => if e.1 = k then some e.2 else none).getLast? := by
  induction l using List.reverseRecOn with
  | nil => rfl
  | append_singleton l e ih =>
    rw [List.foldl_append, List.filterMap_append, List.foldl_cons, List.foldl_nil,
      List.filterMap_cons, List.filterMap_nil]
    by_cases hk : e.1 = k
    · rw [hk, AList.lookup_insert, if_pos rfl, List.getLast?_concat]
    · rw [AList.lookup_insert_ne (Ne.symm hk), ih, if_neg hk, List.append_nil]

/-- The entries under one key of a list with distinct keys. -/
theorem filter_key_eq {l : List (Σ _ : κ, ν)} (h : l.NodupKeys) (k : κ) :
    l.filter (fun e => e.1 = k) = ((l.dlookup k).map (Sigma.mk k)).toList := by
  induction l with
  | nil => rfl
  | cons e es ih =>
    obtain ⟨hnotin, hes⟩ := List.nodupKeys_cons.mp h
    rw [List.filter_cons]
    by_cases hk : e.1 = k
    · -- The key of the first entry occurs in no other.
      obtain ⟨k', v⟩ := e
      obtain rfl : k' = k := hk
      have hrest : es.filter (fun e => e.1 = k') = [] := by
        refine List.filter_eq_nil_iff.mpr fun e he hek => hnotin ?_
        have hmem : e.1 ∈ es.keys := List.mem_keys_of_mem he
        rwa [show e.1 = k' by simpa using hek] at hmem
      simp [hrest]
    · rw [if_neg (by simpa using hk), List.dlookup_cons_ne _ _ (Ne.symm hk)]
      exact ih hes

/-- A loop meets a key once if the container holds it, and not at all otherwise. -/
theorem filter_order_entries (it : Iteration) (m : UnorderedMap κ ν) (k : κ) :
    (it.order m.entries).filter (fun e => e.1 = k) = ((m.lookup k).map (Sigma.mk k)).toList := by
  have hperm := (it.perm m.entries).filter fun e => e.1 = k
  rw [filter_key_eq m.nodupKeys] at hperm
  rw [AList.lookup]
  cases hlookup : m.entries.dlookup k with
  | none => simpa [hlookup] using hperm
  | some v => simpa [hlookup] using hperm

/-- The entries of a map are the one under a key, if there is one, and the rest. -/
theorem perm_erase (m : UnorderedMap κ ν) (k : κ) :
    m.entries.Perm (((m.lookup k).map (Sigma.mk k)).toList ++ (m.erase k).entries) := by
  have herase : (m.erase k).entries = m.entries.kerase k := rfl
  rw [herase, AList.lookup]
  by_cases hk : k ∈ m.entries.keys
  · obtain ⟨v, before, after, -, hentries, hrest⟩ := List.exists_of_kerase hk
    have hmem : (⟨k, v⟩ : Σ _ : κ, ν) ∈ m.entries := by simp [hentries]
    have hlookup : m.entries.dlookup k = some v := List.mem_dlookup m.nodupKeys hmem
    rw [hlookup, hrest, hentries]
    exact List.perm_middle
  · rw [List.dlookup_eq_none.mpr hk, List.kerase_of_notMem_keys hk]
    exact List.Perm.refl _

end Cxx

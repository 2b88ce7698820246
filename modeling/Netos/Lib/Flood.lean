import Mathlib.Data.List.Perm.Basic
import Mathlib.Logic.Hydra

/-!
# Pools and distances

What arguments about flooding rest on. A pool is a list of which any element may be taken; taking an
element and adding smaller ones is a step of the well-founded order `Relation.CutExpand` on the
multiset of ranks (`cutExpand_pool`). `Hops` counts the links between two points of a graph, and
`Copied.hops` says how far a trail of copies leads when every copy has one hop less to go.
-/

namespace Flood

/-- An element of a pool is replaced by elements of lower rank: the multiset of ranks descends. -/
theorem cutExpand_pool {α β : Type*} {r : α → α → Prop} (rank : β → α) {pool : List β} {i : ℕ}
    {b : β} (h : pool[i]? = some b) {new : Multiset α} (hnew : ∀ a ∈ new, r a (rank b))
    (rest : Multiset α) :
    Relation.CutExpand r (((pool.eraseIdx i).map rank : List α) + new + rest)
      ((pool.map rank : List α) + rest) := by
  obtain ⟨hi, rfl⟩ := List.getElem?_eq_some_iff.mp h
  have hpool : (pool.map rank : Multiset α) =
      {rank pool[i]} + ((pool.eraseIdx i).map rank : List α) := by
    rw [Multiset.singleton_add, Multiset.cons_coe, ← List.map_cons]
    exact Multiset.coe_eq_coe.mpr ((List.getElem_cons_eraseIdx_perm hi).map rank).symm
  refine ⟨new, rank pool[i], hnew, ?_⟩
  rw [hpool]
  ac_rfl

variable {ι : Type*}

/-- A point is reached in a number of hops along the links. -/
inductive Hops (link : ι → ι → Prop) (r : ι) : ℕ → ι → Prop where
  /-- The start. -/
  | start : Hops link r 0 r
  /-- One more hop. -/
  | hop {n : ℕ} {a b : ι} (h : Hops link r n a) (hlink : link a b) : Hops link r (n + 1) b

/-- A copy of something: it is at a place linked to that of the original, has the same content, and
one hop less to go. -/
def Copied {σ κ : Type*} (place : σ → ι) (content : σ → κ) (limit : σ → ℤ) (link : ι → ι → Prop)
    (copy orig : σ) : Prop :=
  link (place orig) (place copy) ∧ content copy = content orig ∧ limit copy = limit orig - 1

/-- Along a trail of copies, the latest first, the latest is as many hops from the first as copies
were made, and may go as many hops less. -/
theorem Copied.hops {σ κ : Type*} {place : σ → ι} {content : σ → κ} {limit : σ → ℤ}
    {link : ι → ι → Prop} {rest : List σ} {copy root : σ}
    (h : (copy :: rest).IsChain (Copied place content limit link))
    (hroot : (copy :: rest).getLast? = some root) :
    Hops link (place root) rest.length (place copy) ∧ content copy = content root ∧
      limit copy = limit root - rest.length := by
  induction rest generalizing copy with
  | nil =>
    obtain rfl : copy = root := by simpa using hroot
    exact ⟨.start, rfl, by simp⟩
  | cons orig rest ih =>
    obtain ⟨⟨hlink, hcontent, hlimit⟩, hrest⟩ := List.isChain_cons_cons.mp h
    rw [List.getLast?_cons_cons] at hroot
    obtain ⟨hhops, hcontent', hlimit'⟩ := ih hrest hroot
    refine ⟨.hop hhops hlink, hcontent.trans hcontent', ?_⟩
    rw [hlimit, hlimit', List.length_cons]
    push_cast
    omega

end Flood

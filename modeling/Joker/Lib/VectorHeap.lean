/-
Binary heaps laid out in a vector, as the C++ standard library keeps
them: `std::push_heap` and `std::pop_heap` over a range whose front is
the first element. Elements are compared by a key, smallest key in
front (a reversed `operator<` gives the max-heap of the standard this
order).

# The contract, not one implementation

`HeapAlgorithms` is a pair of range algorithms together with what the
standard promises of them: on a range that is a heap, `push_heap` sifts
the last element in and `pop_heap` moves the front element to the back
and leaves a heap before it. Which of several elements with the same
key sits where is left open, so whatever is proved over an arbitrary
`HeapAlgorithms` holds for every conforming library. `sortedHeap` is
one such pair, and shows that the contract can be met.
-/
import Mathlib.Data.List.Sort
import Mathlib.Data.List.Basic

namespace VectorHeap

variable {α K : Type} [LinearOrder K]

-- ============================================================ the order

/-- The heap order of a vector: no element has a smaller key than its
parent, the element at half its index. -/
def IsHeap (key : α → K) (v : List α) : Prop :=
  ∀ i, (h : i + 1 < v.length) →
    key (v.get ⟨i / 2, by omega⟩) ≤ key (v.get ⟨i + 1, h⟩)

theorem isHeap_nil (key : α → K) : IsHeap key [] := by
  intro i h
  simp at h

/-- The front of a heap has the smallest key: follow the parents of any
index down to the front. -/
theorem IsHeap.front_le {key : α → K} {x : α} {v : List α}
    (hv : IsHeap key (x :: v)) : ∀ y ∈ x :: v, key x ≤ key y := by
  have hall : ∀ n, (h : n < (x :: v).length) →
      key x ≤ key ((x :: v).get ⟨n, h⟩) := by
    intro n
    induction n using Nat.strongRecOn with
    | ind n ih =>
        intro h
        cases n with
        | zero => exact le_refl _
        | succ n =>
            have hparent := ih (n / 2) (by omega) (by omega)
            exact le_trans hparent (hv n h)
  intro y hy
  obtain ⟨n, rfl⟩ := List.get_of_mem hy
  exact hall n.1 n.2

/-- The heap order reads keys only. -/
theorem IsHeap.of_map_eq {key : α → K} {v w : List α}
    (hv : IsHeap key v) (h : w.map key = v.map key) : IsHeap key w := by
  have hlen : w.length = v.length := by simpa using congrArg List.length h
  have hget : ∀ n, (hn : n < w.length) →
      key (w.get ⟨n, hn⟩) = key (v.get ⟨n, hlen ▸ hn⟩) := by
    intro n hn
    have := congrArg (fun l => l[n]?) h
    simpa [List.getElem?_eq_getElem hn,
      List.getElem?_eq_getElem (hlen ▸ hn : n < v.length)] using this
  intro i hi
  rw [hget, hget]
  exact hv i (hlen ▸ hi)

/-- A vector sorted by key is a heap. -/
theorem isHeap_of_pairwise {key : α → K} {v : List α}
    (hv : v.Pairwise fun a b => key a ≤ key b) : IsHeap key v := by
  intro i h
  exact List.pairwise_iff_get.mp hv ⟨i / 2, by omega⟩ ⟨i + 1, h⟩
    (by simp only [Fin.mk_lt_mk]; omega)

-- ========================================================= the contract

/-- `std::push_heap` and `std::pop_heap` on vectors compared by `key`,
with their standard contract. -/
structure HeapAlgorithms (key : α → K) where
  /-- Sifts the last element of the vector into the heap before it. -/
  push_heap : List α → List α
  /-- Moves the front element to the back, leaving a heap before it. -/
  pop_heap : List α → List α
  push_perm : ∀ v x, IsHeap key v → (push_heap (v ++ [x])).Perm (v ++ [x])
  push_isHeap : ∀ v x, IsHeap key v → IsHeap key (push_heap (v ++ [x]))
  pop_spec : ∀ x v, IsHeap key (x :: v) →
    ∃ w, pop_heap (x :: v) = w ++ [x] ∧ w.Perm v ∧ IsHeap key w

/-- Sorting a vector by key leaves it sorted by key. -/
theorem pairwise_insertionSort (key : α → K) (v : List α) :
    (v.insertionSort fun a b => key a ≤ key b).Pairwise
      fun a b => key a ≤ key b := by
  have : Std.Total fun a b : α => key a ≤ key b :=
    ⟨fun a b => le_total (key a) (key b)⟩
  have : IsTrans α fun a b => key a ≤ key b :=
    ⟨fun _ _ _ => le_trans⟩
  exact List.pairwise_insertionSort _ v

/-- What `pop_heap` leaves before the popped element is a heap. -/
theorem HeapAlgorithms.isHeap_dropLast_pop {key : α → K}
    (H : HeapAlgorithms key) {x : α} {v : List α} (hv : IsHeap key (x :: v)) :
    IsHeap key (H.pop_heap (x :: v)).dropLast := by
  obtain ⟨w, hw, -, hheap⟩ := H.pop_spec x v hv
  rw [hw, List.dropLast_concat]
  exact hheap

/-- The contract is met by keeping the vector sorted. -/
def sortedHeap (key : α → K) : HeapAlgorithms key where
  push_heap v := v.insertionSort fun a b => key a ≤ key b
  pop_heap
    | [] => []
    | x :: v => v.insertionSort (fun a b => key a ≤ key b) ++ [x]
  push_perm _ _ _ := List.perm_insertionSort _ _
  push_isHeap v x _ := isHeap_of_pairwise
    (pairwise_insertionSort key (v ++ [x]))
  pop_spec _ v _ :=
    ⟨_, rfl, List.perm_insertionSort _ _,
      isHeap_of_pairwise (pairwise_insertionSort key v)⟩

end VectorHeap

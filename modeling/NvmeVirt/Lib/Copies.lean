import Mathlib.Data.List.Basic
import Mathlib.Data.Nat.ModEq
import Mathlib.Tactic.Common

/-!
# Copies between two memories

A copy moves `size` bytes between the addresses from `address` on, which wrap at a modulus, and the
offsets from `offset` on. What it moves is the list of its pairs of an address and an offset; a copy
may be cut in two, and copies whose addresses follow each other may be joined (`pairs_split`).
-/

set_option autoImplicit false

namespace NvmeVirt

structure Copy where
  address : Nat
  offset : Nat
  size : Nat
  deriving DecidableEq, Repr

namespace Copy

/-- The bytes that belong together. -/
def pairs (m : Nat) (c : Copy) : List (Nat × Nat) :=
  (List.range c.size).map fun i => ((c.address + i) % m, c.offset + i)

/-- The bytes several copies move, one after the other. -/
def allPairs (m : Nat) (copies : List Copy) : List (Nat × Nat) := copies.flatMap (pairs m)

variable {m : Nat}

@[simp] theorem allPairs_cons (c : Copy) (copies : List Copy) :
    allPairs m (c :: copies) = c.pairs m ++ allPairs m copies := rfl

theorem pairs_congr {a a' : Nat} (h : a ≡ a' [MOD m]) (offset size : Nat) :
    (Copy.mk a offset size).pairs m = (Copy.mk a' offset size).pairs m := by
  unfold pairs
  apply List.map_congr_left
  intro i _
  exact congrArg (·, offset + i) (h.add_right i)

theorem pairs_split (address offset first rest : Nat) :
    (Copy.mk address offset (first + rest)).pairs m =
      (Copy.mk address offset first).pairs m ++
        (Copy.mk (address + first) (offset + first) rest).pairs m := by
  unfold pairs
  dsimp only
  rw [List.range_add, List.map_append, List.map_map]
  congr 1
  apply List.map_congr_left
  intro i _
  show ((address + (first + i)) % m, offset + (first + i)) = _
  rw [← Nat.add_assoc, ← Nat.add_assoc]

/-- A copy meets each of its offsets once. -/
theorem pairs_offsets (c : Copy) : (c.pairs m).map Prod.snd = List.range' c.offset c.size := by
  unfold pairs
  rw [List.map_map, List.range'_eq_map_range]
  rfl

theorem allPairs_head {c : Copy} (copies : List Copy) (h : 0 < c.size) :
    (allPairs m (c :: copies)).head? = some (c.address % m, c.offset) := by
  obtain ⟨size, hsize⟩ : ∃ size, c.size = size + 1 := ⟨c.size - 1, by omega⟩
  rw [allPairs_cons]
  unfold pairs
  rw [hsize, List.range_succ_eq_map]
  rfl

end Copy

end NvmeVirt

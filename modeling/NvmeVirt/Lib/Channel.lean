import NvmeVirt.Lib.Ring

/-!
# A ring of tagged slots as a channel

One side puts values into the slots of a ring in turn, each with the tag of its lap, and is not told how
far the other side has come. The other side reads the slots in turn and takes a value when it carries the
tag of the lap. While no more values are unread than there are slots, the reader gets each value that was
put in, once and in order; it never takes an old one.
-/

set_option autoImplicit false

namespace NvmeVirt

section Channel

variable {α : Type} {depth : Nat} {tag : α → Bool} {slots : Nat → α} {posts got : List α}

/-- The slots hold the last values that were put in; a slot that was never used has the tag of no lap. -/
structure RingHolds (depth : Nat) (tag : α → Bool) (slots : Nat → α) (posts : List α) : Prop where
  depth_pos : 0 < depth
  tags : ∀ k x, posts[k]? = some x → tag x = lapTag depth k
  recent : ∀ k x, posts[k]? = some x → posts.length ≤ k + depth → slots (k % depth) = x
  unused : ∀ k, posts.length ≤ k → k < depth → tag (slots k) = false

theorem lapTag_first {k : Nat} (hk : k < depth) : lapTag depth k = true := by
  simp [lapTag, Nat.div_eq_of_lt hk]

theorem even_succ (n : Nat) : decide ((n + 1) % 2 = 0) = !decide (n % 2 = 0) := by
  rcases Nat.mod_two_eq_zero_or_one n with heven | hodd
  · have hnext : (n + 1) % 2 = 1 := by omega
    simp [heven, hnext]
  · have hnext : (n + 1) % 2 = 0 := by omega
    simp [hodd, hnext]

/-- The tag changes after the last slot. -/
theorem lapTag_succ (hpos : 0 < depth) (n : Nat) : lapTag depth (n + 1) =
    if n % depth + 1 = depth then !lapTag depth n else lapTag depth n := by
  unfold lapTag
  rw [succ_div_ring hpos]
  split
  · exact even_succ _
  · rfl

/-- A slot has the other tag a lap later. -/
theorem lapTag_add_depth (hpos : 0 < depth) (k : Nat) :
    lapTag depth (k + depth) = !lapTag depth k := by
  unfold lapTag
  rw [Nat.add_div_right k hpos]
  exact even_succ _

/-- Two uses of one slot are a lap apart. -/
theorem mod_ne_of_close {k n : Nat} (hlt : k < n) (hclose : n < k + depth) :
    k % depth ≠ n % depth := by
  intro heq
  have hzero := Nat.sub_mod_eq_zero_of_mod_eq heq.symm
  rw [Nat.mod_eq_of_lt (by omega)] at hzero
  omega

theorem RingHolds.start (hpos : 0 < depth) (hunused : ∀ k, k < depth → tag (slots k) = false) :
    RingHolds depth tag slots [] where
  depth_pos := hpos
  tags := by simp
  recent := by simp
  unused k _ hk := hunused k hk

/-- The next value goes to the next slot. -/
theorem RingHolds.post (h : RingHolds depth tag slots posts) {x : α}
    (hx : tag x = lapTag depth posts.length) :
    RingHolds depth tag (Function.update slots (posts.length % depth) x) (posts ++ [x]) := by
  have hcases : ∀ {k y}, (posts ++ [x])[k]? = some y → posts[k]? = some y ∧ k < posts.length ∨
      k = posts.length ∧ y = x := by
    intro k y hk
    by_cases hlt : k < posts.length
    · exact .inl ⟨(List.getElem?_append_left hlt).symm.trans hk, hlt⟩
    · have hbound := (List.getElem?_eq_some_iff.mp hk).1
      rw [List.length_append, List.length_singleton] at hbound
      obtain rfl : k = posts.length := by omega
      rw [List.getElem?_concat_length] at hk
      exact .inr ⟨rfl, (Option.some.inj hk).symm⟩
  constructor
  · exact h.depth_pos
  · intro k y hk
    rcases hcases hk with ⟨hold, _⟩ | ⟨rfl, rfl⟩
    · exact h.tags k y hold
    · exact hx
  · intro k y hk hroom
    rw [List.length_append, List.length_singleton] at hroom
    rcases hcases hk with ⟨hold, hlt⟩ | ⟨rfl, rfl⟩
    · rw [Function.update_of_ne (mod_ne_of_close hlt (by omega))]
      exact h.recent k y hold (by omega)
    · rw [Function.update_self]
  · intro k hle hk
    rw [List.length_append, List.length_singleton] at hle
    have hne : k ≠ posts.length % depth := by
      rw [Nat.mod_eq_of_lt (by omega)]
      omega
    rw [Function.update_of_ne hne]
    exact h.unused k (by omega) hk

/-- The slot after the last value does not have the tag a reader waits for there. -/
theorem RingHolds.ahead (h : RingHolds depth tag slots posts) :
    tag (slots (posts.length % depth)) ≠ lapTag depth posts.length := by
  by_cases hfirst : posts.length < depth
  · rw [Nat.mod_eq_of_lt hfirst, h.unused _ (Nat.le_refl _) hfirst, lapTag_first hfirst]
    exact Bool.false_ne_true
  · obtain ⟨k, hk⟩ := Nat.exists_eq_add_of_le' (Nat.le_of_not_lt hfirst)
    have hpos := h.depth_pos
    have hlt : k < posts.length := by omega
    have hx := List.getElem?_eq_getElem hlt
    rw [hk, Nat.add_mod_right, h.recent k _ hx (Nat.le_of_eq hk), h.tags k _ hx, lapTag_add_depth hpos]
    simp

/-- The reader finds the tag it waits for exactly when there is a value it has not read. -/
theorem RingHolds.ready_iff (h : RingHolds depth tag slots posts) {n : Nat} (hn : n ≤ posts.length)
    (hroom : posts.length ≤ n + depth) :
    tag (slots (n % depth)) = lapTag depth n ↔ n < posts.length := by
  constructor
  · intro hready
    refine Nat.lt_of_le_of_ne hn fun heq => ?_
    rw [heq] at hready
    exact h.ahead hready
  · intro hlt
    have hx := List.getElem?_eq_getElem hlt
    rw [h.recent n _ hx hroom, h.tags n _ hx]

/-- What it takes is the next value. -/
theorem RingHolds.take (h : RingHolds depth tag slots posts) (hgot : got <+: posts)
    (hroom : posts.length ≤ got.length + depth)
    (hready : tag (slots (got.length % depth)) = lapTag depth got.length) :
    got ++ [slots (got.length % depth)] <+: posts := by
  have hlt := (h.ready_iff hgot.length_le hroom).mp hready
  obtain ⟨rest, rfl⟩ := hgot
  cases rest with
  | nil =>
    rw [List.append_nil] at hlt
    omega
  | cons x rest =>
    have hx : (got ++ x :: rest)[got.length]? = some x := by simp
    rw [h.recent _ _ hx hroom]
    exact ⟨rest, by simp⟩

end Channel

end NvmeVirt

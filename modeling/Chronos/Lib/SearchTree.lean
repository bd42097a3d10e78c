import Mathlib.Data.List.Nodup
import Mathlib.Data.Tree.Basic
import Mathlib.Order.Lattice

/-!
# Search trees

Binary trees in search order, where equal keys stand on the right: insertion keeps the
order, and the search for a key ends at a node that has it, if there is one. In memory a
tree is a pointer whose nodes hold two pointers.
-/

namespace Chronos.Lib

/-! ## Trees -/

section Trees

variable {α β : Type*}

/-- The nodes from left to right. -/
def inorder : BinaryTree α → List α
  | .nil => []
  | .node a l r => inorder l ++ a :: inorder r

theorem mem_inorder_node {a b : α} {l r : BinaryTree α} :
    b ∈ inorder (.node a l r) ↔ b ∈ inorder l ∨ b = a ∨ b ∈ inorder r := by
  simp [inorder]

theorem nodup_inorder_node {a : α} {l r : BinaryTree α} (h : (inorder (.node a l r)).Nodup) :
    (inorder l).Nodup ∧ (inorder r).Nodup ∧ a ∉ inorder l ∧ a ∉ inorder r ∧
      List.Disjoint (inorder l) (inorder r) := by
  obtain ⟨hl, har, hdisj⟩ := List.nodup_append'.mp h
  obtain ⟨ha, hr⟩ := List.nodup_cons.mp har
  exact ⟨hl, hr, fun hal => hdisj hal List.mem_cons_self, ha,
    fun b hb hb' => hdisj hb (List.mem_cons_of_mem a hb')⟩

theorem height_le_length_inorder (t : BinaryTree α) : t.height ≤ (inorder t).length := by
  induction t with
  | nil => exact Nat.le_refl 0
  | node a l r ihl ihr =>
    simp only [BinaryTree.height, inorder, List.length_append, List.length_cons]
    omega

variable [LinearOrder β] (key : α → β)

/-- The keys on the left are smaller, those on the right are not. -/
def SearchOrder : BinaryTree α → Prop
  | .nil => True
  | .node a l r => (∀ b ∈ inorder l, key b < key a) ∧ (∀ b ∈ inorder r, key a ≤ key b) ∧
      SearchOrder l ∧ SearchOrder r

def insertKey (n : α) : BinaryTree α → BinaryTree α
  | .nil => .node n .nil .nil
  | .node a l r =>
    if key n < key a then .node a (insertKey n l) r else .node a l (insertKey n r)

variable {key} {n : α} {t : BinaryTree α}

theorem perm_insertKey : (inorder (insertKey key n t)).Perm (n :: inorder t) := by
  induction t with
  | nil => exact .refl _
  | node a l r ihl ihr =>
    rw [insertKey]
    split
    · exact (ihl.append_right (a :: inorder r))
    · exact ((ihr.cons a).append_left (inorder l)).trans
        (((List.Perm.swap n a (inorder r)).append_left (inorder l)).trans List.perm_middle)

theorem mem_insertKey {b : α} : b ∈ inorder (insertKey key n t) ↔ b = n ∨ b ∈ inorder t := by
  rw [perm_insertKey.mem_iff, List.mem_cons]

/-- Only the keys in the tree matter. -/
theorem SearchOrder.congr {key' : α → β} (hkey : ∀ a ∈ inorder t, key' a = key a)
    (h : SearchOrder key t) : SearchOrder key' t := by
  induction t with
  | nil => trivial
  | node a l r ihl ihr =>
    obtain ⟨hleft, hright, hl, hr⟩ := h
    have ha := hkey a (mem_inorder_node.mpr (.inr (.inl rfl)))
    have hkeyl (b : α) (hb : b ∈ inorder l) := hkey b (mem_inorder_node.mpr (.inl hb))
    have hkeyr (b : α) (hb : b ∈ inorder r) := hkey b (mem_inorder_node.mpr (.inr (.inr hb)))
    refine ⟨fun b hb => ?_, fun b hb => ?_, ihl hkeyl hl, ihr hkeyr hr⟩
    · rw [ha, hkeyl b hb]
      exact hleft b hb
    · rw [ha, hkeyr b hb]
      exact hright b hb

theorem SearchOrder.insertKey (h : SearchOrder key t) : SearchOrder key (insertKey key n t) := by
  induction t with
  | nil => exact ⟨by simp [inorder], by simp [inorder], trivial, trivial⟩
  | node a l r ihl ihr =>
    obtain ⟨hleft, hright, hl, hr⟩ := h
    rw [Lib.insertKey]
    split
    · next hlt =>
      refine ⟨fun b hb => ?_, hright, ihl hl, hr⟩
      rcases mem_insertKey.mp hb with rfl | hb
      · exact hlt
      · exact hleft b hb
    · next hge =>
      refine ⟨hleft, fun b hb => ?_, hl, ihr hr⟩
      rcases mem_insertKey.mp hb with rfl | hb
      · exact not_lt.mp hge
      · exact hright b hb

/-- The last node on the way to a key, or `d` where there is none. -/
def lastSeen (key : α → β) (v : β) : BinaryTree α → α → α
  | .nil, d => d
  | .node a l r, _ =>
    if v < key a then lastSeen key v l a else if key a < v then lastSeen key v r a else a

variable {v : β}

theorem lastSeen_mem (a : α) (l r : BinaryTree α) (d : α) :
    lastSeen key v (.node a l r) d ∈ inorder (.node a l r) := by
  have hsub (t : BinaryTree α) (d : α) :
      lastSeen key v t d = d ∨ lastSeen key v t d ∈ inorder t := by
    induction t generalizing d with
    | nil => exact .inl rfl
    | node a l r ihl ihr =>
      right
      rw [lastSeen, mem_inorder_node]
      split
      · rcases ihl a with h | h
        · exact .inr (.inl h)
        · exact .inl h
      · split
        · rcases ihr a with h | h
          · exact .inr (.inl h)
          · exact .inr (.inr h)
        · exact .inr (.inl rfl)
  rcases hsub (.node a l r) a with h | h
  · exact mem_inorder_node.mpr (.inr (.inl h))
  · exact h

/-- **The search is complete**: a key that occurs is the one of the last node seen. -/
theorem SearchOrder.key_lastSeen (h : SearchOrder key t) {b : α} (hb : b ∈ inorder t)
    (hv : key b = v) (d : α) : key (lastSeen key v t d) = v := by
  induction t generalizing d with
  | nil => cases hb
  | node a l r ihl ihr =>
    obtain ⟨hleft, hright, hl, hr⟩ := h
    rw [lastSeen]
    split
    · next hlt =>
      rcases mem_inorder_node.mp hb with hb | rfl | hb
      · exact ihl hl hb a
      · exact absurd hv (ne_of_gt hlt)
      · exact absurd (hv ▸ hright b hb) (not_le.mpr hlt)
    · next hge =>
      split
      · next hgt =>
        rcases mem_inorder_node.mp hb with hb | rfl | hb
        · exact absurd (hv ▸ hleft b hb) (not_lt_of_gt hgt)
        · exact absurd hv (ne_of_lt hgt)
        · exact ihr hr hb a
      · next hle => exact le_antisymm (not_lt.mp hge) (not_lt.mp hle)

end Trees

/-! ## Trees in memory -/

section Memory

variable {ι : Type*}

/-- The pointer `p` leads to the nodes of the tree. -/
def TreeAt (left right : ι → Option ι) : Option ι → BinaryTree ι → Prop
  | p, .nil => p = none
  | p, .node a l r => p = some a ∧ TreeAt left right (left a) l ∧ TreeAt left right (right a) r

namespace TreeAt

variable {left right left' right' : ι → Option ι} {p : Option ι} {t : BinaryTree ι}

/-- Only the nodes of a tree matter. -/
theorem congr (h : ∀ a ∈ inorder t, left' a = left a ∧ right' a = right a)
    (ht : TreeAt left right p t) : TreeAt left' right' p t := by
  induction t generalizing p with
  | nil => exact ht
  | node a l r ihl ihr =>
    obtain ⟨hp, hl, hr⟩ := ht
    obtain ⟨hleft, hright⟩ := h a (mem_inorder_node.mpr (.inr (.inl rfl)))
    refine ⟨hp, ?_, ?_⟩
    · rw [hleft]
      exact ihl (fun b hb => h b (mem_inorder_node.mpr (.inl hb))) hl
    · rw [hright]
      exact ihr (fun b hb => h b (mem_inorder_node.mpr (.inr (.inr hb)))) hr

theorem exists_node {a : ι} (ht : TreeAt left right (some a) t) : ∃ l r, t = .node a l r := by
  cases t with
  | nil => cases ht
  | node b l r =>
    obtain rfl : a = b := Option.some.inj ht.1
    exact ⟨l, r, rfl⟩

theorem eq_nil (ht : TreeAt left right none t) : t = .nil := by
  cases t with
  | nil => rfl
  | node b l r => cases ht.1

/-- The nodes that a tree's nodes point to are in it. -/
theorem child_mem (ht : TreeAt left right p t) {a b : ι} (ha : a ∈ inorder t)
    (hb : left a = some b ∨ right a = some b) : b ∈ inorder t := by
  induction t generalizing p with
  | nil => cases ha
  | node c l r ihl ihr =>
    obtain ⟨-, hl, hr⟩ := ht
    rcases mem_inorder_node.mp ha with ha | rfl | ha
    · exact mem_inorder_node.mpr (.inl (ihl hl ha))
    · rcases hb with hb | hb
      · rw [hb] at hl
        obtain ⟨l₁, l₂, rfl⟩ := hl.exists_node
        exact mem_inorder_node.mpr (.inl (mem_inorder_node.mpr (.inr (.inl rfl))))
      · rw [hb] at hr
        obtain ⟨r₁, r₂, rfl⟩ := hr.exists_node
        exact mem_inorder_node.mpr (.inr (.inr (mem_inorder_node.mpr (.inr (.inl rfl)))))
    · exact mem_inorder_node.mpr (.inr (.inr (ihr hr ha)))

end TreeAt

end Memory

end Chronos.Lib

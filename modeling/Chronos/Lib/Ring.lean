import Mathlib.Data.List.Cycle

/-!
# Rings of linked nodes

A circular list threaded through memory is a relation that holds between each
node and its successor, the last node's successor being the first:
`Cycle.Chain`. A ring has no distinguished first node, so a statement about it
may start at whichever node is convenient (`chain_append_comm`). The edits of a
linked list are local: linking a node in (`chain_insert`) and taking one out
(`chain_remove`) touch only the links next to it.
-/

namespace Chronos.Lib.Ring

variable {α : Type*} {R R' : α → α → Prop} {a node : α} {l l₁ l₂ : List α}

/-- A ring may be read from any of its nodes. -/
theorem chain_append_comm :
    Cycle.Chain R (l₁ ++ l₂ : List α) ↔ Cycle.Chain R (l₂ ++ l₁ : List α) := by
  rw [Cycle.coe_eq_coe.mpr List.isRotated_append]

theorem chain_cons : Cycle.Chain R (a :: l : List α) ↔ List.IsChain R (a :: (l ++ [a])) :=
  Cycle.chain_coe_cons R a l

/-- Links carry over to a relation that holds wherever the old one did. -/
theorem chain_imp_mem (h : Cycle.Chain R (l : Cycle α))
    (himp : ∀ x ∈ l, ∀ y ∈ l, R x y → R' x y) : Cycle.Chain R' (l : Cycle α) := by
  cases l with
  | nil => exact Cycle.Chain.nil R'
  | cons a l =>
    rw [chain_cons] at h ⊢
    have hmem : ∀ x ∈ a :: (l ++ [a]), x ∈ a :: l := by simp; tauto
    exact h.imp_of_mem_imp fun x y hx hy hxy => himp x (hmem x hx) y (hmem y hy) hxy

theorem isChain_head {b : α} (h : List.IsChain R (a :: (l ++ [b]))) :
    ∃ c, R a c ∧ (c = b ∨ c ∈ l) := by
  cases l with
  | nil => exact ⟨b, by simpa using h, Or.inl rfl⟩
  | cons c l => exact ⟨c, by simpa using h.rel, Or.inr List.mem_cons_self⟩

/-- Every node of a ring has a successor in it. -/
theorem chain_exists_next (h : Cycle.Chain R (l : Cycle α)) (ha : a ∈ l) : ∃ b ∈ l, R a b := by
  obtain ⟨p, q, rfl⟩ := List.append_of_mem ha
  rw [chain_append_comm, List.cons_append, chain_cons] at h
  obtain ⟨c, hc, rfl | hmem⟩ := isChain_head h
  · exact ⟨c, ha, hc⟩
  · refine ⟨c, ?_, hc⟩
    simp only [List.mem_append, List.mem_cons] at hmem ⊢
    tauto

/-- Every node of a ring has a predecessor in it. -/
theorem chain_exists_prev (h : Cycle.Chain R (l : Cycle α)) (ha : a ∈ l) : ∃ b ∈ l, R b a := by
  obtain ⟨p, q, rfl⟩ := List.append_of_mem ha
  rw [chain_append_comm, List.cons_append, chain_cons] at h
  rcases List.eq_nil_or_concat (q ++ p) with hnil | ⟨r, c, hc⟩
  · rw [hnil] at h
    exact ⟨a, ha, by simpa using h⟩
  · rw [hc] at h
    refine ⟨c, ?_, ?_⟩
    · have : c ∈ q ++ p := by rw [hc]; simp
      simp only [List.mem_append, List.mem_cons] at this ⊢
      tauto
    · have h' : List.IsChain R ((a :: r) ++ c :: [a]) := by simpa using h
      exact (List.isChain_append.mp h').2.1.rel

/-- A walk carries over to new links, possibly to a new end node. -/
theorem isChain_walk_imp {b z z' : α} (h : List.IsChain R (b :: (l ++ [z])))
    (hstep : ∀ x ∈ b :: l, ∀ y ∈ l, R x y → R' x y)
    (hend : ∀ x ∈ b :: l, R x z → R' x z') : List.IsChain R' (b :: (l ++ [z'])) := by
  induction l generalizing b with
  | nil => simpa using hend b List.mem_cons_self (by simpa using h)
  | cons c l ih =>
    rw [List.cons_append, List.isChain_cons_cons] at h ⊢
    refine ⟨hstep b List.mem_cons_self c List.mem_cons_self h.1, ih h.2 ?_ ?_⟩
    · exact fun x hx y hy => hstep x (List.mem_cons_of_mem _ hx) y (List.mem_cons_of_mem _ hy)
    · exact fun x hx => hend x (List.mem_cons_of_mem _ hx)

/-- **Link a node in** after `a`: the new links are `a → node` and from `node`
to the old successor of `a`; the links leaving the other nodes are kept. -/
theorem chain_insert (h : Cycle.Chain R (a :: l : List α)) (hin : R' a node)
    (hout : ∀ b ∈ a :: l, R a b → R' node b)
    (hrest : ∀ x ∈ l, ∀ y ∈ a :: l, R x y → R' x y) :
    Cycle.Chain R' (a :: node :: l : List α) := by
  rw [chain_cons] at h ⊢
  rw [List.cons_append, List.isChain_cons_cons]
  refine ⟨hin, ?_⟩
  cases l with
  | nil =>
    have haa : R a a := by simpa using h
    simpa using hout a List.mem_cons_self haa
  | cons b l =>
    rw [List.cons_append, List.isChain_cons_cons] at h ⊢
    refine ⟨hout b (by simp) h.1, isChain_walk_imp h.2 ?_ ?_⟩
    · exact fun x hx y hy => hrest x hx y (by simp [hy])
    · exact fun x hx => hrest x hx a List.mem_cons_self

/-- **Take a node out**: its predecessor is linked to its successor; the links
between the remaining nodes are kept. -/
theorem chain_remove (h : Cycle.Chain R (node :: l : List α))
    (hjoin : ∀ x ∈ l, ∀ y ∈ l, R x node → R node y → R' x y)
    (hrest : ∀ x ∈ l, ∀ y ∈ l, R x y → R' x y) : Cycle.Chain R' (l : Cycle α) := by
  cases l with
  | nil => exact Cycle.Chain.nil R'
  | cons b l =>
    rw [chain_cons] at h ⊢
    rw [List.cons_append, List.isChain_cons_cons] at h
    refine isChain_walk_imp h.2 ?_ ?_
    · exact fun x hx y hy => hrest x hx y (List.mem_cons_of_mem _ hy)
    · exact fun x hx hxn => hjoin x hx b List.mem_cons_self hxn h.1

end Chronos.Lib.Ring

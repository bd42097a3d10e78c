import Chronos.Salloc.Lists

/-!
# Releasing a block

`sfree` puts a block back into the free ring after the nearest free block
before it and combines it with its free neighbours. On the list of blocks this
is `release`.
-/

namespace Chronos.Salloc

open Chronos.Lib Chronos.Lib.Ring

/-- A free block combined with the block after it, if that is free. -/
def absorbNext (b : Block) : List Block → Block × List Block
  | [] => (b, [])
  | n :: q => if n.free then (b.merge n, q) else (b, n :: q)

/-- A free block after the blocks `p`, combined with the last of them if that
is free. -/
def absorbPrev (p : List Block) (b : Block) (q : List Block) : List Block :=
  match p.getLast? with
  | some x => if x.free then p.dropLast ++ x.merge b :: q else p ++ b :: q
  | none => b :: q

/-- The blocks after `b`, between `p` and `q`, is released. -/
def release (p : List Block) (b : Block) (q : List Block) : List Block :=
  absorbPrev p (absorbNext (b.withFree true) q).1 (absorbNext (b.withFree true) q).2

theorem absorbNext_cons_free {b n : Block} {q : List Block} (h : n.free = true) :
    absorbNext b (n :: q) = (b.merge n, q) := if_pos h

theorem absorbNext_cons_used {b n : Block} {q : List Block} (h : n.free = false) :
    absorbNext b (n :: q) = (b, n :: q) := if_neg (by rw [h]; decide)

theorem absorbNext_addr {b : Block} {q : List Block} : (absorbNext b q).1.addr = b.addr := by
  cases q with
  | nil => rfl
  | cons n q =>
    cases h : n.free with
    | true => rw [absorbNext_cons_free h, Block.merge_addr]
    | false => rw [absorbNext_cons_used h]

theorem absorbPrev_nil (b : Block) (q : List Block) : absorbPrev [] b q = b :: q := rfl

theorem absorbPrev_concat_free {p : List Block} {x b : Block} {q : List Block}
    (h : x.free = true) : absorbPrev (p ++ [x]) b q = p ++ x.merge b :: q := by
  simp [absorbPrev, h]

theorem absorbPrev_concat_used {p : List Block} {x b : Block} {q : List Block}
    (h : x.free = false) : absorbPrev (p ++ [x]) b q = (p ++ [x]) ++ b :: q := by
  simp [absorbPrev, h]

/-- Between blocks in use there is nothing to combine. -/
theorem release_alone {p : List Block} {b : Block} {q : List Block} (hp : ∀ c ∈ p, c.free = false)
    (hq : ∀ c ∈ q, c.free = false) : release p b q = p ++ b.withFree true :: q := by
  have hnext : absorbNext (b.withFree true) q = (b.withFree true, q) := by
    cases q with
    | nil => rfl
    | cons n q => exact absorbNext_cons_used (hq n List.mem_cons_self)
  unfold release
  rw [hnext]
  rcases List.eq_nil_or_concat' p with rfl | ⟨p, x, rfl⟩
  · rfl
  · exact absorbPrev_concat_used (hp x (by simp))

/-! ## The blocks in use -/

/-- The blocks handed out. -/
def used (bs : List Block) : List Block := bs.filter fun b => !b.free

section Used

variable {p q bs : List Block} {b : Block}

@[simp] theorem used_append : used (p ++ q) = used p ++ used q := List.filter_append ..

theorem used_cons_free (h : b.free = true) : used (b :: bs) = used bs := by simp [used, h]

theorem used_cons_used (h : b.free = false) : used (b :: bs) = b :: used bs := by simp [used, h]

theorem mem_used : b ∈ used bs ↔ b ∈ bs ∧ b.free = false := by simp [used]

theorem absorbNext_free (h : b.free = true) : (absorbNext b q).1.free = true := by
  cases q with
  | nil => exact h
  | cons n q =>
    cases hn : n.free with
    | true => rw [absorbNext_cons_free hn]; exact h
    | false => rw [absorbNext_cons_used hn]; exact h

theorem absorbNext_used : used (absorbNext b q).2 = used q := by
  cases q with
  | nil => rfl
  | cons n q =>
    cases hn : n.free with
    | true => rw [absorbNext_cons_free hn, used_cons_free hn]
    | false => rw [absorbNext_cons_used hn]

theorem absorbPrev_used (h : b.free = true) : used (absorbPrev p b q) = used p ++ used q := by
  rcases List.eq_nil_or_concat' p with rfl | ⟨p, x, rfl⟩
  · rw [absorbPrev_nil, used_cons_free h]
    rfl
  · cases hx : x.free with
    | true =>
      rw [absorbPrev_concat_free hx, used_append, used_append, used_cons_free (b := x.merge b) hx,
        used_cons_free hx]
      simp [used]
    | false => rw [absorbPrev_concat_used hx, used_append, used_cons_free h]

/-- Releasing a block keeps all the others in use. -/
theorem release_used : used (release p b q) = used p ++ used q := by
  unfold release
  rw [absorbPrev_used (absorbNext_free rfl), absorbNext_used]

end Used

/-! ## No free neighbours -/

section NoAdjacent

variable {p q bs : List Block} {b c : Block}

/-- Only the free flags matter. -/
theorem noAdjacentFree_iff_flags :
    NoAdjacentFree bs ↔ (bs.map (·.free)).IsChain fun a b => ¬(a = true ∧ b = true) := by
  rw [List.isChain_map]
  rfl

theorem NoAdjacentFree.cons_congr (h : NoAdjacentFree (b :: q)) (he : c.free = b.free) :
    NoAdjacentFree (c :: q) := by
  rw [noAdjacentFree_iff_flags, List.map_cons] at h ⊢
  rwa [he]

theorem NoAdjacentFree.tail (h : NoAdjacentFree (b :: q)) : NoAdjacentFree q := List.IsChain.tail h

theorem NoAdjacentFree.left (h : NoAdjacentFree (p ++ q)) : NoAdjacentFree p :=
  (List.isChain_append.mp h).1

theorem NoAdjacentFree.right (h : NoAdjacentFree (p ++ q)) : NoAdjacentFree q :=
  (List.isChain_append.mp h).2.1

/-- A block in use may stand next to any block. -/
theorem NoAdjacentFree.cons_used (h : NoAdjacentFree q) (hb : b.free = false) :
    NoAdjacentFree (b :: q) := by
  cases q with
  | nil => exact List.IsChain.singleton _
  | cons c q => exact List.isChain_cons_cons.mpr ⟨fun hf => by simp [hb] at hf, h⟩

theorem NoAdjacentFree.append_used (hp : NoAdjacentFree (p ++ [c])) (h : NoAdjacentFree q)
    (hc : c.free = false) : NoAdjacentFree ((p ++ [c]) ++ q) := by
  refine List.isChain_append.mpr ⟨hp, h, fun x hx y _ hf => ?_⟩
  have : c = x := by simpa using hx
  subst this
  simp [hc] at hf

theorem NoAdjacentFree.append_cons_used (hp : NoAdjacentFree p) (h : NoAdjacentFree (b :: q))
    (hb : b.free = false) : NoAdjacentFree (p ++ b :: q) := by
  refine List.isChain_append.mpr ⟨hp, h, fun x _ y hy hf => ?_⟩
  have : b = y := by simpa using hy
  subst this
  simp [hb] at hf

theorem absorbNext_noAdjacent (h : NoAdjacentFree q) :
    NoAdjacentFree ((absorbNext b q).1 :: (absorbNext b q).2) := by
  cases q with
  | nil => exact List.IsChain.singleton _
  | cons n q =>
    cases hn : n.free with
    | true =>
      rw [absorbNext_cons_free hn]
      cases hb : b.free with
      | true => exact h.cons_congr (hb.trans hn.symm)
      | false => exact h.tail.cons_used hb
    | false =>
      rw [absorbNext_cons_used hn]
      exact List.isChain_cons_cons.mpr ⟨fun hf => by simp [hn] at hf, h⟩

theorem absorbPrev_noAdjacent (hp : NoAdjacentFree p) (h : NoAdjacentFree (b :: q))
    (hb : b.free = true) : NoAdjacentFree (absorbPrev p b q) := by
  rcases List.eq_nil_or_concat' p with rfl | ⟨p, x, rfl⟩
  · exact h
  · cases hx : x.free with
    | true =>
      rw [absorbPrev_concat_free hx]
      have hxq : NoAdjacentFree (x :: q) := h.cons_congr (hx.trans hb.symm)
      rw [noAdjacentFree_iff_flags] at hp hxq ⊢
      have hflags : (p ++ x.merge b :: q).map (·.free) =
          (p ++ [x]).map (·.free) ++ q.map (·.free) := by simp
      rw [hflags, List.map_append, List.map_singleton, List.append_assoc, List.singleton_append,
        List.isChain_split]
      exact ⟨by simpa using hp, hxq⟩
    | false =>
      rw [absorbPrev_concat_used hx]
      exact hp.append_used h hx

theorem release_noAdjacent (h : NoAdjacentFree (p ++ b :: q)) :
    NoAdjacentFree (release p b q) :=
  absorbPrev_noAdjacent h.left (absorbNext_noAdjacent h.right.tail) (absorbNext_free rfl)

end NoAdjacent

end Chronos.Salloc

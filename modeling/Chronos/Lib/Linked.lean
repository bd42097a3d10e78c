import Mathlib.Data.List.Nodup

/-!
# Linked lists in memory

A pointer is an address or null, and `next` is the pointer that the node at an address
holds. A segment is a list of addresses that the pointers lead through; one that ends at
null is a whole list.
-/

namespace Chronos.Lib

variable {ι : Type*}

/-- The pointer `p` leads through the nodes of the list to the pointer `q`. -/
def Segment (next : ι → Option ι) : Option ι → List ι → Option ι → Prop
  | p, [], q => p = q
  | p, a :: as, q => p = some a ∧ Segment next (next a) as q

namespace Segment

variable {next next' : ι → Option ι} {p q : Option ι} {as bs : List ι}

theorem append_iff : Segment next p (as ++ bs) q ↔
    ∃ m, Segment next p as m ∧ Segment next m bs q := by
  induction as generalizing p with
  | nil => simp [Segment]
  | cons a as ih =>
    simp only [List.cons_append, Segment, ih]
    constructor
    · rintro ⟨hp, m, has, hbs⟩
      exact ⟨m, ⟨hp, has⟩, hbs⟩
    · rintro ⟨m, ⟨hp, has⟩, hbs⟩
      exact ⟨hp, m, has, hbs⟩

/-- Only the nodes of a segment matter. -/
theorem congr (h : ∀ a ∈ as, next' a = next a) (hs : Segment next p as q) :
    Segment next' p as q := by
  induction as generalizing p with
  | nil => exact hs
  | cons a as ih =>
    refine ⟨hs.1, ?_⟩
    rw [h a List.mem_cons_self]
    exact ih (fun b hb => h b (List.mem_cons_of_mem a hb)) hs.2

/-- There is one list at a pointer. -/
theorem unique (has : Segment next p as none) (hbs : Segment next p bs none) : as = bs := by
  induction as generalizing p bs with
  | nil =>
    cases bs with
    | nil => rfl
    | cons b bs => exact absurd (has.symm.trans hbs.1) (Option.some_ne_none b).symm
  | cons a as ih =>
    cases bs with
    | nil => exact absurd (hbs.symm.trans has.1) (Option.some_ne_none a).symm
    | cons b bs =>
      obtain rfl : a = b := Option.some.inj (has.1.symm.trans hbs.1)
      rw [ih has.2 hbs.2]

/-- The pointers of a list: the first one is that of its head, and each node holds that of the
node after it. -/
theorem getElem? (h : Segment next p as none) :
    p = as[0]? ∧ ∀ (i : Nat) (hi : i < as.length), next as[i] = as[i + 1]? := by
  induction as generalizing p with
  | nil => exact ⟨h, by simp⟩
  | cons a as ih =>
    obtain ⟨hfirst, hrest⟩ := ih h.2
    refine ⟨h.1, fun i hi => ?_⟩
    cases i with
    | zero => simpa using hfirst
    | succ i => simpa using hrest i (by simpa using hi)

/-- After each node of a list comes the one behind it, or the first one if there is none. -/
theorem next_or_head (h : Segment next p as none) {i : Nat} (hi : i < as.length) :
    (next as[i]).or p = as[(i + 1) % as.length]? := by
  obtain ⟨hfirst, hnext⟩ := h.getElem?
  rw [hnext i hi, hfirst]
  by_cases hlast : i + 1 < as.length
  · rw [Nat.mod_eq_of_lt hlast, List.getElem?_eq_getElem hlast, Option.some_or]
  · have hlength : i + 1 = as.length := by omega
    rw [hlength, Nat.mod_self, List.getElem?_eq_none (Nat.le_refl _), Option.none_or]

/-- **A node is put between two segments**: it points to the second one, and the first
one, or `head'` if that is empty, points to the node. -/
theorem splice {head head' cur : Option ι} {n : ι} (has : Segment next head as cur)
    (hbs : Segment next cur bs none) (hnodup : (as ++ bs).Nodup) (hn : n ∉ as ++ bs)
    (hframe : ∀ a ∈ as ++ bs, as.getLast? ≠ some a → next' a = next a) (hnext : next' n = cur)
    (hfirst : as = [] → head' = some n)
    (hlast : ∀ l, as.getLast? = some l → head' = head ∧ next' l = some n) :
    Segment next' head' (as ++ n :: bs) none := by
  have hbs' : Segment next' cur bs none := by
    refine congr (fun b hb => hframe b (List.mem_append_right as hb) ?_) hbs
    intro hlast
    exact (List.disjoint_of_nodup_append hnodup) (List.mem_of_getLast? hlast) hb
  rcases List.eq_nil_or_concat as with rfl | ⟨front, l, rfl⟩
  · exact ⟨hfirst rfl, hnext ▸ hbs'⟩
  · rw [List.concat_eq_append] at *
    obtain ⟨rfl, hl⟩ := hlast l (by simp)
    obtain ⟨m, hfront, hm, -⟩ := append_iff.mp has
    refine append_iff.mpr ⟨some n, append_iff.mpr ⟨m, ?_, hm, hl⟩, rfl, hnext ▸ hbs'⟩
    refine congr (fun a ha => hframe a (by simp [ha]) ?_) hfront
    rintro hla
    obtain rfl : l = a := by simpa using hla
    have hfirst := (List.nodup_append.mp hnodup).1
    exact (List.nodup_append.mp hfirst).2.2 l ha l (List.mem_singleton_self l) rfl

end Segment

end Chronos.Lib

import Mathlib.Data.List.Pairwise
import Mathlib.Data.List.Sort
import Chronos.Lib.Linked
import Chronos.Lib.Update

/-!
# The linked list workload

How `linked_list_init_group` builds its list, node by node. Memory is a function from
addresses to nodes, and a null pointer is `none`.
-/

namespace Chronos.Work.LinkedList

open Lib

structure Node where
  value : Int
  next : Option Nat
  deriving DecidableEq, Repr

/-- `struct linked_list_data`, as far as the list is built from it. -/
structure LinkedListData where
  head : Option Nat
  deriving DecidableEq, Repr

abbrev Memory := Nat → Node

/-- The loop of `insert_node`: `cur` and `last` when it is left. -/
def insertLoop (mem : Memory) (v : Int) : Nat → Option Nat → Option Nat →
    Option (Option Nat × Option Nat)
  | 0, _, _ => none
  | _ + 1, none, last => some (none, last)
  | rounds + 1, some cur, last =>
    if (mem cur).value > v then insertLoop mem v rounds (mem cur).next (some cur)
    else some (some cur, last)

/-- `node->next = next` -/
def setNext (mem : Memory) (node : Nat) (next : Option Nat) : Memory :=
  Function.update mem node { mem node with next }

/-- `insert_node`, whose loop makes at most `rounds` rounds. Without a node before the
end of the list, the write to `last->next` is not defined. -/
def insertNode (rounds : Nat) (mem : Memory) (data : LinkedListData) (n : Nat) :
    Option (Memory × LinkedListData) :=
  match data.head with
  | none => some (mem, { data with head := some n })
  | some head => do
    let (cur, last) ← insertLoop mem (mem n).value rounds (some head) none
    match cur, last with
    | none, none => none
    | none, some last => some (setNext mem last (some n), data)
    | some _, none => some (setNext mem n (some head), { data with head := some n })
    | some cur, some last => some (setNext (setNext mem n (some cur)) last (some n), data)

/-- The loop of `linked_list_init_group`: each `malloc` gives an address, and the node
there gets a value and a null pointer before it is inserted. -/
def insertNodes (rounds : Nat) : Memory → LinkedListData → List (Nat × Int) →
    Option (Memory × LinkedListData)
  | mem, data, [] => some (mem, data)
  | mem, data, (n, value) :: nodes => do
    let (mem, data) ← insertNode rounds (Function.update mem n ⟨value, none⟩) data n
    insertNodes rounds mem data nodes

/-! ## One insertion -/

/-- The list at a pointer, which ends with a null `next`. -/
def ListAt (mem : Memory) (p : Option Nat) (as : List Nat) : Prop :=
  Segment (fun a => (mem a).next) p as none

/-- The value of the node at an address. -/
def valueAt (mem : Memory) (a : Nat) : Int := (mem a).value

theorem valueAt_update (mem : Memory) (a : Nat) (node : Node) :
    valueAt (Function.update mem a node) = Function.update (valueAt mem) a node.value :=
  Function.comp_update Node.value mem a node

@[simp] theorem valueAt_setNext (mem : Memory) (node : Nat) (next : Option Nat) :
    valueAt (setNext mem node next) = valueAt mem :=
  (valueAt_update mem node _).trans (Function.update_eq_self node _)

theorem setNext_self (mem : Memory) (node : Nat) (next : Option Nat) :
    (setNext mem node next node).next = next := by simp [setNext]

theorem setNext_of_ne {mem : Memory} {node a : Nat} (h : a ≠ node) (next : Option Nat) :
    (setNext mem node next a).next = (mem a).next := by simp [setNext, h]

section Insert

variable {mem mem' : Memory} {data data' : LinkedListData} {as : List Nat} {n : Nat}

/-- The loop stops at the first node whose value is not above `v`. -/
theorem insertLoop_eq {v : Int} {rounds : Nat} {cur : Option Nat} (last : Option Nat)
    (h : ListAt mem cur as) (hrounds : as.length < rounds) :
    ∃ stop, insertLoop mem v rounds cur last =
        some (stop, (as.takeWhile (fun a => ¬valueAt mem a ≤ v)).getLast?.or last) ∧
      Segment (fun a => (mem a).next) cur (as.takeWhile (fun a => ¬valueAt mem a ≤ v)) stop ∧
      ListAt mem stop (as.dropWhile (fun a => ¬valueAt mem a ≤ v)) := by
  induction as generalizing rounds cur last with
  | nil =>
    obtain ⟨rounds, rfl⟩ := Nat.exists_eq_succ_of_ne_zero (Nat.ne_of_gt hrounds)
    cases h
    exact ⟨none, rfl, rfl, rfl⟩
  | cons a as ih =>
    obtain ⟨rounds, rfl⟩ := Nat.exists_eq_succ_of_ne_zero (Nat.ne_of_gt (Nat.zero_lt_of_lt hrounds))
    obtain ⟨rfl, h⟩ := h
    by_cases hv : valueAt mem a ≤ v
    · refine ⟨some a, ?_, ?_⟩
      · have hv' : ¬(mem a).value > v := not_lt.mpr hv
        simp [insertLoop, hv, hv']
      · simp [hv, Segment, ListAt, h]
    · have hrounds' : as.length < rounds := by simpa using hrounds
      obtain ⟨stop, hloop, hpassed, hrest⟩ := ih (some a) h hrounds'
      have hv' : (mem a).value > v := not_le.mp hv
      rw [List.takeWhile_cons_of_pos (by simpa using hv),
        List.dropWhile_cons_of_pos (by simpa using hv)]
      refine ⟨stop, ?_, ⟨rfl, hpassed⟩, hrest⟩
      rw [insertLoop, if_pos hv', hloop, List.getLast?_cons]
      simp

/-- **`insert_node`** puts the node before the first one whose value is not above its
own, and changes no value. -/
theorem insertNode_eq {rounds : Nat} (h : ListAt mem data.head as) (hnodup : as.Nodup)
    (hn : n ∉ as) (hnull : (mem n).next = none) (hrounds : as.length < rounds) :
    ∃ mem' data', insertNode rounds mem data n = some (mem', data') ∧
      valueAt mem' = valueAt mem ∧
      ListAt mem' data'.head (as.orderedInsert (valueAt mem · ≥ valueAt mem ·) n) := by
  have hsplit := List.takeWhile_append_dropWhile (p := fun a => ¬valueAt mem a ≤ valueAt mem n)
    (l := as)
  rw [List.orderedInsert_eq_take_drop]
  obtain ⟨stop, hloop, hpassed, hrest⟩ := insertLoop_eq (v := valueAt mem n) none h hrounds
  unfold insertNode
  cases hhead : data.head with
  | none =>
    obtain rfl : as = [] := Segment.unique h (by rw [hhead]; rfl)
    exact ⟨mem, _, rfl, rfl, rfl, hnull⟩
  | some head =>
    rw [hhead] at hloop hpassed
    rw [← hsplit] at hnodup hn
    dsimp only [ge_iff_le]
    generalize as.takeWhile (fun a => ¬valueAt mem a ≤ valueAt mem n) = passed at *
    generalize as.dropWhile (fun a => ¬valueAt mem a ≤ valueAt mem n) = rest at *
    simp only [valueAt] at hloop
    rw [hloop]
    have hnotLast {l : Nat} (hl : passed.getLast? = some l) : n ≠ l := by
      rintro rfl
      exact hn (List.mem_append_left rest (List.mem_of_getLast? hl))
    cases hlast : passed.getLast? with
    | none =>
      -- the head has no larger value, so that there is a node to stop at
      obtain rfl : passed = [] := List.getLast?_eq_none_iff.mp hlast
      cases hpassed
      have hnil : Segment (fun a => (mem a).next) (some head) [] (some head) := rfl
      refine ⟨_, _, rfl, valueAt_setNext mem n (some head), ?_⟩
      refine Segment.splice hnil hrest hnodup hn ?_ (setNext_self _ _ _) (fun _ => rfl) (by simp)
      intro a ha _
      exact setNext_of_ne (ne_of_mem_of_not_mem ha hn) _
    | some last =>
      cases stop with
      | none =>
        refine ⟨_, _, rfl, valueAt_setNext mem last (some n), ?_⟩
        refine Segment.splice hpassed hrest hnodup hn ?_ ?_ ?_ ?_
        · intro a _ hne
          refine setNext_of_ne ?_ _
          rintro rfl
          exact hne hlast
        · exact (setNext_of_ne (hnotLast hlast) _).trans hnull
        · rintro rfl
          cases hlast
        · intro l hl
          obtain rfl : last = l := Option.some.inj (hlast.symm.trans hl)
          exact ⟨hhead, setNext_self _ _ _⟩
      | some cur =>
        refine ⟨_, _, rfl, ?_, ?_⟩
        · rw [valueAt_setNext, valueAt_setNext]
        · refine Segment.splice hpassed hrest hnodup hn ?_ ?_ ?_ ?_
          · intro a ha hne
            have hal : a ≠ last := by
              rintro rfl
              exact hne hlast
            have han : a ≠ n := ne_of_mem_of_not_mem ha hn
            exact (setNext_of_ne hal _).trans (setNext_of_ne han _)
          · exact (setNext_of_ne (hnotLast hlast) _).trans (setNext_self _ _ _)
          · rintro rfl
            cases hlast
          · intro l hl
            obtain rfl : last = l := Option.some.inj (hlast.symm.trans hl)
            exact ⟨hhead, setNext_self _ _ _⟩

/-! ## The whole list -/

/-- A new node leaves the list as it is. -/
theorem listAt_update {p : Option Nat} (h : ListAt mem p as) (hn : n ∉ as) (node : Node) :
    ListAt (Function.update mem n node) p as := by
  refine Segment.congr (fun a ha => ?_) h
  rw [Function.update_of_ne (ne_of_mem_of_not_mem ha hn)]

/-- **The list is an insertion sort**, the other way around than its comments say: the
nodes are those inserted, with their values, and each value is inserted before the first
one that is not above it. -/
theorem insertNodes_eq {rounds : Nat} {nodes : List (Nat × Int)} (h : ListAt mem data.head as)
    (hnodup : (nodes.map Prod.fst ++ as).Nodup) (hrounds : nodes.length + as.length ≤ rounds) :
    ∃ mem' data' as', insertNodes rounds mem data nodes = some (mem', data') ∧
      ListAt mem' data'.head as' ∧ as'.Perm (nodes.map Prod.fst ++ as) ∧
      (∀ node ∈ nodes, valueAt mem' node.1 = node.2) ∧
      (∀ a, a ∉ nodes.map Prod.fst → valueAt mem' a = valueAt mem a) ∧
      as'.map (valueAt mem') = (nodes.map Prod.snd).foldl
        (fun values v => values.orderedInsert (· ≥ ·) v) (as.map (valueAt mem)) := by
  induction nodes generalizing mem data as with
  | nil => exact ⟨mem, data, as, rfl, h, .refl as, by simp, by simp, rfl⟩
  | cons node nodes ih =>
    obtain ⟨n, v⟩ := node
    simp only [List.map_cons, List.cons_append] at hnodup
    obtain ⟨hfresh, hrest⟩ := List.nodup_cons.mp hnodup
    obtain ⟨hnew, hn⟩ := not_or.mp (mt List.mem_append.mpr hfresh)
    have has := (List.nodup_append.mp hrest).2.1
    have hold : ∀ a ∈ as, Function.update (valueAt mem) n v a = valueAt mem a := by
      intro a ha
      exact Function.update_of_ne (ne_of_mem_of_not_mem ha hn) _ _
    have hlength : as.length < rounds := by
      rw [List.length_cons] at hrounds
      omega
    obtain ⟨mem₁, data₁, hinsert, hvalues, hlist⟩ :=
      insertNode_eq (listAt_update h hn ⟨v, none⟩) has hn (by simp) hlength
    have hnewValue : valueAt (Function.update mem n ⟨v, none⟩) =
        Function.update (valueAt mem) n v := valueAt_update mem n _
    rw [hnewValue] at hvalues hlist
    have hinserted := List.perm_orderedInsert
      (Function.update (valueAt mem) n v · ≥ Function.update (valueAt mem) n v ·) n as
    have hperm := (hinserted.append_left (nodes.map Prod.fst)).trans List.perm_middle
    have hrounds' := hinserted.length_eq
    simp only [List.length_cons] at hrounds hrounds'
    obtain ⟨mem', data', as', hrun, hlist', hperm', hnodes, hframe, hsorted⟩ :=
      ih hlist (hperm.nodup_iff.mpr hnodup) (by omega)
    refine ⟨mem', data', as', ?_, hlist', ?_, ?_, ?_, ?_⟩
    · simp [insertNodes, hinsert, hrun]
    · exact hperm'.trans hperm
    · intro node hnode
      rcases List.mem_cons.mp hnode with rfl | hnode
      · rw [hframe n hnew, hvalues, Function.update_self]
      · exact hnodes node hnode
    · intro a ha
      simp only [List.map_cons, List.mem_cons, not_or] at ha
      rw [hframe a ha.2, hvalues, Function.update_of_ne ha.1]
    · rw [hsorted, hvalues, List.map_orderedInsert _ (· ≥ ·) _ _ _ (by simp) (by simp),
        List.map_congr_left hold, Function.update_self]
      rfl

end Insert

/-! ## The order of the list -/

/-- What the comments and the README state: every node that was inserted is in the list
once, with its value, and the values increase. -/
def SortedIncreasing (rounds : Nat) (mem : Memory) (nodes : List (Nat × Int)) : Prop :=
  ∃ mem' data' as, insertNodes rounds mem ⟨none⟩ nodes = some (mem', data') ∧
    ListAt mem' data'.head as ∧ (as.map fun a => (a, valueAt mem' a)).Perm nodes ∧
    (as.map (valueAt mem')).Pairwise (· ≤ ·)

theorem foldl_orderedInsert_eq (values : List Int) :
    values.foldl (fun sorted v => sorted.orderedInsert (· ≥ ·) v) [] =
      values.reverse.insertionSort (· ≥ ·) := by
  rw [List.insertionSort, List.foldr_reverse]

/-- **The list is in decreasing order**; so it is in increasing order exactly when all
values are equal. -/
theorem sortedIncreasing_iff {rounds : Nat} (mem : Memory) {nodes : List (Nat × Int)}
    (hnodup : (nodes.map Prod.fst).Nodup) (hrounds : nodes.length ≤ rounds) :
    SortedIncreasing rounds mem nodes ↔ ∀ x ∈ nodes, ∀ y ∈ nodes, x.2 = y.2 := by
  have hempty : ListAt mem (LinkedListData.head ⟨none⟩) [] := rfl
  have hrounds' : nodes.length + ([] : List Nat).length ≤ rounds := hrounds
  obtain ⟨mem', data', as, hrun, hlist, hperm, hnodes, -, hvalues⟩ :=
    insertNodes_eq hempty (by rwa [List.append_nil]) hrounds'
  rw [List.append_nil] at hperm
  rw [List.map_nil, foldl_orderedInsert_eq] at hvalues
  have hsorted : (as.map (valueAt mem')).Pairwise (· ≥ ·) := by
    rw [hvalues]
    exact List.pairwise_insertionSort _ _
  have hpairs : (as.map fun a => (a, valueAt mem' a)).Perm nodes := perm_entries hperm hnodes
  have hmem : (as.map (valueAt mem')).Perm (nodes.map Prod.snd) := by
    have hsnd := hpairs.map Prod.snd
    rw [List.map_map] at hsnd
    exact hsnd
  constructor
  · rintro ⟨mem'', data'', as'', hrun', hlist', -, hle⟩ x hx y hy
    rw [hrun] at hrun'
    cases hrun'
    obtain rfl := Segment.unique hlist hlist'
    have heq : (as.map (valueAt mem')).Pairwise (· = ·) :=
      (hle.and hsorted).imp fun h => le_antisymm h.1 h.2
    have hx' := hmem.mem_iff.mpr (List.mem_map_of_mem (f := Prod.snd) hx)
    have hy' := hmem.mem_iff.mpr (List.mem_map_of_mem (f := Prod.snd) hy)
    exact List.Pairwise.forall_of_forall (fun _ _ => rfl) heq hx' hy'
  · intro hall
    refine ⟨mem', data', as, hrun, hlist, hpairs, ?_⟩
    refine List.pairwise_of_forall_mem_list fun v hv u hu => ?_
    obtain ⟨x, hx, rfl⟩ := List.mem_map.mp (hmem.mem_iff.mp hv)
    obtain ⟨y, hy, rfl⟩ := List.mem_map.mp (hmem.mem_iff.mp hu)
    exact (hall x hx y hy).le

/-- Two nodes with the values 1 and 2: the list starts with the 2. -/
theorem not_sortedIncreasing_oneTwo :
    ¬SortedIncreasing 2 (fun _ => ⟨0, none⟩) [(10, 1), (20, 2)] := by
  rintro ⟨mem', data', as, hrun, hlist, -, hle⟩
  cases hrun
  obtain rfl : as = [20, 10] := Segment.unique hlist ⟨rfl, rfl, rfl⟩
  revert hle
  decide

/-- Two nodes with the value 1 are in order, the values 1 and 2 are not. -/
theorem sortedIncreasing_iff_oneTwo :
    (SortedIncreasing 2 (fun _ => ⟨0, none⟩) [(10, 1), (20, 1)] ∧
      ∀ x ∈ [((10 : Nat), (1 : Int)), (20, 1)], ∀ y ∈ [((10 : Nat), (1 : Int)), (20, 1)],
        x.2 = y.2) ∧
    ¬SortedIncreasing 2 (fun _ => ⟨0, none⟩) [(10, 1), (20, 2)] ∧
      ¬∀ x ∈ [((10 : Nat), (1 : Int)), (20, 2)], ∀ y ∈ [((10 : Nat), (1 : Int)), (20, 2)],
        x.2 = y.2 := by
  have hsame : ∀ x ∈ [((10 : Nat), (1 : Int)), (20, 1)],
      ∀ y ∈ [((10 : Nat), (1 : Int)), (20, 1)], x.2 = y.2 := by decide
  have hother : ¬∀ x ∈ [((10 : Nat), (1 : Int)), (20, 2)],
      ∀ y ∈ [((10 : Nat), (1 : Int)), (20, 2)], x.2 = y.2 := by decide
  exact ⟨⟨(sortedIncreasing_iff _ (by decide) (by decide)).mpr hsame, hsame⟩,
    mt (sortedIncreasing_iff _ (by decide) (by decide)).mp hother, hother⟩

end Chronos.Work.LinkedList

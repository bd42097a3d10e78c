import Chronos.Lib.Scanf
import Chronos.Lib.Stride
import Chronos.Work.LinkedList
import Chronos.Work.Random

/-!
# The walk along the linked list

A group's list is built once, and each task walks along it with a copy of the group's
struct. An iteration moves on first and increments then, so the head is the last node that
a round meets.
-/

namespace Chronos.Work.LinkedList

open Lib

abbrev sizeofNode : Nat := 16

/-- The whole of `struct linked_list_data`. -/
structure WalkData extends LinkedListData where
  nextNode : Option Nat
  numElements : Int
  deriving DecidableEq, Repr

/-- The nodes of `linked_list_init_group`: what each `malloc` returns, and the next random
number as an `int`. -/
def groupNodes : List Nat → BitVec 32 → List (Nat × Int)
  | [], _ => []
  | n :: addresses, rand => (n, (lfsrandom32 rand).toInt) :: groupNodes addresses (lfsrandom32 rand)

/-- `linked_list_init_group`. The counter of its loop is an `int`; `malloc i` is the address
of the `i`th node, and `rand` the clock's nanoseconds. -/
def linkedListInitGroup (rounds : Nat) (mem : Memory) (malloc : Nat → Nat) (rand : BitVec 32)
    (groupWss : Int) : Option (Memory × WalkData) :=
  let numElements := toLong (toULong groupWss / sizeofNode)
  if 2 ^ 31 ≤ numElements then none
  else do
    let addresses := (List.range numElements.toNat).map malloc
    let (mem, data) ← insertNodes rounds mem ⟨none⟩ (groupNodes addresses rand)
    return (mem, { data with nextNode := data.head, numElements })

/-- `linked_list_init_task` -/
def linkedListInitTask (groupData : WalkData) : WalkData := groupData

/-- One iteration of `linked_list_do_work`. A null pointer cannot be dereferenced. -/
def walkNode (mem : Memory) (data : WalkData) : Option (Memory × WalkData) :=
  match data.nextNode with
  | none => none
  | some node =>
    -- `next_node` when there is one, else `head`
    match (mem node).next.or data.head with
    | none => none
    | some next =>
      some (Function.update mem next { mem next with value := toInt ((mem next).value + 1) },
        { data with nextNode := some next })

def linkedListDoWork : Nat → Memory → WalkData → Option (Memory × WalkData)
  | 0, mem, data => some (mem, data)
  | iterations + 1, mem, data => do
    let (mem, data) ← walkNode mem data
    linkedListDoWork iterations mem data

/-- Calls of `linked_list_do_work`, one after the other. -/
def linkedListCalls : List Nat → Memory → WalkData → Option (Memory × WalkData)
  | [], mem, data => some (mem, data)
  | iterations :: calls, mem, data => do
    let (mem, data) ← linkedListDoWork iterations mem data
    linkedListCalls calls mem data

/-! ## One iteration -/

/-- `value++` -/
def increment (value : Int) : Int := toInt (value + 1)

theorem increment_iterate {value : Int} (hlow : -2 ^ 31 ≤ value) (hhigh : value < 2 ^ 31)
    (k : Nat) : increment^[k] value = toInt (value + k) := by
  induction k with
  | zero => simpa using (toInt_eq_self hlow hhigh).symm
  | succ k ih =>
    rw [Function.iterate_succ_apply', ih, increment, toInt, toInt, Int.bmod_add_bmod, toInt]
    congr 1
    push_cast
    ring

section Walk

variable {mem mem' : Memory} {data data' : WalkData} {as : List Nat} {m : Nat}

/-- How far the walk has come after `m` iterations from the head: which node it is at, and
how often it has met each one. All else is as before. -/
structure Walked (as : List Nat) (mem : Memory) (data : WalkData) (m : Nat) (mem' : Memory)
    (data' : WalkData) : Prop where
  head : data'.head = data.head
  node : data'.nextNode = as[m % as.length]?
  links : ∀ a, (mem' a).next = (mem a).next
  frame : ∀ a, a ∉ as → mem' a = mem a
  values : ∀ (i : Nat) (hi : i < as.length), valueAt mem' as[i] =
    increment^[Nat.count (fun j => (1 + j) % as.length = i) m] (valueAt mem as[i])

/-- An iteration comes to the next node, and after the last one to the head. -/
theorem Walked.walkNode (hlist : ListAt mem data.head as) (hnodup : as.Nodup) (hne : as ≠ [])
    (h : Walked as mem data m mem' data') :
    ∃ mem'' data'', walkNode mem' data' = some (mem'', data'') ∧
      Walked as mem data (m + 1) mem'' data'' := by
  have hpos := List.length_pos_iff.mpr hne
  have hat := Nat.mod_lt m hpos
  have hi := Nat.mod_lt (m + 1) hpos
  have hnode : data'.nextNode = some as[m % as.length] := by
    rw [h.node, List.getElem?_eq_getElem hat]
  have hnext : (mem' as[m % as.length]).next.or data'.head = some as[(m + 1) % as.length] := by
    rw [h.links, h.head, Segment.next_or_head hlist hat, Nat.mod_add_mod,
      List.getElem?_eq_getElem hi]
  refine ⟨_, _, by rw [LinkedList.walkNode, hnode]; dsimp only; rw [hnext], ?_⟩
  constructor
  · exact h.head
  · exact (List.getElem?_eq_getElem hi).symm
  · intro a
    by_cases ha : a = as[(m + 1) % as.length]
    · rw [ha, Function.update_self]
      exact h.links _
    · rw [Function.update_of_ne ha]
      exact h.links a
  · intro a ha
    have hne : a ≠ as[(m + 1) % as.length] := fun heq => ha (heq ▸ List.getElem_mem hi)
    rw [Function.update_of_ne hne]
    exact h.frame a ha
  · intro i hi'
    rw [valueAt_update, Nat.count_succ, Nat.add_comm 1 m]
    by_cases heq : (m + 1) % as.length = i
    · subst heq
      rw [if_pos rfl, Function.update_self, Function.iterate_succ_apply', ← h.values _ hi]
      rfl
    · have hne : as[i] ≠ as[(m + 1) % as.length] := by
        intro hsame
        exact heq (hnodup.getElem_inj_iff.mp hsame).symm
      rw [if_neg heq, Function.update_of_ne hne, h.values i hi']
      rfl

theorem Walked.linkedListDoWork (hlist : ListAt mem data.head as) (hnodup : as.Nodup)
    (hne : as ≠ []) (iterations : Nat) (h : Walked as mem data m mem' data') :
    ∃ mem'' data'', linkedListDoWork iterations mem' data' = some (mem'', data'') ∧
      Walked as mem data (m + iterations) mem'' data'' := by
  induction iterations generalizing m mem' data' with
  | zero => exact ⟨mem', data', rfl, h⟩
  | succ iterations ih =>
    obtain ⟨mem₁, data₁, hstep, h₁⟩ := h.walkNode hlist hnodup hne
    obtain ⟨mem₂, data₂, hrun, h₂⟩ := ih h₁
    refine ⟨mem₂, data₂, ?_, ?_⟩
    · simp [LinkedList.linkedListDoWork, hstep, hrun]
    · rwa [Nat.add_right_comm, Nat.add_assoc] at h₂

/-- It does not matter how the iterations are divided over calls. -/
theorem Walked.linkedListCalls (hlist : ListAt mem data.head as) (hnodup : as.Nodup)
    (hne : as ≠ []) (calls : List Nat) (h : Walked as mem data m mem' data') :
    ∃ mem'' data'', linkedListCalls calls mem' data' = some (mem'', data'') ∧
      Walked as mem data (m + calls.sum) mem'' data'' := by
  induction calls generalizing m mem' data' with
  | nil => exact ⟨mem', data', rfl, h⟩
  | cons iterations calls ih =>
    obtain ⟨mem₁, data₁, hcall, h₁⟩ := h.linkedListDoWork hlist hnodup hne iterations
    obtain ⟨mem₂, data₂, hrun, h₂⟩ := ih h₁
    refine ⟨mem₂, data₂, ?_, ?_⟩
    · simp [LinkedList.linkedListCalls, hcall, hrun]
    · rwa [Nat.add_assoc, ← List.sum_cons] at h₂

/-- The walk starts at the head. -/
theorem Walked.start (hlist : ListAt mem data.head as) (hhead : data.nextNode = data.head) :
    Walked as mem data 0 mem data := by
  constructor
  · rfl
  · rw [hhead, Nat.zero_mod]
    exact (Segment.getElem? hlist).1
  · exact fun _ => rfl
  · exact fun _ _ => rfl
  · exact fun _ _ => rfl

/-- After whole rounds the walk is at the head again. -/
theorem Walked.round {rounds : Nat} (hlist : ListAt mem data.head as)
    (h : Walked as mem data (rounds * as.length) mem' data') :
    data'.nextNode = data.head ∧
      ∀ a ∈ as, valueAt mem' a = increment^[rounds] (valueAt mem a) := by
  constructor
  · rw [h.node, Nat.mul_mod_left]
    exact (Segment.getElem? hlist).1.symm
  · intro a ha
    obtain ⟨i, hi, rfl⟩ := List.getElem_of_mem ha
    rw [h.values i hi, count_rounds hi]

end Walk

/-! ## The list of a group -/

theorem map_fst_groupNodes (addresses : List Nat) (rand : BitVec 32) :
    (groupNodes addresses rand).map Prod.fst = addresses := by
  induction addresses generalizing rand with
  | nil => rfl
  | cons n addresses ih => simp [groupNodes, ih]

theorem length_groupNodes (addresses : List Nat) (rand : BitVec 32) :
    (groupNodes addresses rand).length = addresses.length := by
  rw [← List.length_map (f := Prod.fst), map_fst_groupNodes]

/-- The values are `int`s. -/
theorem snd_groupNodes {addresses : List Nat} {rand : BitVec 32} {node : Nat × Int}
    (h : node ∈ groupNodes addresses rand) : -2 ^ 31 ≤ node.2 ∧ node.2 < 2 ^ 31 := by
  induction addresses generalizing rand with
  | nil => simp [groupNodes] at h
  | cons n addresses ih =>
    rcases List.mem_cons.mp h with rfl | h
    · exact ⟨BitVec.le_toInt _, BitVec.toInt_lt⟩
    · exact ih h

/-- The list that `linked_list_init_group` builds has a node for each address, and an `int`
in each. -/
theorem linkedListInitGroup_eq {rounds : Nat} (mem : Memory) {malloc : Nat → Nat}
    (rand : BitVec 32) {groupWss : Int} {n : Nat} (hn : toULong groupWss / sizeofNode = n)
    (hcounter : n < 2 ^ 31) (hmalloc : ((List.range n).map malloc).Nodup) (hrounds : n ≤ rounds) :
    ∃ mem' data as, linkedListInitGroup rounds mem malloc rand groupWss = some (mem', data) ∧
      ListAt mem' data.head as ∧ as.length = n ∧ as.Nodup ∧ data.nextNode = data.head ∧
      ∀ a ∈ as, -2 ^ 31 ≤ valueAt mem' a ∧ valueAt mem' a < 2 ^ 31 := by
  have hlong : toLong (toULong groupWss / sizeofNode) = n := by
    rw [← Int.natCast_div, hn]
    exact toLong_eq_self (by omega) (by omega)
  let nodes := groupNodes ((List.range n).map malloc) rand
  have hfst : nodes.map Prod.fst = (List.range n).map malloc := map_fst_groupNodes _ _
  have hlength : nodes.length = n := by
    rw [length_groupNodes, List.length_map, List.length_range]
  have hempty : ListAt mem (LinkedListData.head ⟨none⟩) [] := rfl
  have hnodup : (nodes.map Prod.fst ++ []).Nodup := by rwa [List.append_nil, hfst]
  have hsteps : nodes.length + ([] : List Nat).length ≤ rounds := by
    rw [hlength]
    exact hrounds
  obtain ⟨mem', data', as, hrun, hlist, hperm, hvalues, -, -⟩ :=
    insertNodes_eq hempty hnodup hsteps
  rw [List.append_nil] at hperm hnodup
  refine ⟨mem', ⟨data', data'.head, n⟩, as, ?_, hlist, ?_, hperm.nodup_iff.mpr hnodup, rfl, ?_⟩
  · have hint : ¬(2 ^ 31 : Int) ≤ n := by omega
    rw [linkedListInitGroup, hlong]
    dsimp only
    rw [if_neg hint, Int.toNat_natCast, hrun]
    rfl
  · rw [hperm.length_eq, List.length_map, hlength]
  · intro a ha
    obtain ⟨node, hnode, rfl⟩ := List.mem_map.mp (hperm.mem_iff.mp ha)
    rw [hvalues node hnode]
    exact snd_groupNodes hnode

/-- **The walk is uniform**: no call meets a null pointer, and when the calls make `k` rounds
together, the walk is at the head again and has incremented every node `k` times. The links
and the rest of memory stay as they are. -/
theorem linkedListCalls_uniform {rounds : Nat} (mem : Memory) {malloc : Nat → Nat}
    (rand : BitVec 32) {groupWss : Int} {n : Nat} (hn : toULong groupWss / sizeofNode = n)
    (hpos : 0 < n) (hcounter : n < 2 ^ 31) (hmalloc : ((List.range n).map malloc).Nodup)
    (hrounds : n ≤ rounds) :
    ∃ mem₀ data as, linkedListInitGroup rounds mem malloc rand groupWss = some (mem₀, data) ∧
      ListAt mem₀ data.head as ∧ as.length = n ∧ data.nextNode = data.head ∧
      ∀ calls, ∃ mem' data',
        linkedListCalls calls mem₀ (linkedListInitTask data) = some (mem', data') ∧
        data'.head = data.head ∧ (∀ a, (mem' a).next = (mem₀ a).next) ∧
        (∀ a, a ∉ as → mem' a = mem₀ a) ∧
        ∀ k, calls.sum = k * n → data'.nextNode = data.head ∧
          ∀ a ∈ as, valueAt mem' a = toInt (valueAt mem₀ a + k) := by
  obtain ⟨mem₀, data, as, hinit, hlist, hlength, hnodup, hhead, hints⟩ :=
    linkedListInitGroup_eq mem rand hn hcounter hmalloc hrounds
  have hne : as ≠ [] := by
    rintro rfl
    rw [← hlength] at hpos
    exact hpos.ne' rfl
  refine ⟨mem₀, data, as, hinit, hlist, hlength, hhead, fun calls => ?_⟩
  obtain ⟨mem', data', hrun, hwalked⟩ :=
    (Walked.start hlist hhead).linkedListCalls hlist hnodup hne calls
  rw [Nat.zero_add] at hwalked
  refine ⟨mem', data', hrun, hwalked.head, hwalked.links, hwalked.frame, fun k hk => ?_⟩
  rw [hk, ← hlength] at hwalked
  obtain ⟨hnode, hvalues⟩ := hwalked.round hlist
  refine ⟨hnode, fun a ha => ?_⟩
  rw [hvalues a ha, increment_iterate (hints a ha).1 (hints a ha).2]

/-- A list of two nodes. -/
theorem linkedListCalls_uniform_two :
    ∃ mem₀ data as,
      linkedListInitGroup 2 (fun _ => ⟨0, none⟩) (fun i => 100 + i) 1 32 = some (mem₀, data) ∧
      ListAt mem₀ data.head as ∧ as.length = 2 ∧ data.nextNode = data.head ∧
      ∀ calls, ∃ mem' data',
        linkedListCalls calls mem₀ (linkedListInitTask data) = some (mem', data') ∧
        data'.head = data.head ∧ (∀ a, (mem' a).next = (mem₀ a).next) ∧
        (∀ a, a ∉ as → mem' a = mem₀ a) ∧
        ∀ k, calls.sum = k * 2 → data'.nextNode = data.head ∧
          ∀ a ∈ as, valueAt mem' a = toInt (valueAt mem₀ a + k) :=
  linkedListCalls_uniform _ 1 (by decide) (by decide) (by decide) (by decide) (by decide)

end Chronos.Work.LinkedList

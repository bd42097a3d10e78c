import Chronos.Lib.Allocated
import Chronos.Work.Bst
import Chronos.Work.Walk

/-!
# From building a group's data to freeing it

The tasks of a group call `do_work` in any order, each with a struct of its own on nodes that
they share. No call meets a null pointer, and none changes a link. `bst_cleanup_group` and
`linked_list_cleanup_group` follow the links while they free the nodes: each pointer is read
before the node that holds it is freed.
-/

namespace Chronos.Work

open Lib

/-! ## The calls of the tasks -/

section Calls

variable {M D : Type*} (doWork : Nat → M × D → Option (M × D))

/-- Calls of `do_work`, each by a task and of some iterations, one after the other. -/
def groupCalls : List (Nat × Nat) → M × (Nat → D) → Option (M × (Nat → D))
  | [], s => some s
  | (task, iterations) :: calls, (mem, tasks) => do
    let (mem, data) ← doWork iterations (mem, tasks task)
    groupCalls calls (mem, Function.update tasks task data)

variable {P : M → Prop} {Q : D → Prop}

/-- What each call needs of the memory and of the struct, and keeps, lasts over all the calls. -/
theorem groupCalls_exists
    (h : ∀ iterations mem data, P mem → Q data →
      ∃ mem' data', doWork iterations (mem, data) = some (mem', data') ∧ P mem' ∧ Q data')
    (calls : List (Nat × Nat)) {mem : M} (tasks : Nat → D) (hmem : P mem)
    (htasks : ∀ i, Q (tasks i)) :
    ∃ mem' tasks', groupCalls doWork calls (mem, tasks) = some (mem', tasks') ∧ P mem' ∧
      ∀ i, Q (tasks' i) := by
  induction calls generalizing mem tasks with
  | nil => exact ⟨mem, tasks, rfl, hmem, htasks⟩
  | cons call calls ih =>
    obtain ⟨task, iterations⟩ := call
    obtain ⟨mem₁, data₁, hcall, hmem₁, hdata₁⟩ := h iterations mem (tasks task) hmem (htasks task)
    have htasks₁ : ∀ i, Q (Function.update tasks task data₁ i) := by
      intro i
      by_cases hi : i = task
      · rwa [hi, Function.update_self]
      · rw [Function.update_of_ne hi]
        exact htasks i
    obtain ⟨mem', tasks', hrun, hend⟩ := ih _ hmem₁ htasks₁
    exact ⟨mem', tasks', by simp [groupCalls, hcall, hrun], hend⟩

end Calls

/-! ## The search tree -/

namespace Bst

abbrev sizeofBstNode : Nat := 24

section

variable (mem : Memory)

/-- One half of `_bst_cleanup_node`, which frees the subtree at a child and then the child. -/
def cleanupChild (cleanup : (Nat → Bool) → Nat → Option (Nat → Bool))
    (side : BstNode → Option Nat) (live : Nat → Bool) (n : Nat) : Option (Nat → Bool) := do
  let node ← loadAt live mem n
  match side node with
  | none => some live
  | some child =>
    let live ← cleanup live child
    let node ← loadAt live mem n
    match side node with
    | none => some live
    | some child => freeAt live child

/-- `_bst_cleanup_node`, which calls itself at most `calls` times. -/
def bstCleanupNode : Nat → (Nat → Bool) → Nat → Option (Nat → Bool)
  | 0, _, _ => none
  | calls + 1, live, n => do
    let live ← cleanupChild mem (bstCleanupNode calls) BstNode.right live n
    cleanupChild mem (bstCleanupNode calls) BstNode.left live n

/-- `bst_cleanup_group`, for the group's struct at the address `p`. -/
def bstCleanupGroup (calls : Nat) (live : Nat → Bool) (p : Nat) (data : BstData) :
    Option (Nat → Bool) := do
  let data ← loadAt live (fun _ => data) p
  match data.head with
  | none => freeAt live p
  | some head =>
    let live ← bstCleanupNode mem calls live head
    let data ← loadAt live (fun _ => data) p
    match data.head with
    | none => none
    | some head =>
      let live ← freeAt live head
      freeAt live p

end

/-- `bst_init_group`. The counter of its loop is an `int`; `malloc i` is the address of the
`i`th node, and `rand` the clock's nanoseconds. -/
def bstInitGroup (calls : Nat) (mem : Memory) (malloc : Nat → Nat) (rand : BitVec 32)
    (groupWss : Int) : Option (Memory × BstData) :=
  let numElements := toLong (toULong groupWss / sizeofBstNode)
  if 2 ^ 31 ≤ numElements then none
  else do
    let addresses := (List.range numElements.toNat).map malloc
    let (mem, data) ← insertBstNodes calls mem ⟨none, none, 0, rand⟩
      (LinkedList.groupNodes addresses rand)
    -- one random number for each node, and one to begin with
    let rand := lfsrandom32 (lfsrandom32^[numElements.toNat] rand)
    return (mem, { data with nextNode := data.head, findingValue := rand.toInt, rand })

/-- `bst_init_task`, where `rand` is the clock's nanoseconds. -/
def bstInitTask (groupData : BstData) (rand : BitVec 32) : BstData := { groupData with rand }

/-! ## The work keeps the links -/

section

variable {mem mem' : Memory} {data data' : BstData} {t : BinaryTree Nat}

/-- The pointers of the nodes are the same. -/
def SameLinks (mem mem' : Memory) : Prop :=
  ∀ a, (mem' a).left = (mem a).left ∧ (mem' a).right = (mem a).right

/-- The struct has the head of the tree, and is at one of its nodes. -/
def Searching (head : Nat) (t : BinaryTree Nat) (data : BstData) : Prop :=
  data.head = some head ∧ ∃ a ∈ inorder t, data.nextNode = some a

theorem SameLinks.treeIn {p : Option Nat} (h : SameLinks mem mem') (ht : TreeIn mem p t) :
    TreeIn mem' p t :=
  TreeAt.congr (fun a _ => h a) ht

theorem sameLinks_incrementFalseValue (mem : Memory) (a : Nat) :
    SameLinks mem (incrementFalseValue mem a) := by
  intro b
  by_cases hb : b = a
  · subst hb
    simp [incrementFalseValue]
  · simp [incrementFalseValue, hb]

theorem child_cases (v : Int) (node : BstNode) :
    child v node = node.left ∨ child v node = node.right ∨ child v node = none := by
  unfold child
  split
  · exact .inl rfl
  · split
    · exact .inr (.inl rfl)
    · exact .inr (.inr rfl)

theorem child_mem {head : Nat} (ht : TreeIn mem (some head) t) {a n : Nat} (ha : a ∈ inorder t)
    {v : Int} (hchild : child v (mem a) = some n) : n ∈ inorder t := by
  rcases child_cases v (mem a) with h | h | h
  · exact ht.child_mem ha (.inl (h ▸ hchild))
  · exact ht.child_mem ha (.inr (h ▸ hchild))
  · rw [hchild] at h
    cases h

/-- An iteration stays in the tree. -/
theorem Searching.bstIteration {head : Nat} (ht : TreeIn mem (some head) t)
    (h : Searching head t data) :
    ∃ mem' data', bstIteration mem data = some (mem', data') ∧ SameLinks mem mem' ∧
      Searching head t data' := by
  obtain ⟨hhead, a, ha, hnext⟩ := h
  by_cases hv : data.findingValue = 0
  · obtain ⟨l, r, rfl⟩ := ht.exists_node
    have hroot : head ∈ inorder (.node head l r) := mem_inorder_node.mpr (.inr (.inl rfl))
    refine ⟨mem, { data with
      rand := lfsrandom32 data.rand, findingValue := (lfsrandom32 data.rand).toInt,
      nextNode := data.head }, by simp [Bst.bstIteration, hv], fun _ => ⟨rfl, rfl⟩, hhead,
      head, hroot, hhead⟩
  · cases hchild : child data.findingValue (mem a) with
    | none => exact ⟨_, _, bstIteration_of_child_none hv hnext hchild,
        sameLinks_incrementFalseValue mem a, hhead, a, ha, hnext⟩
    | some n => exact ⟨_, _, bstIteration_of_child_some hv hnext hchild, fun _ => ⟨rfl, rfl⟩,
        hhead, n, child_mem ht ha hchild, rfl⟩

theorem Searching.bstDoWork {head : Nat} (iterations : Nat) (ht : TreeIn mem (some head) t)
    (h : Searching head t data) :
    ∃ mem' data', bstDoWork iterations (mem, data) = some (mem', data') ∧ SameLinks mem mem' ∧
      Searching head t data' := by
  induction iterations generalizing mem data with
  | zero => exact ⟨mem, data, rfl, fun _ => ⟨rfl, rfl⟩, h⟩
  | succ iterations ih =>
    obtain ⟨mem₁, data₁, hstep, hlinks₁, h₁⟩ := h.bstIteration ht
    obtain ⟨mem₂, data₂, hrun, hlinks₂, h₂⟩ := ih (hlinks₁.treeIn ht) h₁
    refine ⟨mem₂, data₂, ?_, fun a => ?_, h₂⟩
    · rw [bstDoWork_succ, hstep, Option.bind_some, hrun]
    · exact ⟨(hlinks₂ a).1.trans (hlinks₁ a).1, (hlinks₂ a).2.trans (hlinks₁ a).2⟩

/-! ## The nodes are freed -/

/-- A half frees the subtree at its child. -/
theorem cleanupChild_eq {cleanup : (Nat → Bool) → Nat → Option (Nat → Bool)}
    {side : BstNode → Option Nat} {live : Nat → Bool} {n : Nat}
    (htree : TreeIn mem (side (mem n)) t) (hn : live n = true) (hnot : n ∉ inorder t)
    (hall : ∀ a ∈ inorder t, live a = true)
    (hcleanup : ∀ a l r, t = .node a l r →
      cleanup live a = some (without live (inorder l ++ inorder r)))
    (hnodup : (inorder t).Nodup) :
    cleanupChild mem cleanup side live n = some (without live (inorder t)) := by
  rw [cleanupChild, loadAt_of_live hn]
  cases hside : side (mem n) with
  | none =>
    rw [hside] at htree
    obtain rfl := TreeAt.eq_nil htree
    simp [hside, inorder]
  | some child =>
    rw [hside] at htree
    obtain ⟨l, r, rfl⟩ := htree.exists_node
    obtain ⟨-, -, hchildl, hchildr, -⟩ := nodup_inorder_node hnodup
    simp only [mem_inorder_node, not_or] at hnot
    have hload : without live (inorder l ++ inorder r) n = true :=
      without_live hn (by simp [hnot.1, hnot.2.2])
    have hfree : without live (inorder l ++ inorder r) child = true :=
      without_live (hall child (mem_inorder_node.mpr (.inr (.inl rfl))))
        (by simp [hchildl, hchildr])
    simp only [Option.bind_eq_bind, Option.bind_some, hside, hcleanup child l r rfl,
      loadAt_of_live hload, freeAt_of_live hfree, without_without]
    congr 1
    exact without_congr fun a => by simp [inorder]; tauto

/-- **`_bst_cleanup_node`** frees what is below a node, and touches nothing after it is freed. -/
theorem bstCleanupNode_eq {calls n : Nat} {live : Nat → Bool} {l r : BinaryTree Nat}
    (htree : TreeIn mem (some n) (.node n l r)) (hnodup : (inorder (.node n l r)).Nodup)
    (hall : ∀ a ∈ inorder (.node n l r), live a = true)
    (hcalls : (BinaryTree.node n l r).height ≤ calls) :
    bstCleanupNode mem calls live n = some (without live (inorder r ++ inorder l)) := by
  induction calls generalizing n l r live with
  | zero => simp at hcalls
  | succ calls ih =>
    obtain ⟨-, hleft, hright⟩ := treeIn_node.mp htree
    obtain ⟨hl, hr, hnl, hnr, hdisj⟩ := nodup_inorder_node hnodup
    simp only [BinaryTree.height, Nat.add_le_add_iff_right, sup_le_iff] at hcalls
    have hlivel : ∀ a ∈ inorder l, live a = true := fun a ha =>
      hall a (mem_inorder_node.mpr (.inl ha))
    have hliver : ∀ a ∈ inorder r, live a = true := fun a ha =>
      hall a (mem_inorder_node.mpr (.inr (.inr ha)))
    have hlive : live n = true := hall n (mem_inorder_node.mpr (.inr (.inl rfl)))
    have below : ∀ {t : BinaryTree Nat} {side : BstNode → Option Nat} {live : Nat → Bool},
        TreeIn mem (side (mem n)) t → (inorder t).Nodup → t.height ≤ calls →
        (∀ a ∈ inorder t, live a = true) → ∀ a l r, t = .node a l r →
        bstCleanupNode mem calls live a = some (without live (inorder l ++ inorder r)) := by
      intro t side live ht hnd hheight hlv a l r hnode
      subst hnode
      have hat : TreeIn mem (some a) (.node a l r) := ⟨rfl, ht.2⟩
      rw [ih hat hnd hlv hheight]
      exact congrArg some (without_congr fun b => by simp [or_comm])
    rw [bstCleanupNode, Option.bind_eq_bind,
      cleanupChild_eq hright hlive hnr hliver (below hright hr hcalls.2 hliver) hr,
      Option.bind_some]
    have hlivel' : ∀ a ∈ inorder l, without live (inorder r) a = true := fun a ha =>
      without_live (hlivel a ha) fun har => hdisj ha har
    rw [cleanupChild_eq hleft (without_live hlive hnr) hnl hlivel'
      (below hleft hl hcalls.1 hlivel') hl, without_without]

/-- `bst_cleanup_group` frees the nodes of the tree and the struct. -/
theorem bstCleanupGroup_eq {calls p : Nat} {live : Nat → Bool} (htree : TreeIn mem data.head t)
    (hnodup : (inorder t).Nodup) (hall : ∀ a ∈ inorder t, live a = true) (hp : live p = true)
    (hnot : p ∉ inorder t) (hcalls : t.height ≤ calls) :
    bstCleanupGroup mem calls live p data = some (without live (p :: inorder t)) := by
  rw [bstCleanupGroup, loadAt_of_live hp]
  cases hhead : data.head with
  | none =>
    rw [hhead] at htree
    obtain rfl := TreeAt.eq_nil htree
    simp [hhead, freeAt_of_live hp, inorder]
  | some head =>
    rw [hhead] at htree
    obtain ⟨l, r, rfl⟩ := htree.exists_node
    obtain ⟨-, -, hheadl, hheadr, -⟩ := nodup_inorder_node hnodup
    simp only [mem_inorder_node, not_or] at hnot
    have hload : without live (inorder r ++ inorder l) p = true :=
      without_live hp (by simp [hnot.1, hnot.2.2])
    have hfree : without live (inorder r ++ inorder l) head = true :=
      without_live (hall head (mem_inorder_node.mpr (.inr (.inl rfl)))) (by simp [hheadl, hheadr])
    have hlast : without live (inorder r ++ inorder l ++ [head]) p = true :=
      without_live hp (by simp [hnot.1, hnot.2.1, hnot.2.2])
    simp only [Option.bind_eq_bind, Option.bind_some, hhead,
      bstCleanupNode_eq htree hnodup hall hcalls, loadAt_of_live hload, freeAt_of_live hfree,
      without_without, freeAt_of_live hlast]
    refine congrArg some (without_congr fun a => ?_)
    simp [inorder]
    tauto

/-- The tree that `bst_init_group` builds has a node for each address. -/
theorem bstInitGroup_eq {calls : Nat} (mem : Memory) {malloc : Nat → Nat} (rand : BitVec 32)
    {groupWss : Int} {n : Nat} (hn : toULong groupWss / sizeofBstNode = n)
    (hcounter : n < 2 ^ 31) (hmalloc : ((List.range n).map malloc).Nodup) (hcalls : n ≤ calls) :
    ∃ mem' data t, bstInitGroup calls mem malloc rand groupWss = some (mem', data) ∧
      TreeIn mem' data.head t ∧ (inorder t).Perm ((List.range n).map malloc) ∧
      data.nextNode = data.head := by
  have hlong : toLong (toULong groupWss / sizeofBstNode) = n := by
    rw [← Int.natCast_div, hn]
    exact toLong_eq_self (by omega) (by omega)
  let nodes := LinkedList.groupNodes ((List.range n).map malloc) rand
  have hfst : nodes.map Prod.fst = (List.range n).map malloc :=
    LinkedList.map_fst_groupNodes _ _
  have hempty : TreeIn mem (BstData.head ⟨none, none, 0, rand⟩) .nil := rfl
  have hnodup : (nodes.map Prod.fst ++ inorder (.nil : BinaryTree Nat)).Nodup := by
    rwa [inorder, List.append_nil, hfst]
  have hheight : nodes.length + (inorder (.nil : BinaryTree Nat)).length ≤ calls := by
    rw [LinkedList.length_groupNodes, List.length_map, List.length_range]
    exact hcalls
  obtain ⟨mem', head, t, hrun, htree, hperm, -⟩ :=
    insertBstNodes_eq hempty hnodup hheight trivial
  rw [inorder, List.append_nil, hfst] at hperm
  have hint : ¬(2 ^ 31 : Int) ≤ n := by omega
  let rand' := lfsrandom32 (lfsrandom32^[n] rand)
  refine ⟨mem', ⟨head, head, rand'.toInt, rand'⟩, t, ?_, htree, hperm, rfl⟩
  rw [bstInitGroup, hlong]
  dsimp only
  rw [if_neg hint, Int.toNat_natCast, hrun]
  rfl

/-- **The whole life of a group's tree.** Whatever calls its tasks make, in any order, each
starts and ends at a node of the tree, and `bst_cleanup_group` then frees the nodes and the
struct, each once. -/
theorem bstGroup_life {calls : Nat} (mem : Memory) {malloc : Nat → Nat} (rand : BitVec 32)
    {groupWss : Int} {n p : Nat} {live : Nat → Bool}
    (hn : toULong groupWss / sizeofBstNode = n) (hpos : 0 < n) (hcounter : n < 2 ^ 31)
    (hmalloc : ((List.range n).map malloc).Nodup) (hcalls : n ≤ calls)
    (hlive : ∀ i < n, live (malloc i) = true) (hp : live p = true)
    (hnew : ∀ i < n, malloc i ≠ p) :
    ∃ mem₁ data, bstInitGroup calls mem malloc rand groupWss = some (mem₁, data) ∧
      ∀ (seeds : Nat → BitVec 32) (work : List (Nat × Nat)), ∃ mem₂ tasks,
        groupCalls bstDoWork work (mem₁, fun i => bstInitTask data (seeds i)) =
          some (mem₂, tasks) ∧
        (∀ task, ∃ i < n, (tasks task).nextNode = some (malloc i)) ∧
        bstCleanupGroup mem₂ calls live p data =
          some (without live (p :: (List.range n).map malloc)) := by
  obtain ⟨mem₁, data, t, hinit, htree, hperm, hnext⟩ :=
    bstInitGroup_eq mem rand hn hcounter hmalloc hcalls
  have hmem : ∀ a, a ∈ inorder t ↔ ∃ i < n, malloc i = a := by
    intro a
    rw [hperm.mem_iff, List.mem_map]
    simp only [List.mem_range]
  obtain ⟨head, hhead⟩ : ∃ head, data.head = some head := by
    cases hhead : data.head with
    | some head => exact ⟨head, rfl⟩
    | none =>
      rw [hhead] at htree
      obtain rfl := TreeAt.eq_nil htree
      have hfirst := (hmem (malloc 0)).mpr ⟨0, hpos, rfl⟩
      cases hfirst
  have hroot : head ∈ inorder t := by
    rw [hhead] at htree
    obtain ⟨l, r, rfl⟩ := htree.exists_node
    exact mem_inorder_node.mpr (.inr (.inl rfl))
  refine ⟨mem₁, data, hinit, fun seeds work => ?_⟩
  have hstep : ∀ iterations mem data, SameLinks mem₁ mem → Searching head t data →
      ∃ mem' data', bstDoWork iterations (mem, data) = some (mem', data') ∧
        SameLinks mem₁ mem' ∧ Searching head t data' := by
    intro iterations mem task hlinks hsearch
    obtain ⟨mem', task', hrun, hlinks', h⟩ :=
      hsearch.bstDoWork iterations (hlinks.treeIn (hhead ▸ htree))
    exact ⟨mem', task', hrun,
      fun a => ⟨(hlinks' a).1.trans (hlinks a).1, (hlinks' a).2.trans (hlinks a).2⟩, h⟩
  obtain ⟨mem₂, tasks, hrun, hlinks, htasks⟩ :=
    groupCalls_exists bstDoWork hstep work (fun i => bstInitTask data (seeds i))
      (fun _ => ⟨rfl, rfl⟩) fun _ => ⟨hhead, head, hroot, hnext.trans hhead⟩
  refine ⟨mem₂, tasks, hrun, fun task => ?_, ?_⟩
  · obtain ⟨-, a, ha, hat⟩ := htasks task
    obtain ⟨i, hi, rfl⟩ := (hmem a).mp ha
    exact ⟨i, hi, hat⟩
  · have hall : ∀ a ∈ inorder t, live a = true := by
      intro a ha
      obtain ⟨i, hi, rfl⟩ := (hmem a).mp ha
      exact hlive i hi
    have hnot : p ∉ inorder t := by
      intro hin
      obtain ⟨i, hi, heq⟩ := (hmem p).mp hin
      exact hnew i hi heq
    have hheight := height_le_length_inorder t
    rw [hperm.length_eq, List.length_map, List.length_range] at hheight
    rw [bstCleanupGroup_eq (hlinks.treeIn htree) (hperm.nodup_iff.mpr hmalloc) hall hp hnot
      (hheight.trans hcalls)]
    exact congrArg some (without_congr fun a => by simp [hperm.mem_iff])

/-- A tree of two nodes. -/
theorem bstGroup_life_two :
    ∃ mem₁ data, bstInitGroup 2 (fun _ => ⟨0, 0, none, none⟩) (fun i => 100 + i) 1 48 =
        some (mem₁, data) ∧
      ∀ (seeds : Nat → BitVec 32) (work : List (Nat × Nat)), ∃ mem₂ tasks,
        groupCalls bstDoWork work (mem₁, fun i => bstInitTask data (seeds i)) =
          some (mem₂, tasks) ∧
        (∀ task, ∃ i < 2, (tasks task).nextNode = some (100 + i)) ∧
        bstCleanupGroup mem₂ 2 (fun _ => true) 99 data =
          some (without (fun _ => true) (99 :: (List.range 2).map (100 + ·))) :=
  bstGroup_life _ 1 (by decide) (by decide) (by decide) (by decide) (by decide) (by simp)
    (by decide) (by omega)

end

end Bst

/-! ## The linked list -/

namespace LinkedList

/-- The loop of `linked_list_cleanup_group`, of at most `rounds` rounds. -/
def cleanupLoop (mem : Memory) (p : Nat) : Nat → (Nat → Bool) → WalkData → Option (Nat → Bool)
  | 0, _, _ => none
  | rounds + 1, live, data => do
    let data ← loadAt live (fun _ => data) p
    match data.head with
    | none => some live
    | some tmp =>
      let node ← loadAt live mem tmp
      let live ← freeAt live tmp
      cleanupLoop mem p rounds live { data with head := node.next }

/-- `linked_list_cleanup_group`, for the group's struct at the address `p`. -/
def linkedListCleanupGroup (mem : Memory) (rounds : Nat) (live : Nat → Bool) (p : Nat)
    (data : WalkData) : Option (Nat → Bool) := do
  let live ← cleanupLoop mem p rounds live data
  freeAt live p

section

variable {mem mem' : Memory} {data : WalkData} {as : List Nat}

/-- The struct has the head of the list, and is at one of its nodes. -/
def Walking (head : Option Nat) (as : List Nat) (data : WalkData) : Prop :=
  data.head = head ∧ ∃ a ∈ as, data.nextNode = some a

theorem walkNode_eq {a b : Nat} (hnext : data.nextNode = some a)
    (hmove : (mem a).next.or data.head = some b) :
    ∃ mem' data', walkNode mem data = some (mem', data') ∧
      (∀ c, (mem' c).next = (mem c).next) ∧ data'.head = data.head ∧ data'.nextNode = some b := by
  refine ⟨_, { data with nextNode := some b }, by rw [walkNode, hnext]; dsimp only; rw [hmove],
    fun c => ?_, rfl, rfl⟩
  by_cases hc : c = b
  · rw [hc, Function.update_self]
  · rw [Function.update_of_ne hc]

/-- A call moves from node to node of the list. -/
theorem Walking.linkedListDoWork {head : Option Nat} (iterations : Nat) (hlist : ListAt mem head as)
    (h : Walking head as data) :
    ∃ mem' data', linkedListDoWork iterations mem data = some (mem', data') ∧
      (∀ a, (mem' a).next = (mem a).next) ∧ Walking head as data' := by
  induction iterations generalizing mem data with
  | zero => exact ⟨mem, data, rfl, fun _ => rfl, h⟩
  | succ iterations ih =>
    obtain ⟨hhead, a, ha, hnext⟩ := h
    obtain ⟨i, hi, rfl⟩ := List.getElem_of_mem ha
    have hi' := Nat.mod_lt (i + 1) (Nat.zero_lt_of_lt hi)
    have hmove := Segment.next_or_head hlist hi
    rw [List.getElem?_eq_getElem hi', ← hhead] at hmove
    obtain ⟨mem₁, data₁, hstep, hlinks₁, hhead₁, hnext₁⟩ := walkNode_eq hnext hmove
    have h₁ : Walking head as data₁ := ⟨hhead₁.trans hhead, _, List.getElem_mem hi', hnext₁⟩
    obtain ⟨mem₂, data₂, hrun, hlinks₂, h₂⟩ := ih (Segment.congr (fun b _ => hlinks₁ b) hlist) h₁
    refine ⟨mem₂, data₂, ?_, fun b => (hlinks₂ b).trans (hlinks₁ b), h₂⟩
    rw [LinkedList.linkedListDoWork, hstep]
    exact hrun

/-- The loop frees the nodes of the list, from the head on. -/
theorem cleanupLoop_eq {rounds p : Nat} {live : Nat → Bool} (hlist : ListAt mem data.head as)
    (hnodup : as.Nodup) (hall : ∀ a ∈ as, live a = true) (hp : live p = true) (hnot : p ∉ as)
    (hrounds : as.length < rounds) :
    cleanupLoop mem p rounds live data = some (without live as) := by
  induction as generalizing rounds live data with
  | nil =>
    obtain ⟨rounds, rfl⟩ := Nat.exists_eq_add_one_of_ne_zero (Nat.ne_zero_of_lt hrounds)
    have hhead : data.head = none := hlist
    simp [cleanupLoop, loadAt_of_live hp, hhead]
  | cons a as ih =>
    obtain ⟨rounds, rfl⟩ := Nat.exists_eq_add_one_of_ne_zero (Nat.ne_zero_of_lt hrounds)
    obtain ⟨hhead, hrest⟩ := hlist
    obtain ⟨ha, hnodup⟩ := List.nodup_cons.mp hnodup
    simp only [List.mem_cons, not_or] at hnot
    have hlive : live a = true := hall a List.mem_cons_self
    have hall' : ∀ b ∈ as, without live [a] b = true := by
      intro b hb
      refine without_live (hall b (List.mem_cons_of_mem a hb)) ?_
      rw [List.mem_singleton]
      exact ne_of_mem_of_not_mem hb ha
    have hnext : ListAt mem ({ data with head := (mem a).next } : WalkData).head as := hrest
    rw [cleanupLoop]
    simp only [loadAt_of_live hp, Option.bind_eq_bind, Option.bind_some, hhead,
      loadAt_of_live hlive, freeAt_of_live hlive]
    rw [ih hnext hnodup hall' (without_live hp (by simpa using hnot.1)) hnot.2
      (by simpa using hrounds), without_without, List.singleton_append]

/-- The nodes of the list are those that were allocated for it. -/
theorem linkedListInitGroup_perm {rounds : Nat} {malloc : Nat → Nat} {rand : BitVec 32}
    {groupWss : Int} {n : Nat} (hn : toULong groupWss / sizeofNode = n) (hcounter : n < 2 ^ 31)
    (hmalloc : ((List.range n).map malloc).Nodup) (hrounds : n ≤ rounds)
    (hinit : linkedListInitGroup rounds mem malloc rand groupWss = some (mem', data))
    (hlist : ListAt mem' data.head as) : as.Perm ((List.range n).map malloc) := by
  have hlong : toLong (toULong groupWss / sizeofNode) = n := by
    rw [← Int.natCast_div, hn]
    exact toLong_eq_self (by omega) (by omega)
  have hint : ¬(2 ^ 31 : Int) ≤ n := by omega
  have hfst := map_fst_groupNodes ((List.range n).map malloc) rand
  have hempty : ListAt mem (LinkedListData.head ⟨none⟩) [] := rfl
  obtain ⟨mem₁, data₁, bs, hrun, hlist₁, hperm, -⟩ :=
    insertNodes_eq hempty (by rwa [List.append_nil, hfst])
      (by simpa [length_groupNodes] using hrounds)
  rw [List.append_nil, hfst] at hperm
  rw [linkedListInitGroup, hlong] at hinit
  dsimp only at hinit
  rw [if_neg hint, Int.toNat_natCast, hrun] at hinit
  cases hinit
  rwa [Segment.unique hlist hlist₁]

/-- **The whole life of a group's list.** Whatever calls its tasks make, in any order, each
starts and ends at a node of the list, and `linked_list_cleanup_group` then frees the nodes and
the struct, each once. -/
theorem linkedListGroup_life {rounds : Nat} (mem : Memory) {malloc : Nat → Nat}
    (rand : BitVec 32) {groupWss : Int} {n p : Nat} {live : Nat → Bool}
    (hn : toULong groupWss / sizeofNode = n) (hpos : 0 < n) (hcounter : n < 2 ^ 31)
    (hmalloc : ((List.range n).map malloc).Nodup) (hrounds : n < rounds)
    (hlive : ∀ i < n, live (malloc i) = true) (hp : live p = true)
    (hnew : ∀ i < n, malloc i ≠ p) :
    ∃ mem₁ data, linkedListInitGroup rounds mem malloc rand groupWss = some (mem₁, data) ∧
      ∀ work : List (Nat × Nat), ∃ mem₂ tasks,
        groupCalls (fun iterations s => linkedListDoWork iterations s.1 s.2) work
          (mem₁, fun _ => linkedListInitTask data) = some (mem₂, tasks) ∧
        (∀ task, ∃ i < n, (tasks task).nextNode = some (malloc i)) ∧
        linkedListCleanupGroup mem₂ rounds live p data =
          some (without live (p :: (List.range n).map malloc)) := by
  obtain ⟨mem₁, data, as, hinit, hlist, hlength, hnodup, hnext, -⟩ :=
    linkedListInitGroup_eq mem rand hn hcounter hmalloc hrounds.le
  have hperm := linkedListInitGroup_perm hn hcounter hmalloc hrounds.le hinit hlist
  have hmem : ∀ a, a ∈ as ↔ ∃ i < n, malloc i = a := by
    intro a
    rw [hperm.mem_iff, List.mem_map]
    simp only [List.mem_range]
  obtain ⟨head, rest, rfl⟩ := List.exists_cons_of_length_pos (hlength ▸ hpos)
  refine ⟨mem₁, data, hinit, fun work => ?_⟩
  have hstep : ∀ iterations mem task, (∀ a, (mem a).next = (mem₁ a).next) →
      Walking data.head (head :: rest) task →
      ∃ mem' task', linkedListDoWork iterations mem task = some (mem', task') ∧
        (∀ a, (mem' a).next = (mem₁ a).next) ∧ Walking data.head (head :: rest) task' := by
    intro iterations mem task hlinks hwalk
    obtain ⟨mem', task', hrun, hlinks', h⟩ :=
      hwalk.linkedListDoWork iterations (Segment.congr (fun a _ => hlinks a) hlist)
    exact ⟨mem', task', hrun, fun a => (hlinks' a).trans (hlinks a), h⟩
  obtain ⟨mem₂, tasks, hrun, hlinks, htasks⟩ :=
    groupCalls_exists (fun iterations s => linkedListDoWork iterations s.1 s.2)
      (P := fun mem : Memory => ∀ a, (mem a).next = (mem₁ a).next) hstep work
      (fun _ => linkedListInitTask data) (fun _ => rfl)
      fun _ => ⟨rfl, head, List.mem_cons_self, hnext.trans hlist.1⟩
  refine ⟨mem₂, tasks, hrun, fun task => ?_, ?_⟩
  · obtain ⟨-, a, ha, hat⟩ := htasks task
    obtain ⟨i, hi, rfl⟩ := (hmem a).mp ha
    exact ⟨i, hi, hat⟩
  · have hall : ∀ a ∈ head :: rest, live a = true := by
      intro a ha
      obtain ⟨i, hi, rfl⟩ := (hmem a).mp ha
      exact hlive i hi
    have hnot : p ∉ head :: rest := by
      intro hin
      obtain ⟨i, hi, heq⟩ := (hmem p).mp hin
      exact hnew i hi heq
    rw [linkedListCleanupGroup, cleanupLoop_eq (Segment.congr (fun a _ => hlinks a) hlist) hnodup
      hall hp hnot (hlength ▸ hrounds), Option.bind_eq_bind, Option.bind_some,
      freeAt_of_live (without_live hp hnot), without_without]
    exact congrArg some (without_congr fun a => by
      rw [List.mem_append, hperm.mem_iff, List.mem_singleton, List.mem_cons, or_comm])

/-- A list of two nodes. -/
theorem linkedListGroup_life_two :
    ∃ mem₁ data, linkedListInitGroup 3 (fun _ => ⟨0, none⟩) (fun i => 100 + i) 1 32 =
        some (mem₁, data) ∧
      ∀ work : List (Nat × Nat), ∃ mem₂ tasks,
        groupCalls (fun iterations s => linkedListDoWork iterations s.1 s.2) work
          (mem₁, fun _ => linkedListInitTask data) = some (mem₂, tasks) ∧
        (∀ task, ∃ i < 2, (tasks task).nextNode = some (100 + i)) ∧
        linkedListCleanupGroup mem₂ 3 (fun _ => true) 99 data =
          some (without (fun _ => true) (99 :: (List.range 2).map (100 + ·))) :=
  linkedListGroup_life _ 1 (by decide) (by decide) (by decide) (by decide) (by decide) (by simp)
    (by decide) (by omega)

end

end LinkedList

end Chronos.Work

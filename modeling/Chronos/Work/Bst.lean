import Chronos.Lib.Scanf
import Chronos.Lib.SearchTree
import Chronos.Lib.Update
import Chronos.Work.Random

/-!
# The search tree workload

How `bst_init_group` builds its tree, and how `bst_do_work` searches it: one comparison
in an iteration, with the search that is under way kept between two calls. Memory is a
function from addresses to nodes, and a null pointer is `none`.
-/

namespace Chronos.Work.Bst

open Lib

structure BstNode where
  value : Int
  falseValue : Int
  left : Option Nat
  right : Option Nat
  deriving DecidableEq, Repr

/-- `struct bst_data`, without the number of elements. -/
structure BstData where
  head : Option Nat
  nextNode : Option Nat
  findingValue : Int
  rand : BitVec 32
  deriving DecidableEq, Repr

abbrev Memory := Nat → BstNode

/-! ## Building the tree -/

/-- `head->left = n` -/
def setLeft (mem : Memory) (head n : Nat) : Memory :=
  Function.update mem head { mem head with left := some n }

/-- `head->right = n` -/
def setRight (mem : Memory) (head n : Nat) : Memory :=
  Function.update mem head { mem head with right := some n }

/-- `_insert_bst_node`, which calls itself at most `calls` times. -/
def insertBstNodeFrom (mem : Memory) (n : Nat) : Nat → Nat → Option Memory
  | 0, _ => none
  | calls + 1, head =>
    if (mem n).value < (mem head).value then
      match (mem head).left with
      | some left => insertBstNodeFrom mem n calls left
      | none => some (setLeft mem head n)
    else
      match (mem head).right with
      | some right => insertBstNodeFrom mem n calls right
      | none => some (setRight mem head n)

def insertBstNode (calls : Nat) (mem : Memory) (data : BstData) (n : Nat) :
    Option (Memory × BstData) :=
  match data.head with
  | none => some (mem, { data with head := some n })
  | some head => do
    let mem ← insertBstNodeFrom mem n calls head
    return (mem, data)

/-- What `malloc` gives and `bst_init_group` makes of it; `false_value` stays as it is in
the memory. -/
def newNode (mem : Memory) (n : Nat) (value : Int) : Memory :=
  Function.update mem n { mem n with value, left := none, right := none }

/-- The loop of `bst_init_group`, for the addresses and the values of the nodes. -/
def insertBstNodes (calls : Nat) : Memory → BstData → List (Nat × Int) →
    Option (Memory × BstData)
  | mem, data, [] => some (mem, data)
  | mem, data, (n, value) :: nodes => do
    let (mem, data) ← insertBstNode calls (newNode mem n value) data n
    insertBstNodes calls mem data nodes

/-! ## Searching it -/

/-- `next_node->false_value++` -/
def incrementFalseValue (mem : Memory) (a : Nat) : Memory :=
  Function.update mem a { mem a with falseValue := toInt ((mem a).falseValue + 1) }

/-- Which way to go from a node, if any. -/
def child (findingValue : Int) (node : BstNode) : Option Nat :=
  if findingValue < node.value then node.left
  else if findingValue > node.value then node.right
  else none

/-- An iteration of `bst_do_work`; it is not defined if `next_node` is null. -/
def bstIteration (mem : Memory) (data : BstData) : Option (Memory × BstData) :=
  if data.findingValue = 0 then
    let rand := lfsrandom32 data.rand
    some (mem, { data with rand, findingValue := rand.toInt, nextNode := data.head })
  else
    match data.nextNode with
    | none => none
    | some next =>
      let n := child data.findingValue (mem next)
      if n = none ∨ data.findingValue = (mem next).value then
        some (incrementFalseValue mem next, { data with findingValue := 0 })
      else some (mem, { data with nextNode := n })

def bstDoWork : Nat → Memory × BstData → Option (Memory × BstData)
  | 0, s => some s
  | iterations + 1, s => do
    let s ← bstIteration s.1 s.2
    bstDoWork iterations s

/-! ## The tree that is built -/

/-- The tree at a pointer. -/
def TreeIn (mem : Memory) (p : Option Nat) (t : BinaryTree Nat) : Prop :=
  TreeAt (fun a => (mem a).left) (fun a => (mem a).right) p t

/-- The value of the node at an address. -/
def valueAt (mem : Memory) (a : Nat) : Int := (mem a).value

section Insert

variable {mem mem' : Memory} {data : BstData} {t : BinaryTree Nat} {p : Option Nat} {n : Nat}

theorem TreeIn.congr (h : ∀ a ∈ inorder t, mem' a = mem a) (ht : TreeIn mem p t) :
    TreeIn mem' p t :=
  TreeAt.congr (fun a ha => ⟨congrArg BstNode.left (h a ha), congrArg BstNode.right (h a ha)⟩) ht

theorem treeIn_node {head a : Nat} {l r : BinaryTree Nat} :
    TreeIn mem (some head) (.node a l r) ↔
      head = a ∧ TreeIn mem (mem head).left l ∧ TreeIn mem (mem head).right r := by
  unfold TreeIn
  constructor
  · rintro ⟨hp, hl, hr⟩
    obtain rfl : head = a := Option.some.inj hp
    exact ⟨rfl, hl, hr⟩
  · rintro ⟨rfl, hl, hr⟩
    exact ⟨rfl, hl, hr⟩

theorem setLeft_of_ne {head a : Nat} (h : a ≠ head) : setLeft mem head n a = mem a :=
  Function.update_of_ne h _ _

theorem setRight_of_ne {head a : Nat} (h : a ≠ head) : setRight mem head n a = mem a :=
  Function.update_of_ne h _ _

theorem valueAt_update (a : Nat) (node : BstNode) :
    valueAt (Function.update mem a node) = Function.update (valueAt mem) a node.value :=
  Function.comp_update BstNode.value mem a node

theorem valueAt_setLeft (head m : Nat) : valueAt (setLeft mem head m) = valueAt mem :=
  (valueAt_update head _).trans (Function.update_eq_self head _)

theorem valueAt_setRight (head m : Nat) : valueAt (setRight mem head m) = valueAt mem :=
  (valueAt_update head _).trans (Function.update_eq_self head _)

/-- **`_insert_bst_node`** inserts the node in search order. It changes links only, and
those only in the tree. -/
theorem insertBstNodeFrom_eq {calls head : Nat} (h : TreeIn mem (some head) t)
    (hnodup : (inorder t).Nodup) (hn : n ∉ inorder t)
    (hnew : TreeIn mem (some n) (.node n .nil .nil)) (hcalls : t.height ≤ calls) :
    ∃ mem', insertBstNodeFrom mem n calls head = some mem' ∧
      TreeIn mem' (some head) (insertKey (valueAt mem) n t) ∧ valueAt mem' = valueAt mem ∧
      ∀ a ∉ inorder t, mem' a = mem a := by
  induction t generalizing calls head with
  | nil => cases h
  | node a l r ihl ihr =>
    obtain ⟨rfl, hleft, hright⟩ := treeIn_node.mp h
    obtain ⟨hl, hr, hal, har, hdisj⟩ := nodup_inorder_node hnodup
    simp only [mem_inorder_node, not_or] at hn
    obtain ⟨hnl, hna, hnr⟩ := hn
    obtain ⟨calls, rfl⟩ : ∃ k, calls = k + 1 := ⟨calls - 1, by simp at hcalls; omega⟩
    simp only [BinaryTree.height, Nat.add_le_add_iff_right, sup_le_iff] at hcalls
    have hframe (a : Nat) (ha : a ∉ inorder (.node head l r)) :
        a ∉ inorder l ∧ a ≠ head ∧ a ∉ inorder r := by
      simpa only [mem_inorder_node, not_or] using ha
    rw [insertBstNodeFrom, insertKey]
    split
    · next hlt =>
      rw [if_pos (show valueAt mem n < valueAt mem head from hlt)]
      cases hchild : (mem head).left with
      | none =>
        rw [hchild] at hleft
        obtain rfl := TreeAt.eq_nil hleft
        refine ⟨setLeft mem head n, rfl, treeIn_node.mpr ⟨rfl, ?_, ?_⟩, ?_, ?_⟩
        · simp only [setLeft, Function.update_self, insertKey]
          refine TreeIn.congr (fun b hb => ?_) hnew
          exact setLeft_of_ne (by simp [inorder] at hb; rw [hb]; exact hna)
        · simp only [setLeft, Function.update_self]
          refine TreeIn.congr (fun b hb => ?_) hright
          exact setLeft_of_ne (fun h => har (h ▸ hb))
        · exact valueAt_setLeft head n
        · intro b hb
          exact setLeft_of_ne (hframe b hb).2.1
      | some left =>
        rw [hchild] at hleft
        obtain ⟨mem', hins, htree, hvalue, hsame⟩ := ihl hleft hl hnl hcalls.1
        refine ⟨mem', hins, treeIn_node.mpr ⟨rfl, ?_, ?_⟩, hvalue, ?_⟩
        · rw [hsame head hal, hchild]
          exact htree
        · rw [hsame head hal]
          refine TreeIn.congr (fun b hb => hsame b ?_) hright
          exact fun hbl => hdisj hbl hb
        · intro b hb
          exact hsame b (hframe b hb).1
    · next hge =>
      rw [if_neg (show ¬valueAt mem n < valueAt mem head from hge)]
      cases hchild : (mem head).right with
      | none =>
        rw [hchild] at hright
        obtain rfl := TreeAt.eq_nil hright
        refine ⟨setRight mem head n, rfl, treeIn_node.mpr ⟨rfl, ?_, ?_⟩, ?_, ?_⟩
        · simp only [setRight, Function.update_self]
          refine TreeIn.congr (fun b hb => ?_) hleft
          exact setRight_of_ne (fun h => hal (h ▸ hb))
        · simp only [setRight, Function.update_self, insertKey]
          refine TreeIn.congr (fun b hb => ?_) hnew
          exact setRight_of_ne (by simp [inorder] at hb; rw [hb]; exact hna)
        · exact valueAt_setRight head n
        · intro b hb
          exact setRight_of_ne (hframe b hb).2.1
      | some right =>
        rw [hchild] at hright
        obtain ⟨mem', hins, htree, hvalue, hsame⟩ := ihr hright hr hnr hcalls.2
        refine ⟨mem', hins, treeIn_node.mpr ⟨rfl, ?_, ?_⟩, hvalue, ?_⟩
        · rw [hsame head har]
          refine TreeIn.congr (fun b hb => hsame b ?_) hleft
          exact fun hbr => hdisj hb hbr
        · rw [hsame head har, hchild]
          exact htree
        · intro b hb
          exact hsame b (hframe b hb).2.2

theorem insertBstNode_eq {calls : Nat} (h : TreeIn mem data.head t) (hnodup : (inorder t).Nodup)
    (hn : n ∉ inorder t) (hnew : TreeIn mem (some n) (.node n .nil .nil))
    (hcalls : t.height ≤ calls) :
    ∃ mem' head, insertBstNode calls mem data n = some (mem', { data with head }) ∧
      TreeIn mem' head (insertKey (valueAt mem) n t) ∧ valueAt mem' = valueAt mem := by
  obtain ⟨head, nextNode, findingValue, rand⟩ := data
  cases head with
  | none =>
    obtain rfl := TreeAt.eq_nil h
    exact ⟨mem, some n, rfl, hnew, rfl⟩
  | some head =>
    obtain ⟨mem', hins, htree, hvalue, -⟩ := insertBstNodeFrom_eq h hnodup hn hnew hcalls
    refine ⟨mem', some head, ?_, htree, hvalue⟩
    simp [insertBstNode, hins]

/-- A new node leaves the tree as it is. -/
theorem newNode_of_ne {a : Nat} (h : a ≠ n) (value : Int) : newNode mem n value a = mem a :=
  Function.update_of_ne h _ _

theorem valueAt_newNode (value : Int) :
    valueAt (newNode mem n value) = Function.update (valueAt mem) n value :=
  valueAt_update n _

theorem treeIn_newNode (value : Int) :
    TreeIn (newNode mem n value) (some n) (.node n .nil .nil) := by
  refine treeIn_node.mpr ⟨rfl, ?_, ?_⟩
  · simp [newNode, TreeIn, TreeAt]
  · simp [newNode, TreeIn, TreeAt]

/-- **The tree** has the nodes that were inserted, with their values, in search order. -/
theorem insertBstNodes_eq {calls : Nat} {nodes : List (Nat × Int)} (h : TreeIn mem data.head t)
    (hnodup : (nodes.map Prod.fst ++ inorder t).Nodup)
    (hcalls : nodes.length + (inorder t).length ≤ calls) (horder : SearchOrder (valueAt mem) t) :
    ∃ mem' head t', insertBstNodes calls mem data nodes = some (mem', { data with head }) ∧
      TreeIn mem' head t' ∧ (inorder t').Perm (nodes.map Prod.fst ++ inorder t) ∧
      SearchOrder (valueAt mem') t' ∧ (∀ node ∈ nodes, valueAt mem' node.1 = node.2) ∧
      ∀ a, a ∉ nodes.map Prod.fst → valueAt mem' a = valueAt mem a := by
  induction nodes generalizing mem data t with
  | nil => exact ⟨mem, data.head, t, rfl, h, .refl _, horder, by simp, by simp⟩
  | cons node nodes ih =>
    obtain ⟨n, v⟩ := node
    simp only [List.map_cons, List.cons_append] at hnodup
    obtain ⟨hfresh, hrest⟩ := List.nodup_cons.mp hnodup
    obtain ⟨hnew, hn⟩ := not_or.mp (mt List.mem_append.mpr hfresh)
    have hne : ∀ a ∈ inorder t, a ≠ n := fun a ha => ne_of_mem_of_not_mem ha hn
    have hheight := height_le_length_inorder t
    simp only [List.length_cons] at hcalls
    have hcalls' : t.height ≤ calls := by omega
    obtain ⟨mem₁, head₁, hinsert, htree, hvalues⟩ :=
      insertBstNode_eq (h.congr fun a ha => newNode_of_ne (hne a ha) v)
        (List.nodup_append.mp hrest).2.1 hn (treeIn_newNode v) hcalls'
    rw [valueAt_newNode] at hvalues htree
    have horder₁ : SearchOrder (Function.update (valueAt mem) n v) t :=
      horder.congr fun a ha => Function.update_of_ne (hne a ha) _ _
    have hinserted : (inorder (insertKey (Function.update (valueAt mem) n v) n t)).Perm
        (n :: inorder t) := perm_insertKey
    have hperm := (hinserted.append_left (nodes.map Prod.fst)).trans List.perm_middle
    have hcalls₁ := hinserted.length_eq
    rw [List.length_cons] at hcalls₁
    have htree₁ : TreeIn mem₁ ({ data with head := head₁ } : BstData).head _ := htree
    obtain ⟨mem', head, t', hrun, htree', hperm', horder', hnodes, hframe⟩ :=
      ih htree₁ (hperm.nodup_iff.mpr hnodup) (by omega) (hvalues ▸ horder₁.insertKey)
    refine ⟨mem', head, t', ?_, htree', ?_, horder', ?_, ?_⟩
    · simp [insertBstNodes, hinsert, hrun]
    · exact hperm'.trans hperm
    · intro node hnode
      rcases List.mem_cons.mp hnode with rfl | hnode
      · rw [hframe n hnew, hvalues, Function.update_self]
      · exact hnodes node hnode
    · intro a ha
      simp only [List.map_cons, List.mem_cons, not_or] at ha
      rw [hframe a ha.2, hvalues, Function.update_of_ne ha.1]

end Insert

/-! ## A search -/

section Search

variable {mem : Memory} {data : BstData} {t : BinaryTree Nat} {p : Nat}

theorem bstDoWork_succ (i : Nat) (s : Memory × BstData) :
    bstDoWork (i + 1) s = (bstIteration s.1 s.2).bind (bstDoWork i) := rfl

theorem bstDoWork_add (i j : Nat) (s : Memory × BstData) :
    bstDoWork (i + j) s = (bstDoWork i s).bind (bstDoWork j) := by
  induction i generalizing s with
  | zero => simp [bstDoWork]
  | succ i ih =>
    rw [Nat.add_right_comm, bstDoWork_succ, bstDoWork_succ, Option.bind_assoc]
    exact congrArg _ (funext ih)

/-- Several calls do what one call does with all their iterations. -/
theorem foldlM_bstDoWork (calls : List Nat) (s : Memory × BstData) :
    calls.foldlM (fun s i => bstDoWork i s) s = bstDoWork calls.sum s := by
  induction calls generalizing s with
  | nil => rfl
  | cons i calls ih =>
    rw [List.foldlM_cons, List.sum_cons, bstDoWork_add]
    exact congrArg _ (funext ih)

theorem bstIteration_of_child_none (hv : data.findingValue ≠ 0) (hnext : data.nextNode = some p)
    (hchild : child data.findingValue (mem p) = none) :
    bstIteration mem data = some (incrementFalseValue mem p, { data with findingValue := 0 }) := by
  simp [bstIteration, hv, hnext, hchild]

theorem bstIteration_of_child_some {n : Nat} (hv : data.findingValue ≠ 0)
    (hnext : data.nextNode = some p) (hchild : child data.findingValue (mem p) = some n) :
    bstIteration mem data = some (mem, { data with nextNode := some n }) := by
  have hne : data.findingValue ≠ (mem p).value := by
    intro heq
    simp [child, heq] at hchild
  simp [bstIteration, hv, hnext, hchild, hne]

/-- The `false_value` of one node is one more, as an `int`, and all else is as before. -/
structure Counted (mem mem' : Memory) (a : Nat) : Prop where
  falseValue : (mem' a).falseValue = toInt ((mem a).falseValue + 1)
  value : (mem' a).value = (mem a).value
  left : (mem' a).left = (mem a).left
  right : (mem' a).right = (mem a).right
  others : ∀ b, b ≠ a → mem' b = mem b

theorem counted_incrementFalseValue (mem : Memory) (a : Nat) :
    Counted mem (incrementFalseValue mem a) a := by
  refine ⟨?_, ?_, ?_, ?_, fun b hb => Function.update_of_ne hb _ _⟩
  all_goals simp only [incrementFalseValue, Function.update_self]

/-- What a search leaves behind that ends at `last` after `k` iterations. Up to then it
is at a node of the tree, and changes nothing else; at its end it counts that node. -/
structure Searches (mem : Memory) (data : BstData) (t : BinaryTree Nat) (k last : Nat) : Prop where
  under_way : ∀ j < k, ∃ q ∈ inorder t,
    bstDoWork j (mem, data) = some (mem, { data with nextNode := some q })
  ends : ∃ mem', bstDoWork k (mem, data) =
      some (mem', { data with nextNode := some last, findingValue := 0 }) ∧ Counted mem mem' last

/-- The search that goes on at a child takes an iteration more. -/
theorem Searches.step {n k last : Nat} {s : BinaryTree Nat} (hv : data.findingValue ≠ 0)
    (hnext : data.nextNode = some p) (hchild : child data.findingValue (mem p) = some n)
    (hp : p ∈ inorder t) (hsub : ∀ a ∈ inorder s, a ∈ inorder t)
    (h : Searches mem { data with nextNode := some n } s k last) :
    Searches mem data t (k + 1) last := by
  have hstep := bstIteration_of_child_some hv hnext hchild
  refine ⟨fun j hj => ?_, ?_⟩
  · cases j with
    | zero =>
      refine ⟨p, hp, ?_⟩
      rw [← hnext]
      rfl
    | succ j =>
      obtain ⟨q, hq, hrun⟩ := h.under_way j (Nat.lt_of_succ_lt_succ hj)
      refine ⟨q, hsub q hq, ?_⟩
      rw [bstDoWork_succ, hstep, Option.bind_some, hrun]
  · obtain ⟨mem', hrun, hcounted⟩ := h.ends
    exact ⟨mem', by rw [bstDoWork_succ, hstep, Option.bind_some, hrun], hcounted⟩

theorem Searches.here (hv : data.findingValue ≠ 0) (hnext : data.nextNode = some p)
    (hchild : child data.findingValue (mem p) = none) (hp : p ∈ inorder t) :
    Searches mem data t 1 p := by
  refine ⟨fun j hj => ⟨p, hp, ?_⟩, ?_⟩
  · obtain rfl : j = 0 := by omega
    rw [← hnext]
    rfl
  · refine ⟨incrementFalseValue mem p, ?_, counted_incrementFalseValue mem p⟩
    rw [bstDoWork_succ, bstIteration_of_child_none hv hnext hchild, ← hnext]
    rfl

/-- **A search ends** at the last node on the way to the value, in as many iterations as
there are nodes on that way. -/
theorem searches_lastSeen (h : TreeIn mem (some p) t) (hv : data.findingValue ≠ 0)
    (hnext : data.nextNode = some p) :
    ∃ k, 1 ≤ k ∧ k ≤ t.height ∧
      Searches mem data t k (lastSeen (valueAt mem) data.findingValue t p) := by
  induction t generalizing p data with
  | nil => cases h
  | node a l r ihl ihr =>
    obtain ⟨rfl, hleft, hright⟩ := treeIn_node.mp h
    have hp : p ∈ inorder (.node p l r) := mem_inorder_node.mpr (.inr (.inl rfl))
    rw [lastSeen]
    split
    · next hlt =>
      have hchild : child data.findingValue (mem p) = (mem p).left := if_pos hlt
      cases hl : (mem p).left with
      | none =>
        rw [hl] at hleft hchild
        obtain rfl := TreeAt.eq_nil hleft
        exact ⟨1, le_rfl, by simp, Searches.here hv hnext hchild hp⟩
      | some left =>
        rw [hl] at hleft hchild
        have hrest : ∃ k, 1 ≤ k ∧ k ≤ l.height ∧ Searches mem { data with nextNode := some left }
            l k (lastSeen (valueAt mem) data.findingValue l left) := ihl hleft hv rfl
        obtain ⟨k, -, hk, hs⟩ := hrest
        obtain ⟨l', r', rfl⟩ := hleft.exists_node
        refine ⟨k + 1, by omega, by simp only [BinaryTree.height] at hk ⊢; omega, ?_⟩
        exact hs.step hv hnext hchild hp fun b hb => mem_inorder_node.mpr (.inl hb)
    · next hge =>
      split
      · next hgt =>
        have hchild : child data.findingValue (mem p) = (mem p).right :=
          (if_neg hge).trans (if_pos hgt)
        cases hr : (mem p).right with
        | none =>
          rw [hr] at hright hchild
          obtain rfl := TreeAt.eq_nil hright
          exact ⟨1, le_rfl, by simp, Searches.here hv hnext hchild hp⟩
        | some right =>
          rw [hr] at hright hchild
          have hrest : ∃ k, 1 ≤ k ∧ k ≤ r.height ∧ Searches mem
              { data with nextNode := some right } r k
              (lastSeen (valueAt mem) data.findingValue r right) := ihr hright hv rfl
          obtain ⟨k, -, hk, hs⟩ := hrest
          obtain ⟨l', r', rfl⟩ := hright.exists_node
          refine ⟨k + 1, by omega, by simp only [BinaryTree.height] at hk ⊢; omega, ?_⟩
          exact hs.step hv hnext hchild hp fun b hb => mem_inorder_node.mpr (.inr (.inr hb))
      · next hle =>
        have hchild : child data.findingValue (mem p) = none := (if_neg hge).trans (if_neg hle)
        exact ⟨1, le_rfl, by simp, Searches.here hv hnext hchild hp⟩

end Search

/-! ## Building and searching -/

/-- The loop of `bst_init_group` builds a search tree of the nodes it inserts. -/
def Builds (calls : Nat) (mem : Memory) (data : BstData) (nodes : List (Nat × Int)) : Prop :=
  ∃ mem' head t, insertBstNodes calls mem data nodes = some (mem', { data with head }) ∧
    TreeIn mem' head t ∧ ((inorder t).map fun a => (a, valueAt mem' a)).Perm nodes ∧
    SearchOrder (valueAt mem') t

/-- The search that starts at the head ends within the height of the tree, at a node of
the tree that has the value if there is one. -/
def Finds (mem : Memory) (data : BstData) (t : BinaryTree Nat) : Prop :=
  ∃ k last, 1 ≤ k ∧ k ≤ t.height ∧ Searches mem data t k last ∧ last ∈ inorder t ∧
    (valueAt mem last = data.findingValue ↔ ∃ a ∈ inorder t, valueAt mem a = data.findingValue)

/-- **Building and searching agree**, however the iterations are divided over calls. -/
theorem bst_agrees :
    (∀ calls mem data nodes, data.head = none → (nodes.map Prod.fst).Nodup →
      nodes.length ≤ calls → Builds calls mem data nodes) ∧
    (∀ mem data t, TreeIn mem data.head t → t ≠ .nil → SearchOrder (valueAt mem) t →
      data.nextNode = data.head → data.findingValue ≠ 0 → Finds mem data t) ∧
    ∀ (calls : List Nat) (s : Memory × BstData),
      calls.foldlM (fun s i => bstDoWork i s) s = bstDoWork calls.sum s := by
  refine ⟨?_, ?_, foldlM_bstDoWork⟩
  · intro calls mem data nodes hhead hnodup hcalls
    have hempty : TreeIn mem data.head .nil := by
      rw [hhead]
      rfl
    obtain ⟨mem', head, t, hrun, htree, hperm, horder, hnodes, -⟩ :=
      insertBstNodes_eq hempty (by rwa [inorder, List.append_nil]) hcalls trivial
    refine ⟨mem', head, t, hrun, htree, ?_, horder⟩
    rw [inorder, List.append_nil] at hperm
    exact perm_entries hperm hnodes
  · intro mem data t htree hne horder hnext hv
    cases hhead : data.head with
    | none =>
      rw [hhead] at htree
      exact absurd (TreeAt.eq_nil htree) hne
    | some p =>
      rw [hhead] at htree hnext
      obtain ⟨k, hk, hheight, hs⟩ := searches_lastSeen htree hv hnext
      obtain ⟨l, r, rfl⟩ := htree.exists_node
      have hmem : lastSeen (valueAt mem) data.findingValue (.node p l r) p ∈
          inorder (.node p l r) := lastSeen_mem p l r p
      refine ⟨k, _, hk, hheight, hs, hmem, fun heq => ⟨_, hmem, heq⟩, ?_⟩
      rintro ⟨a, ha, heq⟩
      exact horder.key_lastSeen ha heq p

/-- The tree of the values 5, 3 and 5 as it lies in memory. -/
def threeNodes : Memory := fun a =>
  if a = 8 then ⟨5, 0, some 16, some 24⟩ else if a = 16 then ⟨3, 2, none, none⟩
  else ⟨5, 0, none, none⟩

/-- The tree is built, and the search for 3 goes down from its head. -/
theorem bst_agrees_three :
    Builds 3 (fun _ => ⟨0, 0, none, none⟩) ⟨none, none, 0, 1⟩ [(8, 5), (16, 3), (24, 5)] ∧
      Finds threeNodes ⟨some 8, some 8, 3, 1⟩
        (.node 8 (.node 16 .nil .nil) (.node 24 .nil .nil)) := by
  refine ⟨bst_agrees.1 _ _ _ _ rfl (by decide) (by decide), bst_agrees.2.1 _ _ _ ?_ nofun ?_ rfl ?_⟩
  · exact ⟨rfl, ⟨rfl, rfl, rfl⟩, rfl, rfl, rfl⟩
  · simp [SearchOrder, inorder, valueAt, threeNodes]
  · decide

end Chronos.Work.Bst

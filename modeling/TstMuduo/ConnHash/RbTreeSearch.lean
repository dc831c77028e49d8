import TstMuduo.ConnHash.RbTreeInsert
import TstMuduo.Lib.SearchTree

/-!
# Searching the tree (tstconnhash/util_rbtree.cpp)

`util_rbtree_search` and `util_rbtree_lookup` read keys and children only. So they are about any
binary tree in memory whose keys are in order, whatever its colours and its parents.
-/

namespace TstMuduo.ConnHash
open TstMuduo.Lib

namespace RbTree

/- The loop of `util_rbtree_search` (`util_rbtree.cpp:404`). -/
def searchLoop (s : RbTree) (key : Int) : Nat → Ptr → Except RbFault Ptr
  | 0, _ => .error .noReturn
  | fuel + 1, node => do
    if node = .null then return .NULL
    let n ← s.load node
    if key < n.key then s.searchLoop key fuel n.left
    else if key > n.key then s.searchLoop key fuel n.right
    else if n.key = key then return node
    else s.searchLoop key fuel node

/- `util_rbtree_search` (`util_rbtree.cpp:398`). -/
def search (s : RbTree) (fuel : Nat) (key : Int) : Except RbFault Ptr :=
  s.searchLoop key fuel s.root

/- The loop of `util_rbtree_lookup` (`util_rbtree.cpp:421`), with the node found so far. -/
def lookupLoop (s : RbTree) (key : Int) : Nat → Ptr → Ptr → Except RbFault Ptr
  | 0, _, _ => .error .noReturn
  | fuel + 1, temp, node => do
    if temp = .null then return node
    let n ← s.load temp
    if key ≤ n.key then s.lookupLoop key fuel n.left temp
    else if key > n.key then s.lookupLoop key fuel n.right node
    else s.lookupLoop key fuel temp node

/- `util_rbtree_lookup` (`util_rbtree.cpp:414`). -/
def lookup (s : RbTree) (fuel : Nat) (key : Int) : Except RbFault Ptr := do
  if s.root ≠ .null then
    let node ← s.lookupLoop key fuel s.root .NULL
    if node ≠ .NULL then return node else s.subtreeMin fuel s.root
  else return .NULL

end RbTree

/-! ### A binary tree in memory -/

/-- A node as a search or a check reads it. -/
structure TreeNode where
  addr : Nat
  key : Int
  color : Int
  deriving DecidableEq, Repr

def TreeNode.ptr (a : TreeNode) : Ptr := .node a.addr

/-- The pointer to a tree: to the sentinel if it is empty. -/
def rootPtr : BinaryTree TreeNode → Ptr
  | .nil => .null
  | .node a _ _ => a.ptr

@[simp] theorem rootPtr_nil : rootPtr .nil = .null := rfl

@[simp] theorem rootPtr_node (a : TreeNode) (l r : BinaryTree TreeNode) :
    rootPtr (.node a l r) = a.ptr := rfl

/-- The keys, colours and children of a tree are in memory. -/
def InMemory (mem : Ptr → RbNode) : BinaryTree TreeNode → Prop
  | .nil => True
  | .node a l r =>
    (mem a.ptr).key = a.key ∧ (mem a.ptr).color = a.color ∧ (mem a.ptr).left = rootPtr l ∧
      (mem a.ptr).right = rootPtr r ∧ InMemory mem l ∧ InMemory mem r

/-- The search order: the keys do not fall from left to right. -/
def KeysInOrder (t : BinaryTree TreeNode) : Prop :=
  (traversal t).Pairwise fun a b => a.key ≤ b.key

def shapeOf : CTree Entry → BinaryTree TreeNode
  | .nil => .nil
  | .node c l a r => .node ⟨a.addr, a.key, colorInt c⟩ (shapeOf l) (shapeOf r)

theorem rootPtr_shapeOf (t : CTree Entry) : rootPtr (shapeOf t) = ptrOf t := by
  cases t <;> rfl

section
variable {s : RbTree} {t l r : BinaryTree TreeNode} {a : TreeNode} {key : Int} {fuel : Nat}
  {p : Ptr}

theorem TreeNode.ptr_ne_null (a : TreeNode) : a.ptr ≠ .null := Ptr.noConfusion

theorem TreeNode.ptr_ne_NULL (a : TreeNode) : a.ptr ≠ .NULL := Ptr.noConfusion

theorem rootPtr_eq_null : rootPtr t = .null ↔ t = .nil := by
  cases t with
  | nil => exact ⟨fun _ => rfl, fun _ => rfl⟩
  | node a l r => exact ⟨fun h => Ptr.noConfusion h, fun h => nomatch h⟩

theorem load_node (s : RbTree) (a : TreeNode) : s.load a.ptr = .ok (s.mem a.ptr) :=
  if_neg a.ptr_ne_NULL

/-! ### The loops -/

theorem searchLoop_eq (h : InMemory s.mem t) (hfuel : t.height < fuel) :
    s.searchLoop key fuel (rootPtr t) =
      .ok ((locate (fun a => compare key a.key) t).elim .NULL TreeNode.ptr) := by
  induction t generalizing fuel with
  | nil =>
    obtain ⟨fuel, rfl⟩ : ∃ n, fuel = n + 1 := ⟨fuel - 1, by omega⟩
    rfl
  | node a l r ihl ihr =>
    obtain ⟨fuel, rfl⟩ : ∃ n, fuel = n + 1 := ⟨fuel - 1, by omega⟩
    obtain ⟨hkey, -, hl, hr, hml, hmr⟩ := h
    simp only [BinaryTree.height] at hfuel
    simp only [rootPtr_node, RbTree.searchLoop, if_neg a.ptr_ne_null, load_node, ok_bind, hkey, hl,
      hr, locate]
    rcases Int.lt_trichotomy key a.key with hlt | heq | hgt
    · rw [if_pos hlt, compare_lt_iff_lt.mpr hlt]
      exact ihl hml (by omega)
    · rw [if_neg (by omega), if_neg (by omega), if_pos heq.symm, compare_eq_iff_eq.mpr heq]
      rfl
    · rw [if_neg (by omega), if_pos hgt, compare_gt_iff_gt.mpr hgt]
      exact ihr hmr (by omega)

theorem lookupLoop_eq (h : InMemory s.mem t) (hfuel : t.height < fuel) :
    s.lookupLoop key fuel (rootPtr t) p =
      .ok ((descendFirst (fun a => decide (key ≤ a.key)) t).elim p TreeNode.ptr) := by
  induction t generalizing fuel p with
  | nil =>
    obtain ⟨fuel, rfl⟩ : ∃ n, fuel = n + 1 := ⟨fuel - 1, by omega⟩
    rfl
  | node a l r ihl ihr =>
    obtain ⟨fuel, rfl⟩ : ∃ n, fuel = n + 1 := ⟨fuel - 1, by omega⟩
    obtain ⟨hkey, -, hl, hr, hml, hmr⟩ := h
    simp only [BinaryTree.height] at hfuel
    simp only [rootPtr_node, RbTree.lookupLoop, if_neg a.ptr_ne_null, load_node, ok_bind, hkey, hl,
      hr, descendFirst]
    by_cases hle : key ≤ a.key
    · rw [if_pos hle, if_pos (decide_eq_true hle), ihl hml (by omega)]
      cases descendFirst (fun a => decide (key ≤ a.key)) l <;> rfl
    · rw [if_neg hle, if_pos (by omega), if_neg (by simpa using hle)]
      exact ihr hmr (by omega)

theorem leftmost_loop_eq (h : InMemory s.mem (.node a l r)) (hfuel : l.height < fuel) :
    s.leftmost fuel a.ptr = .ok ((leftmost l).elim a.ptr TreeNode.ptr) := by
  induction l generalizing fuel a r with
  | nil =>
    obtain ⟨fuel, rfl⟩ : ∃ n, fuel = n + 1 := ⟨fuel - 1, by omega⟩
    obtain ⟨-, -, hl, -⟩ := h
    simp only [RbTree.leftmost, load_node, ok_bind, hl, rootPtr_nil]
    rfl
  | node b ll lr ihl ihr =>
    obtain ⟨fuel, rfl⟩ : ∃ n, fuel = n + 1 := ⟨fuel - 1, by omega⟩
    obtain ⟨-, -, hl, -, hml, -⟩ := h
    simp only [BinaryTree.height] at hfuel
    simp only [RbTree.leftmost, load_node, ok_bind, hl, rootPtr_node, ne_eq, b.ptr_ne_null,
      not_false_eq_true, if_true, leftmost]
    rw [ihl hml (by omega)]
    cases leftmost ll <;> rfl

theorem subtreeMin_eq (h : InMemory s.mem t) (hfuel : t.height < fuel) :
    s.subtreeMin fuel (rootPtr t) = .ok ((traversal t).head?.elim .NULL TreeNode.ptr) := by
  rw [← leftmost_eq]
  cases t with
  | nil => rfl
  | node a l r =>
    simp only [BinaryTree.height] at hfuel
    rw [RbTree.subtreeMin, rootPtr_node, if_neg a.ptr_ne_null, leftmost_loop_eq h (by omega),
      leftmost]
    cases leftmost l <;> rfl

/-! ### The two functions -/

theorem lookup_eq (h : InMemory s.mem t) (hroot : s.root = rootPtr t) (horder : KeysInOrder t)
    (hfuel : t.height < fuel) : s.lookup fuel key =
      .ok (((traversal t).find? (fun a => decide (key ≤ a.key)) <|> (traversal t).head?).elim
        .NULL TreeNode.ptr) := by
  have hfirst : descendFirst (fun a => decide (key ≤ a.key)) t =
      (traversal t).find? fun a => decide (key ≤ a.key) := by
    apply descendFirst_eq
    apply horder.imp
    intro a b hab hle
    exact decide_eq_true (Int.le_trans (of_decide_eq_true hle) hab)
  rw [RbTree.lookup, hroot]
  by_cases hnil : t = .nil
  · subst hnil
    rfl
  · rw [if_pos fun h0 => hnil (rootPtr_eq_null.mp h0), lookupLoop_eq h hfuel, hfirst, ok_bind]
    cases (traversal t).find? fun a => decide (key ≤ a.key) with
    | none =>
      simp only [Option.elim_none, ne_eq, not_true_eq_false, if_false, subtreeMin_eq h hfuel]
      rfl
    | some a =>
      simp only [Option.elim_some, ne_eq, a.ptr_ne_NULL, not_false_eq_true, if_true]
      rfl

theorem search_eq (h : InMemory s.mem t) (hroot : s.root = rootPtr t) (hfuel : t.height < fuel) :
    s.search fuel key =
      .ok ((locate (fun a => compare key a.key) t).elim .NULL TreeNode.ptr) := by
  rw [RbTree.search, hroot, searchLoop_eq h hfuel]

theorem locate_key_none (horder : KeysInOrder t)
    (hnone : locate (fun a => compare key a.key) t = none) (ha : a ∈ traversal t) :
    a.key ≠ key := by
  have hcmp := locate_none (fun a : TreeNode => compare key a.key) (horder.imp (by
    intro b c hbc
    rw [compare_lt_iff_lt, compare_lt_iff_lt, compare_gt_iff_gt, compare_gt_iff_gt]
    exact ⟨fun hlt => by omega, fun hgt => by omega⟩)) hnone ha
  intro heq
  exact hcmp (compare_eq_iff_eq.mpr heq.symm)

/-! ### What the insertions and deletions keep -/

theorem Rep.inMemory {mem : Ptr → RbNode} {t : CTree Entry} (h : Rep mem p t) :
    InMemory mem (shapeOf t) := by
  induction t generalizing p with
  | nil => trivial
  | node c l a r ihl ihr =>
    obtain ⟨hcell, hl, hr⟩ := h
    show (mem a.ptr).key = a.key ∧ (mem a.ptr).color = colorInt c ∧
      (mem a.ptr).left = rootPtr (shapeOf l) ∧ (mem a.ptr).right = rootPtr (shapeOf r) ∧ _
    rw [hcell, rootPtr_shapeOf, rootPtr_shapeOf]
    exact ⟨rfl, rfl, rfl, rfl, ihl hl, ihr hr⟩

theorem traversal_shapeOf (t : CTree Entry) :
    (traversal (shapeOf t)).map (fun a => (⟨a.addr, a.key⟩ : Entry)) = t.inorder := by
  induction t with
  | nil => rfl
  | node c l a r ihl ihr => simp [shapeOf, traversal, CTree.inorder, ihl, ihr]

theorem Valid.lookup {e : Rest} {t : CTree Entry} (h : Valid e t s)
    (hfuel : (shapeOf t).height < fuel) : s.lookup fuel key =
      .ok ((t.inorder.find? (fun a => decide (key ≤ a.key)) <|> t.inorder.head?).elim
        .NULL Entry.ptr) := by
  have hroot : s.root = rootPtr (shapeOf t) := h.holds.root.trans (rootPtr_shapeOf t).symm
  have horder : KeysInOrder (shapeOf t) := by
    have hsorted := h.sorted
    rw [← traversal_shapeOf, List.pairwise_map] at hsorted
    exact hsorted
  have hfind : t.inorder.find? (fun a => decide (key ≤ a.key)) =
      ((traversal (shapeOf t)).find? fun a => decide (key ≤ a.key)).map
        fun a => ⟨a.addr, a.key⟩ := by
    rw [← traversal_shapeOf, List.find?_map]
    rfl
  rw [lookup_eq h.holds.rep.inMemory hroot horder hfuel, hfind, ← traversal_shapeOf,
    List.head?_map]
  cases (traversal (shapeOf t)).find? fun a => decide (key ≤ a.key) with
  | none => cases (traversal (shapeOf t)).head? <;> rfl
  | some a => rfl

theorem find_key_none {ns : List TreeNode} (h : ∀ b ∈ ns, b.key < key) :
    ns.find? (fun a => decide (key ≤ a.key)) = none := by
  rw [List.find?_eq_none]
  intro b hb hle
  have hlt := h b hb
  have := of_decide_eq_true hle
  omega

end

/-- In a tree whose keys are in order, the lookup finds the first node from left to right whose key
is at least the one asked for, or the first of all nodes if every key is less, or nothing if there
is no node; and the search finds a node with the key if there is one. -/
theorem lookup_and_search {s : RbTree} {t : BinaryTree TreeNode} (hmem : InMemory s.mem t)
    (hroot : s.root = rootPtr t) (horder : KeysInOrder t) (key : Int) {fuel : Nat}
    (hfuel : t.height < fuel) :
    (∃ p, s.lookup fuel key = .ok p ∧ (p = .NULL ↔ t = .nil) ∧
      (∀ before a after, traversal t = before ++ a :: after → (∀ b ∈ before, b.key < key) →
        key ≤ a.key → p = a.ptr) ∧
      (∀ a rest, traversal t = a :: rest → (∀ b ∈ traversal t, b.key < key) → p = a.ptr)) ∧
    (∃ p, s.search fuel key = .ok p ∧
      ((∃ a ∈ traversal t, a.key = key ∧ p = a.ptr) ∨
        (p = .NULL ∧ ∀ a ∈ traversal t, a.key ≠ key))) := by
  constructor
  · refine ⟨_, lookup_eq hmem hroot horder hfuel, ⟨fun hp => ?_, ?_⟩, ?_, ?_⟩
    · by_contra hnil
      obtain ⟨a, rest, ht⟩ := List.exists_cons_of_ne_nil (mt traversal_eq_nil.mp hnil)
      rw [ht, List.head?_cons] at hp
      cases hf : (a :: rest).find? fun a => decide (key ≤ a.key) with
      | none =>
        rw [hf] at hp
        exact a.ptr_ne_NULL hp
      | some b =>
        rw [hf] at hp
        exact b.ptr_ne_NULL hp
    · rintro rfl
      rfl
    · intro before a after ht hbefore hle
      rw [ht, List.find?_append, find_key_none hbefore, Option.none_or, List.find?_cons,
        decide_eq_true hle]
      rfl
    · intro a rest ht hless
      rw [find_key_none hless, ht]
      rfl
  · refine ⟨_, search_eq hmem hroot hfuel, ?_⟩
    cases hl : locate (fun a => compare key a.key) t with
    | none => exact .inr ⟨rfl, fun a ha => locate_key_none horder hl ha⟩
    | some a =>
      obtain ⟨hmem, hkey⟩ := locate_mem hl
      exact .inl ⟨a, hmem, (compare_eq_iff_eq.mp hkey).symm, rfl⟩

/- Three nodes, two of them with one key. -/
def smallTree : RbTree where
  root := .node 1
  size := 3
  mem
    | .node 0 => ⟨3, .node 1, .null, .null, 0⟩
    | .node 1 => ⟨5, .null, .node 2, .node 0, 1⟩
    | .node 2 => ⟨5, .node 1, .null, .null, 0⟩
    | _ => ⟨0, .null, .null, .null, 1⟩

def smallShape : BinaryTree TreeNode :=
  .node ⟨1, 5, 1⟩ (.node ⟨0, 3, 0⟩ .nil .nil) (.node ⟨2, 5, 0⟩ .nil .nil)

theorem lookup_and_search_small :
    (∃ p, smallTree.lookup 3 4 = .ok p ∧ (p = .NULL ↔ smallShape = .nil) ∧
      (∀ before a after, traversal smallShape = before ++ a :: after →
        (∀ b ∈ before, b.key < 4) → 4 ≤ a.key → p = a.ptr) ∧
      (∀ a rest, traversal smallShape = a :: rest → (∀ b ∈ traversal smallShape, b.key < 4) →
        p = a.ptr)) ∧
    (∃ p, smallTree.search 3 4 = .ok p ∧
      ((∃ a ∈ traversal smallShape, a.key = 4 ∧ p = a.ptr) ∨
        (p = .NULL ∧ ∀ a ∈ traversal smallShape, a.key ≠ 4))) :=
  lookup_and_search (s := smallTree) (t := smallShape)
    ⟨rfl, rfl, rfl, rfl, ⟨rfl, rfl, rfl, rfl, trivial, trivial⟩,
      rfl, rfl, rfl, rfl, trivial, trivial⟩
    rfl (by unfold KeysInOrder; decide) 4 (by decide)

end TstMuduo.ConnHash

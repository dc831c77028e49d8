import TstMuduo.ConnHash.RbTreeSearch

/-!
# Checking the tree (tstconnhash/util_rbtree.cpp)

`util_rbtree_check` goes down both sides of a node, but not to the right of a node without a left
child; and it compares the keys of a node and its children only. What it answers is therefore about
the part of the tree that it reaches, and about neighbours there.
-/

namespace TstMuduo.ConnHash
open TstMuduo.Lib BinaryTree

/- `struct rbtree_check_s` (`util_rbtree.cpp:12`) without `null`. -/
structure RbCheck where
  rbh : Int
  maxd : Int
  fini : Int
  deriving DecidableEq, Repr

/- The conversion to `short`. -/
def castShort (x : Int) : Int := (x + 32768) % 65536 - 32768

namespace RbTree

/- `__check_rb_height` (`util_rbtree.cpp:493`). -/
def checkHeight (c : RbCheck) (level curheight : Int) : RbCheck :=
  let rbh := if c.rbh = 0 then castShort curheight else c.rbh
  let maxd := if c.maxd < level then castShort level else c.maxd
  ⟨rbh, maxd, if rbh ≠ curheight then 3 else c.fini⟩

/- The tests of a child (`util_rbtree.cpp:460`, `478`): the code of a failure, or zero. -/
def childFault (node child : RbNode) (disorder : Bool) : Int :=
  if node.isred && child.isred then 4 else if disorder then 5 else 0

/- `rbtree_check_subtree` (`util_rbtree.cpp:439`). -/
def checkSubtree (s : RbTree) : Nat → Ptr → RbCheck → Int → Int → Except RbFault RbCheck
  | 0, _, _, _, _ => .error .noReturn
  | fuel + 1, p, c, level, curheight => do
    if c.fini ≠ 0 then return c
    let node ← s.load p
    if ¬ node.isblack ∧ ¬ node.isred then return { c with fini := 2 }
    let curheight := if node.isblack then curheight + 1 else curheight
    if node.left = .null then return checkHeight c level curheight
    let left ← s.load node.left
    let fault := childFault node left (node.key < left.key)
    if fault ≠ 0 then return { c with fini := fault }
    let c ← s.checkSubtree fuel node.left c (level + 1) curheight
    if node.right = .null then return checkHeight c level curheight
    let right ← s.load node.right
    let fault := childFault node right (node.key > right.key)
    if fault ≠ 0 then return { c with fini := fault }
    s.checkSubtree fuel node.right c (level + 1) curheight

/- `util_rbtree_check` (`util_rbtree.cpp:508`): its result, and `blackheight` and `maxdepth` where
they are stored. -/
def check (s : RbTree) (fuel : Nat) : Except RbFault (Int × Option (Int × Int)) := do
  if s.root = .null then return (0, none)
  if ¬ (← s.load s.root).isblack then return (1, none)
  let c ← s.checkSubtree fuel s.root ⟨0, 0, 0⟩ 1 0
  return (c.fini, some (c.rbh, c.maxd))

end RbTree

/-! ### What the tree should be -/

namespace TreeNode

def isblack (a : TreeNode) : Prop := a.color = 1
def isred (a : TreeNode) : Prop := a.color = 0

instance (a : TreeNode) : Decidable a.isblack := inferInstanceAs (Decidable (_ = _))
instance (a : TreeNode) : Decidable a.isred := inferInstanceAs (Decidable (_ = _))

def black (a : TreeNode) : Nat := if a.isblack then 1 else 0

end TreeNode

/-- `P` is true of the root, if there is one. -/
def RootIs (P : TreeNode → Prop) : BinaryTree TreeNode → Prop
  | .nil => True
  | .node a _ _ => P a

def NoRedPair : BinaryTree TreeNode → Prop
  | .nil => True
  | .node a l r =>
    RootIs (fun b => ¬ (a.isred ∧ b.isred)) l ∧ RootIs (fun b => ¬ (a.isred ∧ b.isred)) r ∧
      NoRedPair l ∧ NoRedPair r

/-- The numbers of black nodes on the paths to the sentinel, with `n` above the root. -/
def blackCounts (n : Nat) : BinaryTree TreeNode → List Nat
  | .nil => [n]
  | .node a l r => blackCounts (n + a.black) l ++ blackCounts (n + a.black) r

/-- A red-black search tree. -/
structure RedBlackTree (t : BinaryTree TreeNode) : Prop where
  root : RootIs TreeNode.isblack t
  colors : ∀ a ∈ traversal t, a.isred ∨ a.isblack
  noRedPair : NoRedPair t
  height : ∃ h, ∀ n ∈ blackCounts 0 t, n = h
  order : KeysInOrder t

/-! ### The part that is reached -/

def NeighboursRight : BinaryTree TreeNode → Prop
  | .nil => True
  | .node a l r =>
    (a.isred ∨ a.isblack) ∧ (l ≠ .nil →
      RootIs (fun b => ¬ (a.isred ∧ b.isred) ∧ b.key ≤ a.key) l ∧ NeighboursRight l ∧
        RootIs (fun b => ¬ (a.isred ∧ b.isred) ∧ a.key ≤ b.key) r ∧ NeighboursRight r)

/-- The heights that are compared, with `n` black nodes above the root. -/
def reachedHeights (n : Nat) : BinaryTree TreeNode → List Nat
  | .nil => [n]
  | .node a .nil _ => [n + a.black]
  | .node a (.node b x y) r =>
    reachedHeights (n + a.black) (.node b x y) ++ reachedHeights (n + a.black) r

/-- The black nodes on the left spine. -/
def spineHeight : BinaryTree TreeNode → Nat
  | .nil => 0
  | .node a l _ => a.black + spineHeight l

/-- Everything is right as far as the check goes. -/
structure ReachedRight (t : BinaryTree TreeNode) : Prop where
  root : RootIs TreeNode.isblack t
  neighbours : NeighboursRight t
  height : ∀ n ∈ reachedHeights 0 t, n = spineHeight t

/-- Where the check does not go, to the right of a node without a left child, there is at most one
node, which is red and below a black one. -/
def SkippedRight : BinaryTree TreeNode → Prop
  | .nil => True
  | .node a .nil r => r = .nil ∨ (a.isblack ∧ ∃ b, r = .node b .nil .nil ∧ b.isred)
  | .node _ (.node b x y) r => SkippedRight (.node b x y) ∧ SkippedRight r

/-! ### A right tree is right where it is reached -/

section
variable {t l r x y : BinaryTree TreeNode} {a b : TreeNode} {n h : Nat}

theorem black_of_isblack (ha : a.isblack) : a.black = 1 := if_pos ha

theorem isred_of_black (ha : a.isred ∨ a.isblack) (h0 : a.black = 0) : a.isred := by
  refine ha.resolve_right fun hb => ?_
  rw [black_of_isblack hb] at h0
  exact absurd h0 Nat.one_ne_zero

theorem le_of_mem_blackCounts {m : Nat} (hm : m ∈ blackCounts n t) : n ≤ m := by
  induction t generalizing n with
  | nil => exact (List.mem_singleton.mp hm).ge
  | node a l r ihl ihr =>
    rw [blackCounts, List.mem_append] at hm
    rcases hm with hm | hm
    · exact Nat.le_trans (Nat.le_add_right n a.black) (ihl hm)
    · exact Nat.le_trans (Nat.le_add_right n a.black) (ihr hm)

theorem exists_mem_blackCounts (n : Nat) (t : BinaryTree TreeNode) : ∃ m, m ∈ blackCounts n t := by
  induction t generalizing n with
  | nil => exact ⟨n, List.mem_singleton.mpr rfl⟩
  | node a l r ihl ihr =>
    obtain ⟨m, hm⟩ := ihl (n + a.black)
    exact ⟨m, List.mem_append.mpr (.inl hm)⟩

theorem leaf_of_blackCounts (hcolors : ∀ b ∈ traversal (.node a l r), b.isred ∨ b.isblack)
    (hpair : NoRedPair (.node a l r)) (hcounts : ∀ m ∈ blackCounts n (.node a l r), m = n) :
    a.isred ∧ l = .nil ∧ r = .nil := by
  obtain ⟨hpl, hpr, -, -⟩ := hpair
  have hblack : a.black = 0 := by
    obtain ⟨m, hm⟩ := exists_mem_blackCounts n (.node a l r)
    obtain ⟨k, hk⟩ := exists_mem_blackCounts (n + a.black) l
    have hle := le_of_mem_blackCounts hk
    have := hcounts k (List.mem_append.mpr (.inl hk))
    omega
  have hred := isred_of_black (hcolors a (by simp [traversal])) hblack
  -- a child would be black, and its paths longer
  have hnil : ∀ c : BinaryTree TreeNode, RootIs (fun b => ¬ (a.isred ∧ b.isred)) c →
      (∀ b ∈ traversal c, b.isred ∨ b.isblack) →
      (∀ m ∈ blackCounts (n + a.black) c, m = n) → c = .nil := by
    intro c hroot hc hm
    cases c with
    | nil => rfl
    | node b x y =>
      have hb : b.isblack := (hc b (by simp [traversal])).resolve_left fun hb => hroot ⟨hred, hb⟩
      obtain ⟨k, hk⟩ := exists_mem_blackCounts (n + a.black + b.black) x
      have hle := le_of_mem_blackCounts hk
      have := hm k (List.mem_append.mpr (.inl hk))
      have := black_of_isblack hb
      omega
  refine ⟨hred, hnil l hpl (fun b hb => hcolors b ?_) (fun m hm => hcounts m ?_),
    hnil r hpr (fun b hb => hcolors b ?_) (fun m hm => hcounts m ?_)⟩
  · exact List.mem_append.mpr (.inl hb)
  · exact List.mem_append.mpr (.inl hm)
  · exact List.mem_append.mpr (.inr (List.mem_cons_of_mem _ hb))
  · exact List.mem_append.mpr (.inr hm)

theorem node_ne_nil : BinaryTree.node a l r ≠ .nil := by
  intro h
  cases h

theorem rootIs_of_forall {P : TreeNode → Prop} (hP : ∀ b ∈ traversal t, P b) : RootIs P t := by
  cases t with
  | nil => trivial
  | node b x y => exact hP b (by simp [traversal])

theorem RootIs.and {P Q : TreeNode → Prop} (hp : RootIs P t) (hq : RootIs Q t) :
    RootIs (fun b => P b ∧ Q b) t := by
  cases t with
  | nil => trivial
  | node b x y => exact ⟨hp, hq⟩

theorem RootIs.left {P Q : TreeNode → Prop} (h : RootIs (fun b => P b ∧ Q b) t) : RootIs P t := by
  cases t with
  | nil => trivial
  | node b x y => exact h.1

theorem keysInOrder_node : KeysInOrder (.node a l r) ↔
    KeysInOrder l ∧ KeysInOrder r ∧ (∀ b ∈ traversal l, b.key ≤ a.key) ∧
      (∀ b ∈ traversal r, a.key ≤ b.key) ∧
        ∀ b ∈ traversal l, ∀ c ∈ traversal r, b.key ≤ c.key := by
  unfold KeysInOrder
  rw [traversal, List.pairwise_append, List.pairwise_cons]
  constructor
  · rintro ⟨hl, ⟨har, hr⟩, hlr⟩
    exact ⟨hl, hr, fun b hb => hlr b hb a List.mem_cons_self, har,
      fun b hb c hc => hlr b hb c (List.mem_cons_of_mem _ hc)⟩
  · rintro ⟨hl, hr, hla, har, hlr⟩
    refine ⟨hl, ⟨har, hr⟩, fun b hb c hc => ?_⟩
    rcases List.mem_cons.mp hc with rfl | hc
    · exact hla b hb
    · exact hlr b hb c hc

theorem neighboursRight_of (hcolors : ∀ a ∈ traversal t, a.isred ∨ a.isblack)
    (hpair : NoRedPair t) (horder : KeysInOrder t) : NeighboursRight t := by
  induction t with
  | nil => trivial
  | node a l r ihl ihr =>
    obtain ⟨hpl, hpr, hnl, hnr⟩ := hpair
    obtain ⟨hol, hor, hla, har, -⟩ := keysInOrder_node.mp horder
    have hcl : ∀ b ∈ traversal l, b.isred ∨ b.isblack :=
      fun b hb => hcolors b (List.mem_append.mpr (.inl hb))
    have hcr : ∀ b ∈ traversal r, b.isred ∨ b.isblack :=
      fun b hb => hcolors b (List.mem_append.mpr (.inr (List.mem_cons_of_mem _ hb)))
    exact ⟨hcolors a (by simp [traversal]), fun _ => ⟨hpl.and (rootIs_of_forall hla),
      ihl hcl hnl hol, hpr.and (rootIs_of_forall har), ihr hcr hnr hor⟩⟩

theorem mem_blackCounts_of_reached {m : Nat} (hm : m ∈ reachedHeights n t) :
    m ∈ blackCounts n t := by
  fun_induction reachedHeights n t with
  | case1 n => exact hm
  | case2 n a r => exact List.mem_append.mpr (.inl hm)
  | case3 n a b x y r ihl ihr =>
    rcases List.mem_append.mp hm with hm | hm
    · exact List.mem_append.mpr (.inl (ihl hm))
    · exact List.mem_append.mpr (.inr (ihr hm))

theorem head_reachedHeights (n : Nat) (t : BinaryTree TreeNode) :
    ∃ rest, reachedHeights n t = (n + spineHeight t) :: rest := by
  fun_induction reachedHeights n t with
  | case1 n => exact ⟨[], rfl⟩
  | case2 n a r => exact ⟨[], rfl⟩
  | case3 n a b x y r ihl ihr =>
    obtain ⟨rest, hrest⟩ := ihl
    have hspine : n + a.black + spineHeight (.node b x y) =
        n + spineHeight (.node a (.node b x y) r) := Nat.add_assoc ..
    exact ⟨rest ++ reachedHeights (n + a.black) r, by rw [hrest, List.cons_append, hspine]⟩

theorem skippedRight_of (hcolors : ∀ a ∈ traversal t, a.isred ∨ a.isblack) (hpair : NoRedPair t)
    (hcounts : ∀ m ∈ blackCounts n t, m = h) : SkippedRight t := by
  induction t using SkippedRight.induct generalizing n with
  | case1 => trivial
  | case2 a r =>
    cases r with
    | nil => exact .inl rfl
    | node b x y =>
      obtain ⟨-, hpr, -, hnr⟩ := hpair
      have hn : n + a.black = h :=
        hcounts _ (List.mem_append.mpr (.inl (List.mem_singleton.mpr rfl)))
      obtain ⟨hb, rfl, rfl⟩ := leaf_of_blackCounts
        (fun c hc => hcolors c (List.mem_append.mpr (.inr (List.mem_cons_of_mem _ hc)))) hnr
        (fun m hm => (hcounts m (List.mem_append.mpr (.inr hm))).trans hn.symm)
      have ha : a.isblack :=
        (hcolors a (by simp [traversal])).resolve_left fun ha => hpr ⟨ha, hb⟩
      exact .inr ⟨ha, b, rfl, hb⟩
  | case3 a b x y r ihl ihr =>
    obtain ⟨-, -, hnl, hnr⟩ := hpair
    exact ⟨ihl (fun c hc => hcolors c (List.mem_append.mpr (.inl hc))) hnl
        fun m hm => hcounts m (List.mem_append.mpr (.inl hm)),
      ihr (fun c hc => hcolors c (List.mem_append.mpr (.inr (List.mem_cons_of_mem _ hc)))) hnr
        fun m hm => hcounts m (List.mem_append.mpr (.inr hm))⟩

theorem black_of_isred (ha : a.isred) : a.black = 0 := by
  apply if_neg
  intro hb
  rw [TreeNode.isred] at ha
  rw [TreeNode.isblack, ha] at hb
  exact absurd hb (by decide)

/-- The part that is reached and the one that is skipped are the whole tree. -/
theorem of_reached (hright : NeighboursRight t) (hskip : SkippedRight t)
    (hheights : ∀ m ∈ reachedHeights n t, m = h) :
    (∀ a ∈ traversal t, a.isred ∨ a.isblack) ∧ NoRedPair t ∧ ∀ m ∈ blackCounts n t, m = h := by
  induction t using SkippedRight.induct generalizing n with
  | case1 => exact ⟨fun a ha => absurd ha List.not_mem_nil, trivial, hheights⟩
  | case2 a r =>
    have hn : n + a.black = h := hheights _ (List.mem_singleton.mpr rfl)
    rcases hskip with rfl | ⟨ha, b, rfl, hb⟩
    · refine ⟨fun c hc => ?_, ⟨trivial, trivial, trivial, trivial⟩, fun m hm => ?_⟩
      · obtain rfl : c = a := by simpa [traversal] using hc
        exact hright.1
      · obtain rfl : m = n + a.black := by simpa [blackCounts] using hm
        exact hn
    · have hnotred : ¬ (a.isred ∧ b.isred) := by
        rintro ⟨hred, -⟩
        have := black_of_isred hred
        have := black_of_isblack ha
        omega
      refine ⟨fun c hc => ?_, ⟨trivial, hnotred, trivial, trivial, trivial, trivial, trivial⟩,
        fun m hm => ?_⟩
      · rcases (show c = a ∨ c = b by simpa [traversal] using hc) with rfl | rfl
        · exact .inr ha
        · exact .inl hb
      · have hb0 := black_of_isred hb
        obtain rfl : m = n + a.black := by simpa [blackCounts, hb0] using hm
        exact hn
  | case3 a b x y r ihl ihr =>
    obtain ⟨ha, hchildren⟩ := hright
    obtain ⟨hleft, hnl, hrootr, hnr⟩ := hchildren node_ne_nil
    obtain ⟨hcl, hpl, hml⟩ := ihl hnl hskip.1
      fun m hm => hheights m (List.mem_append.mpr (.inl hm))
    obtain ⟨hcr, hpr, hmr⟩ := ihr hnr hskip.2
      fun m hm => hheights m (List.mem_append.mpr (.inr hm))
    refine ⟨fun c hc => ?_, ⟨hleft.1, hrootr.left, hpl, hpr⟩, fun m hm => ?_⟩
    · rw [traversal, List.mem_append, List.mem_cons] at hc
      rcases hc with hc | rfl | hc
      · exact hcl c hc
      · exact ha
      · exact hcr c hc
    · rcases List.mem_append.mp hm with hm | hm
      · exact hml m hm
      · exact hmr m hm

theorem redBlackTree_iff :
    RedBlackTree t ↔ ReachedRight t ∧ SkippedRight t ∧ KeysInOrder t := by
  constructor
  · intro ht
    obtain ⟨h, hh⟩ := ht.height
    have hreached : ∀ m ∈ reachedHeights 0 t, m = h :=
      fun m hm => hh m (mem_blackCounts_of_reached hm)
    obtain ⟨rest, hrest⟩ := head_reachedHeights 0 t
    have hspine : h = spineHeight t := by
      have := hreached _ (by rw [hrest]; exact List.mem_cons_self)
      omega
    exact ⟨⟨ht.root, neighboursRight_of ht.colors ht.noRedPair ht.order, hspine ▸ hreached⟩,
      skippedRight_of ht.colors ht.noRedPair hh, ht.order⟩
  · rintro ⟨hreached, hskip, horder⟩
    obtain ⟨hcolors, hpair, hcounts⟩ :=
      of_reached hreached.neighbours hskip hreached.height
    exact ⟨hreached.root, hcolors, hpair, ⟨_, hcounts⟩, horder⟩

/-! ### What the check answers -/

/-- The comparisons of the heights one after the other: the first one is kept in a `short`. -/
def passHeights (rbh : Int) : List Nat → Option Int
  | [] => some rbh
  | n :: rest =>
    let rbh := if rbh = 0 then castShort n else rbh
    if rbh = n then passHeights rbh rest else none

theorem passHeights_append (rbh : Int) (xs ys : List Nat) :
    passHeights rbh (xs ++ ys) = (passHeights rbh xs).bind fun rbh => passHeights rbh ys := by
  induction xs generalizing rbh with
  | nil => rfl
  | cons n xs ih =>
    simp only [List.cons_append, passHeights]
    split_ifs
    · exact ih _
    · rfl
    · exact ih _
    · rfl

theorem castShort_eq_iff (n : Nat) : castShort n = n ↔ n ≤ 32767 := by
  unfold castShort
  omega

theorem passHeights_kept {rbh : Int} (h0 : rbh ≠ 0) (ns : List Nat) :
    (∃ q, passHeights rbh ns = some q) ↔ ∀ n ∈ ns, (n : Int) = rbh := by
  induction ns with
  | nil => exact ⟨fun _ => nofun, fun _ => ⟨rbh, rfl⟩⟩
  | cons n ns ih =>
    simp only [passHeights, if_neg h0, List.forall_mem_cons, ← ih]
    by_cases hn : rbh = n
    · simp [hn]
    · simp [hn, Ne.symm hn]

theorem passHeights_zero {h : Nat} (hpos : 0 < h) (rest : List Nat) :
    (∃ q, passHeights 0 (h :: rest) = some q) ↔ h ≤ 32767 ∧ ∀ n ∈ h :: rest, n = h := by
  simp only [passHeights, if_pos, castShort_eq_iff]
  by_cases hle : h ≤ 32767
  · rw [if_pos hle, (castShort_eq_iff h).mpr hle, passHeights_kept (by omega)]
    simp only [hle, true_and, List.forall_mem_cons]
    exact forall₂_congr fun n _ => Int.ofNat_inj
  · rw [if_neg hle]
    simp [hle]

theorem checkHeight_spec (c : RbCheck) (level : Int) (n : Nat) (h0 : c.fini = 0) :
    ((RbTree.checkHeight c level n).fini = 0 ∧
      passHeights c.rbh [n] = some (RbTree.checkHeight c level n).rbh) ∨
    ((RbTree.checkHeight c level n).fini ≠ 0 ∧ passHeights c.rbh [n] = none) := by
  simp only [RbTree.checkHeight, passHeights, h0]
  by_cases hn : (if c.rbh = 0 then castShort n else c.rbh) = n
  · exact .inl ⟨if_neg (not_not_intro hn), if_pos hn⟩
  · refine .inr ⟨?_, if_neg hn⟩
    rw [if_pos hn]
    decide

theorem checkHeight_failed {c : RbCheck} (h : c.fini ≠ 0) (level curheight : Int) :
    (RbTree.checkHeight c level curheight).fini ≠ 0 := by
  have hfini : (RbTree.checkHeight c level curheight).fini =
      if (if c.rbh = 0 then castShort curheight else c.rbh) ≠ curheight then 3 else c.fini := rfl
  rw [hfini]
  by_cases hn : (if c.rbh = 0 then castShort curheight else c.rbh) ≠ curheight
  · rw [if_pos hn]
    decide
  · rw [if_neg hn]
    exact h

theorem childFault_eq_zero (node child : RbNode) (disorder : Bool) :
    RbTree.childFault node child disorder = 0 ↔
      ¬ (node.isred = true ∧ child.isred = true) ∧ disorder = false := by
  unfold RbTree.childFault
  cases node.isred <;> cases child.isred <;> cases disorder <;> decide

variable {s : RbTree} {c : RbCheck} {fuel : Nat}

theorem checkSubtree_failed (h : c.fini ≠ 0) (s : RbTree) (fuel : Nat) (p : Ptr)
    (level curheight : Int) : s.checkSubtree (fuel + 1) p c level curheight = .ok c := by
  rw [RbTree.checkSubtree, if_pos h]
  rfl

/-- What is left of a check of the tree `t` that starts without a failure, where `P` is what the
neighbours in the tree should be and `ns` are the heights that are met. -/
def Outcome (P : Prop) (ns : List Nat) (c c' : RbCheck) : Prop :=
  (c'.fini = 0 ∧ P ∧ passHeights c.rbh ns = some c'.rbh) ∨
  (c'.fini ≠ 0 ∧ ¬ (P ∧ ∃ q, passHeights c.rbh ns = some q))

theorem Outcome.fail {P : Prop} {ns : List Nat} {c' : RbCheck} (h : c'.fini ≠ 0) (hP : ¬ P) :
    Outcome P ns c c' :=
  .inr ⟨h, fun hq => hP hq.1⟩

theorem Outcome.append {P Q : Prop} {ms ns : List Nat} {c₁ c₂ : RbCheck} (h : Outcome P ms c c₁)
    (h0 : c₁.fini = 0 → Outcome Q ns c₁ c₂) (h1 : c₁.fini ≠ 0 → c₂.fini ≠ 0) :
    Outcome (P ∧ Q) (ms ++ ns) c c₂ := by
  unfold Outcome
  rw [passHeights_append]
  rcases h with ⟨hf, hp, hpass⟩ | ⟨hf, hfail⟩
  · rw [hpass, Option.bind_some]
    rcases h0 hf with ⟨hf', hq, hpass'⟩ | ⟨hf', hfail'⟩
    · exact .inl ⟨hf', ⟨hp, hq⟩, hpass'⟩
    · exact .inr ⟨hf', fun h => hfail' ⟨h.1.2, h.2⟩⟩
  · refine .inr ⟨h1 hf, ?_⟩
    rintro ⟨⟨hp, -⟩, q, hq⟩
    obtain ⟨q', hq', -⟩ := Option.bind_eq_some_iff.mp hq
    exact hfail ⟨hp, q', hq'⟩

theorem checkHeight_outcome {P : Prop} (hP : P) (h0 : c.fini = 0) (level : Int) (n : Nat) :
    Outcome P [n] c (RbTree.checkHeight c level n) := by
  rcases checkHeight_spec c level n h0 with ⟨hf, hpass⟩ | ⟨hf, hpass⟩
  · exact .inl ⟨hf, hP, hpass⟩
  · refine .inr ⟨hf, ?_⟩
    rintro ⟨-, q, hq⟩
    exact absurd (hpass.symm.trans hq) nofun

theorem isblack_inMemory {mem : Ptr → RbNode} (ht : InMemory mem (.node a l r)) :
    (mem a.ptr).isblack = decide a.isblack := by
  rw [RbNode.isblack, ht.2.1]
  rfl

theorem isred_inMemory {mem : Ptr → RbNode} (ht : InMemory mem (.node a l r)) :
    (mem a.ptr).isred = decide a.isred := by
  rw [RbNode.isred, ht.2.1]
  rfl

theorem childFault_node {mem : Ptr → RbNode} (ht : InMemory mem (.node a l r))
    (hx : InMemory mem (.node b x y)) (disorder : Bool) :
    RbTree.childFault (mem a.ptr) (mem b.ptr) disorder = 0 ↔
      ¬ (a.isred ∧ b.isred) ∧ disorder = false := by
  rw [childFault_eq_zero, isred_inMemory ht, isred_inMemory hx, decide_eq_true_iff,
    decide_eq_true_iff]

theorem checkRight_spec (ht : InMemory s.mem (.node a l r)) (hfuel : 0 < fuel) (level : Int)
    (ih : r ≠ .nil → c.fini = 0 → ∃ c', s.checkSubtree fuel (rootPtr r) c (level + 1) n = .ok c' ∧
      Outcome (NeighboursRight r) (reachedHeights n r) c c') :
    ∃ c', (if rootPtr r = .null then pure (RbTree.checkHeight c level n) else do
        let right ← s.load (rootPtr r)
        if ¬ RbTree.childFault (s.mem a.ptr) right (decide ((s.mem a.ptr).key > right.key)) = 0 then
          pure { c with
            fini := RbTree.childFault (s.mem a.ptr) right (decide ((s.mem a.ptr).key > right.key)) }
        else s.checkSubtree fuel (rootPtr r) c (level + 1) n) = .ok c' ∧
      (c.fini = 0 → Outcome (RootIs (fun b => ¬ (a.isred ∧ b.isred) ∧ a.key ≤ b.key) r ∧
        NeighboursRight r) (reachedHeights n r) c c') ∧ (c.fini ≠ 0 → c'.fini ≠ 0) := by
  cases r with
  | nil =>
    exact ⟨_, rfl, fun h0 => checkHeight_outcome ⟨trivial, trivial⟩ h0 level n,
      fun h0 => checkHeight_failed h0 level n⟩
  | node b x y =>
    have hb : InMemory s.mem (.node b x y) := ht.2.2.2.2.2
    have htest : RbTree.childFault (s.mem a.ptr) (s.mem b.ptr)
        (decide ((s.mem a.ptr).key > (s.mem b.ptr).key)) = 0 ↔
          ¬ (a.isred ∧ b.isred) ∧ a.key ≤ b.key := by
      rw [childFault_node ht hb, ht.1, hb.1, decide_eq_false_iff_not, not_lt]
    simp only [rootPtr_node, if_neg b.ptr_ne_null, load_node, ok_bind]
    by_cases hfault : RbTree.childFault (s.mem a.ptr) (s.mem b.ptr)
        (decide ((s.mem a.ptr).key > (s.mem b.ptr).key)) = 0
    · rw [if_neg (not_not_intro hfault)]
      have hroot := htest.mp hfault
      by_cases h0 : c.fini = 0
      · obtain ⟨c', hc', hout⟩ := ih node_ne_nil h0
        refine ⟨c', hc', fun _ => ?_, fun h1 => absurd h0 h1⟩
        have hiff : (RootIs (fun b => ¬ (a.isred ∧ b.isred) ∧ a.key ≤ b.key) (.node b x y) ∧
            NeighboursRight (.node b x y)) = NeighboursRight (.node b x y) :=
          propext ⟨And.right, fun h => ⟨hroot, h⟩⟩
        rw [hiff]
        exact hout
      · obtain ⟨fuel, rfl⟩ : ∃ k, fuel = k + 1 := ⟨fuel - 1, by omega⟩
        exact ⟨c, checkSubtree_failed h0 s fuel b.ptr _ _, fun h1 => absurd h1 h0, fun _ => h0⟩
    · rw [if_pos hfault]
      exact ⟨_, rfl, fun _ => .fail hfault fun h => hfault (htest.mpr h.1), fun _ => hfault⟩

theorem checkSubtree_spec (ht : InMemory s.mem t) (hne : t ≠ .nil) (hfuel : t.height < fuel)
    (h0 : c.fini = 0) (level : Int) :
    ∃ c', s.checkSubtree fuel (rootPtr t) c level n = .ok c' ∧
      Outcome (NeighboursRight t) (reachedHeights n t) c c' := by
  induction t generalizing fuel c level n with
  | nil => exact absurd rfl hne
  | node a l r ihl ihr =>
    obtain ⟨fuel, rfl⟩ : ∃ k, fuel = k + 1 := ⟨fuel - 1, by omega⟩
    obtain ⟨hkey, -, hl, hr, hml, hmr⟩ := id ht
    have hcount : (if a.isblack then (n : Int) + 1 else n) = ((n + a.black : Nat) : Int) := by
      unfold TreeNode.black
      split <;> simp
    simp only [BinaryTree.height] at hfuel
    simp only [RbTree.checkSubtree, rootPtr_node, h0, load_node, ok_bind, isblack_inMemory ht,
      isred_inMemory ht, hl, hr,
      ne_eq, not_true_eq_false, if_false, decide_eq_true_eq, hcount]
    by_cases hcol : a.isred ∨ a.isblack
    · rw [if_neg fun h => hcol.elim h.2 h.1]
      cases l with
      | nil =>
        rw [rootPtr_nil, if_pos rfl]
        exact ⟨_, rfl, checkHeight_outcome ⟨hcol, fun h => absurd rfl h⟩ h0 level _⟩
      | node b x y =>
        have htest : RbTree.childFault (s.mem a.ptr) (s.mem b.ptr)
            (decide ((s.mem a.ptr).key < (s.mem b.ptr).key)) = 0 ↔
              ¬ (a.isred ∧ b.isred) ∧ b.key ≤ a.key := by
          rw [childFault_node ht hml, hkey, hml.1, decide_eq_false_iff_not, not_lt]
        rw [if_neg (show rootPtr (.node b x y) ≠ .null from b.ptr_ne_null)]
        simp only [rootPtr_node, load_node, ok_bind]
        by_cases hfault : RbTree.childFault (s.mem a.ptr) (s.mem b.ptr)
            (decide ((s.mem a.ptr).key < (s.mem b.ptr).key)) = 0
        · obtain ⟨c₁, hc₁, hout⟩ := ihl (n := n + a.black) hml node_ne_nil
            (Nat.lt_of_le_of_lt (Nat.le_max_left _ _) (Nat.lt_of_succ_lt_succ hfuel)) h0 (level + 1)
          rw [if_neg (not_not_intro hfault), show s.checkSubtree fuel b.ptr c (level + 1)
            (n + a.black : Nat) = .ok c₁ from hc₁, ok_bind]
          have hpos : 0 < fuel := by omega
          obtain ⟨c₂, hc₂, hgo, hstop⟩ := checkRight_spec ht hpos level
            fun hne h1 => ihr hmr hne (Nat.lt_of_le_of_lt (Nat.le_max_right _ _)
              (Nat.lt_of_succ_lt_succ hfuel)) h1 (level + 1)
          refine ⟨c₂, hc₂, ?_⟩
          have hiff : NeighboursRight (.node a (.node b x y) r) ↔
              NeighboursRight (.node b x y) ∧
                RootIs (fun b => ¬ (a.isred ∧ b.isred) ∧ a.key ≤ b.key) r ∧ NeighboursRight r :=
            ⟨fun h => (h.2 node_ne_nil).2, fun h => ⟨hcol, fun _ => ⟨htest.mp hfault, h⟩⟩⟩
          rw [hiff]
          exact hout.append hgo hstop
        · rw [if_pos hfault]
          exact ⟨_, rfl, .fail hfault fun h => hfault (htest.mpr (h.2 node_ne_nil).1)⟩
    · rw [if_pos ⟨fun h => hcol (.inr h), fun h => hcol (.inl h)⟩]
      exact ⟨_, rfl, .fail (show (2 : Int) ≠ 0 by decide) fun h => hcol h.1⟩

theorem passHeights_reached (hpos : 0 < spineHeight t) :
    (∃ q, passHeights 0 (reachedHeights 0 t) = some q) ↔
      spineHeight t ≤ 32767 ∧ ∀ n ∈ reachedHeights 0 t, n = spineHeight t := by
  obtain ⟨rest, hrest⟩ := head_reachedHeights 0 t
  rw [Nat.zero_add] at hrest
  rw [hrest]
  exact passHeights_zero hpos rest

theorem check_spec (ht : InMemory s.mem t) (hroot : s.root = rootPtr t)
    (hfuel : t.height < fuel) :
    ∃ r, s.check fuel = .ok r ∧ (r.1 = 0 ↔ ReachedRight t ∧ spineHeight t ≤ 32767) := by
  rw [RbTree.check, hroot]
  cases t with
  | nil =>
    refine ⟨(0, none), rfl, fun _ => ⟨⟨trivial, trivial, ?_⟩, Nat.zero_le _⟩, fun _ => rfl⟩
    intro n hn
    exact List.mem_singleton.mp hn
  | node a l r =>
    simp only [rootPtr_node, if_neg a.ptr_ne_null, load_node, ok_bind, isblack_inMemory ht,
      decide_eq_true_eq]
    by_cases ha : a.isblack
    · obtain ⟨c, hc, hout⟩ := checkSubtree_spec (n := 0) (c := ⟨0, 0, 0⟩) ht node_ne_nil hfuel rfl 1
      have hpos : 0 < spineHeight (.node a l r) := by
        rw [spineHeight, black_of_isblack ha]
        exact Nat.lt_add_right _ Nat.one_pos
      rw [if_neg (not_not_intro ha)]
      refine ⟨(c.fini, some (c.rbh, c.maxd)), ?_, ?_⟩
      · exact congrArg (· >>= fun c : RbCheck => Except.ok (c.fini, some (c.rbh, c.maxd))) hc
      · rcases hout with ⟨hf, hnb, hpass⟩ | ⟨hf, hfail⟩
        · obtain ⟨hshort, hheight⟩ := (passHeights_reached hpos).mp ⟨_, hpass⟩
          exact ⟨fun _ => ⟨⟨ha, hnb, hheight⟩, hshort⟩, fun _ => hf⟩
        · refine ⟨fun h => absurd h hf, fun h => ?_⟩
          exact absurd ⟨h.1.neighbours, (passHeights_reached hpos).mpr ⟨h.2, h.1.height⟩⟩ hfail
    · rw [if_pos ha]
      exact ⟨(1, none), rfl, fun h => absurd h (by decide), fun h => absurd h.1.root ha⟩

end

/-- The check answers as it should exactly when, where the part that it reaches is right, the black
nodes of the left spine fit in a `short` just if the part that it does not reach is right as well
and the keys are in order. -/
theorem check_exact_iff {s : RbTree} {t : BinaryTree TreeNode} {fuel : Nat}
    (hmem : InMemory s.mem t) (hroot : s.root = rootPtr t) (hfuel : t.height < fuel) :
    ∃ r, s.check fuel = .ok r ∧ ((r.1 = 0 ↔ RedBlackTree t) ↔
      (ReachedRight t → (spineHeight t ≤ 32767 ↔ SkippedRight t ∧ KeysInOrder t))) := by
  obtain ⟨r, hr, hanswer⟩ := check_spec hmem hroot hfuel
  refine ⟨r, hr, ?_⟩
  rw [hanswer, redBlackTree_iff]
  exact and_congr_right_iff

theorem check_exact_iff_small :
    ∃ r, smallTree.check 3 = .ok r ∧ ((r.1 = 0 ↔ RedBlackTree smallShape) ↔
      (ReachedRight smallShape →
        (spineHeight smallShape ≤ 32767 ↔ SkippedRight smallShape ∧ KeysInOrder smallShape))) :=
  check_exact_iff (s := smallTree) (t := smallShape)
    ⟨rfl, rfl, rfl, rfl, ⟨rfl, rfl, rfl, rfl, trivial, trivial⟩,
      rfl, rfl, rfl, rfl, trivial, trivial⟩
    rfl (by decide)

/- A black node with a right child only, whose key is less. -/
def skippedTree : RbTree where
  root := .node 0
  size := 2
  mem
    | .node 0 => ⟨5, .null, .node 1, .null, 1⟩
    | .node 1 => ⟨1, .node 0, .null, .null, 0⟩
    | _ => ⟨0, .null, .null, .null, 1⟩

def skippedShape : BinaryTree TreeNode :=
  .node ⟨0, 5, 1⟩ .nil (.node ⟨1, 1, 0⟩ .nil .nil)

/-- The check does not go to the right child, and answers that the tree is right. -/
theorem check_skips_right :
    InMemory skippedTree.mem skippedShape ∧ skippedTree.root = rootPtr skippedShape ∧
      skippedTree.check 3 = .ok (0, some (1, 1)) ∧ ¬ RedBlackTree skippedShape := by
  refine ⟨⟨rfl, rfl, rfl, rfl, trivial, rfl, rfl, rfl, rfl, trivial, trivial⟩, rfl, rfl, ?_⟩
  intro h
  have horder := h.order
  unfold KeysInOrder at horder
  exact absurd horder (by decide)

end TstMuduo.ConnHash

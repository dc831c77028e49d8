import Mathlib.Data.List.Sort
import Mathlib.Data.Multiset.UnionInter

/-!
# Red-black trees

Trees with a colour at each node, a position in a tree as a context with a hole, and the two
repairs: of a red node whose parent may be red, and of a subtree that lacks one black node. Both go
up from the position and are the same for the two sides of a node.
-/

namespace TstMuduo.Lib

inductive Dir where
  | left
  | right
  deriving DecidableEq, Repr

namespace Dir

def flip : Dir → Dir
  | left => right
  | right => left

@[simp] theorem flip_ne (d : Dir) : d.flip ≠ d := by cases d <;> decide

theorem eq_flip_of_ne {d d' : Dir} (h : d ≠ d') : d = d'.flip := by
  cases d <;> cases d' <;> first | rfl | exact absurd rfl h

end Dir

inductive Color where
  | red
  | black
  deriving DecidableEq, Repr

inductive CTree (α : Type) where
  | nil
  | node (c : Color) (l : CTree α) (a : α) (r : CTree α)

namespace CTree

variable {α : Type}

def color : CTree α → Color
  | nil => .black
  | node c _ _ _ => c

def paint (c : Color) : CTree α → CTree α
  | nil => nil
  | node _ l a r => node c l a r

def inorder : CTree α → List α
  | nil => []
  | node _ l a r => l.inorder ++ a :: r.inorder

/-- The node with `x` on the side `d` and `y` on the other one. -/
def mk (d : Dir) (c : Color) (x : CTree α) (a : α) (y : CTree α) : CTree α :=
  match d with
  | .left => node c x a y
  | .right => node c y a x

/-- The parts of a node, those of the side `d` first. -/
def view (d : Dir) : CTree α → Option (Color × CTree α × α × CTree α)
  | nil => none
  | node c l a r =>
    match d with
    | .left => some (c, l, a, r)
    | .right => some (c, r, a, l)

theorem mk_flip (d : Dir) (c : Color) (x : CTree α) (a : α) (y : CTree α) :
    mk d.flip c x a y = mk d c y a x := by cases d <;> rfl

@[simp] theorem view_mk (d : Dir) (c : Color) (x : CTree α) (a : α) (y : CTree α) :
    (mk d c x a y).view d = some (c, x, a, y) := by cases d <;> rfl

@[simp] theorem color_mk (d : Dir) (c : Color) (x : CTree α) (a : α) (y : CTree α) :
    (mk d c x a y).color = c := by cases d <;> rfl

@[simp] theorem paint_mk (d : Dir) (c c' : Color) (x : CTree α) (a : α) (y : CTree α) :
    (mk d c x a y).paint c' = mk d c' x a y := by cases d <;> rfl

/-- Every tree but the empty one is a node, seen from either side. -/
theorem eq_mk (d : Dir) {t : CTree α} (h : t ≠ nil) : ∃ c x a y, t = mk d c x a y := by
  cases t with
  | nil => exact absurd rfl h
  | node c l a r =>
    cases d with
    | left => exact ⟨c, l, a, r, rfl⟩
    | right => exact ⟨c, r, a, l, rfl⟩

theorem mk_ne_nil (d : Dir) (c : Color) (x : CTree α) (a : α) (y : CTree α) :
    mk d c x a y ≠ nil := by
  cases d <;> exact fun h => nomatch h

theorem eq_of_view {d : Dir} {t x y : CTree α} {c : Color} {a : α}
    (h : t.view d = some (c, x, a, y)) : t = mk d c x a y := by
  cases t with
  | nil => cases h
  | node c l a r =>
    cases d with
    | left => cases h; rfl
    | right => cases h; rfl

def labels (t : CTree α) : Multiset α := t.inorder

@[simp] theorem labels_nil : (nil : CTree α).labels = 0 := rfl

@[simp] theorem labels_mk (d : Dir) (c : Color) (x : CTree α) (a : α) (y : CTree α) :
    (mk d c x a y).labels = a ::ₘ (x.labels + y.labels) := by
  cases d with
  | left => exact Multiset.coe_eq_coe.mpr List.perm_middle
  | right =>
    rw [Multiset.add_comm]
    exact Multiset.coe_eq_coe.mpr List.perm_middle

theorem ne_nil_of_red {t : CTree α} (h : t.color = .red) : t ≠ nil := by
  intro hnil
  rw [hnil] at h
  cases h

end CTree

/-- A tree with a hole: the hole is on the side `d` of a node whose other side is `sib`. -/
inductive Ctx (α : Type) where
  | top
  | step (d : Dir) (c : Color) (a : α) (sib : CTree α) (up : Ctx α)

namespace Ctx
open CTree

variable {α : Type}

def plug : Ctx α → CTree α → CTree α
  | top, t => t
  | step d c a sib up, t => up.plug (mk d c t a sib)

/- The hole of `up` is filled with the first context. -/
def append : Ctx α → Ctx α → Ctx α
  | top, up => up
  | step d c a sib inner, up => step d c a sib (inner.append up)

def depth : Ctx α → Nat
  | top => 0
  | step _ _ _ _ up => up.depth + 1

/-- What comes before and what comes behind the hole. -/
def before : Ctx α → List α
  | top => []
  | step .left _ _ _ up => up.before
  | step .right _ a sib up => up.before ++ (sib.inorder ++ [a])

def after : Ctx α → List α
  | top => []
  | step .left _ a sib up => a :: (sib.inorder ++ up.after)
  | step .right _ _ _ up => up.after

theorem plug_append (ctx up : Ctx α) (t : CTree α) :
    (ctx.append up).plug t = up.plug (ctx.plug t) := by
  induction ctx generalizing t with
  | top => rfl
  | step d c a sib inner ih => exact ih (mk d c t a sib)

theorem before_append (ctx up : Ctx α) : (ctx.append up).before = up.before ++ ctx.before := by
  induction ctx with
  | top => exact (List.append_nil _).symm
  | step d c a sib inner ih =>
    cases d with
    | left => exact ih
    | right => rw [append, before, before, ih, List.append_assoc]

theorem plug_ne_nil (ctx : Ctx α) {t : CTree α} (h : t ≠ nil) : ctx.plug t ≠ nil := by
  induction ctx generalizing t with
  | top => exact h
  | step d c a sib up ih => exact ih (mk_ne_nil d c t a sib)

theorem plug_flip (d : Dir) (c : Color) (a : α) (x y : CTree α) (up : Ctx α) :
    (step d.flip c a x up).plug y = up.plug (mk d c x a y) := by
  rw [plug, mk_flip]

theorem inorder_plug (ctx : Ctx α) (t : CTree α) :
    (ctx.plug t).inorder = ctx.before ++ (t.inorder ++ ctx.after) := by
  induction ctx generalizing t with
  | top => rw [plug, before, after, List.append_nil, List.nil_append]
  | step d c a sib up ih =>
    rw [plug, ih]
    cases d with
    | left =>
      simp only [mk, inorder, before, after, List.append_assoc, List.cons_append]
    | right =>
      simp only [mk, inorder, before, after, List.append_assoc, List.cons_append, List.nil_append]

theorem inorder_plug_congr (ctx : Ctx α) {t t' : CTree α} (h : t.inorder = t'.inorder) :
    (ctx.plug t).inorder = (ctx.plug t').inorder := by
  rw [inorder_plug, inorder_plug, h]

def labels : Ctx α → Multiset α
  | top => 0
  | step _ _ a sib up => a ::ₘ (sib.labels + up.labels)

theorem labels_append (ctx up : Ctx α) : (ctx.append up).labels = ctx.labels + up.labels := by
  induction ctx with
  | top => exact (Multiset.zero_add _).symm
  | step d c a sib inner ih =>
    rw [append, labels, labels, ih, Multiset.cons_add, Multiset.add_assoc]

theorem labels_plug (ctx : Ctx α) (t : CTree α) : (ctx.plug t).labels = ctx.labels + t.labels := by
  induction ctx generalizing t with
  | top => exact (Multiset.zero_add _).symm
  | step d c a sib up ih =>
    rw [plug, ih, labels_mk, labels, Multiset.add_cons, Multiset.cons_add]
    congr 1
    rw [Multiset.add_comm t.labels, ← Multiset.add_assoc, Multiset.add_comm up.labels]

theorem depth_le (ctx : Ctx α) : ctx.depth ≤ ctx.labels.card := by
  induction ctx with
  | top => exact Nat.zero_le _
  | step d c a sib up ih =>
    rw [depth, labels, Multiset.card_cons, Multiset.card_add]
    omega

end Ctx

/-! ### The invariant -/

/-- The colour of the tree, which has no red node with a red child, and the number of black nodes on
every path to its end. -/
inductive RB {α : Type} : CTree α → Color → Nat → Prop
  | nil : RB .nil .black 0
  | red {l : CTree α} {a : α} {r : CTree α} {n : Nat} (hl : RB l .black n) (hr : RB r .black n) :
      RB (.node .red l a r) .red n
  | black {l : CTree α} {a : α} {r : CTree α} {cl cr : Color} {n : Nat} (hl : RB l cl n)
      (hr : RB r cr n) : RB (.node .black l a r) .black (n + 1)

/-- The hole may be filled with a tree of this colour and height, and the root is black then. -/
inductive RBCtx {α : Type} : Ctx α → Color → Nat → Prop
  | top {n : Nat} : RBCtx .top .black n
  | red {d : Dir} {a : α} {sib : CTree α} {up : Ctx α} {n : Nat} (hs : RB sib .black n)
      (hu : RBCtx up .red n) : RBCtx (.step d .red a sib up) .black n
  | black {d : Dir} {a : α} {sib : CTree α} {up : Ctx α} {c cs : Color} {n : Nat} (hs : RB sib cs n)
      (hu : RBCtx up .black (n + 1)) : RBCtx (.step d .black a sib up) c n

section
open CTree

variable {α : Type} {t x y : CTree α} {ctx : Ctx α} {d : Dir} {c c' cx cy : Color} {a : α}
  {n m : Nat}

theorem RB.color_eq (h : RB t c n) : t.color = c := by
  cases h with
  | nil => rfl
  | red _ _ => rfl
  | black _ _ => rfl

theorem RB.mk_red (hx : RB x .black n) (hy : RB y .black n) : RB (mk d .red x a y) .red n := by
  cases d with
  | left => exact .red hx hy
  | right => exact .red hy hx

theorem RB.mk_black (hx : RB x cx n) (hy : RB y cy n) : RB (mk d .black x a y) .black (n + 1) := by
  cases d with
  | left => exact .black hx hy
  | right => exact .black hy hx

theorem RB.of_mk_red (h : RB (mk d .red x a y) c n) : c = .red ∧ RB x .black n ∧ RB y .black n := by
  cases d with
  | left =>
    cases h with
    | red hl hr => exact ⟨rfl, hl, hr⟩
  | right =>
    cases h with
    | red hl hr => exact ⟨rfl, hr, hl⟩

theorem RB.of_mk_black (h : RB (mk d .black x a y) c n) :
    ∃ cx cy m, c = .black ∧ n = m + 1 ∧ RB x cx m ∧ RB y cy m := by
  cases d with
  | left =>
    cases h with
    | black hl hr => exact ⟨_, _, _, rfl, rfl, hl, hr⟩
  | right =>
    cases h with
    | black hl hr => exact ⟨_, _, _, rfl, rfl, hr, hl⟩

theorem RB.paint_red (h : RB t .red n) : RB (t.paint .black) .black (n + 1) := by
  cases h with
  | red hl hr => exact .black hl hr

theorem RB.paint_black (h : RB t .black n) : t.paint .black = t := by
  cases h with
  | nil => rfl
  | black _ _ => rfl

theorem RB.ne_nil (h : RB t c (n + 1)) : t ≠ .nil := by
  intro hnil
  rw [hnil] at h
  cases h

theorem RBCtx.toBlack (h : RBCtx ctx c n) : RBCtx ctx .black n := by
  cases h with
  | top => exact .top
  | red hs hu => exact .red hs hu
  | black hs hu => exact .black hs hu

theorem RBCtx.plug (h : RBCtx ctx c n) (ht : RB t c n) : ∃ m, RB (ctx.plug t) .black m := by
  induction h generalizing t with
  | top => exact ⟨_, ht⟩
  | red hs _ ih => exact ih (.mk_red ht hs)
  | black hs _ ih => exact ih (.mk_black ht hs)

/-- A tree is taken apart at every position. -/
theorem RB.split (h : RB (ctx.plug t) .black m) : ∃ c n, RB t c n ∧ RBCtx ctx c n := by
  induction ctx generalizing t with
  | top => exact ⟨_, _, h, .top⟩
  | step d c a sib up ih =>
    obtain ⟨c', n, ht, hup⟩ := ih h
    cases c with
    | red =>
      obtain ⟨rfl, hx, hy⟩ := ht.of_mk_red
      exact ⟨_, _, hx, .red hy hup⟩
    | black =>
      obtain ⟨cx, cy, k, rfl, rfl, hx, hy⟩ := ht.of_mk_black
      exact ⟨_, _, hx, .black hy hup⟩

theorem RBCtx.relabel {inner up : Ctx α} {b : α} {sib : CTree α}
    (h : RBCtx (inner.append (.step d c a sib up)) c' n) :
    RBCtx (inner.append (.step d c b sib up)) c' n := by
  induction inner generalizing c' n with
  | top =>
    cases h with
    | red hs hu => exact .red hs hu
    | black hs hu => exact .black hs hu
  | step d' c'' a' sib' inner ih =>
    cases h with
    | red hs hu => exact .red hs (ih hu)
    | black hs hu => exact .black hs (ih hu)

end

/-! ### Positions -/

section
open CTree Ctx

variable {α : Type}

/-- The position of a new node: at the end of the path that goes to the left where `f` says so. -/
def descend (f : α → Bool) : Ctx α → CTree α → Ctx α
  | ctx, .nil => ctx
  | ctx, .node c l a r =>
    if f a then descend f (.step .left c a r ctx) l else descend f (.step .right c a l ctx) r

theorem plug_descend (f : α → Bool) (ctx : Ctx α) (t : CTree α) :
    (descend f ctx t).plug .nil = ctx.plug t := by
  induction t generalizing ctx with
  | nil => rfl
  | node c l a r ihl ihr =>
    unfold descend
    split
    · exact ihl _
    · exact ihr _

theorem descend_eq_step (f : α → Bool) (ctx : Ctx α) {t : CTree α} (h : t ≠ .nil) :
    ∃ d c a sib up, descend f ctx t = .step d c a sib up ∧ d = if f a then .left else .right := by
  induction t generalizing ctx with
  | nil => exact absurd rfl h
  | node c l a r ihl ihr =>
    unfold descend
    split
    next hf =>
      by_cases hl : l = .nil
      · exact ⟨_, _, _, _, _, by rw [hl]; rfl, by rw [if_pos hf]⟩
      · exact ihl _ hl
    next hf =>
      by_cases hr : r = .nil
      · exact ⟨_, _, _, _, _, by rw [hr]; rfl, by rw [if_neg hf]⟩
      · exact ihr _ hr

theorem descend_between {f : α → Bool} {ctx : Ctx α} {t : CTree α}
    (h : (ctx.plug t).inorder.Pairwise fun a b => f a = true → f b = true)
    (hbefore : ∀ a ∈ ctx.before, f a = false) (hafter : ∀ a ∈ ctx.after, f a = true) :
    (∀ a ∈ (descend f ctx t).before, f a = false) ∧
      ∀ a ∈ (descend f ctx t).after, f a = true := by
  induction t generalizing ctx with
  | nil => exact ⟨hbefore, hafter⟩
  | node c l a r ihl ihr =>
    have hnode : (l.inorder ++ a :: r.inorder).Pairwise fun a b => f a = true → f b = true := by
      rw [inorder_plug] at h
      exact (List.pairwise_append.mp (List.pairwise_append.mp h).2.1).1
    rw [List.pairwise_append, List.pairwise_cons] at hnode
    obtain ⟨-, ⟨hr, -⟩, hl⟩ := hnode
    unfold descend
    split
    next hf =>
      apply ihl h
      · exact hbefore
      intro b hb
      rw [after, List.mem_cons, List.mem_append] at hb
      rcases hb with rfl | hb | hb
      · exact hf
      · exact hr b hb hf
      · exact hafter b hb
    next hf =>
      refine ihr h ?_ hafter
      intro b hb
      rw [before, List.mem_append, List.mem_append, List.mem_singleton] at hb
      rcases hb with hb | hb | rfl
      · exact hbefore b hb
      · rw [Bool.eq_false_iff]
        intro hfb
        exact hf (hl b hb a List.mem_cons_self hfb)
      · exact Bool.eq_false_iff.mpr hf

theorem exists_plug {t : CTree α} {a : α} (h : a ∈ t.labels) :
    ∃ ctx c l r, t = Ctx.plug ctx (.node c l a r) := by
  induction t with
  | nil => exact absurd h (Multiset.notMem_zero a)
  | node c l b r ihl ihr =>
    have hlabels : a ∈ b ::ₘ (l.labels + r.labels) := by
      rw [← labels_mk .left c]
      exact h
    rw [Multiset.mem_cons, Multiset.mem_add] at hlabels
    rcases hlabels with rfl | hl | hr
    · exact ⟨.top, c, l, r, rfl⟩
    · obtain ⟨ctx, c', l', r', heq⟩ := ihl hl
      refine ⟨ctx.append (.step .left c b r .top), c', l', r', ?_⟩
      rw [plug_append, ← heq]
      rfl
    · obtain ⟨ctx, c', l', r', heq⟩ := ihr hr
      refine ⟨ctx.append (.step .right c b l .top), c', l', r', ?_⟩
      rw [plug_append, ← heq]
      rfl

/-- A node with an empty side is taken away: if it is red the tree is balanced without it, if it is
black the other side lacks a black node. -/
theorem RB.remove {d : Dir} {c c' : Color} {a : α} {t : CTree α} {ctx : Ctx α} {n : Nat}
    (h : RB (mk d c .nil a t) c' n) (hctx : RBCtx ctx c' n) :
    (c = .red ∧ ∃ m, RB (ctx.plug t) .black m) ∨
      c = .black ∧ ∃ m cx, RBCtx ctx .black (m + 1) ∧ RB t cx m := by
  cases c with
  | red =>
    obtain ⟨rfl, -, ht⟩ := h.of_mk_red
    exact .inl ⟨rfl, hctx.toBlack.plug ht⟩
  | black =>
    obtain ⟨cx, cy, m, rfl, rfl, -, ht⟩ := h.of_mk_black
    exact .inr ⟨rfl, m, cy, hctx, ht⟩

end

/-! ### A red node under a red one -/

section
open CTree Ctx

variable {α : Type}

/-- The subtree in the hole has become red. A red parent with a red sibling passes the colour on to
the grandparent, otherwise one or two rotations end it. -/
def insertFix : Ctx α → CTree α → CTree α
  | .step d .red p s (.step d' c g u up), t =>
    if u.color = .red then insertFix up (mk d' .red (mk d .black t p s) g (u.paint .black))
    else if d = d' then up.plug (mk d' .black t p (mk d' .red s g u))
    else
      match t.view d' with
      | some (_, x, n, y) => up.plug (mk d' .black (mk d' .red s p x) n (mk d' .red y g u))
      | none => up.plug (mk d' c (mk d .red t p s) g u)
  | ctx, t => ctx.plug t

theorem inorder_paint (c : Color) (t : CTree α) : (t.paint c).inorder = t.inorder := by
  cases t <;> rfl

theorem inorder_insertFix (ctx : Ctx α) (t : CTree α) :
    (insertFix ctx t).inorder = (ctx.plug t).inorder := by
  induction ctx, t using insertFix.induct with
  | case1 d p s d' c g u up t hu ih =>
    rw [insertFix, if_pos hu, ih]
    apply inorder_plug_congr
    cases d <;> cases d' <;> simp only [mk, inorder, inorder_paint]
  | case2 p s d' c g u up t hu =>
    rw [insertFix, if_neg hu, if_pos rfl]
    apply inorder_plug_congr
    cases d' <;> simp only [mk, inorder, List.append_assoc, List.cons_append]
  | case3 d p s d' c g u up t hu hd c1 x n y hview =>
    rw [insertFix, if_neg hu, if_neg hd, hview, eq_of_view hview]
    apply inorder_plug_congr
    rw [Dir.eq_flip_of_ne hd]
    cases d' <;> simp only [mk, inorder, Dir.flip, List.append_assoc, List.cons_append]
  | case4 d p s d' c g u up t hu hd hview =>
    rw [insertFix, if_neg hu, if_neg hd, hview]
    rfl
  | case5 ctx t hctx => rw [insertFix]; exact hctx

theorem RBCtx.of_red {d d' : Dir} {c : Color} {p g : α} {s u : CTree α} {up : Ctx α} {n : Nat}
    (h : RBCtx (.step d .red p s (.step d' c g u up)) .black n) :
    c = .black ∧ RB s .black n ∧ RB u u.color n ∧ RBCtx up .black (n + 1) := by
  cases h with
  | red hs hup =>
    cases hup with
    | black hu hup =>
      rw [hu.color_eq]
      exact ⟨rfl, hs, hu, hup⟩

theorem eq_black_of_ne {c : Color} (h : c ≠ .red) : c = .black := by
  cases c with
  | red => exact absurd rfl h
  | black => rfl

theorem RB.painted {t : CTree α} (h : ∃ m, RB t .black m) : ∃ m, RB (t.paint .black) .black m := by
  obtain ⟨m, hm⟩ := h
  rw [hm.paint_black]
  exact ⟨m, hm⟩

/-- The red node is repaired up to the root, which may be red in the end. -/
theorem RBCtx.insertFix {ctx : Ctx α} {t : CTree α} {n : Nat} (hctx : RBCtx ctx .black n)
    (ht : RB t .red n) : ∃ m, RB ((insertFix ctx t).paint .black) .black m := by
  induction ctx, t using insertFix.induct generalizing n with
  | case1 d p s d' c g u up t hred ih =>
    obtain ⟨rfl, hs, hu, hup⟩ := hctx.of_red
    rw [hred] at hu
    rw [Lib.insertFix, if_pos hred]
    exact ih hup (.mk_red (.mk_black ht hs) hu.paint_red)
  | case2 p s d' c g u up t hred =>
    obtain ⟨rfl, hs, hu, hup⟩ := hctx.of_red
    rw [eq_black_of_ne hred] at hu
    rw [Lib.insertFix, if_neg hred, if_pos rfl]
    exact RB.painted (hup.plug (.mk_black ht (.mk_red hs hu)))
  | case3 d p s d' c g u up t hred hd c1 x a y hview =>
    obtain ⟨rfl, hs, hu, hup⟩ := hctx.of_red
    rw [eq_black_of_ne hred] at hu
    have heq := eq_of_view hview
    have hcolor := ht.color_eq
    rw [heq, color_mk] at hcolor
    rw [heq, hcolor] at ht
    obtain ⟨-, hx, hy⟩ := ht.of_mk_red
    rw [Lib.insertFix, if_neg hred, if_neg hd, hview]
    exact RB.painted (hup.plug (.mk_black (.mk_red hs hx) (.mk_red hy hu)))
  | case4 d p s d' c g u up t hred hd hview =>
    obtain ⟨c', x, a, y, rfl⟩ := eq_mk d' (ne_nil_of_red ht.color_eq)
    rw [view_mk] at hview
    cases hview
  | case5 ctx t hother =>
    rw [Lib.insertFix]
    · cases hctx with
      | top => exact ⟨_, ht.paint_red⟩
      | red hs hup =>
        cases hup with
        | black hu hup => exact (hother _ _ _ _ _ _ _ _ rfl).elim
      | black hs hup => exact RB.painted (hup.plug (.mk_black ht hs))
    · exact hother

/-! ### A subtree that lacks a black node -/

/-- The sibling `w` of the subtree `t` is black. If its children are black too it becomes red, and
the parent may lack a black node now; otherwise one or two rotations end it. -/
def settle (d : Dir) (c : Color) (t : CTree α) (a : α) (w : CTree α) (up : Ctx α)
    (k : CTree α → CTree α) : CTree α :=
  match w.view d with
  | none => up.plug (mk d c t a w)
  | some (_, near, b, far) =>
    if near.color = .black ∧ far.color = .black then k (mk d c t a (mk d .red near b far))
    else if far.color = .black then
      match near.view d with
      | none => up.plug (mk d c t a w)
      | some (_, x, e, y) =>
        (up.plug (mk d c (mk d .black t a x) e (mk d .black y b far))).paint .black
    else (up.plug (mk d c (mk d .black t a near) b (far.paint .black))).paint .black

/-- The subtree in the hole lacks a black node. If it is red it becomes black; a red sibling is
rotated out of the way first. -/
def deleteFix : Ctx α → CTree α → CTree α
  | .top, t => t.paint .black
  | .step d c a w up, t =>
    if t.color = .red then up.plug (mk d c (t.paint .black) a w)
    else
      match w.view d with
      | some (.red, near, b, far) =>
        settle d .red t a near (.step d .black b far up) fun t' =>
          up.plug (mk d .black (t'.paint .black) b far)
      | _ => settle d c t a w up fun t' => deleteFix up t'

theorem inorder_settle {d : Dir} {c : Color} {t : CTree α} {a : α} {w : CTree α} {up : Ctx α}
    {k : CTree α → CTree α} (hk : ∀ t', (k t').inorder = (up.plug t').inorder) :
    (settle d c t a w up k).inorder = (up.plug (mk d c t a w)).inorder := by
  unfold settle
  split
  · rfl
  next cw near b far hw =>
    rw [eq_of_view hw]
    split
    · rw [hk]
      apply inorder_plug_congr
      cases d <;> rfl
    · split
      · split
        · rfl
        next ce x e y hnear =>
          rw [inorder_paint, eq_of_view hnear]
          apply inorder_plug_congr
          cases d <;> simp only [mk, inorder, List.append_assoc, List.cons_append]
      · rw [inorder_paint]
        apply inorder_plug_congr
        cases d <;> simp only [mk, inorder, inorder_paint, List.append_assoc, List.cons_append]

theorem inorder_deleteFix (ctx : Ctx α) (t : CTree α) :
    (deleteFix ctx t).inorder = (ctx.plug t).inorder := by
  induction ctx generalizing t with
  | top => exact inorder_paint .black t
  | step d c a w up ih =>
    unfold deleteFix
    split
    · apply inorder_plug_congr
      cases d <;> simp only [mk, inorder, inorder_paint]
    · split
      next near b far hw =>
        rw [inorder_settle, eq_of_view hw, plug, plug]
        · apply inorder_plug_congr
          cases d <;> simp only [mk, inorder, List.append_assoc, List.cons_append]
        · intro t'
          apply inorder_plug_congr
          cases d <;> simp only [mk, inorder, inorder_paint]
      · exact inorder_settle fun t' => ih t'

def Lacks (t : CTree α) (n : Nat) : Prop :=
  if t.color = .red then RB (t.paint .black) .black (n + 1) else RB t .black n

theorem RB.lacks {t : CTree α} {c : Color} {n : Nat} (h : RB t c n) : Lacks t n := by
  unfold Lacks
  rw [h.color_eq]
  cases c with
  | red =>
    rw [if_pos rfl]
    exact h.paint_red
  | black =>
    rw [if_neg (fun h => by cases h)]
    exact h

theorem RBCtx.replace {d : Dir} {c : Color} {a e : α} {w x y : CTree α} {up : Ctx α} {n : Nat}
    (h : RBCtx (.step d c a w up) .black n) (hx : RB x .black n) (hy : RB y .black n) :
    ∃ m, RB ((up.plug (mk d c x e y)).paint .black) .black m := by
  cases h with
  | red _ hup => exact RB.painted (hup.plug (.mk_red hx hy))
  | black _ hup => exact RB.painted (hup.plug (.mk_black hx hy))

theorem settle_rb {d : Dir} {c : Color} {t : CTree α} {a : α} {w : CTree α} {up : Ctx α} {n : Nat}
    {k : CTree α → CTree α} (hctx : RBCtx (.step d c a w up) .black (n + 1)) (ht : RB t .black n)
    (hw : RB w .black (n + 1))
    (hk : ∀ w', RB w' .red n → ∃ m, RB (k (mk d c t a w')) .black m) :
    ∃ m, RB (settle d c t a w up k) .black m := by
  obtain ⟨cw, near, b, far, rfl⟩ := eq_mk d hw.ne_nil
  have hcw := hw.color_eq
  rw [color_mk] at hcw
  subst hcw
  obtain ⟨cn, cf, m, -, hm, hnear, hfar⟩ := hw.of_mk_black
  cases hm
  unfold settle
  rw [view_mk]
  dsimp only
  rw [hnear.color_eq, hfar.color_eq]
  cases cf with
  | red =>
    rw [if_neg (fun h => by cases h.2), if_neg (fun h => by cases h)]
    exact hctx.replace (.mk_black ht hnear) hfar.paint_red
  | black =>
    cases cn with
    | black =>
      rw [if_pos ⟨rfl, rfl⟩]
      exact hk _ (.mk_red hnear hfar)
    | red =>
      obtain ⟨ce, x, e, y, rfl⟩ := eq_mk d (ne_nil_of_red hnear.color_eq)
      have hce := hnear.color_eq
      rw [color_mk] at hce
      subst hce
      obtain ⟨-, hx, hy⟩ := hnear.of_mk_red
      rw [if_neg (fun h => by cases h.1), if_pos rfl, view_mk]
      exact hctx.replace (.mk_black ht hx) (.mk_black hy hfar)

theorem RBCtx.lacks {d : Dir} {c : Color} {a : α} {t w w' : CTree α} {up : Ctx α} {n : Nat}
    (h : RBCtx (.step d c a w up) .black (n + 1)) (ht : RB t .black n) (hw : RB w' .red n) :
    ∃ m, RBCtx up .black (m + 1) ∧ Lacks (mk d c t a w') m := by
  unfold Lacks
  rw [color_mk, paint_mk]
  cases h with
  | red _ hup =>
    refine ⟨n, hup.toBlack, ?_⟩
    rw [if_pos rfl]
    exact .mk_black ht hw
  | black _ hup =>
    refine ⟨n + 1, hup, ?_⟩
    rw [if_neg (fun h => by cases h)]
    exact .mk_black ht hw

theorem RBCtx.sibling {d : Dir} {c c' : Color} {a : α} {w : CTree α} {up : Ctx α} {n : Nat}
    (h : RBCtx (.step d c a w up) c' n) : RB w w.color n := by
  cases h with
  | red hs _ =>
    rw [hs.color_eq]
    exact hs
  | black hs _ =>
    rw [hs.color_eq]
    exact hs

theorem RBCtx.of_red_sibling {d : Dir} {c c' : Color} {a b : α} {x y : CTree α} {up : Ctx α}
    {n : Nat} (h : RBCtx (.step d c a (mk d .red x b y) up) c' n) :
    c = .black ∧ RB x .black n ∧ RB y .black n ∧ RBCtx up .black (n + 1) := by
  cases h with
  | red hs _ =>
    obtain ⟨hc, -⟩ := hs.of_mk_red
    cases hc
  | black hs hup =>
    obtain ⟨-, hx, hy⟩ := hs.of_mk_red
    exact ⟨rfl, hx, hy, hup⟩

theorem RBCtx.deleteFix {ctx : Ctx α} {t : CTree α} {n : Nat} (hctx : RBCtx ctx .black (n + 1))
    (ht : Lacks t n) : ∃ m, RB (deleteFix ctx t) .black m := by
  induction ctx generalizing t n with
  | top =>
    unfold Lacks at ht
    split at ht
    · exact ⟨_, ht⟩
    · rw [Lib.deleteFix, ht.paint_black]
      exact ⟨_, ht⟩
  | step d c a w up ih =>
    unfold Lacks at ht
    unfold Lib.deleteFix
    split
    next hred =>
      rw [if_pos hred] at ht
      exact hctx.plug ht
    next hred =>
      rw [if_neg hred] at ht
      obtain ⟨cw, near, b, far, rfl⟩ := eq_mk d hctx.sibling.ne_nil
      rw [view_mk]
      cases cw with
      | black =>
        have hs := hctx.sibling
        rw [color_mk] at hs
        apply settle_rb hctx ht hs
        intro w' hw'
        obtain ⟨m, hup, hlacks⟩ := hctx.lacks ht hw'
        exact ih hup hlacks
      | red =>
        obtain ⟨rfl, hnear, hfar, hup⟩ := hctx.of_red_sibling
        apply settle_rb (.red hnear (.black hfar hup)) ht hnear
        intro w' hw'
        rw [paint_mk]
        exact hup.plug (.mk_black (.mk_black ht hw') hfar)

end

end TstMuduo.Lib

import TstMuduo.ConnHash.RbTreeRep

/-!
# The two fix-ups

`rbtree_insert_fixup` and `rbtree_delete_fixup` do in memory what the two repairs of the library do
with the tree, and both end: a pass of the loop goes up by at least one node.
-/

namespace TstMuduo.ConnHash
open TstMuduo.Lib CTree Ctx

section
variable {e : Rest} {s s' : RbTree} {p q r : Ptr} {t t' x y z : CTree Entry} {ctx up : Ctx Entry}
  {d : Dir} {c c' : Color} {a b g : Entry} {n fuel : Nat}

/-! ### Insertion -/

theorem Holds.insertFixup_end (h : Holds e (ctx.plug t) s) (ht : t ≠ .nil)
    (hparent : ∀ d p sib up, ctx ≠ .step d .red p sib up) :
    ∃ s', s.insertFixup (fuel + 1) (ptrOf t) = .ok s' ∧
      Holds e ((ctx.plug t).paint .black) s' := by
  have hblack : (s.mem (parentOf e.above ctx)).isred = false := by
    rw [Bool.eq_false_iff]
    cases ctx with
    | top =>
      rw [parentOf, Ne, isred_iff (c := .black) h.above_color]
      exact Color.noConfusion
    | step d c a sib up =>
      rw [parentOf, h.cell_eq, Ne, isred_iff (cell_color ..)]
      intro hc
      exact hparent d a sib up (by rw [hc])
  rw [RbTree.insertFixup]
  simp only [RbTree.load_ptrOf, ok_bind, h.parent_eq ht, s.load_eq (h.parentOf_ne ctx), hblack]
  rw [if_neg Bool.false_ne_true, h.root]
  have htop : Holds e (Ctx.top.plug (ctx.plug t)) s := h
  exact htop.paintBlack (plug_ne_nil ctx ht)

theorem Holds.lift (h : Holds e (up.plug (CTree.mk d c (CTree.mk d c' x a y) b z)) s) :
    ∃ s', s.lift d a.ptr = .ok s' ∧
      Holds e (up.plug (CTree.mk d .black x a (CTree.mk d .red y b z))) s' := by
  obtain ⟨s1, hs1, h1⟩ := h.near.black
  have h1 : Holds e (up.plug (CTree.mk d c (CTree.mk d .black x a y) b z)) s1 := h1
  have hp1 := h1.near.cell_eq
  obtain ⟨s2, hs2, h2⟩ := h1.red
  have hp2 := h2.near.cell_eq
  rw [← mk_flip, ← mk_flip d .black] at h2
  obtain ⟨s3, hs3, h3⟩ := h2.rotate
  rw [mk_flip, mk_flip] at h3
  refine ⟨s3, ?_, h3⟩
  rw [RbTree.lift]
  simp only [hs1, ok_bind, RbTree.load_ptr, hp1, cell_parent, parentOf, hs2, hp2, hs3]

theorem Holds.straighten (h : Holds e (up.plug (CTree.mk d c (CTree.mk d.flip .red t a x) b z)) s)
    (ht : t.color = .red) : ∃ s' y' n y, t = CTree.mk d .red y' n y ∧
      s.straighten d (ptrOf t) a.ptr = .ok (s', a.ptr, n.ptr) ∧
      Holds e (up.plug (CTree.mk d c (CTree.mk d .red (CTree.mk d .red x a y') n y) b z)) s' := by
  obtain ⟨c', y', n, y, rfl⟩ := eq_mk d (ne_nil_of_red ht)
  rw [color_mk] at ht
  subst ht
  have hcell := h.near.cell_eq
  have h1 := h.near
  rw [mk_flip] at h1
  obtain ⟨s1, hs1, h2⟩ := h1.rotate
  have hp := h2.near.cell_eq
  refine ⟨s1, y', n, y, rfl, ?_, h2⟩
  rw [RbTree.straighten]
  simp only [RbTree.load_ptr, ok_bind, hcell, cell_near, if_true, hs1, hp, cell_parent, parentOf]
  rfl

theorem Holds.straight (h : Holds e (up.plug (CTree.mk d c (CTree.mk d .red t a x) b z)) s)
    (ht : t ≠ .nil) : s.straighten d (ptrOf t) a.ptr = .ok (s, ptrOf t, a.ptr) := by
  have hne := h.near.ptrOf_ne (.inl ht)
  rw [RbTree.straighten, RbTree.load_ptr, ok_bind, h.near.cell_eq, cell_far, if_neg hne]
  rfl

theorem Holds.insertFixup_pass {d' : Dir} {u : CTree Entry}
    (h : Holds e (up.plug (CTree.mk d' c (CTree.mk d .red t a x) b u)) s) (ht : t ≠ .nil) :
    s.insertFixup (fuel + 1) (ptrOf t) =
      (if u.color = .red then do
        let s ← s.modify (ptrOf u) RbNode.black
        let s ← s.modify a.ptr RbNode.black
        let s ← s.modify b.ptr RbNode.red
        s.insertFixup fuel b.ptr
      else do
        let (s, q, p) ← s.straighten d' (ptrOf t) a.ptr
        let s ← s.lift d' p
        s.insertFixup fuel q) := by
  have hparent : (s.mem (ptrOf t)).parent = a.ptr := h.near.near.parent_eq ht
  have hred : (s.mem a.ptr).isred = true := by
    rw [h.near.cell_eq]
    exact (isred_iff (cell_color ..)).mpr rfl
  have hgrand : (s.mem a.ptr).parent = b.ptr := by
    rw [h.near.cell_eq, cell_parent]
    rfl
  have hside : RbTree.sideOf (s.mem b.ptr) a.ptr = d' := by
    rw [← h.sideOf_eq (.inl (mk_ne_nil d .red t a x)), ptrOf_mk]
  have huncle : (s.mem b.ptr).child d'.flip = ptrOf u := by rw [h.cell_eq, cell_far]
  rw [RbTree.insertFixup]
  simp only [RbTree.load_ptrOf, ok_bind, hparent, RbTree.load_ptr, hred, if_true, hgrand, hside,
    huncle, isred_iff h.far.color_eq]

/-- `rbtree_insert_fixup` repairs the tree under a node that has become red. -/
theorem Holds.insertFixup (h : Holds e (ctx.plug t) s) (hctx : RBCtx ctx .black n)
    (ht : RB t .red n) (hfuel : ctx.depth + 2 ≤ fuel) :
    ∃ s', s.insertFixup fuel (ptrOf t) = .ok s' ∧ Holds e ((insertFix ctx t).paint .black) s' := by
  have htnil := ne_nil_of_red ht.color_eq
  induction ctx, t using insertFix.induct generalizing n s fuel with
  | case1 d p sib d' c g u up t hred ih =>
    obtain ⟨rfl, hs, hu, hup⟩ := hctx.of_red
    rw [hred] at hu
    simp only [Ctx.depth] at hfuel
    obtain ⟨fuel, rfl⟩ : ∃ k, fuel = k + 1 := ⟨fuel - 1, by omega⟩
    have h : Holds e (up.plug (CTree.mk d' .black (CTree.mk d .red t p sib) g u)) s := h
    obtain ⟨s1, hs1, h1⟩ := h.far.paintBlack (ne_nil_of_red hred)
    rw [plug_flip] at h1
    obtain ⟨s2, hs2, h2⟩ := h1.near.black
    have h2 : Holds e (up.plug (CTree.mk d' .black (CTree.mk d .black t p sib) g (u.paint .black)))
      s2 := h2
    obtain ⟨s3, hs3, h3⟩ := h2.red
    rw [h.insertFixup_pass htnil, if_pos hred, hs1, ok_bind, hs2, ok_bind, hs3, ok_bind,
      Lib.insertFix, if_pos hred]
    have hstep := ih h3 hup (.mk_red (.mk_black ht hs) hu.paint_red)
      (show up.depth + 2 ≤ fuel by omega) (mk_ne_nil _ _ _ _ _)
    rw [ptrOf_mk] at hstep
    exact hstep
  | case2 p sib d' c g u up t hred =>
    obtain ⟨rfl, hs, hu, hup⟩ := hctx.of_red
    obtain ⟨fuel, rfl⟩ : ∃ k, fuel = k + 1 + 1 := ⟨fuel - 2, by omega⟩
    have h : Holds e (up.plug (CTree.mk d' .black (CTree.mk d' .red t p sib) g u)) s := h
    obtain ⟨s1, hs1, h1⟩ := h.lift
    rw [h.insertFixup_pass htnil, if_neg hred, h.straight htnil, ok_bind, Lib.insertFix,
      if_neg hred, if_pos rfl]
    dsimp only
    rw [hs1, ok_bind]
    apply h1.near.insertFixup_end htnil
    intro d p sib up heq
    cases heq
  | case3 d p sib d' c g u up t hred hd c1 x a y hview =>
    obtain ⟨rfl, hs, hu, hup⟩ := hctx.of_red
    obtain ⟨fuel, rfl⟩ : ∃ k, fuel = k + 1 + 1 := ⟨fuel - 2, by omega⟩
    have h : Holds e (up.plug (CTree.mk d' .black (CTree.mk d .red t p sib) g u)) s := h
    rw [Dir.eq_flip_of_ne hd] at h
    obtain ⟨s1, y', n', y1, heq, hs1, h1⟩ := h.straighten ht.color_eq
    rw [heq, view_mk] at hview
    cases hview
    obtain ⟨s2, hs2, h2⟩ := h1.lift
    rw [h.insertFixup_pass htnil, if_neg hred, hs1, ok_bind, Lib.insertFix, if_neg hred,
      if_neg hd, heq, view_mk]
    dsimp only
    rw [hs2, ok_bind]
    rw [← ptrOf_mk (d := d') (c := .red) (x := sib) (a := p) (y := x)]
    apply h2.near.insertFixup_end (mk_ne_nil _ _ _ _ _)
    intro d p sib up heq
    cases heq
  | case4 d p sib d' c g u up t hred hd hview =>
    obtain ⟨c', x, a, y, rfl⟩ := eq_mk d' htnil
    rw [view_mk] at hview
    cases hview
  | case5 ctx t hother =>
    obtain ⟨fuel, rfl⟩ : ∃ k, fuel = k + 1 := ⟨fuel - 1, by omega⟩
    rw [Lib.insertFix]
    · apply h.insertFixup_end htnil
      intro d p sib up heq
      subst heq
      cases hctx with
      | red hs hup =>
        cases hup with
        | black hu hup => exact hother _ _ _ _ _ _ _ _ rfl
    · exact hother

/-! ### Deletion -/

theorem Holds.parent_near (h : Holds e (up.plug (CTree.mk d c t a x)) s)
    (hnull : t = .nil → (e.mem .null).parent = a.ptr) : (s.mem (ptrOf t)).parent = a.ptr := by
  by_cases ht : t = .nil
  · rw [ht, ptrOf, h.other _ (null_notMem_addrs _)]
    exact hnull ht
  · exact h.near.parent_eq ht

theorem Holds.sibling (h : Holds e (up.plug (CTree.mk d c t a x)) s) :
    (s.mem a.ptr).child d.flip = ptrOf x := by
  rw [h.cell_eq, cell_far]

theorem Holds.blackSibling (h : Holds e (up.plug (CTree.mk d c t a (CTree.mk d .red x b y))) s)
    (hnull : t = .nil → (e.mem .null).parent = a.ptr) :
    ∃ s', s.blackSibling d (ptrOf t) b.ptr = .ok (s', ptrOf x) ∧
      Holds e (up.plug (CTree.mk d .black (CTree.mk d .red t a x) b y)) s' := by
  have hred : (s.mem b.ptr).isred = true := by
    rw [h.far.cell_eq]
    exact (isred_iff (cell_color ..)).mpr rfl
  obtain ⟨s1, hs1, h1⟩ := h.far.black
  rw [plug_flip] at h1
  obtain ⟨s2, hs2, h2⟩ := h1.red
  obtain ⟨s3, hs3, h3⟩ := h2.rotate
  refine ⟨s3, ?_, h3⟩
  have hlast := h3.near.sibling
  rw [RbTree.blackSibling]
  simp only [RbTree.load_ptr, ok_bind, hred, if_true, hs1, RbTree.load_ptrOf, h1.parent_near hnull,
    hs2, h2.parent_near hnull, hs3, h3.near.parent_near hnull, hlast]
  rfl

theorem Holds.blackSibling_black
    (h : Holds e (up.plug (CTree.mk d c t a (CTree.mk d .black x b y))) s) :
    s.blackSibling d (ptrOf t) b.ptr = .ok (s, b.ptr) := by
  have hred : ¬ (s.mem b.ptr).isred = true := by
    rw [h.far.cell_eq, isred_iff (cell_color ..)]
    exact Color.noConfusion
  rw [RbTree.blackSibling, RbTree.load_ptr, ok_bind, if_neg hred]
  rfl

theorem Holds.blackChildren (h : Holds e (ctx.plug (CTree.mk d c x b y)) s) :
    s.blackChildren b.ptr = .ok (decide (x.color = .black ∧ y.color = .black)) := by
  have hx := isblack_eq h.near.color_eq
  have hy := isblack_eq h.far.color_eq
  have hboth : ∀ k k' : Bool, (if k = true then (pure k' : Except RbFault Bool) else pure false) =
      .ok (k && k') := by
    intro k k'
    cases k <;> rfl
  have hcell := h.cell_eq
  rw [RbTree.blackChildren]
  cases d with
  | left =>
    have hleft : (s.mem b.ptr).left = ptrOf x := by rw [hcell]; rfl
    have hright : (s.mem b.ptr).right = ptrOf y := by rw [hcell]; rfl
    simp only [RbTree.load_ptr, ok_bind, hleft, hright, RbTree.load_ptrOf]
    rw [hboth, hx, hy, Bool.decide_and]
  | right =>
    have hleft : (s.mem b.ptr).left = ptrOf y := by rw [hcell]; rfl
    have hright : (s.mem b.ptr).right = ptrOf x := by rw [hcell]; rfl
    simp only [RbTree.load_ptr, ok_bind, hleft, hright, RbTree.load_ptrOf]
    rw [hboth, hx, hy, Bool.decide_and, Bool.and_comm]

theorem Holds.redFar
    (h : Holds e (up.plug (CTree.mk d c t a (CTree.mk d c' (CTree.mk d .red x g z) b y))) s)
    (hnull : t = .nil → (e.mem .null).parent = a.ptr) (hy : y.color = .black) :
    ∃ s', s.redFar d (ptrOf t) b.ptr = .ok (s', g.ptr) ∧
      Holds e (up.plug (CTree.mk d c t a (CTree.mk d .black x g (CTree.mk d .red z b y)))) s' := by
  have hfar : (s.mem b.ptr).child d.flip = ptrOf y := h.far.sibling
  have hblack := (isblack_iff h.far.far.color_eq).mpr hy
  have hnear : (s.mem b.ptr).child d = g.ptr := by rw [h.far.cell_eq, cell_near, ptrOf_mk]
  obtain ⟨s1, hs1, h1⟩ := h.far.near.black
  have h1 : Holds e ((Ctx.step d.flip c a t up).plug
    (CTree.mk d c' (CTree.mk d .black x g z) b y)) s1 := h1
  obtain ⟨s2, hs2, h2⟩ := h1.red
  rw [← mk_flip, ← mk_flip d .black] at h2
  obtain ⟨s3, hs3, h3⟩ := h2.rotate
  rw [mk_flip, mk_flip, plug_flip] at h3
  refine ⟨s3, ?_, h3⟩
  have hlast := h3.sibling
  rw [ptrOf_mk] at hlast
  rw [RbTree.redFar]
  simp only [RbTree.load_ptr, ok_bind, hfar, RbTree.load_ptrOf, hblack, if_true, hnear, hs1, hs2,
    hs3, h3.parent_near hnull, hlast]
  rfl

theorem Holds.redFar_red (h : Holds e (up.plug (CTree.mk d c t a (CTree.mk d c' x b y))) s)
    (hy : y.color = .red) : s.redFar d (ptrOf t) b.ptr = .ok (s, b.ptr) := by
  have hfar : (s.mem b.ptr).child d.flip = ptrOf y := h.far.sibling
  have hblack : ¬ (s.mem (ptrOf y)).isblack = true := by
    rw [isblack_iff h.far.far.color_eq, hy]
    exact Color.noConfusion
  rw [RbTree.redFar]
  simp only [RbTree.load_ptr, ok_bind, hfar, RbTree.load_ptrOf]
  rw [if_neg hblack]
  rfl

theorem Holds.rotateUp (h : Holds e (up.plug (CTree.mk d c t a (CTree.mk d c' x b y))) s)
    (hnull : t = .nil → (e.mem .null).parent = a.ptr) (hy : y.color = .red) :
    ∃ s', s.rotateUp d (ptrOf t) b.ptr = .ok s' ∧
      Holds e (up.plug (CTree.mk d c (CTree.mk d .black t a x) b (y.paint .black))) s' := by
  have hcolor : (s.mem a.ptr).color = colorInt c := by rw [h.cell_eq, cell_color]
  have hpaint : ∀ n : RbNode, { n with color := (s.mem a.ptr).color } =
      { n with color := colorInt c } := fun n => by rw [hcolor]
  obtain ⟨s1, hs1, h1⟩ := h.far.setColor hpaint
  rw [plug_flip] at h1
  obtain ⟨s2, hs2, h2⟩ := h1.black
  have hfar : (s2.mem b.ptr).child d.flip = ptrOf y := h2.far.sibling
  obtain ⟨s3, hs3, h3⟩ := h2.far.far.paintBlack (ne_nil_of_red hy)
  rw [plug_flip, plug_flip] at h3
  obtain ⟨s4, hs4, h4⟩ := h3.rotate
  refine ⟨s4, ?_, h4⟩
  rw [RbTree.rotateUp]
  simp only [RbTree.load_ptrOf, ok_bind, h.parent_near hnull, RbTree.load_ptr, hs1, hs2, hfar, hs3,
    hs4]

/-- The rest of a pass: the parent is next, or the tree is repaired and the root is next. -/
theorem Holds.settle (h : Holds e (up.plug (CTree.mk d c t a (CTree.mk d .black x b y))) s)
    (hnull : t = .nil → (e.mem .null).parent = a.ptr) :
    ((x.color = .black ∧ y.color = .black) ∧ ∃ s',
      s.settle d (ptrOf t) b.ptr = .ok (s', a.ptr) ∧
      Holds e (up.plug (CTree.mk d c t a (CTree.mk d .red x b y))) s') ∨
    ¬ (x.color = .black ∧ y.color = .black) ∧ ∃ s' t',
      s.settle d (ptrOf t) b.ptr = .ok (s', s'.root) ∧ Holds e t' s' ∧ t' ≠ .nil ∧
      ∀ k, Lib.settle d c t a (CTree.mk d .black x b y) up k = t'.paint .black := by
  have htest := h.far.blackChildren
  by_cases hblack : x.color = .black ∧ y.color = .black
  · obtain ⟨s1, hs1, h1⟩ := h.far.red
    rw [plug_flip] at h1
    refine .inl ⟨hblack, s1, ?_, h1⟩
    rw [RbTree.settle, htest, ok_bind, decide_eq_true hblack, if_pos rfl, hs1, ok_bind,
      RbTree.load_ptrOf, ok_bind, h1.parent_near hnull]
    rfl
  · refine .inr ⟨hblack, ?_⟩
    rw [RbTree.settle, htest, ok_bind, decide_eq_false hblack, if_neg Bool.false_ne_true]
    by_cases hfar : y.color = .black
    · have hred : x.color = .red := by
        by_contra hx
        exact hblack ⟨eq_black_of_ne hx, hfar⟩
      obtain ⟨cx, z, g, z', rfl⟩ := eq_mk d (ne_nil_of_red hred)
      rw [color_mk] at hred
      subst hred
      obtain ⟨s1, hs1, h1⟩ := h.redFar hnull hfar
      obtain ⟨s2, hs2, h2⟩ := h1.rotateUp hnull (color_mk ..)
      rw [paint_mk] at h2
      refine ⟨s2, _, ?_, h2, plug_ne_nil up (mk_ne_nil _ _ _ _ _), ?_⟩
      · rw [hs1, ok_bind]
        dsimp only
        rw [hs2, ok_bind]
        rfl
      · intro k
        rw [Lib.settle, view_mk]
        dsimp only
        rw [if_neg hblack, if_pos hfar, view_mk]
    · have hred : y.color = .red := by
        cases hy : y.color with
        | red => rfl
        | black => exact absurd hy hfar
      obtain ⟨s1, hs1, h1⟩ := h.rotateUp hnull hred
      refine ⟨s1, _, ?_, h1, plug_ne_nil up (mk_ne_nil _ _ _ _ _), ?_⟩
      · rw [h.redFar_red hred, ok_bind]
        dsimp only
        rw [hs1, ok_bind]
        rfl
      · intro k
        rw [Lib.settle, view_mk]
        dsimp only
        rw [if_neg hblack, if_neg hfar]

theorem Holds.deleteFixup_root (h : Holds e t s) (ht : t ≠ .nil) (hfuel : 0 < fuel) :
    ∃ s', s.deleteFixup fuel s.root = .ok s' ∧ Holds e (t.paint .black) s' := by
  obtain ⟨k, rfl⟩ : ∃ k, fuel = k + 1 := ⟨fuel - 1, by omega⟩
  have htop : Holds e (Ctx.top.plug t) s := h
  obtain ⟨s', hs', h'⟩ := htop.paintBlack ht
  refine ⟨s', ?_, h'⟩
  rw [RbTree.deleteFixup, RbTree.lacksBlack, if_neg (not_not.mpr rfl)]
  rw [h.root]
  exact hs'

theorem Holds.lacksBlack (h : Holds e (up.plug (CTree.mk d c t a x)) s) :
    s.lacksBlack (ptrOf t) = .ok (decide (t.color = .black)) := by
  have hne : ptrOf t ≠ s.root := by
    have hroot := h.near.root
    rw [ptrOf_plug] at hroot
    rw [hroot]
    intro heq
    have hmem : ptrOf t ∈ addrsAround (.step d c a x up) := by
      rw [heq]
      exact topOf_mem
    by_cases ht : t = .nil
    · rw [ht] at hmem
      exact null_notMem_around _ hmem
    · exact h.near.nodup_plug.2.2 _ hmem (ptrOf_mem ht)
  rw [RbTree.lacksBlack, if_pos hne, RbTree.load_ptrOf, ok_bind, isblack_eq h.near.color_eq]
  rfl

theorem Holds.deleteFixup_red (h : Holds e (ctx.plug t) s) (ht : t.color = .red)
    (hfuel : 0 < fuel) : ∃ s', s.deleteFixup fuel (ptrOf t) = .ok s' ∧
      Holds e (ctx.plug (t.paint .black)) s' := by
  cases ctx with
  | top =>
    have hroot : ptrOf t = s.root := h.root.symm
    rw [hroot]
    exact h.deleteFixup_root (ne_nil_of_red ht) hfuel
  | step d c a x up =>
    obtain ⟨k, rfl⟩ : ∃ k, fuel = k + 1 := ⟨fuel - 1, by omega⟩
    obtain ⟨s', hs', h'⟩ := h.paintBlack (ne_nil_of_red ht)
    refine ⟨s', ?_, h'⟩
    have hlacks : s.lacksBlack (ptrOf t) = .ok false := by
      rw [Holds.lacksBlack h, ht]
      rfl
    rw [RbTree.deleteFixup, hlacks]
    exact hs'

theorem Holds.settle_run (h : Holds e (up.plug (CTree.mk d c t a (CTree.mk d .black x b y))) s)
    (hnull : t = .nil → (e.mem .null).parent = a.ptr) (hfuel : 0 < fuel)
    {k : CTree Entry → CTree Entry}
    (hk : x.color = .black → y.color = .black → ∀ s1,
      Holds e (up.plug (CTree.mk d c t a (CTree.mk d .red x b y))) s1 →
        ∃ s', s1.deleteFixup fuel a.ptr = .ok s' ∧
          Holds e (k (CTree.mk d c t a (CTree.mk d .red x b y))) s') :
    ∃ s', (s.settle d (ptrOf t) b.ptr >>= fun next => next.1.deleteFixup fuel next.2) = .ok s' ∧
      Holds e (Lib.settle d c t a (CTree.mk d .black x b y) up k) s' := by
  rcases h.settle hnull with ⟨hblack, s1, hs1, h1⟩ | ⟨-, s1, t', hs1, h1, ht', heq⟩
  · rw [hs1, ok_bind, Lib.settle, view_mk]
    dsimp only
    rw [if_pos hblack]
    exact hk hblack.1 hblack.2 s1 h1
  · rw [hs1, ok_bind, heq]
    exact h1.deleteFixup_root ht' hfuel

theorem Holds.deleteFixup_pass (h : Holds e (up.plug (CTree.mk d c t a x)) s)
    (hnull : t = .nil → (e.mem .null).parent = a.ptr) (ht : t.color = .black) (hx : x ≠ .nil) :
    s.deleteFixup (fuel + 1) (ptrOf t) = (do
      let (s, w) ← s.blackSibling d (ptrOf t) (ptrOf x)
      s.settle d (ptrOf t) w >>= fun next => next.1.deleteFixup fuel next.2) := by
  rw [RbTree.deleteFixup, h.lacksBlack, ok_bind, decide_eq_true ht, if_pos rfl, RbTree.deletePass]
  simp only [RbTree.load_ptrOf, ok_bind, h.parent_near hnull, RbTree.load_ptr,
    h.sideOf_eq (.inr hx), h.sibling, bind_assoc]

/-- `rbtree_delete_fixup` repairs the tree over a node that lacks a black node. -/
theorem Holds.deleteFixup (h : Holds e (ctx.plug t) s) (hctx : RBCtx ctx .black (n + 1))
    (ht : Lacks t n)
    (hnull : t = .nil → ctx ≠ .top ∧ (e.mem .null).parent = parentOf e.above ctx)
    (hfuel : ctx.depth + 2 ≤ fuel) :
    ∃ s', s.deleteFixup fuel (ptrOf t) = .ok s' ∧ Holds e (deleteFix ctx t) s' := by
  induction ctx generalizing t n s fuel with
  | top =>
    have hroot : ptrOf t = s.root := h.root.symm
    rw [hroot]
    exact h.deleteFixup_root (fun hnil => (hnull hnil).1 rfl) (by omega)
  | step d c a w up ih =>
    by_cases hred : t.color = .red
    · rw [Lib.deleteFix, if_pos hred]
      exact h.deleteFixup_red hred (by omega)
    · rw [Lacks, if_neg hred] at ht
      have hnear : t = .nil → (e.mem .null).parent = a.ptr := fun hnil => (hnull hnil).2
      obtain ⟨k, rfl⟩ : ∃ k, fuel = k + 1 := ⟨fuel - 1, by omega⟩
      simp only [Ctx.depth] at hfuel
      have h : Holds e (up.plug (CTree.mk d c t a w)) s := h
      have hw : w ≠ .nil := hctx.sibling.ne_nil
      obtain ⟨cw, x, b, y, rfl⟩ := eq_mk d hw
      rw [h.deleteFixup_pass hnear ht.color_eq hw, ptrOf_mk, Lib.deleteFix, if_neg hred, view_mk]
      cases cw with
      | black =>
        rw [h.blackSibling_black, ok_bind]
        apply h.settle_run hnear (by omega)
        intro hx hy s1 h1
        have hs := hctx.sibling
        rw [color_mk] at hs
        obtain ⟨cx, cy, m, -, hm, hrbx, hrby⟩ := hs.of_mk_black
        cases hm
        rw [← hrbx.color_eq, hx] at hrbx
        rw [← hrby.color_eq, hy] at hrby
        obtain ⟨m, hup, hlacks⟩ := hctx.lacks ht (.mk_red hrbx hrby)
        rw [← ptrOf_mk (d := d) (c := c) (x := t) (a := a) (y := CTree.mk d .red x b y)]
        exact ih h1 hup hlacks (fun hnil => absurd hnil (mk_ne_nil _ _ _ _ _)) (by omega)
      | red =>
        obtain ⟨rfl, hrbx, hrby, hup⟩ := hctx.of_red_sibling
        obtain ⟨s1, hs1, h1⟩ := h.blackSibling hnear
        obtain ⟨cx, x', b', y', rfl⟩ := eq_mk d hrbx.ne_nil
        have hcx := hrbx.color_eq
        rw [color_mk] at hcx
        subst hcx
        rw [hs1, ok_bind, ptrOf_mk]
        apply h1.near.settle_run hnear (by omega)
        intro _ _ s2 h2
        rw [← ptrOf_mk (d := d) (c := .red) (x := t) (a := a) (y := CTree.mk d .red x' b' y')]
        exact h2.deleteFixup_red (color_mk ..) (by omega)

end

end TstMuduo.ConnHash

import Mathlib.Data.List.TakeWhile
import TstMuduo.Lib.CInt
import TstMuduo.Lib.Machine
import TstMuduo.Lib.SortedEntries

/-!
# The consistent hash (tstconnhash/ConsistentHash.cpp)

The ring `allNode` is a multimap from the keys of the virtual names of a node, and of its own
name, to its name. The virtual names are made by a `stringstream`, a new one for each name when a
node is added, one for all of them when it is deleted; extraction stops at white space.
-/

namespace TstMuduo.ConnHash
open TstMuduo.Lib

abbrev Name := List Char

abbrev Key := Fin (2 ^ 32)

/-! ### The stream -/

/- `isspace` in the classic locale. -/
def isSpace (c : Char) : Bool :=
  c == ' ' || c == '\t' || c == '\n' || c == '\x0b' || c == '\x0c' || c == '\r'

/-- A `stringstream`: what was not extracted yet, and whether no error bit is set. -/
structure StringStream where
  unread : List Char
  good : Bool
  deriving DecidableEq, Repr

namespace StringStream

def new : StringStream := ⟨[], true⟩

def insert (ss : StringStream) (text : List Char) : StringStream :=
  if ss.good then { ss with unread := ss.unread ++ text } else ss

/- `ss >> word`: leading white space is skipped, and `eofbit` is set if the word ends with the
stream. -/
def extract (ss : StringStream) (word : Name) : Name × StringStream :=
  if ss.good then
    let rest := ss.unread.dropWhile isSpace
    let unread := rest.dropWhile fun c => !isSpace c
    (rest.takeWhile fun c => !isSpace c, ⟨unread, !unread.isEmpty⟩)
  else (word, ss)

def clear (ss : StringStream) : StringStream := { ss with good := true }

end StringStream

/- `nodeName << "##" << i + 1`. -/
def suffixed (nodeName : Name) (i : Nat) : List Char :=
  nodeName ++ ('#' :: '#' :: Nat.toDigits 10 (i + 1))

/-! ### Adding and deleting -/

structure Node where
  nodeName : Name
  vNodeNum : Int
  deriving DecidableEq, Repr

structure ConsistentHash where
  allNode : List (Key × Name)
  realNode : List Node
  deriving DecidableEq, Repr

namespace ConsistentHash

variable (hash : Name → Key)

def empty : ConsistentHash := ⟨[], []⟩

/- The name in a pass of `addVirNode`, whose stream is new. -/
def virName (nodeName : Name) (i : Nat) : Name :=
  ((StringStream.new.insert (suffixed nodeName i)).extract []).1

/- The loop of `addVirNode` (`ConsistentHash.cpp:43`). -/
def addVirLoop (nodeName : Name) (vNum : Nat) (allNode : List (Key × Name)) :
    List (Key × Name) :=
  (List.range vNum).foldl
    (fun allNode i => insertEntry (hash (virName nodeName i), nodeName) allNode) allNode

/- `ConsistentHash::addVirNode` (`ConsistentHash.cpp:29`). -/
def addVirNode (s : ConsistentHash) (node : Node) : Bool × ConsistentHash :=
  if node.vNodeNum < 1 then (false, s)
  else (true, { s with
    allNode := addVirLoop hash node.nodeName node.vNodeNum.toNat s.allNode })

/- `ConsistentHash::addRealNode` (`ConsistentHash.cpp:18`). -/
def addRealNode (s : ConsistentHash) (node : Node) : Bool × ConsistentHash :=
  (true, {
    allNode := insertEntry (hash node.nodeName, node.nodeName) s.allNode
    realNode := s.realNode ++ [node] })

/- `ConsistentHash::addNode` (`ConsistentHash.cpp:57`). -/
def addNode (s : ConsistentHash) (nodeName : Name) (vNum : Int) : Bool × ConsistentHash :=
  let pNewNode : Node := ⟨nodeName, vNum⟩
  match addVirNode hash s pNewNode with
  | (false, s) => (false, s)
  | (true, s) => addRealNode hash s pNewNode

/- The loop of `delRealNode` (`ConsistentHash.cpp:89`) from `delIt` on; `count--` may overflow. -/
def delRealLoop (nodeName : Name) : Int → List (Key × Name) → Option (List (Key × Name))
  | _, [] => some []
  | count, e :: delIt => do
    let next ← int32 (count - 1)
    if count = 0 then return e :: delIt
    if e.2 = nodeName then return delIt
    return e :: (← delRealLoop nodeName next delIt)

/- The inner loop of `delVirNode` (`ConsistentHash.cpp:115`). -/
def delVirEntries (nodeName : Name) : Int → List (Key × Name) → Option (List (Key × Name))
  | _, [] => some []
  | count, e :: delIt => do
    let next ← int32 (count - 1)
    if count = 0 then return e :: delIt
    if e.2 = nodeName then delVirEntries nodeName next delIt
    else return e :: (← delVirEntries nodeName next delIt)

/- A loop on the entries from `allNode.find(key)` on, with `int count = allNode.count(key)`. -/
def fromFind (loop : Int → List (Key × Name) → Option (List (Key × Name))) (key : Key)
    (allNode : List (Key × Name)) : Option (List (Key × Name)) := do
  let count := castInt32 (allNode.countP fun e => e.1 = key)
  let delIt := allNode.dropWhile fun e => e.1 ≠ key
  return allNode.takeWhile (fun e => e.1 ≠ key) ++ (← loop count delIt)

/- `ConsistentHash::delRealNode` (`ConsistentHash.cpp:79`). -/
def delRealNode (node : Node) (allNode : List (Key × Name)) : Option (List (Key × Name)) :=
  fromFind (delRealLoop node.nodeName) (hash node.nodeName) allNode

/- The loop of `delVirNode` (`ConsistentHash.cpp:107`) over the values of `i`. -/
def delVirLoop (nodeName : Name) : List Nat → StringStream → Name → List (Key × Name) →
    Option (List (Key × Name))
  | [], _, _, allNode => some allNode
  | i :: is, ss, virName, allNode => do
    let ss := ss.insert (suffixed nodeName i)
    let (virName, ss) := ss.extract virName
    let ss := ss.clear
    let allNode ← fromFind (delVirEntries nodeName) (hash virName) allNode
    delVirLoop nodeName is ss virName allNode

/- `ConsistentHash::delVirNode` (`ConsistentHash.cpp:98`). -/
def delVirNode (node : Node) (allNode : List (Key × Name)) : Option (List (Key × Name)) :=
  delVirLoop hash node.nodeName (List.range node.vNodeNum.toNat) StringStream.new [] allNode

/- `ConsistentHash::findRealNode` (`ConsistentHash.cpp:125`) gives the node, which it has taken
out of `realNode`. -/
def findRealNode (s : ConsistentHash) (nodeName : Name) : Option (Node × ConsistentHash) :=
  (s.realNode.find? fun node => node.nodeName = nodeName).map fun node =>
    (node, { s with realNode := s.realNode.eraseP fun node => node.nodeName = nodeName })

/- `ConsistentHash::delNode` (`ConsistentHash.cpp:67`). -/
def delNode (s : ConsistentHash) (nodeName : Name) : Option (Bool × ConsistentHash) :=
  match s.findRealNode nodeName with
  | none => some (false, s)
  | some (node, s) => do
    let allNode ← delRealNode hash node s.allNode
    let allNode ← delVirNode hash node allNode
    return (true, { s with allNode := allNode })

/- `ConsistentHash::getServerName` (`ConsistentHash.cpp:140`): what `lower_bound` finds is only
printed. `allNode.begin()` is not to be used on an empty ring. -/
def getServerName (s : ConsistentHash) (cliName : Name) : Option Name :=
  let serName : Name := []
  let cliKey := hash cliName
  match s.allNode.find? fun e => decide (cliKey ≤ e.1) with
  | some _ => some serName
  | none => s.allNode.head?.map Prod.snd

/-! ### Sequences of calls -/

inductive Act where
  | addNode (nodeName : Name) (vNum : Int)
  | delNode (nodeName : Name)
  deriving DecidableEq, Repr

def Act.nodeName : Act → Name
  | .addNode nodeName _ => nodeName
  | .delNode nodeName => nodeName

inductive RingFault where
  | overflow
  deriving DecidableEq, Repr

def step (s : ConsistentHash) : Act → Except RingFault ConsistentHash
  | .addNode nodeName vNum => .ok (s.addNode hash nodeName vNum).2
  | .delNode nodeName =>
    match s.delNode hash nodeName with
    | none => .error .overflow
    | some (_, t) => .ok t

def machine : Machine ConsistentHash Act RingFault where
  init := empty
  step s a := some (s.step hash a)

/-! ### The virtual names -/

/- The names in the passes of `delVirNode`, whose stream keeps what is behind white space. -/
def delVirNames (nodeName : Name) : List Nat → StringStream → Name → List Name
  | [], _, _ => []
  | i :: is, ss, virName =>
    let (virName, ss) := (ss.insert (suffixed nodeName i)).extract virName
    virName :: delVirNames nodeName is ss.clear virName

variable {hash}

theorem suffix_not_space (i : Nat) :
    ∀ c ∈ '#' :: '#' :: Nat.toDigits 10 (i + 1), isSpace c = false := by
  intro c hc
  have hdigit : c = '#' ∨ c.isDigit = true := by
    rcases List.mem_cons.mp hc with rfl | hc
    · exact .inl rfl
    · rcases List.mem_cons.mp hc with rfl | hc
      · exact .inl rfl
      · exact .inr (Nat.isDigit_of_mem_toDigits (by decide) (by decide) hc)
  by_contra hspace
  have hcases := Bool.eq_true_of_not_eq_false hspace
  simp only [isSpace, Bool.or_eq_true, beq_iff_eq] at hcases
  rcases hcases with ((((rfl | rfl) | rfl) | rfl) | rfl) | rfl
  all_goals exact absurd hdigit (by decide)

theorem dropWhile_suffixed (nodeName : Name) (i : Nat) :
    (suffixed nodeName i).dropWhile isSpace =
      nodeName.dropWhile isSpace ++ ('#' :: '#' :: Nat.toDigits 10 (i + 1)) := by
  rw [suffixed, List.dropWhile_append]
  split
  next hempty =>
    rw [List.isEmpty_iff.mp hempty, List.nil_append, List.dropWhile_cons_of_neg (by decide)]
  · rfl

theorem virName_eq (nodeName : Name) (i : Nat) :
    virName nodeName i = (nodeName.dropWhile isSpace ++
      ('#' :: '#' :: Nat.toDigits 10 (i + 1))).takeWhile fun c => !isSpace c := by
  rw [← dropWhile_suffixed]
  rfl

theorem delVirNames_cons (nodeName : Name) (i : Nat) (is : List Nat) (word : Name) :
    delVirNames nodeName (i :: is) StringStream.new word =
      virName nodeName i :: delVirNames nodeName is
        ((StringStream.new.insert (suffixed nodeName i)).extract word).2.clear
        (virName nodeName i) := rfl

theorem delVirNames_eq_map {nodeName : Name}
    (h : ∀ c ∈ nodeName.dropWhile isSpace, isSpace c = false) (is : List Nat) (word : Name) :
    delVirNames nodeName is StringStream.new word = is.map (virName nodeName) := by
  induction is generalizing word with
  | nil => rfl
  | cons i is ih =>
    have hall : ∀ c ∈ (suffixed nodeName i).dropWhile isSpace, (!isSpace c) = true := by
      rw [dropWhile_suffixed]
      intro c hc
      rcases List.mem_append.mp hc with hc | hc
      · rw [h c hc]
        rfl
      · rw [suffix_not_space i c hc]
        rfl
    have hrest : ((suffixed nodeName i).dropWhile isSpace).dropWhile (fun c => !isSpace c) = [] :=
      List.dropWhile_eq_nil_iff.mpr hall
    have hextract : ((StringStream.new.insert (suffixed nodeName i)).extract word).2.clear =
        StringStream.new := by
      simp only [StringStream.extract, StringStream.insert, StringStream.new, if_pos,
        List.nil_append, hrest]
      rfl
    rw [delVirNames_cons, hextract, ih, List.map_cons]

theorem virName_mem_delVirNames (nodeName : Name) {i n : Nat} (hi : i < n) (word : Name) :
    virName nodeName i ∈ delVirNames nodeName (List.range n) StringStream.new word := by
  by_cases h : ∀ c ∈ nodeName.dropWhile isSpace, isSpace c = false
  · rw [delVirNames_eq_map h]
    exact List.mem_map_of_mem (List.mem_range.mpr hi)
  · -- All virtual names are the first word of the node's name.
    have hword : ∀ j, virName nodeName j =
        (nodeName.dropWhile isSpace).takeWhile fun c => !isSpace c := by
      intro j
      rw [virName_eq, List.takeWhile_append, if_neg]
      intro hlen
      apply h
      intro c hc
      have htake := (List.takeWhile_sublist (fun c => !isSpace c)).eq_of_length hlen
      rw [← htake] at hc
      simpa using List.mem_takeWhile_imp hc
    obtain ⟨m, rfl⟩ : ∃ m, n = m + 1 := ⟨n - 1, by omega⟩
    rw [List.range_succ_eq_map, delVirNames_cons, hword i, ← hword 0]
    exact List.mem_cons_self

/-! ### What the loops erase -/

variable {l below equal above : List (Key × Name)} {k : Key} {nodeName : Name}

theorem delVirEntries_eq (nodeName : Name) (equal above : List (Key × Name))
    (hlen : equal.length < 2 ^ 31) :
    delVirEntries nodeName equal.length (equal ++ above) =
      some (equal.filter (fun e => e.2 ≠ nodeName) ++ above) := by
  induction equal with
  | nil =>
    cases above with
    | nil => rfl
    | cons e above => rfl
  | cons e equal ih =>
    rw [List.length_cons] at hlen
    have hnext : ((e :: equal).length : Int) - 1 = equal.length := by
      rw [List.length_cons]
      omega
    have hne : ((e :: equal).length : Int) ≠ 0 := by
      rw [List.length_cons]
      omega
    rw [List.cons_append, delVirEntries]
    refine bind_of (by rw [hnext]; exact int32_ok (by omega)) ?_
    rw [if_neg hne, ih (by omega), List.filter_cons]
    by_cases hname : e.2 = nodeName
    · rw [if_pos hname, if_neg (by simp [hname])]
    · rw [if_neg hname, if_pos (by simp [hname])]
      rfl

theorem delRealLoop_eq (nodeName : Name) (equal above : List (Key × Name))
    (hequal : ∀ e ∈ equal, e.1 = k) (hlen : equal.length < 2 ^ 31) :
    delRealLoop nodeName equal.length (equal ++ above) =
      some (equal.erase (k, nodeName) ++ above) := by
  induction equal with
  | nil =>
    cases above with
    | nil => rfl
    | cons e above => rfl
  | cons e equal ih =>
    rw [List.length_cons] at hlen
    have hnext : ((e :: equal).length : Int) - 1 = equal.length := by
      rw [List.length_cons]
      omega
    have hne : ((e :: equal).length : Int) ≠ 0 := by
      rw [List.length_cons]
      omega
    obtain ⟨hkey, hrest⟩ := List.forall_mem_cons.mp hequal
    rw [List.cons_append, delRealLoop]
    refine bind_of (by rw [hnext]; exact int32_ok (by omega)) ?_
    rw [if_neg hne, ih hrest (by omega)]
    by_cases hname : e.2 = nodeName
    · have he : e = (k, nodeName) := Prod.ext hkey hname
      rw [if_pos hname, he, List.erase_cons_head]
      rfl
    · have he : ¬ (e == (k, nodeName)) = true := by
        intro hbeq
        exact hname (congrArg Prod.snd (eq_of_beq hbeq))
      rw [if_neg hname, List.erase_cons_tail he]
      rfl

theorem fromFind_split {loop : Int → List (Key × Name) → Option (List (Key × Name))}
    (hbelow : ∀ e ∈ below, e.1 < k) (hequal : ∀ e ∈ equal, e.1 = k)
    (habove : ∀ e ∈ above, k < e.1) (hlen : equal.length < 2 ^ 31)
    {res : List (Key × Name)} (hend : loop 0 [] = some []) (hres : equal = [] → res = [])
    (hloop : loop equal.length (equal ++ above) = some (res ++ above)) :
    fromFind loop k (below ++ (equal ++ above)) = some (below ++ (res ++ above)) := by
  have hb : ∀ e ∈ below, decide (e.1 ≠ k) = true := by
    intro e he
    exact decide_eq_true (ne_of_lt (hbelow e he))
  have ha : ∀ e ∈ above, decide (e.1 ≠ k) = true := by
    intro e he
    exact decide_eq_true (ne_of_gt (habove e he))
  have hcount : (below ++ (equal ++ above)).countP (fun e => e.1 = k) = equal.length := by
    rw [List.countP_append, List.countP_append,
      List.countP_eq_zero.mpr (fun e he => by simpa using hb e he),
      List.countP_eq_length.mpr (fun e he => decide_eq_true (hequal e he)),
      List.countP_eq_zero.mpr (fun e he => by simpa using ha e he)]
    omega
  have hcast : castInt32 (equal.length : Nat) = equal.length := castInt32_ok (by omega)
  rw [fromFind, hcount, hcast, List.takeWhile_append_of_pos hb, List.dropWhile_append_of_pos hb]
  cases equal with
  | nil =>
    rw [List.nil_append, List.takeWhile_eq_self_iff.mpr ha, List.dropWhile_eq_nil_iff.mpr ha,
      List.length_nil, hres rfl]
    simp only [Nat.cast_zero, hend]
    simp
  | cons e equal =>
    have hkey : e.1 = k := hequal e List.mem_cons_self
    rw [List.cons_append, List.takeWhile_cons_of_neg (by simp [hkey]),
      List.dropWhile_cons_of_neg (by simp [hkey]), ← List.cons_append, hloop]
    simp

theorem fromFind_delVirEntries (hl : SortedByKey l) (hlen : l.countP (fun e => e.1 = k) < 2 ^ 31)
    (nodeName : Name) :
    fromFind (delVirEntries nodeName) k l =
      some (l.filter fun e => ¬ (e.1 = k ∧ e.2 = nodeName)) := by
  obtain ⟨below, equal, above, rfl, hbelow, hequal, habove⟩ := hl.split k
  have hle : equal.length < 2 ^ 31 := by
    rw [List.countP_append, List.countP_append] at hlen
    have heq := List.countP_eq_length.mpr (fun e he => decide_eq_true (hequal e he))
    omega
  rw [fromFind_split hbelow hequal habove hle rfl
    (fun h => by rw [h]; rfl) (delVirEntries_eq nodeName equal above hle)]
  have hb : below.filter (fun e => ¬ (e.1 = k ∧ e.2 = nodeName)) = below :=
    List.filter_eq_self.mpr fun e he => by simp [ne_of_lt (hbelow e he)]
  have ha : above.filter (fun e => ¬ (e.1 = k ∧ e.2 = nodeName)) = above :=
    List.filter_eq_self.mpr fun e he => by simp [ne_of_gt (habove e he)]
  have he : equal.filter (fun e => ¬ (e.1 = k ∧ e.2 = nodeName)) =
      equal.filter fun e => e.2 ≠ nodeName :=
    List.filter_congr fun e he => by simp [hequal e he]
  rw [List.filter_append, List.filter_append, hb, he, ha]

theorem fromFind_delRealLoop (hl : SortedByKey l) (hlen : l.countP (fun e => e.1 = k) < 2 ^ 31)
    (nodeName : Name) :
    fromFind (delRealLoop nodeName) k l = some (l.erase (k, nodeName)) := by
  obtain ⟨below, equal, above, rfl, hbelow, hequal, habove⟩ := hl.split k
  have hle : equal.length < 2 ^ 31 := by
    rw [List.countP_append, List.countP_append] at hlen
    have heq := List.countP_eq_length.mpr (fun e he => decide_eq_true (hequal e he))
    omega
  rw [fromFind_split hbelow hequal habove hle rfl
    (fun h => by rw [h]; rfl) (delRealLoop_eq nodeName equal above hequal hle)]
  have hnot : (k, nodeName) ∉ below := fun h => lt_irrefl k (hbelow _ h)
  have hnot' : (k, nodeName) ∉ above := fun h => lt_irrefl k (habove _ h)
  rw [List.erase_append, if_neg hnot, List.erase_append]
  split
  · rfl
  next hmem => rw [List.erase_of_not_mem hmem, List.erase_of_not_mem hnot']

variable (hash nodeName) in
theorem delVirLoop_eq (is : List Nat) (ss : StringStream) (word : Name) (hl : SortedByKey l)
    (hlen : ∀ name ∈ delVirNames nodeName is ss word,
      l.countP (fun e => e.1 = hash name) < 2 ^ 31) :
    delVirLoop hash nodeName is ss word l = some (l.filter fun e =>
      ¬ (e.1 ∈ (delVirNames nodeName is ss word).map hash ∧ e.2 = nodeName)) := by
  induction is generalizing ss word l with
  | nil =>
    rw [List.filter_eq_self.mpr (fun e _ => by simp [delVirNames])]
    rfl
  | cons i is ih =>
    simp only [delVirNames, List.forall_mem_cons] at hlen
    have hpass : delVirLoop hash nodeName (i :: is) ss word l =
        (fromFind (delVirEntries nodeName)
          (hash ((ss.insert (suffixed nodeName i)).extract word).1) l).bind fun l =>
            delVirLoop hash nodeName is ((ss.insert (suffixed nodeName i)).extract word).2.clear
              ((ss.insert (suffixed nodeName i)).extract word).1 l := rfl
    rw [hpass, fromFind_delVirEntries hl hlen.1 nodeName, Option.bind_some,
      ih _ _ (List.Pairwise.sublist List.filter_sublist hl)
      (fun name hname => Nat.lt_of_le_of_lt List.filter_sublist.countP_le (hlen.2 name hname)),
      List.filter_filter]
    congr 2
    funext e
    rw [Bool.eq_iff_iff]
    simp only [delVirNames, List.map_cons, List.mem_cons, Bool.and_eq_true, decide_eq_true_eq]
    tauto

/-! ### What a call does -/

variable (hash) in
def entriesOf (node : Node) : List (Key × Name) :=
  (List.range node.vNodeNum.toNat).map (fun i => (hash (virName node.nodeName i), node.nodeName)) ++
    [(hash node.nodeName, node.nodeName)]

variable (hash) in
/-- The keys under which `delNode` looks for the entries of a node. -/
def lookups (node : Node) : List Key :=
  hash node.nodeName ::
    (delVirNames node.nodeName (List.range node.vNodeNum.toNat) StringStream.new []).map hash

variable (hash) in
/-- The number of the entries under each key that is looked up fits an `int`. -/
def Counted (s : ConsistentHash) : Act → Prop
  | .addNode _ _ => True
  | .delNode nodeName => ∀ node ∈ s.realNode.find? fun node => node.nodeName = nodeName,
      ∀ key ∈ lookups hash node, s.allNode.countP (fun e => e.1 = key) < 2 ^ 31

def others (nodeName : Name) (allNode : List (Key × Name)) : List (Key × Name) :=
  allNode.filter fun e => e.2 ≠ nodeName

variable {s t : ConsistentHash} {node : Node}

theorem snd_of_mem_entriesOf {e : Key × Name} (h : e ∈ entriesOf hash node) :
    e.2 = node.nodeName := by
  rcases List.mem_append.mp h with hvir | hreal
  · obtain ⟨i, -, rfl⟩ := List.mem_map.mp hvir
    rfl
  · rw [List.mem_singleton.mp hreal]

theorem foldl_insertEntry (es l : List (Key × Name)) (hl : SortedByKey l) :
    (es.foldl (fun l e => insertEntry e l) l).Perm (l ++ es) ∧
      SortedByKey (es.foldl (fun l e => insertEntry e l) l) := by
  induction es generalizing l with
  | nil =>
    rw [List.append_nil]
    exact ⟨List.Perm.refl _, hl⟩
  | cons e es ih =>
    obtain ⟨hperm, hsorted⟩ := ih (insertEntry e l) (hl.insert e)
    refine ⟨?_, hsorted⟩
    calc (es.foldl (fun l e => insertEntry e l) (insertEntry e l)).Perm (insertEntry e l ++ es) :=
          hperm
      _ |>.Perm (e :: l ++ es) := (insertEntry_perm e l).append_right es
      _ |>.Perm (l ++ e :: es) := List.perm_middle.symm

theorem others_foldl_insertEntry (es l : List (Key × Name)) (hes : ∀ e ∈ es, e.2 = nodeName) :
    others nodeName (es.foldl (fun l e => insertEntry e l) l) = others nodeName l := by
  induction es generalizing l with
  | nil => rfl
  | cons e es ih =>
    obtain ⟨he, hrest⟩ := List.forall_mem_cons.mp hes
    rw [List.foldl_cons, ih _ hrest]
    exact filter_insertEntry (by simp [he]) l

theorem addNode_eq (s : ConsistentHash) (nodeName : Name) {vNum : Int} (hv : 1 ≤ vNum) :
    s.addNode hash nodeName vNum = (true, {
      allNode := (entriesOf hash ⟨nodeName, vNum⟩).foldl (fun l e => insertEntry e l) s.allNode
      realNode := s.realNode ++ [⟨nodeName, vNum⟩] }) := by
  simp only [addNode, addVirNode, if_neg (Int.not_lt.mpr hv), addRealNode, addVirLoop, entriesOf,
    List.foldl_append, List.foldl_map, List.foldl_cons, List.foldl_nil]

theorem addNode_fails (s : ConsistentHash) (nodeName : Name) {vNum : Int} (hv : vNum < 1) :
    s.addNode hash nodeName vNum = (false, s) := by
  simp only [addNode, addVirNode, if_pos hv]

theorem delNode_eq (hs : SortedByKey s.allNode) (hc : s.Counted hash (.delNode nodeName))
    (hnode : s.realNode.find? (fun node => node.nodeName = nodeName) = some node) :
    s.delNode hash nodeName = some (true, {
      allNode := (s.allNode.erase (hash nodeName, nodeName)).filter fun e =>
        ¬ (e.1 ∈ (delVirNames nodeName (List.range node.vNodeNum.toNat) StringStream.new []).map
          hash ∧ e.2 = nodeName)
      realNode := s.realNode.eraseP fun node => node.nodeName = nodeName }) := by
  have hname : node.nodeName = nodeName := by simpa using List.find?_some hnode
  have hcount := hc node hnode
  rw [lookups, List.forall_mem_cons, hname] at hcount
  obtain ⟨hreal, hvir⟩ := hcount
  have herase : (s.allNode.erase (hash nodeName, nodeName)).Sublist s.allNode :=
    List.erase_sublist
  have hdel : delRealNode hash node s.allNode =
      some (s.allNode.erase (hash nodeName, nodeName)) := by
    rw [delRealNode, hname]
    exact fromFind_delRealLoop hs hreal nodeName
  have hloop := delVirLoop_eq hash nodeName
    (List.range node.vNodeNum.toNat) StringStream.new [] (List.Pairwise.sublist herase hs) (by
      intro name hmem
      exact Nat.lt_of_le_of_lt herase.countP_le (hvir _ (List.mem_map_of_mem hmem)))
  simp only [delNode, findRealNode, hnode, Option.map_some, hdel, delVirNode, hname, hloop,
    Option.bind_eq_bind, Option.bind_some, Option.pure_def]

theorem delNode_fails
    (hnode : s.realNode.find? (fun node => node.nodeName = nodeName) = none) :
    s.delNode hash nodeName = some (false, s) := by
  simp only [delNode, findRealNode, hnode, Option.map_none]

/-! ### The entries of the ring -/

variable (hash) in
/-- The ring holds no more than the entries of the nodes. -/
structure Covered (s : ConsistentHash) : Prop where
  sorted : SortedByKey s.allNode
  count_le : ∀ e, s.allNode.count e ≤ (s.realNode.flatMap (entriesOf hash)).count e

variable (hash) in
/-- The ring holds the entries of the nodes and nothing else. -/
def Membership (s : ConsistentHash) : Prop :=
  s.allNode.Perm (s.realNode.flatMap (entriesOf hash))

def NotAdded (s : ConsistentHash) : Act → Prop
  | .addNode nodeName _ => nodeName ∉ s.realNode.map Node.nodeName
  | .delNode _ => True

theorem find?_split
    (hnode : s.realNode.find? (fun node => node.nodeName = nodeName) = some node) :
    node.nodeName = nodeName ∧ ∃ before after, s.realNode = before ++ node :: after ∧
      s.realNode.eraseP (fun node => node.nodeName = nodeName) = before ++ after ∧
      ∀ m ∈ before, m.nodeName ≠ nodeName := by
  obtain ⟨hname, before, after, hsplit, hbefore⟩ := List.find?_eq_some_iff_append.mp hnode
  have hnot : ∀ m ∈ before, ¬ decide (m.nodeName = nodeName) = true := by
    intro m hm
    simpa using hbefore m hm
  refine ⟨of_decide_eq_true hname, before, after, hsplit, ?_, fun m hm => ?_⟩
  · rw [hsplit, List.eraseP_append_right _ hnot, List.eraseP_cons_of_pos (by exact hname)]
  · simpa using hnot m hm

theorem count_entriesOf {e : Key × Name}
    (h : ¬ (e.1 ∈ (delVirNames node.nodeName (List.range node.vNodeNum.toNat)
      StringStream.new []).map hash ∧ e.2 = node.nodeName)) :
    (entriesOf hash node).count e = [(hash node.nodeName, node.nodeName)].count e := by
  rw [entriesOf, List.count_append, List.count_eq_zero.mpr, Nat.zero_add]
  intro hmem
  obtain ⟨i, hi, rfl⟩ := List.mem_map.mp hmem
  apply h
  refine ⟨List.mem_map_of_mem ?_, rfl⟩
  exact virName_mem_delVirNames _ (List.mem_range.mp hi) []

theorem count_delNode (l : List (Key × Name)) (node : Node) (e : Key × Name) :
    ((l.erase (hash node.nodeName, node.nodeName)).filter fun e =>
        ¬ (e.1 ∈ (delVirNames node.nodeName (List.range node.vNodeNum.toNat)
          StringStream.new []).map hash ∧ e.2 = node.nodeName)).count e =
      if e.1 ∈ (delVirNames node.nodeName (List.range node.vNodeNum.toNat)
          StringStream.new []).map hash ∧ e.2 = node.nodeName then 0
      else l.count e - (entriesOf hash node).count e := by
  split
  next h =>
    apply List.count_eq_zero.mpr
    intro hmem
    exact of_decide_eq_true (List.mem_filter.mp hmem).2 h
  next h =>
    rw [List.count_filter (by exact decide_eq_true h), List.count_erase, count_entriesOf h,
      List.count_singleton]

variable (hash) in
theorem count_flatMap_eraseP
    (hnode : s.realNode.find? (fun node => node.nodeName = nodeName) = some node)
    (e : Key × Name) :
    (s.realNode.flatMap (entriesOf hash)).count e = (entriesOf hash node).count e +
      ((s.realNode.eraseP fun node => node.nodeName = nodeName).flatMap
        (entriesOf hash)).count e := by
  obtain ⟨-, before, after, hsplit, herase, -⟩ := find?_split hnode
  rw [herase, hsplit]
  simp only [List.flatMap_append, List.flatMap_cons, List.count_append]
  omega

theorem others_delNode (l : List (Key × Name)) (k : Key) (nodeName : Name) (keys : List Key) :
    others nodeName ((l.erase (k, nodeName)).filter fun e => ¬ (e.1 ∈ keys ∧ e.2 = nodeName)) =
      others nodeName l := by
  rw [others, others, List.filter_filter]
  have hand : ∀ e : Key × Name, (decide (e.2 ≠ nodeName) &&
      decide (¬ (e.1 ∈ keys ∧ e.2 = nodeName))) = decide (e.2 ≠ nodeName) := by
    intro e
    rw [Bool.eq_iff_iff]
    simp only [Bool.and_eq_true, decide_eq_true_eq]
    tauto
  simp only [hand]
  induction l with
  | nil => rfl
  | cons d ds ih =>
    rw [List.erase_cons]
    split
    next hd =>
      rw [eq_of_beq hd, List.filter_cons_of_neg (by simp)]
    · rw [List.filter_cons, List.filter_cons, ih]

variable (hash) in
theorem step_addNode (s : ConsistentHash) (nodeName : Name) {vNum : Int} (hv : 1 ≤ vNum) :
    s.step hash (.addNode nodeName vNum) = .ok {
      allNode := (entriesOf hash ⟨nodeName, vNum⟩).foldl (fun l e => insertEntry e l) s.allNode
      realNode := s.realNode ++ [⟨nodeName, vNum⟩] } := by
  rw [step, addNode_eq s nodeName hv]

variable (hash) in
theorem step_addNode_perm (nodeName : Name) {vNum : Int} (hv : 1 ≤ vNum)
    (hs : SortedByKey s.allNode) :
    ∃ t, s.step hash (.addNode nodeName vNum) = .ok t ∧
      t.realNode = s.realNode ++ [⟨nodeName, vNum⟩] ∧
      t.allNode.Perm (s.allNode ++ entriesOf hash ⟨nodeName, vNum⟩) ∧ SortedByKey t.allNode := by
  obtain ⟨hperm, hsorted⟩ := foldl_insertEntry (entriesOf hash ⟨nodeName, vNum⟩) s.allNode hs
  exact ⟨_, step_addNode hash s nodeName hv, rfl, hperm, hsorted⟩

theorem step_spec (hs : s.Covered hash) (a : Act) (hc : s.Counted hash a) :
    ∃ t, s.step hash a = .ok t ∧ t.Covered hash ∧
      others a.nodeName t.allNode = others a.nodeName s.allNode := by
  cases a with
  | addNode nodeName vNum =>
    by_cases hv : 1 ≤ vNum
    · obtain ⟨hperm, hsorted⟩ :=
        foldl_insertEntry (entriesOf hash ⟨nodeName, vNum⟩) s.allNode hs.sorted
      refine ⟨_, step_addNode hash s nodeName hv, ⟨hsorted, ?_⟩, ?_⟩
      · intro e
        have hle := hs.count_le e
        rw [hperm.count_eq, List.flatMap_append, List.flatMap_singleton, List.count_append,
          List.count_append]
        omega
      · exact others_foldl_insertEntry _ _ fun e he => snd_of_mem_entriesOf he
    · exact ⟨s, by rw [step, addNode_fails s nodeName (by omega)], hs, rfl⟩
  | delNode nodeName =>
    cases hnode : s.realNode.find? (fun node => node.nodeName = nodeName) with
    | none => exact ⟨s, by rw [step, delNode_fails hnode], hs, rfl⟩
    | some node =>
      have hdel := delNode_eq hs.sorted hc hnode
      obtain ⟨rfl, -⟩ := find?_split hnode
      refine ⟨_, by rw [step, hdel], ⟨?_, ?_⟩, others_delNode _ _ _ _⟩
      · exact List.Pairwise.sublist (List.filter_sublist.trans List.erase_sublist) hs.sorted
      · intro e
        have hle := hs.count_le e
        have hsum := count_flatMap_eraseP hash hnode e
        rw [count_delNode]
        split
        · exact Nat.zero_le _
        · dsimp only
          omega

theorem covered_empty : empty.Covered hash :=
  ⟨List.Pairwise.nil, fun _ => Nat.le_refl _⟩

/-! ### Membership -/

/-- The ring is exact, and no two nodes have the same name. -/
structure Exact (hash : Name → Key) (s : ConsistentHash) : Prop extends Covered hash s where
  members : s.Membership hash
  nodup : (s.realNode.map Node.nodeName).Nodup

theorem Exact.step (hs : Exact hash s) (a : Act) (hnew : s.NotAdded a)
    (hc : s.Counted hash a) : ∃ t, s.step hash a = .ok t ∧ Exact hash t := by
  obtain ⟨t, ht, hcovered, -⟩ := step_spec hs.toCovered a hc
  refine ⟨t, ht, ?_⟩
  cases a with
  | addNode nodeName vNum =>
    by_cases hv : 1 ≤ vNum
    · obtain ⟨hperm, -⟩ :=
        foldl_insertEntry (entriesOf hash ⟨nodeName, vNum⟩) s.allNode hs.sorted
      rw [step_addNode hash s nodeName hv] at ht
      cases ht
      refine ⟨hcovered, ?_, ?_⟩
      · rw [Membership, List.flatMap_append, List.flatMap_singleton]
        exact hperm.trans (hs.members.append_right _)
      · rw [List.map_append, List.nodup_append]
        refine ⟨hs.nodup, List.nodup_singleton _, ?_⟩
        intro m hm n hn heq
        rw [heq, List.mem_singleton.mp hn] at hm
        exact hnew hm
    · rw [ConsistentHash.step, addNode_fails s nodeName (by omega)] at ht
      cases ht
      exact hs
  | delNode nodeName =>
    cases hnode : s.realNode.find? (fun node => node.nodeName = nodeName) with
    | none =>
      rw [ConsistentHash.step, delNode_fails hnode] at ht
      cases ht
      exact hs
    | some node =>
      rw [ConsistentHash.step, delNode_eq hs.sorted hc hnode] at ht
      cases ht
      obtain ⟨rfl, before, after, hsplit, herase, hbefore⟩ := find?_split hnode
      have hnodup := hs.nodup
      rw [hsplit, List.map_append, List.map_cons] at hnodup
      refine ⟨hcovered, ?_, ?_⟩
      · rw [Membership, List.perm_iff_count]
        intro e
        have hsum := count_flatMap_eraseP hash hnode e
        rw [← hs.members.count_eq] at hsum
        rw [count_delNode]
        split
        next hdel =>
          -- No other node has this name.
          symm
          apply List.count_eq_zero.mpr
          rw [herase]
          intro hmem
          obtain ⟨m, hm, he⟩ := List.mem_flatMap.mp hmem
          have hname := (snd_of_mem_entriesOf he).symm.trans hdel.2
          rcases List.mem_append.mp hm with hm | hm
          · exact hbefore m hm hname
          · have hafter := (List.nodup_cons.mp (List.nodup_append.mp hnodup).2.1).1
            exact hafter (hname ▸ List.mem_map_of_mem hm)
        · dsimp only
          omega
      · rw [herase, List.map_append]
        exact hnodup.sublist ((List.sublist_cons_self _ _).append_left _)

theorem exact_empty : Exact hash empty :=
  ⟨covered_empty, List.Perm.refl _, List.nodup_nil⟩

theorem others_eq_self (hs : Exact hash s) (hnew : nodeName ∉ s.realNode.map Node.nodeName) :
    others nodeName s.allNode = s.allNode := by
  apply List.filter_eq_self.mpr
  intro e he
  apply decide_eq_true
  intro hname
  obtain ⟨m, hm, hmem⟩ := List.mem_flatMap.mp (hs.members.mem_iff.mp he)
  apply hnew
  rw [← hname, snd_of_mem_entriesOf hmem]
  exact List.mem_map_of_mem hm

theorem Exact.restore (hs : Exact hash s) {vNum : Int} (hv : 1 ≤ vNum)
    (hadd : nodeName ∉ s.realNode.map Node.nodeName)
    (hok : s.step hash (.addNode nodeName vNum) = .ok t)
    (hc : t.Counted hash (.delNode nodeName)) :
    ∃ u, t.delNode hash nodeName = some (true, u) ∧ u.allNode = s.allNode := by
  obtain ⟨t', ht', ht⟩ := hs.step (.addNode nodeName vNum) hadd trivial
  obtain ⟨t'', ht'', -, hothers⟩ := step_spec hs.toCovered (.addNode nodeName vNum) trivial
  cases hok.symm.trans ht'
  cases hok.symm.trans ht''
  have hreal : t.realNode = s.realNode ++ [⟨nodeName, vNum⟩] := by
    rw [step_addNode hash s nodeName hv] at hok
    rw [← Except.ok.inj hok]
  -- The node that was added is the only one with its name.
  have hbefore : ∀ m ∈ s.realNode, ¬ decide (m.nodeName = nodeName) = true := by
    intro m hm hname
    exact hadd (of_decide_eq_true hname ▸ List.mem_map_of_mem hm)
  have hnode : t.realNode.find? (fun node => node.nodeName = nodeName) =
      some ⟨nodeName, vNum⟩ := by
    rw [hreal, List.find?_append, List.find?_eq_none.mpr hbefore, List.find?_cons_of_pos]
    · rfl
    · exact decide_eq_true rfl
  have hdel := delNode_eq ht.sorted hc hnode
  obtain ⟨u, hu, hinv⟩ := ht.step (.delNode nodeName) trivial hc
  obtain ⟨u', hu', -, hkept⟩ := step_spec ht.toCovered (.delNode nodeName) hc
  cases hu.symm.trans hu'
  rw [ConsistentHash.step, hdel] at hu
  have hu := Except.ok.inj hu
  have hrest : u.realNode = s.realNode := by
    rw [← hu]
    dsimp only
    rw [hreal, List.eraseP_append_right _ hbefore, List.eraseP_cons_of_pos, List.append_nil]
    exact decide_eq_true rfl
  refine ⟨u, by rw [hdel, hu], ?_⟩
  calc u.allNode = others nodeName u.allNode :=
        (others_eq_self hinv (by rw [hrest]; exact hadd)).symm
    _ = others nodeName t.allNode := hkept
    _ = others nodeName s.allNode := hothers
    _ = s.allNode := others_eq_self hs hadd

theorem addNode_false {vNum : Int} (ht : s.addNode hash nodeName vNum = (false, t)) : t = s := by
  by_cases hv : 1 ≤ vNum
  · rw [addNode_eq s nodeName hv] at ht
    cases ht
  · rw [addNode_fails s nodeName (by omega)] at ht
    exact (Prod.mk.inj ht).2.symm

theorem delNode_false (ht : s.delNode hash nodeName = some (false, t)) : t = s := by
  cases hnode : s.realNode.find? (fun node => node.nodeName = nodeName) with
  | none =>
    rw [delNode_fails hnode] at ht
    exact (Prod.mk.inj (Option.some.inj ht)).2.symm
  | some node =>
    simp only [delNode, findRealNode, hnode, Option.map_some] at ht
    obtain ⟨l, -, hl⟩ := Option.bind_eq_some_iff.mp ht
    obtain ⟨l', -, hl'⟩ := Option.bind_eq_some_iff.mp hl
    cases hl'

/-- As long as the number of the entries under a key that is looked up fits an `int`, the ring
holds exactly the entries of the nodes that were added and not deleted. Adding a node and
deleting it again gives back the ring, and a call that fails changes nothing. -/
theorem ring_membership (hash : Name → Key) (acts : List Act)
    (hnew : (machine hash).Along NotAdded (machine hash).init acts)
    (hcount : (machine hash).Along (Counted hash) (machine hash).init acts) :
    ∃ s, (machine hash).run (machine hash).init acts = some (.ok s) ∧ s.Membership hash ∧
      (∀ nodeName vNum t, s.NotAdded (.addNode nodeName vNum) →
        s.addNode hash nodeName vNum = (true, t) → t.Counted hash (.delNode nodeName) →
        ∃ u, t.delNode hash nodeName = some (true, u) ∧ u.allNode = s.allNode) ∧
      (∀ nodeName vNum t, s.addNode hash nodeName vNum = (false, t) → t = s) ∧
      ∀ nodeName t, s.delNode hash nodeName = some (false, t) → t = s := by
  have hstep : ∀ s a, Exact hash s → NotAdded s a ∧ Counted hash s a →
      ∃ t, (machine hash).step s a = some (.ok t) ∧ Exact hash t := by
    intro s a hs hg
    obtain ⟨t, ht, hinv⟩ := hs.step a hg.1 hg.2
    exact ⟨t, congrArg some ht, hinv⟩
  obtain ⟨s, hrun, hs⟩ := Machine.run_good hstep exact_empty (Machine.along_and hnew hcount)
  refine ⟨s, hrun, hs.members, ?_, fun _ _ _ => addNode_false, fun _ _ => delNode_false⟩
  intro nodeName vNum t hadd ht hc
  have hv : 1 ≤ vNum := by
    by_contra hv
    rw [addNode_fails s nodeName (by omega)] at ht
    cases ht
  exact hs.restore hv hadd (by rw [ConsistentHash.step, ht]) hc

instance (s : ConsistentHash) (a : Act) : Decidable (s.NotAdded a) :=
  match a with
  | .addNode _ _ => inferInstanceAs (Decidable (_ ∉ _))
  | .delNode _ => inferInstanceAs (Decidable True)

-- Over the list of the keys, not over all keys.
instance (s : ConsistentHash) (a : Act) : Decidable (s.Counted hash a) :=
  match a with
  | .addNode _ _ => inferInstanceAs (Decidable True)
  | .delNode nodeName => decidable_of_iff
      (∀ node ∈ s.realNode.find? fun node : Node => node.nodeName = nodeName,
        (lookups hash node).all (fun key => s.allNode.countP (fun e => e.1 = key) < 2 ^ 31) = true)
      (by simp only [Counted, List.all_eq_true, decide_eq_true_eq])

/- All keys collide, and a name has white space in it. -/
def collidingActs : List Act :=
  [.addNode ['a', ' ', 'b'] 2, .addNode ['c'] 1, .addNode ['d'] 0, .delNode ['a', ' ', 'b'],
    .delNode ['d']]

theorem ring_membership_colliding :
    ∃ s, (machine fun _ => 0).run (machine fun _ => 0).init collidingActs = some (.ok s) ∧
      s.Membership (fun _ => 0) ∧ s.allNode = [(0, ['c']), (0, ['c'])] := by
  obtain ⟨s, hs, hmembers, -⟩ := ring_membership (fun _ => 0) collidingActs
    (by decide +kernel) (by decide +kernel)
  have hrun : (machine fun _ => 0).runsTo (machine fun _ => 0).init collidingActs
      (fun t => decide (t.allNode = [(0, ['c']), (0, ['c'])])) = true := by decide +kernel
  obtain ⟨t, ht, hring⟩ := Machine.exists_of_runsTo hrun
  cases hs.symm.trans ht
  exact ⟨s, hs, hmembers, of_decide_eq_true hring⟩

/-! ### A count that does not fit -/

theorem fromFind_of_castInt32 {loop : Int → List (Key × Name) → Option (List (Key × Name))}
    (hloop : ∀ l, loop 0 l = some l) (h : castInt32 (l.countP fun e => e.1 = k) = 0) :
    fromFind loop k l = some l := by
  rw [fromFind, h, hloop]
  exact congrArg some List.takeWhile_append_dropWhile

theorem delRealLoop_zero (nodeName : Name) (l : List (Key × Name)) :
    delRealLoop nodeName 0 l = some l := by
  cases l with
  | nil => rfl
  | cons e l => rfl

theorem delVirEntries_zero (nodeName : Name) (l : List (Key × Name)) :
    delVirEntries nodeName 0 l = some l := by
  cases l with
  | nil => rfl
  | cons e l => rfl

theorem delNode_of_castInt32 {key : Key} (h : castInt32 (s.allNode.countP fun e => e.1 = key) = 0)
    (hnode : s.realNode.find? (fun node => node.nodeName = nodeName) = some node) :
    s.delNode (fun _ => key) nodeName = some (true, { s with
      realNode := s.realNode.eraseP fun node => node.nodeName = nodeName }) := by
  have hvir : ∀ is ss word,
      delVirLoop (fun _ => key) node.nodeName is ss word s.allNode = some s.allNode := by
    intro is
    induction is with
    | nil =>
      intro ss word
      rfl
    | cons i is ih =>
      intro ss word
      have hpass := ih ((ss.insert (suffixed node.nodeName i)).extract word).2.clear
        ((ss.insert (suffixed node.nodeName i)).extract word).1
      rw [delVirLoop, fromFind_of_castInt32 (delVirEntries_zero node.nodeName) h]
      exact hpass
  have hreal : delRealNode (fun _ => key) node s.allNode = some s.allNode :=
    fromFind_of_castInt32 (delRealLoop_zero node.nodeName) h
  simp only [delNode, findRealNode, hnode, Option.map_some, hreal, delVirNode, hvir,
    Option.bind_eq_bind, Option.bind_some, Option.pure_def]

theorem length_entriesOf (node : Node) :
    (entriesOf hash node).length = node.vNodeNum.toNat + 1 := by
  rw [entriesOf, List.length_append, List.length_map, List.length_range, List.length_singleton]

/-- Two nodes with the largest number of virtual names under one key: the `int` is 0 for the
2 ^ 32 entries, and those of the node that is deleted stay. -/
theorem ring_count_narrowed :
    ∃ s, (machine fun _ => 0).run (machine fun _ => 0).init
        [.addNode ['a'] 2147483647, .addNode ['b'] 2147483647, .delNode ['a']] = some (.ok s) ∧
      s.realNode = [⟨['b'], 2147483647⟩] ∧ ¬ s.Membership fun _ => 0 := by
  obtain ⟨v, hv⟩ : ∃ v : Int, v = 2147483647 := ⟨_, rfl⟩
  rw [← hv]
  have hlen : ∀ name : Name, (entriesOf (fun _ => 0) ⟨name, v⟩).length = 2147483648 := by
    intro name
    rw [length_entriesOf, hv]
    rfl
  have hkey : ∀ name : Name, ∀ e ∈ entriesOf (fun _ => 0) ⟨name, v⟩, e.1 = 0 := by
    intro name e he
    rcases List.mem_append.mp he with hvir | hreal
    · obtain ⟨i, -, rfl⟩ := List.mem_map.mp hvir
      rfl
    · rw [List.mem_singleton.mp hreal]
  obtain ⟨s, hs, hreal, hperm, hsorted⟩ :=
    step_addNode_perm (fun _ => 0) ['a'] (show 1 ≤ v by omega) (s := empty) List.Pairwise.nil
  obtain ⟨t, ht, hreal', hperm', -⟩ :=
    step_addNode_perm (fun _ => 0) ['b'] (show 1 ≤ v by omega) hsorted
  have hring := hperm'.trans (hperm.append_right _)
  rw [hreal] at hreal'
  have hlength : t.allNode.length = 4294967296 := by
    rw [hring.length_eq, List.length_append, List.length_append, hlen, hlen]
    rfl
  have hzero : castInt32 (t.allNode.countP fun e => e.1 = 0) = 0 := by
    rw [List.countP_eq_length.mpr, hlength]
    · rfl
    · intro e he
      rcases List.mem_append.mp (hring.mem_iff.mp he) with he | he
      · exact decide_eq_true (hkey _ e he)
      · exact decide_eq_true (hkey _ e he)
  have hnode : t.realNode.find? (fun node => node.nodeName = ['a']) = some ⟨['a'], v⟩ := by
    rw [hreal']
    rfl
  have hdel := delNode_of_castInt32 hzero hnode
  have hleft : t.realNode.eraseP (fun node => node.nodeName = ['a']) = [⟨['b'], v⟩] := by
    rw [hreal']
    rfl
  rw [hleft] at hdel
  refine ⟨{ t with realNode := [⟨['b'], v⟩] }, ?_, rfl, ?_⟩
  · simp only [Machine.run, machine, hs, ht]
    simp only [step, hdel]
  · intro hmembers
    have hsize := hmembers.length_eq
    rw [List.flatMap_singleton, hlen, hlength] at hsize
    omega

end ConsistentHash

end TstMuduo.ConnHash

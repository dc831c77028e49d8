import TstMuduo.Net.ProtobufCodecLite
import TstMuduo.Net.ProtobufWire
import TstMuduo.Net.RpcChannel

/-!
# The bytes of a call (muduo/net/protorpc/rpc.pb.cc)

The class that protoc made of `rpc.proto`: its parser, its serialization and the sizes that it
announces.
-/

namespace TstMuduo.Net.Pb
open TstMuduo.Lib

/-! ### The enumerations -/

def messageTypeInt : MessageType → BitVec 32
  | .REQUEST => 1
  | .RESPONSE => 2
  | .ERROR => 3

/- `MessageType_IsValid` (`rpc.pb.cc:105`) and the cast behind it. -/
def messageType? (value : BitVec 32) : Option MessageType :=
  match value.toInt with
  | 1 => some .REQUEST
  | 2 => some .RESPONSE
  | 3 => some .ERROR
  | _ => none

def errorCodeInt : RpcErrorCode → BitVec 32
  | .NO_ERROR => 0
  | .WRONG_PROTO => 1
  | .NO_SERVICE => 2
  | .NO_METHOD => 3
  | .INVALID_REQUEST => 4
  | .INVALID_RESPONSE => 5
  | .TIMEOUT => 6

/- `ErrorCode_IsValid` (`rpc.pb.cc:120`) and the cast behind it. -/
def errorCode? (value : BitVec 32) : Option RpcErrorCode :=
  match value.toInt with
  | 0 => some .NO_ERROR
  | 1 => some .WRONG_PROTO
  | 2 => some .NO_SERVICE
  | 3 => some .NO_METHOD
  | 4 => some .INVALID_REQUEST
  | 5 => some .INVALID_RESPONSE
  | 6 => some .TIMEOUT
  | _ => none

theorem messageType_int (t : MessageType) :
    messageType? (((messageTypeInt t).signExtend 64).setWidth 32) = some t := by
  cases t <;> decide

theorem errorCode_int (e : RpcErrorCode) :
    errorCode? (((errorCodeInt e).signExtend 64).setWidth 32) = some e := by
  cases e <;> decide

/-! ### The message -/

/-- An object of the class: a field is there if its has-bit is set. -/
structure RpcMessage (Unknown : Type) where
  type : Option MessageType
  id : Option (BitVec 64)
  service : Option Bytes
  method : Option Bytes
  request : Option Bytes
  response : Option Bytes
  error : Option RpcErrorCode
  unknown : List Unknown
  deriving DecidableEq, Repr

/- The fields that `_InternalParse` tells apart by a tag. -/
inductive RpcField where
  | type
  | id
  | service
  | method
  | request
  | response
  | error
  | unusual
  deriving DecidableEq, Repr

/- The `switch (tag >> 3)` of `_InternalParse`, with the test of the whole tag. -/
def RpcField.ofTag (tag : BitVec 32) : RpcField :=
  match (tag >>> 3).toNat with
  | 1 => if tag.setWidth 8 = 8 then .type else .unusual
  | 2 => if tag.setWidth 8 = 17 then .id else .unusual
  | 3 => if tag.setWidth 8 = 26 then .service else .unusual
  | 4 => if tag.setWidth 8 = 34 then .method else .unusual
  | 5 => if tag.setWidth 8 = 42 then .request else .unusual
  | 6 => if tag.setWidth 8 = 50 then .response else .unusual
  | 7 => if tag.setWidth 8 = 56 then .error else .unusual
  | _ => .unusual

/- How a turn of the parser's loop ends: with the next one, at a tag that ends the message, or
at `failure`. -/
inductive FieldTurn (Unknown : Type) where
  | next (m : RpcMessage Unknown) (ptr : Bytes)
  | last
  | failure

namespace RpcMessage

variable {Unknown : Type}

/- The object that `Clear()` leaves. -/
def new : RpcMessage Unknown := ⟨none, none, none, none, none, none, none, []⟩

/- An enumeration: a value that is none of its own goes to the unknown fields. -/
def parseEnum {α : Type} (w : ProtobufWire Unknown) (m : RpcMessage Unknown) (number : Nat)
    (valid : BitVec 32 → Option α) (set : α → RpcMessage Unknown) (ptr : Bytes) :
    FieldTurn Unknown :=
  match w.readVarint64 ptr with
  | none => .failure
  | some (val, rest) =>
    match valid (val.setWidth 32) with
    | some a => .next (set a) rest
    | none => .next { m with unknown := m.unknown ++ [w.writeVarint number val] } rest

def parseString (w : ProtobufWire Unknown) (set : Bytes → RpcMessage Unknown) (ptr : Bytes) :
    FieldTurn Unknown :=
  match w.inlineGreedyStringParser ptr with
  | none => .failure
  | some (str, rest) => .next (set str) rest

/- `handle_unusual` -/
def parseUnusual (w : ProtobufWire Unknown) (m : RpcMessage Unknown) (tag : BitVec 32)
    (ptr : Bytes) : FieldTurn Unknown :=
  if tag &&& 7 = 4 ∨ tag = 0 then .last
  else
    match w.unknownFieldParse tag ptr with
    | none => .failure
    | some (u, rest) => .next { m with unknown := m.unknown ++ [u] } rest

/- The `switch` of `_InternalParse` (`rpc.pb.cc:282`) behind a tag; the eight bytes of the
id are loaded as they are in the memory of the host. -/
def parseField (w : ProtobufWire Unknown) (m : RpcMessage Unknown) (tag : BitVec 32)
    (ptr : Bytes) : FieldTurn Unknown :=
  match RpcField.ofTag tag with
  | .type => parseEnum w m 1 messageType? (fun t => { m with type := some t }) ptr
  | .id =>
    if 8 ≤ ptr.length then
      .next { m with id := some (.ofNat 64 (leVal (ptr.take 8))) } (ptr.drop 8)
    else .failure
  | .service => parseString w (fun str => { m with service := some str }) ptr
  | .method => parseString w (fun str => { m with method := some str }) ptr
  | .request => parseString w (fun str => { m with request := some str }) ptr
  | .response => parseString w (fun str => { m with response := some str }) ptr
  | .error => parseEnum w m 7 errorCode? (fun e => { m with error := some e }) ptr
  | .unusual => parseUnusual w m tag ptr

/- The loop of `_InternalParse`, for at most `fuel` turns: the message, and whether it ended
at the end of the input. -/
def internalParse (w : ProtobufWire Unknown) :
    Nat → RpcMessage Unknown → Bytes → Option (RpcMessage Unknown × Bool)
  | 0, _, _ => none
  | fuel + 1, m, ptr =>
    if ptr = [] then some (m, true)
    else
      match w.readTag ptr with
      | none => none
      | some (tag, rest) =>
        match m.parseField w tag rest with
        | .failure => none
        | .last => some (m, false)
        | .next m' rest' => internalParse w fuel m' rest'

/- `IsInitialized` (`rpc.pb.cc:589`). -/
def isInitialized (m : RpcMessage Unknown) : Bool := m.type.isSome && m.id.isSome

/- `ParseFromArray` of the library, for this class: the whole input, and every required
field. -/
def parseFromArray (w : ProtobufWire Unknown) (data : Bytes) : Option (RpcMessage Unknown) :=
  match internalParse w (data.length + 1) new data with
  | some (m, true) => if m.isInitialized then some m else none
  | _ => none

/- `_InternalSerialize` (`rpc.pb.cc:377`). -/
def serialize (w : ProtobufWire Unknown) (m : RpcMessage Unknown) : Bytes :=
  (m.type.elim [] fun t => w.writeEnumToArray 1 (messageTypeInt t)) ++
  (m.id.elim [] fun id => w.writeFixed64ToArray 2 id) ++
  (m.service.elim [] fun s => w.writeStringMaybeAliased 3 s) ++
  (m.method.elim [] fun s => w.writeStringMaybeAliased 4 s) ++
  (m.request.elim [] fun s => w.writeBytesMaybeAliased 5 s) ++
  (m.response.elim [] fun s => w.writeBytesMaybeAliased 6 s) ++
  (m.error.elim [] fun e => w.writeEnumToArray 7 (errorCodeInt e)) ++
  m.unknown.flatMap w.serializeUnknownField

/- `RequiredFieldsByteSizeFallback` (`rpc.pb.cc:444`). -/
def requiredFieldsByteSizeFallback (w : ProtobufWire Unknown) (m : RpcMessage Unknown) : Nat :=
  (m.id.elim 0 fun _ => 1 + 8) + (m.type.elim 0 fun t => 1 + w.enumSize (messageTypeInt t))

/- `ByteSizeLong` (`rpc.pb.cc:461`). -/
def byteSizeLong (w : ProtobufWire Unknown) (m : RpcMessage Unknown) : Nat :=
  let required :=
    match m.type, m.id with
    | some t, some _ => 1 + 8 + (1 + w.enumSize (messageTypeInt t))
    | _, _ => requiredFieldsByteSizeFallback w m
  required +
  (m.service.elim 0 fun s => 1 + w.stringSize s) +
  (m.method.elim 0 fun s => 1 + w.stringSize s) +
  (m.request.elim 0 fun s => 1 + w.bytesSize s) +
  (m.response.elim 0 fun s => 1 + w.bytesSize s) +
  (m.error.elim 0 fun e => 1 + w.enumSize (errorCodeInt e)) +
  (m.unknown.map w.unknownFieldSize).sum

/- `MergeFrom` (`rpc.pb.cc:555`). -/
def mergeFrom (m source : RpcMessage Unknown) : RpcMessage Unknown where
  type := source.type.or m.type
  id := source.id.or m.id
  service := source.service.or m.service
  method := source.method.or m.method
  request := source.request.or m.request
  response := source.response.or m.response
  error := source.error.or m.error
  unknown := m.unknown ++ source.unknown

/-! ### The loop -/

variable {w : ProtobufWire Unknown} {m m' : RpcMessage Unknown}

theorem parseEnum_le {α : Type} (hw : w.Lawful) {number : Nat} {valid : BitVec 32 → Option α}
    {set : α → RpcMessage Unknown} {ptr rest : Bytes}
    (h : parseEnum w m number valid set ptr = .next m' rest) : rest.length ≤ ptr.length := by
  unfold parseEnum at h
  split at h
  · cases h
  next val rest' hread =>
    have hle := hw.varint64 hread
    split at h
    · cases h
      exact hle
    · cases h
      exact hle

theorem parseString_le (hw : w.Lawful) {set : Bytes → RpcMessage Unknown} {ptr rest : Bytes}
    (h : parseString w set ptr = .next m' rest) : rest.length ≤ ptr.length := by
  unfold parseString at h
  split at h
  · cases h
  next hread =>
    cases h
    exact (hw.parsed hread).2

theorem parseField_le (hw : w.Lawful) {tag : BitVec 32} {ptr rest : Bytes}
    (h : m.parseField w tag ptr = .next m' rest) : rest.length ≤ ptr.length := by
  unfold parseField at h
  split at h
  · exact parseEnum_le hw h
  · split at h
    · cases h
      rw [List.length_drop]
      exact Nat.sub_le _ _
    · cases h
  · exact parseString_le hw h
  · exact parseString_le hw h
  · exact parseString_le hw h
  · exact parseString_le hw h
  · exact parseEnum_le hw h
  · unfold parseUnusual at h
    split at h
    · cases h
    · split at h
      · cases h
      next hread =>
        cases h
        exact hw.field hread

theorem internalParse_fuel (hw : w.Lawful) {fuel : Nat} {ptr : Bytes} (h : ptr.length < fuel)
    (more : Nat) : internalParse w (fuel + more) m ptr = internalParse w fuel m ptr := by
  induction fuel generalizing m ptr with
  | zero => exact absurd h (Nat.not_lt_zero _)
  | succ fuel ih =>
    rw [Nat.add_right_comm]
    unfold internalParse
    split
    · rfl
    · cases hread : w.readTag ptr with
      | none => rfl
      | some r =>
        obtain ⟨tag, rest⟩ := r
        have hrest := hw.tag hread
        simp only
        cases hturn : m.parseField w tag rest with
        | failure => rfl
        | last => rfl
        | next m' rest' =>
          have hle := parseField_le hw hturn
          exact ih (by omega)

def Parses (w : ProtobufWire Unknown) (bytes : Bytes)
    (f : RpcMessage Unknown → RpcMessage Unknown) : Prop :=
  ∃ turns ≤ bytes.length, ∀ m fuel rest,
    internalParse w (turns + fuel) m (bytes ++ rest) = internalParse w fuel (f m) rest

theorem parses_nil : Parses w [] fun m => m :=
  ⟨0, Nat.le_refl 0, fun m fuel rest => by rw [Nat.zero_add, List.nil_append]⟩

theorem Parses.append {xs ys : Bytes} {f g : RpcMessage Unknown → RpcMessage Unknown}
    (hx : Parses w xs f) (hy : Parses w ys g) : Parses w (xs ++ ys) fun m => g (f m) := by
  obtain ⟨i, hi, hx⟩ := hx
  obtain ⟨j, hj, hy⟩ := hy
  refine ⟨i + j, ?_, fun m fuel rest => ?_⟩
  · rw [List.length_append]
    omega
  · rw [Nat.add_assoc, List.append_assoc, hx, hy]

theorem parses_field (hw : w.Lawful) {bytes : Bytes} {t : BitVec 32}
    {f : RpcMessage Unknown → RpcMessage Unknown}
    (h : ∀ rest, ∃ p, w.readTag (bytes ++ rest) = some (t, p) ∧
      ∀ m : RpcMessage Unknown, m.parseField w t p = .next (f m) rest) : Parses w bytes f := by
  have hone : 1 ≤ bytes.length := by
    obtain ⟨p, hread, _⟩ := h []
    have hlt := hw.tag hread
    rw [List.append_nil] at hlt
    omega
  refine ⟨1, hone, fun m fuel rest => ?_⟩
  obtain ⟨p, hread, hturn⟩ := h rest
  have hne : bytes ++ rest ≠ [] := by
    intro hnil
    rw [(List.append_eq_nil_iff.mp hnil).1] at hone
    exact absurd hone (Nat.not_succ_le_zero 0)
  rw [Nat.add_comm, internalParse, if_neg hne, hread]
  simp only [hturn]

/-! ### What the serialization reads back as -/

/-- A field that the parser keeps as an unknown one when it comes across it. -/
inductive Kept (w : ProtobufWire Unknown) : Unknown → Prop where
  | type (v : BitVec 64) (h : messageType? (v.setWidth 32) = none) : Kept w (w.writeVarint 1 v)
  | error (v : BitVec 64) (h : errorCode? (v.setWidth 32) = none) : Kept w (w.writeVarint 7 v)
  | unusual {t : BitVec 32} {p q : Bytes} {u : Unknown} (h : RpcField.ofTag t = .unusual)
      (hlast : ¬ (t &&& 7 = 4 ∨ t = 0)) (hparse : w.unknownFieldParse t p = some (u, q)) : Kept w u

/-- The strings can be read back, and the unknown fields come from a parser. -/
structure WellMade (w : ProtobufWire Unknown) (m : RpcMessage Unknown) : Prop where
  service : ∀ s ∈ m.service, s.length ≤ kMaxStringLen
  method : ∀ s ∈ m.method, s.length ≤ kMaxStringLen
  request : ∀ s ∈ m.request, s.length ≤ kMaxStringLen
  response : ∀ s ∈ m.response, s.length ≤ kMaxStringLen
  unknown : ∀ u ∈ m.unknown, Kept w u

theorem parses_optional {α : Type} {o : Option α} {write : α → Bytes}
    {f : Option α → RpcMessage Unknown → RpcMessage Unknown} (hnone : ∀ m, f none m = m)
    (hsome : ∀ a ∈ o, Parses w (write a) (f (some a))) : Parses w (o.elim [] write) (f o) := by
  cases o with
  | none =>
    have hsame : f none = fun m => m := funext hnone
    rw [hsame]
    exact parses_nil
  | some a => exact hsome a rfl

theorem parses_type (hw : w.Lawful) (t : MessageType) :
    Parses w (w.writeEnumToArray 1 (messageTypeInt t)) fun m => { m with type := some t } := by
  refine parses_field hw (t := tagOf 1 0) fun rest => ?_
  obtain ⟨p, htag, hval⟩ := hw.enum (n := 1) (by decide) (by decide) (messageTypeInt t) rest
  refine ⟨p, htag, fun m => ?_⟩
  show parseEnum w m 1 messageType? _ p = _
  simp only [parseEnum, hval, messageType_int]

theorem parses_error (hw : w.Lawful) (e : RpcErrorCode) :
    Parses w (w.writeEnumToArray 7 (errorCodeInt e)) fun m => { m with error := some e } := by
  refine parses_field hw (t := tagOf 7 0) fun rest => ?_
  obtain ⟨p, htag, hval⟩ := hw.enum (n := 7) (by decide) (by decide) (errorCodeInt e) rest
  refine ⟨p, htag, fun m => ?_⟩
  show parseEnum w m 7 errorCode? _ p = _
  simp only [parseEnum, hval, errorCode_int]

theorem parses_id (hw : w.Lawful) (id : BitVec 64) :
    Parses w (w.writeFixed64ToArray 2 id) fun m => { m with id := some id } := by
  refine parses_field hw (t := tagOf 2 1) fun rest => ?_
  refine ⟨_, hw.fixed64 (n := 2) (by decide) (by decide) id rest, fun m => ?_⟩
  have hlen := length_leBytes 8 id.toNat
  have hval : BitVec.ofNat 64 (leVal (leBytes 8 id.toNat)) = id := by
    apply BitVec.eq_of_toNat_eq
    have hlt := id.isLt
    rw [leVal_leBytes, BitVec.toNat_ofNat]
    omega
  show (if 8 ≤ (leBytes 8 id.toNat ++ rest).length then FieldTurn.next _ _ else .failure) = _
  rw [if_pos (by rw [List.length_append, hlen]; omega), List.take_left' hlen,
    List.drop_left' hlen, hval]

theorem parses_string (hw : w.Lawful) {n : Nat} {write : Bytes → Bytes} {s : Bytes}
    {g : RpcMessage Unknown → Bytes → RpcMessage Unknown}
    (hwrite : ∀ {s : Bytes}, s.length ≤ kMaxStringLen → ∀ rest, ∃ p,
      w.readTag (write s ++ rest) = some (tagOf n 2, p) ∧
      w.inlineGreedyStringParser p = some (s, rest))
    (hfield : ∀ (m : RpcMessage Unknown) p,
      m.parseField w (tagOf n 2) p = parseString w (g m) p)
    (hlen : s.length ≤ kMaxStringLen) : Parses w (write s) fun m => g m s := by
  refine parses_field hw (t := tagOf n 2) fun rest => ?_
  obtain ⟨p, htag, hval⟩ := hwrite hlen rest
  refine ⟨p, htag, fun m => ?_⟩
  rw [hfield, parseString, hval]

theorem parses_kept (hw : w.Lawful) {u : Unknown} (hu : Kept w u) :
    Parses w (w.serializeUnknownField u) fun m => { m with unknown := m.unknown ++ [u] } := by
  cases hu with
  | type v h =>
    refine parses_field hw (t := tagOf 1 0) fun rest => ?_
    obtain ⟨p, htag, hval⟩ := hw.varint (n := 1) (by decide) (by decide) v rest
    refine ⟨p, htag, fun m => ?_⟩
    show parseEnum w m 1 messageType? _ p = _
    simp only [parseEnum, hval, h]
  | error v h =>
    refine parses_field hw (t := tagOf 7 0) fun rest => ?_
    obtain ⟨p, htag, hval⟩ := hw.varint (n := 7) (by decide) (by decide) v rest
    refine ⟨p, htag, fun m => ?_⟩
    show parseEnum w m 7 errorCode? _ p = _
    simp only [parseEnum, hval, h]
  | @unusual t p q _ h hlast hparse =>
    refine parses_field hw (t := t) fun rest => ?_
    obtain ⟨p, htag, hagain⟩ := hw.unknown hparse rest
    refine ⟨p, htag, fun m => ?_⟩
    simp only [parseField, h, parseUnusual, if_neg hlast, hagain]

theorem parses_unknown (hw : w.Lawful) {us : List Unknown} (h : ∀ u ∈ us, Kept w u) :
    Parses w (us.flatMap w.serializeUnknownField)
      fun m => { m with unknown := m.unknown ++ us } := by
  induction us with
  | nil =>
    have hsame : (fun m : RpcMessage Unknown => { m with unknown := m.unknown ++ [] }) =
        fun m => m := by
      funext m
      rw [List.append_nil]
    rw [hsame]
    exact parses_nil
  | cons u us ih =>
    have hboth := (parses_kept hw (h u List.mem_cons_self)).append
      (ih fun v hv => h v (List.mem_cons_of_mem u hv))
    simp only [List.append_assoc, List.singleton_append] at hboth
    exact hboth

theorem parses_serialize (hw : w.Lawful) (h : m'.WellMade w) :
    Parses w (m'.serialize w) fun m => m.mergeFrom m' := by
  have htype := parses_optional (o := m'.type) (f := fun o m => { m with type := o.or m.type })
    (fun _ => rfl) fun t _ => parses_type hw t
  have hid := parses_optional (o := m'.id) (f := fun o m => { m with id := o.or m.id })
    (fun _ => rfl) fun id _ => parses_id hw id
  have hservice := parses_optional (f := fun o m => { m with service := o.or m.service })
    (fun _ => rfl) fun s hs => parses_string hw (n := 3) (hw.string (by decide) (by decide))
      (g := fun m str => { m with service := some str }) (fun _ _ => rfl) (h.service s hs)
  have hmethod := parses_optional (f := fun o m => { m with method := o.or m.method })
    (fun _ => rfl) fun s hs => parses_string hw (n := 4) (hw.string (by decide) (by decide))
      (g := fun m str => { m with method := some str }) (fun _ _ => rfl) (h.method s hs)
  have hrequest := parses_optional (f := fun o m => { m with request := o.or m.request })
    (fun _ => rfl) fun s hs => parses_string hw (n := 5) (hw.bytes (by decide) (by decide))
      (g := fun m str => { m with request := some str }) (fun _ _ => rfl) (h.request s hs)
  have hresponse := parses_optional (f := fun o m => { m with response := o.or m.response })
    (fun _ => rfl) fun s hs => parses_string hw (n := 6) (hw.bytes (by decide) (by decide))
      (g := fun m str => { m with response := some str }) (fun _ _ => rfl) (h.response s hs)
  have herror := parses_optional (o := m'.error) (f := fun o m => { m with error := o.or m.error })
    (fun _ => rfl) fun e _ => parses_error hw e
  exact ((((((htype.append hid).append hservice).append hmethod).append hrequest).append
    hresponse).append herror).append (parses_unknown hw h.unknown)

/-! ### What the parser accepts -/

theorem new_wellMade : (new : RpcMessage Unknown).WellMade w :=
  ⟨nofun, nofun, nofun, nofun, nofun⟩

theorem WellMade.keep (h : m.WellMade w) {u : Unknown} (hu : Kept w u) :
    { m with unknown := m.unknown ++ [u] }.WellMade w where
  service := h.service
  method := h.method
  request := h.request
  response := h.response
  unknown v hv := by
    rcases List.mem_append.mp hv with hv | hv
    · exact h.unknown v hv
    · rw [List.mem_singleton.mp hv]
      exact hu

theorem parseEnum_wellMade {α : Type} {number : Nat} {valid : BitVec 32 → Option α}
    {set : α → RpcMessage Unknown} {ptr rest : Bytes} (hm : m.WellMade w)
    (hset : ∀ a, (set a).WellMade w)
    (hkept : ∀ v : BitVec 64, valid (v.setWidth 32) = none → Kept w (w.writeVarint number v))
    (h : parseEnum w m number valid set ptr = .next m' rest) : m'.WellMade w := by
  unfold parseEnum at h
  split at h
  · cases h
  next val _ _ =>
    split at h
    next a _ =>
      cases h
      exact hset a
    next hnone =>
      cases h
      exact hm.keep (hkept val hnone)

theorem parseString_wellMade (hw : w.Lawful) {set : Bytes → RpcMessage Unknown}
    {ptr rest : Bytes} (hset : ∀ s, s.length ≤ kMaxStringLen → (set s).WellMade w)
    (h : parseString w set ptr = .next m' rest) : m'.WellMade w := by
  unfold parseString at h
  split at h
  · cases h
  next hread =>
    cases h
    exact hset _ (hw.parsed hread).1

theorem parseField_wellMade (hw : w.Lawful) {tag : BitVec 32} {ptr rest : Bytes}
    (hm : m.WellMade w) (h : m.parseField w tag ptr = .next m' rest) : m'.WellMade w := by
  have hstring : ∀ {s : Bytes}, s.length ≤ kMaxStringLen →
      ∀ x ∈ some s, x.length ≤ kMaxStringLen := by
    intro s hs x hx
    cases hx
    exact hs
  unfold parseField at h
  split at h
  · refine parseEnum_wellMade hm ?_ .type h
    exact fun _ => { hm with }
  · split at h
    · cases h
      exact { hm with }
    · cases h
  · refine parseString_wellMade hw ?_ h
    exact fun _ hs => { hm with service := hstring hs }
  · refine parseString_wellMade hw ?_ h
    exact fun _ hs => { hm with method := hstring hs }
  · refine parseString_wellMade hw ?_ h
    exact fun _ hs => { hm with request := hstring hs }
  · refine parseString_wellMade hw ?_ h
    exact fun _ hs => { hm with response := hstring hs }
  · refine parseEnum_wellMade hm ?_ .error h
    exact fun _ => { hm with }
  next htag =>
    unfold parseUnusual at h
    split at h
    · cases h
    next hlast =>
      split at h
      · cases h
      next hread =>
        cases h
        exact hm.keep (.unusual htag hlast hread)

theorem internalParse_wellMade (hw : w.Lawful) {fuel : Nat} {ptr : Bytes} {atEnd : Bool}
    (hm : m.WellMade w) (h : internalParse w fuel m ptr = some (m', atEnd)) : m'.WellMade w := by
  induction fuel generalizing m ptr with
  | zero => cases h
  | succ fuel ih =>
    unfold internalParse at h
    split at h
    · cases h
      exact hm
    · split at h
      · cases h
      · split at h
        · cases h
        · cases h
          exact hm
        next hturn => exact ih (parseField_wellMade hw hm hturn) h

theorem mergeFrom_new (m : RpcMessage Unknown) : new.mergeFrom m = m := by
  simp only [mergeFrom, new, Option.or_none, List.nil_append]

theorem parses_stream (hw : w.Lawful) {ms : List (RpcMessage Unknown)}
    (hms : ∀ m ∈ ms, m.WellMade w) :
    Parses w (ms.flatMap (serialize w)) fun m => ms.foldl mergeFrom m := by
  induction ms with
  | nil => exact parses_nil
  | cons m ms ih =>
    exact (parses_serialize hw (hms m List.mem_cons_self)).append
      (ih fun x hx => hms x (List.mem_cons_of_mem m hx))

theorem Parses.parseFromArray {bytes : Bytes} {f : RpcMessage Unknown → RpcMessage Unknown}
    (h : Parses w bytes f) :
    parseFromArray w bytes = if (f new).isInitialized then some (f new) else none := by
  obtain ⟨turns, hle, hrun⟩ := h
  have hall := hrun new (bytes.length - turns + 1) []
  have hsum : turns + (bytes.length - turns + 1) = bytes.length + 1 := by omega
  have hend : internalParse w (bytes.length - turns + 1) (f new) [] = some (f new, true) :=
    if_pos rfl
  rw [List.append_nil, hsum, hend] at hall
  rw [RpcMessage.parseFromArray, hall]

theorem parseFromArray_wellMade (hw : w.Lawful) {data : Bytes}
    (h : parseFromArray w data = some m) :
    m.WellMade w ∧ m.isInitialized = true := by
  unfold RpcMessage.parseFromArray at h
  split at h
  next hparse =>
    split at h
    next hinit =>
      cases h
      exact ⟨internalParse_wellMade hw new_wellMade hparse, hinit⟩
    · cases h
  · cases h

theorem parse_serialize (hw : w.Lawful) (hm : m.WellMade w) (hinit : m.isInitialized = true) :
    parseFromArray w (m.serialize w) = some m := by
  rw [(parses_serialize hw hm).parseFromArray, mergeFrom_new, if_pos hinit]

theorem length_serialize (hw : w.Lawful) (m : RpcMessage Unknown) :
    (m.serialize w).length = m.byteSizeLong w := by
  have hoptional : ∀ {α : Type} {o : Option α} {write : α → Bytes} {size : α → Nat},
      (∀ a, (write a).length = size a) → (o.elim [] write).length = o.elim 0 size := by
    intro α o write size h
    cases o with
    | none => rfl
    | some a => exact h a
  have hunknown : ∀ us : List Unknown,
      (us.flatMap w.serializeUnknownField).length = (us.map w.unknownFieldSize).sum := by
    intro us
    rw [List.length_flatMap]
    congr 2
    exact funext hw.unknownSize
  unfold serialize byteSizeLong
  simp only [List.length_append]
  rw [hoptional fun t => hw.enumSize (n := 1) (by decide) (by decide) (messageTypeInt t),
    hoptional fun id => hw.fixed64Size (n := 2) (by decide) (by decide) id,
    hoptional fun s => hw.stringSize (n := 3) (by decide) (by decide) s,
    hoptional fun s => hw.stringSize (n := 4) (by decide) (by decide) s,
    hoptional fun s => hw.bytesSize (n := 5) (by decide) (by decide) s,
    hoptional fun s => hw.bytesSize (n := 6) (by decide) (by decide) s,
    hoptional fun e => hw.enumSize (n := 7) (by decide) (by decide) (errorCodeInt e), hunknown]
  unfold requiredFieldsByteSizeFallback
  cases m.type with
  | none => cases m.id <;> simp only [Option.elim_none, Option.elim_some, Nat.zero_add]
  | some t =>
    cases m.id with
    | none => simp only [Option.elim_none, Option.elim_some, Nat.zero_add, Nat.add_zero]
    | some id =>
      simp only [Option.elim_some]
      rw [Nat.add_comm (1 + w.enumSize (messageTypeInt t))]

/-- The bytes of any messages one behind the other parse as their merge, and the size that is
announced for a message is what it takes. -/
theorem concatenation_merges (hw : w.Lawful) (ms : List (RpcMessage Unknown))
    (hms : ∀ m ∈ ms, m.WellMade w) :
    parseFromArray w (ms.flatMap (serialize w)) =
        (if (ms.foldl mergeFrom new).isInitialized then some (ms.foldl mergeFrom new) else none) ∧
      (ms.flatMap (serialize w)).length = (ms.map (byteSizeLong w)).sum := by
  refine ⟨(parses_stream hw hms).parseFromArray, ?_⟩
  rw [List.length_flatMap]
  congr 2
  exact funext (length_serialize hw)

/- The request of `RpcCodec_test.cc`, with the bytes that the test expects. -/
def testRequest : RpcMessage UnknownField :=
  ⟨some .REQUEST, some 2, none, none, none, none, none, []⟩

example : testRequest.serialize wire = testPayload := by decide

def testAnswer : RpcMessage UnknownField :=
  ⟨some .RESPONSE, none, none, none, none, some [7], none,
    [⟨1, .varint 9⟩, ⟨100, .lengthDelimited [1, 2]⟩]⟩

theorem testRequest_wellMade : testRequest.WellMade wire := by
  constructor <;> simp [testRequest]

theorem testAnswer_wellMade : testAnswer.WellMade wire where
  service := by simp [testAnswer]
  method := by simp [testAnswer]
  request := by simp [testAnswer]
  response := by simp [testAnswer, kMaxStringLen]
  unknown u hu := by
    rcases List.mem_cons.mp hu with rfl | hu
    · exact .type 9 (by decide)
    · rw [List.mem_singleton.mp hu]
      exact .unusual (t := tagOf 100 2) (p := [2, 1, 2]) (q := []) (by decide) (by decide)
        (by decide)

theorem concatenation_merges_test :
    parseFromArray wire (testRequest.serialize wire ++ testAnswer.serialize wire) =
      some ⟨some .RESPONSE, some 2, none, none, none, some [7], none, testAnswer.unknown⟩ := by
  have hall : ∀ m ∈ [testRequest, testAnswer], m.WellMade wire := by
    intro m hm
    rcases List.mem_cons.mp hm with rfl | hm
    · exact testRequest_wellMade
    · rw [List.mem_singleton.mp hm]
      exact testAnswer_wellMade
  have hmerged := (concatenation_merges wire_lawful [testRequest, testAnswer] hall).1
  simp only [List.flatMap_cons, List.flatMap_nil, List.append_nil] at hmerged
  rw [hmerged]
  rfl

/-- Whatever is accepted, with its unknown fields and with values that no enumeration has, is
written as bytes that are accepted as the same message. -/
theorem accepted_again (hw : w.Lawful) (data : Bytes) (m : RpcMessage Unknown)
    (h : parseFromArray w data = some m) : parseFromArray w (m.serialize w) = some m := by
  obtain ⟨hm, hinit⟩ := parseFromArray_wellMade hw h
  exact parse_serialize hw hm hinit

theorem accepted_again_test :
    ∃ m, parseFromArray wire (testRequest.serialize wire ++ testAnswer.serialize wire) = some m ∧
      parseFromArray wire (m.serialize wire) = some m := by
  have hdata := ((parses_serialize wire_lawful testRequest_wellMade).append
    (parses_serialize wire_lawful testAnswer_wellMade)).parseFromArray
  exact ⟨_, hdata, accepted_again wire_lawful _ _ hdata⟩

end RpcMessage

/-! ### The messages of a channel -/

def utf8 (s : String) : Bytes := s.toUTF8.data.toList

def ofUtf8? (bytes : Bytes) : Option String := String.fromUTF8? ⟨bytes.toArray⟩

theorem ofUtf8_utf8 (s : String) : ofUtf8? (utf8 s) = some s := by
  have hbytes : (⟨(utf8 s).toArray⟩ : ByteArray) = s.toUTF8 := by
    unfold utf8
    rw [Array.toArray_toList]
  have hvalid : s.toUTF8.IsValidUTF8 := s.isValidUTF8
  rw [ofUtf8?, hbytes, String.fromUTF8?, dif_pos hvalid]
  rfl

namespace RpcMessage

variable {Unknown : Type} {w : ProtobufWire Unknown}

/- The object that the channel's setters fill. -/
def ofMessage (m : Net.RpcMessage) : RpcMessage Unknown where
  type := some m.type
  id := some m.id
  service := m.service.map utf8
  method := m.method.map utf8
  request := m.request
  response := m.response
  error := m.error
  unknown := []

def toMessage? (m : RpcMessage Unknown) : Option Net.RpcMessage := do
  let type ← m.type
  let id ← m.id
  let service ← m.service.elim (some none) fun s => (ofUtf8? s).map some
  let method ← m.method.elim (some none) fun s => (ofUtf8? s).map some
  return ⟨type, id, service, method, m.request, m.response, m.error⟩

theorem toMessage_ofMessage (m : Net.RpcMessage) :
    (ofMessage m : RpcMessage Unknown).toMessage? = some m := by
  have htext : ∀ o : Option String,
      ((o.map utf8).elim (some none) fun s => (ofUtf8? s).map some) = some o := by
    intro o
    cases o with
    | none => rfl
    | some s =>
      show (ofUtf8? (utf8 s)).map some = _
      rw [ofUtf8_utf8]
      rfl
  unfold toMessage? ofMessage
  simp only [htext, Option.bind_eq_bind, Option.bind_some]
  rfl

end RpcMessage

def messageBytes {Unknown : Type} (w : ProtobufWire Unknown) (m : Net.RpcMessage) : Bytes :=
  (RpcMessage.ofMessage m).serialize w

def messageOf {Unknown : Type} (w : ProtobufWire Unknown) (data : Bytes) :
    Option Net.RpcMessage :=
  (RpcMessage.parseFromArray w data).bind RpcMessage.toMessage?

/- Every string of the message is one that the parser takes. -/
structure Short (m : Net.RpcMessage) : Prop where
  service : ∀ s ∈ m.service, (utf8 s).length ≤ kMaxStringLen
  method : ∀ s ∈ m.method, (utf8 s).length ≤ kMaxStringLen
  request : ∀ s ∈ m.request, s.length ≤ kMaxStringLen
  response : ∀ s ∈ m.response, s.length ≤ kMaxStringLen

theorem Short.wellMade {Unknown : Type} {w : ProtobufWire Unknown} {m : Net.RpcMessage}
    (h : Short m) : (RpcMessage.ofMessage m).WellMade w where
  service s hs := by
    obtain ⟨x, hx, rfl⟩ := Option.map_eq_some_iff.mp hs
    exact h.service x hx
  method s hs := by
    obtain ⟨x, hx, rfl⟩ := Option.map_eq_some_iff.mp hs
    exact h.method x hx
  request := h.request
  response := h.response
  unknown := nofun

theorem messageOf_messageBytes {Unknown : Type} {w : ProtobufWire Unknown} (hw : w.Lawful)
    {m : Net.RpcMessage} (h : Short m) : messageOf w (messageBytes w m) = some m := by
  rw [messageOf, messageBytes, RpcMessage.parse_serialize hw h.wellMade rfl]
  exact RpcMessage.toMessage_ofMessage m

end TstMuduo.Net.Pb

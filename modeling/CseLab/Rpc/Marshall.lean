import CseLab.Lib.ByteMemory
import CseLab.FileSystem.InodeManager

/-! The wire format of `marshall.h` and `rpc.cc`: a growing buffer behind a
header, and the operators for each type a handler may take or return. A
marshalling step returns `none` where an `int` overflows or a write leaves the
buffer; the bytes that `realloc` adds are those the memory already has. -/

namespace CseLab.Rpc

open ByteMemory

structure ReqHeader where
  xid : Int32
  proc : Int32
  cltNonce : UInt32
  srvNonce : UInt32
  xidRep : Int32
deriving DecidableEq

structure ReplyHeader where
  xid : Int32
  ret : Int32
deriving DecidableEq

def defaultRpcSz : Nat := 1024

def sizeofRpcSz : Nat := 4

/-- `RPC_HEADER_SZ`: the larger header, and a word to be filled by the channel. -/
def rpcHeaderSz : Nat := max 20 8 + sizeofRpcSz

def intMax : Nat := 2 ^ 31 - 1

/-! ### The types -/

inductive Ty where
  | bool
  | char
  | unsignedChar
  | short
  | unsignedShort
  | int
  | unsignedInt
  | unsignedLongLong
  | string
  | vector (element : Ty)
  | map (key value : Ty)
  | attr
deriving DecidableEq

/-- A C++ value, where a map is the list of its pairs from `begin()` to `end()`. -/
def Ty.Raw : Ty → Type
  | .bool => Bool
  | .char => Int8
  | .unsignedChar => UInt8
  | .short => Int16
  | .unsignedShort => UInt16
  | .int => Int32
  | .unsignedInt => UInt32
  | .unsignedLongLong => UInt64
  | .string => List UInt8
  | .vector element => List element.Raw
  | .map key value => List (key.Raw × value.Raw)
  | .attr => FileSystem.Attr

def lexLess {Item : Type} (less : Item → Item → Bool) : List Item → List Item → Bool
  | [], [] => false
  | [], _ :: _ => true
  | _ :: _, [] => false
  | x :: xs, y :: ys => less x y || (!less y x && lexLess less xs ys)

def pairLess {First Second : Type} (lessFirst : First → First → Bool)
    (lessSecond : Second → Second → Bool) (x y : First × Second) : Bool :=
  lessFirst x.1 y.1 || (!lessFirst y.1 x.1 && lessSecond x.2 y.2)

/-- `operator<`; an `attr` has none, so no map has more than one such key. -/
def Ty.less : (t : Ty) → t.Raw → t.Raw → Bool
  | .bool => fun (x y : Bool) => !x && y
  | .char => fun (x y : Int8) => decide (x < y)
  | .unsignedChar => fun (x y : UInt8) => decide (x < y)
  | .short => fun (x y : Int16) => decide (x < y)
  | .unsignedShort => fun (x y : UInt16) => decide (x < y)
  | .int => fun (x y : Int32) => decide (x < y)
  | .unsignedInt => fun (x y : UInt32) => decide (x < y)
  | .unsignedLongLong => fun (x y : UInt64) => decide (x < y)
  | .string => lexLess (fun (x y : UInt8) => decide (x < y))
  | .vector element => lexLess element.less
  | .map key value => lexLess (pairLess key.less value.less)
  | .attr => fun _ _ => false

/-- The keys of every map in the value increase, as those of a `std::map` do. -/
def Ty.Valid : (t : Ty) → t.Raw → Prop
  | .vector element => fun (xs : List element.Raw) => ∀ x ∈ xs, element.Valid x
  | .map key value => fun (pairs : List (key.Raw × value.Raw)) =>
      pairs.Pairwise (fun left right => key.less left.1 right.1 = true) ∧
        ∀ pair ∈ pairs, key.Valid pair.1 ∧ value.Valid pair.2
  | _ => fun _ => True

def Ty.Value (t : Ty) : Type := { raw : t.Raw // t.Valid raw }

structure Argument where
  type : Ty
  value : type.Value

/-! ### Marshalling -/

structure Marshall where
  buf : Memory
  capa : Nat
  ind : Nat

/-- The constructor; `uninit` is what `malloc` and `realloc` hand out. -/
def Marshall.start (uninit : Memory) : Marshall :=
  { buf := uninit, capa := defaultRpcSz, ind := rpcHeaderSz }

/-- A capacity, where it still is an `int`. -/
def realloc (capa : Nat) : Option Nat := if capa ≤ intMax then some capa else none

def Marshall.rawbyte (m : Marshall) (x : UInt8) : Option Marshall :=
  (if m.capa ≤ m.ind then realloc (2 * m.capa) else some m.capa).bind fun capa =>
    if m.ind < capa then
      some { buf := Function.update m.buf m.ind x, capa := capa, ind := m.ind + 1 }
    else none

/-- `rawbytes(p, n)` for a string: the size is converted to `int`. -/
def Marshall.rawbytes (m : Marshall) (bytes : List UInt8) : Option Marshall :=
  let n := Int.bmod bytes.length (2 ^ 32)
  if n < 0 ∨ intMax < m.ind + n.toNat then none
  else
    (if m.capa < m.ind + n.toNat then
      realloc (if n.toNat < m.capa then 2 * m.capa else m.capa + n.toNat)
    else some m.capa).bind fun capa =>
      if m.ind + n.toNat ≤ capa then
        some
          { buf := memcpy m.buf m.ind (fun address => bytes[address]?.getD 0) n.toNat
            capa := capa
            ind := m.ind + n.toNat }
      else none

def Marshall.word (m : Marshall) (x : UInt32) : Option Marshall := do
  let m ← m.rawbyte (x >>> 24).toUInt8
  let m ← m.rawbyte (x >>> 16).toUInt8
  let m ← m.rawbyte (x >>> 8).toUInt8
  m.rawbyte x.toUInt8

def Marshall.half (m : Marshall) (x : UInt16) : Option Marshall := do
  let m ← m.rawbyte (x >>> 8).toUInt8
  m.rawbyte x.toUInt8

/-- The number of elements goes ahead of them. The loop over a vector counts in
an `unsigned`, so a longer one would never end. -/
def Marshall.sequence {Item : Type} (element : Marshall → Item → Option Marshall) (m : Marshall)
    (items : List Item) : Option Marshall :=
  if items.length < 2 ^ 32 then do
    let m ← m.word (UInt32.ofNat items.length)
    items.foldlM element m
  else none

def Marshall.attr (m : Marshall) (a : FileSystem.Attr) : Option Marshall := do
  let m ← m.word a.type
  let m ← m.word a.atime
  let m ← m.word a.mtime
  let m ← m.word a.ctime
  m.word a.size

def Ty.marshall : (t : Ty) → Marshall → t.Raw → Option Marshall
  | .bool => fun m (x : Bool) => m.rawbyte x.toUInt8
  | .char => fun m (x : Int8) => m.rawbyte x.toUInt8
  | .unsignedChar => fun m (x : UInt8) => m.rawbyte x
  | .short => fun m (x : Int16) => m.half x.toUInt16
  | .unsignedShort => fun m (x : UInt16) => m.half x
  | .int => fun m (x : Int32) => m.word x.toUInt32
  | .unsignedInt => fun m (x : UInt32) => m.word x
  | .unsignedLongLong => fun m (x : UInt64) => do
      let m ← m.word (x >>> 32).toUInt32
      m.word x.toUInt32
  | .string => fun m (s : List UInt8) => do
      let m ← m.word (UInt32.ofNat s.length)
      m.rawbytes s
  | .vector element => fun m (xs : List element.Raw) => m.sequence element.marshall xs
  | .map key value => fun m (pairs : List (key.Raw × value.Raw)) =>
      m.sequence (fun m pair => do
        let m ← key.marshall m pair.1
        value.marshall m pair.2) pairs
  | .attr => fun m (a : FileSystem.Attr) => m.attr a

/-- `pack`; the shifts of the `int` are masked to a byte each. -/
def Marshall.pack (m : Marshall) (x : Int32) : Option Marshall := m.word x.toUInt32

def Marshall.packReqHeader (m : Marshall) (h : ReqHeader) : Option Marshall := do
  let packed ← { m with ind := sizeofRpcSz : Marshall }.pack h.xid
  let packed ← packed.pack h.proc
  let packed ← packed.pack h.cltNonce.toInt32
  let packed ← packed.pack h.srvNonce.toInt32
  let packed ← packed.pack h.xidRep
  some { packed with ind := m.ind }

def Marshall.packReplyHeader (m : Marshall) (h : ReplyHeader) : Option Marshall := do
  let packed ← { m with ind := sizeofRpcSz : Marshall }.pack h.xid
  let packed ← packed.pack h.ret
  some { packed with ind := m.ind }

/-! ### Unmarshalling -/

structure Unmarshall where
  buf : Memory
  sz : Nat
  ind : Nat
  ok : Bool

def Unmarshall.start (buf : Memory) (sz : Nat) : Unmarshall :=
  { buf := buf, sz := sz, ind := 0, ok := true }

def Unmarshall.okdone (u : Unmarshall) : Bool := u.ok && u.ind == u.sz

/-- The byte is read into a `char` and returned as `unsigned int`, sign bit and all. -/
def Unmarshall.rawbyte (u : Unmarshall) : UInt32 × Unmarshall :=
  if u.sz ≤ u.ind then (0, { u with ok := false })
  else ((u.buf u.ind).toInt8.toInt32.toUInt32, { u with ind := u.ind + 1 })

def Unmarshall.word (u : Unmarshall) : UInt32 × Unmarshall :=
  let (b3, u) := u.rawbyte
  let (b2, u) := u.rawbyte
  let (b1, u) := u.rawbyte
  let (b0, u) := u.rawbyte
  ((b3 &&& 0xff) <<< 24 ||| (b2 &&& 0xff) <<< 16 ||| (b1 &&& 0xff) <<< 8 ||| (b0 &&& 0xff), u)

def Unmarshall.half (u : Unmarshall) : UInt16 × Unmarshall :=
  let (b1, u) := u.rawbyte
  let (b0, u) := u.rawbyte
  ((((b1 &&& 0xff) <<< 8).toUInt16.toUInt32 ||| (b0 &&& 0xff)).toUInt16, u)

/-- `rawbytes(ss, n)`; the string keeps its value when the bytes are not there.
The sum of the `int` and the `unsigned` is an `unsigned`. -/
def Unmarshall.rawbytes (u : Unmarshall) (ss : List UInt8) (n : UInt32) :
    List UInt8 × Unmarshall :=
  let next := (u.ind + n.toNat) % 2 ^ 32
  if u.sz < next then (ss, { u with ok := false })
  else ((List.range n.toNat).map (fun k => u.buf (u.ind + k)), { u with ind := next })

def Unmarshall.attr (u : Unmarshall) : FileSystem.Attr × Unmarshall :=
  let (type, u) := u.word
  let (atime, u) := u.word
  let (mtime, u) := u.word
  let (ctime, u) := u.word
  let (size, u) := u.word
  ({ type, atime, mtime, ctime, size }, u)

def Unmarshall.collect {Item Whole : Type} (element : Unmarshall → Item × Unmarshall)
    (add : Whole → Item → Whole) : (count : Nat) → Unmarshall → Whole → Whole × Unmarshall
  | 0, u, whole => (whole, u)
  | count + 1, u, whole =>
      let (item, u) := element u
      Unmarshall.collect element add count u (add whole item)

/-- `d[a] = b`: the place is the first key that is not less than `a`. -/
def assign {Key Val : Type} (less : Key → Key → Bool) (a : Key) (b : Val) :
    List (Key × Val) → List (Key × Val)
  | [] => [(a, b)]
  | pair :: rest =>
      if less pair.1 a then pair :: assign less a b rest
      else if less a pair.1 then (a, b) :: pair :: rest
      else (pair.1, b) :: rest

def Ty.unmarshall : (t : Ty) → Unmarshall → t.Raw × Unmarshall
  | .bool => fun u => ((u.rawbyte.1 != 0 : Bool), u.rawbyte.2)
  | .char => fun u => (u.rawbyte.1.toUInt8.toInt8, u.rawbyte.2)
  | .unsignedChar => fun u => (u.rawbyte.1.toUInt8, u.rawbyte.2)
  | .short => fun u => (u.half.1.toInt16, u.half.2)
  | .unsignedShort => fun u => u.half
  | .int => fun u => (u.word.1.toInt32, u.word.2)
  | .unsignedInt => fun u => u.word
  | .unsignedLongLong => fun u =>
      let (h, u) := u.word
      let (l, u) := u.word
      (l.toUInt64 ||| h.toUInt64 <<< 32, u)
  | .string => fun u =>
      let (sz, u) := u.word
      if u.ok then u.rawbytes [] sz else ([], u)
  | .vector element => fun u =>
      let (n, u) := u.word
      Unmarshall.collect element.unmarshall (fun (xs : List element.Raw) x => xs ++ [x]) n.toNat u []
  | .map key value => fun u =>
      let (n, u) := u.word
      Unmarshall.collect
        (fun u =>
          let (a, u) := key.unmarshall u
          let (b, u) := value.unmarshall u
          ((a, b), u))
        (fun pairs (pair : key.Raw × value.Raw) => assign key.less pair.1 pair.2 pairs) n.toNat u []
  | .attr => fun u => u.attr

def Unmarshall.unpack (u : Unmarshall) : Int32 × Unmarshall :=
  let (x, u) := u.word
  (x.toInt32, u)

def Unmarshall.unpackReqHeader (u : Unmarshall) : ReqHeader × Unmarshall :=
  let u := { u with ind := sizeofRpcSz }
  let (xid, u) := u.unpack
  let (proc, u) := u.unpack
  let (cltNonce, u) := u.unpack
  let (srvNonce, u) := u.unpack
  let (xidRep, u) := u.unpack
  ({ xid, proc, cltNonce := cltNonce.toUInt32, srvNonce := srvNonce.toUInt32, xidRep },
    { u with ind := rpcHeaderSz })

def Unmarshall.unpackReplyHeader (u : Unmarshall) : ReplyHeader × Unmarshall :=
  let u := { u with ind := sizeofRpcSz }
  let (xid, u) := u.unpack
  let (ret, u) := u.unpack
  ({ xid, ret }, { u with ind := rpcHeaderSz })

/-! ### Messages -/

def marshallArguments (m : Marshall) (arguments : List Argument) : Option Marshall :=
  arguments.foldlM (fun m argument => argument.type.marshall m argument.value.1) m

def unmarshallArguments : (types : List Ty) → Unmarshall → List (Σ t : Ty, t.Raw) × Unmarshall
  | [], u => ([], u)
  | t :: types, u =>
      let (value, u) := t.unmarshall u
      let (values, u) := unmarshallArguments types u
      (⟨t, value⟩ :: values, u)

end CseLab.Rpc

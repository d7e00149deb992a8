import CseLab.Lib.BigEndian
import CseLab.Rpc.Marshall

/-! Each type has its bytes on the wire. A write appends them and touches nothing
else, a read of them gives the value and moves past them, and both rules compose. -/

namespace CseLab.Rpc

open ByteMemory BigEndian

def Ty.encode : (t : Ty) → t.Raw → List UInt8
  | .bool => fun (x : Bool) => [x.toUInt8]
  | .char => fun (x : Int8) => [x.toUInt8]
  | .unsignedChar => fun (x : UInt8) => [x]
  | .short => fun (x : Int16) => bytes16 x.toUInt16
  | .unsignedShort => fun (x : UInt16) => bytes16 x
  | .int => fun (x : Int32) => bytes32 x.toUInt32
  | .unsignedInt => fun (x : UInt32) => bytes32 x
  | .unsignedLongLong => fun (x : UInt64) =>
      bytes32 (x >>> 32).toUInt32 ++ bytes32 x.toUInt32
  | .string => fun (s : List UInt8) => bytes32 (UInt32.ofNat s.length) ++ s
  | .vector element => fun (xs : List element.Raw) =>
      bytes32 (UInt32.ofNat xs.length) ++ xs.flatMap element.encode
  | .map key value => fun (pairs : List (key.Raw × value.Raw)) =>
      bytes32 (UInt32.ofNat pairs.length) ++
        pairs.flatMap (fun pair => key.encode pair.1 ++ value.encode pair.2)
  | .attr => fun (a : FileSystem.Attr) =>
      bytes32 a.type ++ (bytes32 a.atime ++ (bytes32 a.mtime ++ (bytes32 a.ctime ++ bytes32 a.size)))

theorem Ty.encode_pos (t : Ty) (v : t.Raw) : 0 < (t.encode v).length := by
  cases t with
  | bool => exact Nat.zero_lt_one
  | char => exact Nat.zero_lt_one
  | unsignedChar => exact Nat.zero_lt_one
  | short => exact Nat.zero_lt_two
  | unsignedShort => exact Nat.zero_lt_two
  | int => exact Nat.zero_lt_succ 3
  | unsignedInt => exact Nat.zero_lt_succ 3
  | unsignedLongLong => exact Nat.zero_lt_succ 7
  | string => exact Nat.zero_lt_succ _
  | vector element => exact Nat.zero_lt_succ _
  | map key value => exact Nat.zero_lt_succ _
  | attr => exact Nat.zero_lt_succ 19

theorem length_le_flatMap {Item : Type} {encode : Item → List UInt8} (items : List Item)
    (positive : ∀ item, 0 < (encode item).length) :
    items.length ≤ (items.flatMap encode).length := by
  induction items with
  | nil => exact Nat.zero_le _
  | cons item rest ih =>
      have here := positive item
      rw [List.flatMap_cons, List.length_append, List.length_cons]
      omega

/-! ### Writing -/

/-- The bytes are at the end of the buffer now, and the rest of it is as before. -/
structure Appended (m : Marshall) (bytes : List UInt8) (after : Marshall) : Prop where
  ind_eq : after.ind = m.ind + bytes.length
  holds : Holds after.buf m.ind bytes
  others : ∀ address, address < m.ind ∨ m.ind + bytes.length ≤ address →
    after.buf address = m.buf address
  inside : after.ind ≤ after.capa
  grows : m.capa ≤ after.capa

/-- The write succeeds and appends the bytes, as long as the message stays
within the sizes for which the capacity is an `int`. -/
def Writes (write : Marshall → Option Marshall) (bytes : List UInt8) : Prop :=
  ∀ m : Marshall, m.ind ≤ m.capa → rpcHeaderSz ≤ m.capa → m.ind + bytes.length ≤ 2 ^ 30 →
    ∃ after, write m = some after ∧ Appended m bytes after

theorem Writes.nil : Writes some [] := by
  intro m inside _header _fits
  exact ⟨m, rfl, rfl, holds_nil _ _, fun _address _outside => rfl, inside, Nat.le_refl _⟩

theorem Writes.append {first second : Marshall → Option Marshall} {xs ys : List UInt8}
    (writesFirst : Writes first xs) (writesSecond : Writes second ys) :
    Writes (fun m => (first m).bind second) (xs ++ ys) := by
  intro m inside header fits
  rw [List.length_append] at fits
  obtain ⟨middle, ranFirst, appendedFirst⟩ := writesFirst m inside header (by omega)
  have placed := appendedFirst.ind_eq
  obtain ⟨after, ranSecond, appendedSecond⟩ :=
    writesSecond middle appendedFirst.inside (header.trans appendedFirst.grows) (by omega)
  refine ⟨after, ?_, ?_, ?_, ?_, appendedSecond.inside,
    appendedFirst.grows.trans appendedSecond.grows⟩
  · change (first m).bind second = some after
    rw [ranFirst, Option.bind_some, ranSecond]
  · rw [appendedSecond.ind_eq, placed, List.length_append, Nat.add_assoc]
  · rw [holds_append]
    constructor
    · apply appendedFirst.holds.congr
      intro address _lower upper
      exact appendedSecond.others address (by omega)
    · rw [← placed]
      exact appendedSecond.holds
  · intro address outside
    rw [List.length_append] at outside
    rw [appendedSecond.others address (by omega), appendedFirst.others address (by omega)]

theorem writes_rawbyte (x : UInt8) : Writes (fun m => m.rawbyte x) [x] := by
  intro m inside header fits
  change m.ind + 1 ≤ 2 ^ 30 at fits
  change 24 ≤ m.capa at header
  have written : ∀ capa, m.ind < capa → m.capa ≤ capa →
      Appended m [x] { buf := Function.update m.buf m.ind x, capa := capa, ind := m.ind + 1 } := by
    intro capa room larger
    refine ⟨rfl, holds_singleton.mpr (Function.update_self _ _ _), ?_, room, larger⟩
    intro address outside
    rw [List.length_singleton] at outside
    exact Function.update_of_ne (by omega) _ _
  change ∃ after, Marshall.rawbyte m x = some after ∧ _
  unfold Marshall.rawbyte
  by_cases full : m.capa ≤ m.ind
  · have fitsInt : 2 * m.capa ≤ intMax := by
      unfold intMax
      omega
    rw [if_pos full, realloc, if_pos fitsInt, Option.bind_some]
    exact ⟨_, if_pos (by omega), written _ (by omega) (by omega)⟩
  · rw [if_neg full, Option.bind_some]
    exact ⟨_, if_pos (by omega), written _ (by omega) (Nat.le_refl _)⟩

theorem writes_rawbytes (s : List UInt8) : Writes (fun m => m.rawbytes s) s := by
  intro m inside header fits
  change 24 ≤ m.capa at header
  have size : Int.bmod s.length (2 ^ 32) = (s.length : Int) := by
    apply Int.bmod_eq_of_le <;> omega
  have written : ∀ capa, m.ind + s.length ≤ capa → m.capa ≤ capa →
      Appended m s { buf := memcpy m.buf m.ind (fun address => s[address]?.getD 0) s.length
                     capa := capa
                     ind := m.ind + s.length } := by
    intro capa room larger
    refine ⟨rfl, ?_, ?_, room, larger⟩
    · intro k below
      dsimp only
      rw [memcpy_inside (Nat.le_add_right _ _) (by omega), Nat.add_sub_cancel_left]
    · intro address outside
      dsimp only
      exact memcpy_outside outside
  have notLarge : ¬((s.length : Int) < 0 ∨ intMax < m.ind + s.length) := by
    unfold intMax
    omega
  change ∃ after, Marshall.rawbytes m s = some after ∧ _
  unfold Marshall.rawbytes
  simp only [size, Int.toNat_natCast]
  rw [if_neg notLarge]
  by_cases full : m.capa < m.ind + s.length
  · have grown : (if s.length < m.capa then 2 * m.capa else m.capa + s.length) ≤ intMax := by
      unfold intMax
      split <;> omega
    have room : m.ind + s.length ≤
        (if s.length < m.capa then 2 * m.capa else m.capa + s.length) := by
      split <;> omega
    have larger : m.capa ≤ (if s.length < m.capa then 2 * m.capa else m.capa + s.length) := by
      split <;> omega
    rw [if_pos full, realloc, if_pos grown, Option.bind_some]
    exact ⟨_, if_pos room, written _ room larger⟩
  · rw [if_neg full, Option.bind_some]
    exact ⟨_, if_pos (Nat.not_lt.mp full), written _ (Nat.not_lt.mp full) (Nat.le_refl _)⟩

theorem writes_word (x : UInt32) : Writes (fun m => m.word x) (bytes32 x) :=
  (writes_rawbyte _).append ((writes_rawbyte _).append
    ((writes_rawbyte _).append (writes_rawbyte _)))

theorem writes_half (x : UInt16) : Writes (fun m => m.half x) (bytes16 x) :=
  (writes_rawbyte _).append (writes_rawbyte _)

theorem writes_foldlM {Item : Type} {element : Marshall → Item → Option Marshall}
    {encode : Item → List UInt8} (items : List Item)
    (writes : ∀ item ∈ items, Writes (fun m => element m item) (encode item)) :
    Writes (fun m => items.foldlM element m) (items.flatMap encode) := by
  induction items with
  | nil => exact Writes.nil
  | cons item rest ih =>
      exact (writes item List.mem_cons_self).append
        (ih (fun other member => writes other (List.mem_cons_of_mem item member)))

theorem writes_sequence {Item : Type} {element : Marshall → Item → Option Marshall}
    {encode : Item → List UInt8} (items : List Item)
    (positive : ∀ item, 0 < (encode item).length)
    (writes : ∀ item, Writes (fun m => element m item) (encode item)) :
    Writes (fun m => m.sequence element items)
      (bytes32 (UInt32.ofNat items.length) ++ items.flatMap encode) := by
  intro m inside header fits
  have few := length_le_flatMap items positive
  have counted : items.length < 2 ^ 32 := by
    rw [List.length_append] at fits
    omega
  change ∃ after, Marshall.sequence element m items = some after ∧ _
  unfold Marshall.sequence
  rw [if_pos counted]
  exact (writes_word _).append (writes_foldlM items (fun item _member => writes item)) m inside
    header fits

theorem writes_value (t : Ty) (v : t.Raw) : Writes (fun m => t.marshall m v) (t.encode v) := by
  induction t with
  | bool => exact writes_rawbyte _
  | char => exact writes_rawbyte _
  | unsignedChar => exact writes_rawbyte _
  | short => exact writes_half _
  | unsignedShort => exact writes_half _
  | int => exact writes_word _
  | unsignedInt => exact writes_word _
  | unsignedLongLong => exact (writes_word _).append (writes_word _)
  | string => exact (writes_word _).append (writes_rawbytes _)
  | vector element ih => exact writes_sequence _ element.encode_pos ih
  | map key value ihKey ihValue =>
      apply writes_sequence
      · intro pair
        have here := key.encode_pos pair.1
        rw [List.length_append]
        omega
      · intro pair
        exact (ihKey pair.1).append (ihValue pair.2)
  | attr =>
      exact (writes_word _).append ((writes_word _).append ((writes_word _).append
        ((writes_word _).append (writes_word _))))

/-! ### Reading -/

/-- Where the bytes stand ahead, the read gives the value and moves past them. -/
def Reads {Value : Type} (read : Unmarshall → Value × Unmarshall) (bytes : List UInt8)
    (value : Value) : Prop :=
  ∀ u : Unmarshall, u.ok = true → u.sz ≤ 2 ^ 30 → u.ind + bytes.length ≤ u.sz →
    Holds u.buf u.ind bytes → read u = (value, { u with ind := u.ind + bytes.length })

theorem Reads.pure {Value : Type} (value : Value) : Reads (fun u => (value, u)) [] value :=
  fun _u _ok _small _inside _holds => rfl

theorem Reads.bind {First Second : Type} {first : Unmarshall → First × Unmarshall}
    (second : First → Unmarshall → Second × Unmarshall) {xs ys : List UInt8} {a : First}
    {b : Second} (readsFirst : Reads first xs a) (readsSecond : Reads (second a) ys b) :
    Reads (fun u => second (first u).1 (first u).2) (xs ++ ys) b := by
  intro u ok small inside holds
  rw [List.length_append] at inside
  rw [holds_append] at holds
  have ranFirst := readsFirst u ok small (by omega) holds.1
  have ranSecond := readsSecond { u with ind := u.ind + xs.length } ok small
    (by change u.ind + xs.length + ys.length ≤ u.sz; omega) holds.2
  change second (first u).1 (first u).2 = _
  rw [ranFirst, ranSecond, List.length_append]
  simp only [Nat.add_assoc]

theorem Reads.map {First Second : Type} {read : Unmarshall → First × Unmarshall}
    {bytes : List UInt8} {a : First} (reads : Reads read bytes a) (f : First → Second) :
    Reads (fun u => (f (read u).1, (read u).2)) bytes (f a) := by
  intro u ok small inside holds
  change (f (read u).1, (read u).2) = _
  rw [reads u ok small inside holds]

theorem reads_rawbyte (x : UInt8) :
    Reads Unmarshall.rawbyte [x] x.toInt8.toInt32.toUInt32 := by
  intro u _ok _small inside holds
  rw [List.length_singleton] at inside
  unfold Unmarshall.rawbyte
  rw [if_neg (by omega), holds_singleton.mp holds]
  rfl

theorem rawbyte_at {u : Unmarshall} {bs : List UInt8} (ok : u.ok = true) (small : u.sz ≤ 2 ^ 30)
    (inside : u.ind + bs.length ≤ u.sz) (holds : Holds u.buf u.ind bs) {k : Nat} {byte : UInt8}
    (here : bs[k]? = some byte) :
    { u with ind := u.ind + k : Unmarshall }.rawbyte =
      (byte.toInt8.toInt32.toUInt32, { u with ind := u.ind + k + 1 }) := by
  have ⟨below, _same⟩ := List.getElem?_eq_some_iff.mp here
  apply reads_rawbyte byte { u with ind := u.ind + k } ok small
  · change u.ind + k + 1 ≤ u.sz
    omega
  · have stored := holds k below
    rw [here] at stored
    exact holds_singleton.mpr stored

theorem reads_word (x : UInt32) : Reads Unmarshall.word (bytes32 x) x := by
  intro u ok small inside holds
  have first := rawbyte_at ok small inside holds (k := 0) rfl
  have second := rawbyte_at ok small inside holds (k := 1) rfl
  have third := rawbyte_at ok small inside holds (k := 2) rfl
  have fourth := rawbyte_at ok small inside holds (k := 3) rfl
  simp only [Nat.add_zero, Nat.add_assoc, Nat.reduceAdd] at first second third fourth
  unfold Unmarshall.word
  simp only [first, second, third, fourth, mask_signed, join32, bytes32_length]

theorem word_at {u : Unmarshall} {k : Nat} {x : UInt32} (ok : u.ok = true) (small : u.sz ≤ 2 ^ 30)
    (inside : u.ind + (k + 4) ≤ u.sz) (here : Holds u.buf (u.ind + k) (bytes32 x)) :
    { u with ind := u.ind + k : Unmarshall }.word = (x, { u with ind := u.ind + (k + 4) }) := by
  have read := reads_word x { u with ind := u.ind + k } ok small
    (by change u.ind + k + 4 ≤ u.sz; omega) here
  rw [bytes32_length, Nat.add_assoc] at read
  exact read

theorem reads_half (x : UInt16) : Reads Unmarshall.half (bytes16 x) x := by
  intro u ok small inside holds
  have first := rawbyte_at ok small inside holds (k := 0) rfl
  have second := rawbyte_at ok small inside holds (k := 1) rfl
  simp only [Nat.add_zero, Nat.add_assoc, Nat.reduceAdd] at first second
  unfold Unmarshall.half
  simp only [first, second, mask_signed, join16, bytes16_length]

theorem reads_rawbytes (s : List UInt8) :
    Reads (fun u => u.rawbytes [] (UInt32.ofNat s.length)) s s := by
  intro u _ok small inside holds
  have size : (UInt32.ofNat s.length).toNat = s.length := by
    rw [UInt32.toNat_ofNat']
    omega
  change Unmarshall.rawbytes u [] (UInt32.ofNat s.length) = _
  unfold Unmarshall.rawbytes
  dsimp only
  rw [size, Nat.mod_eq_of_lt (by omega), if_neg (by omega)]
  congr 1
  apply List.ext_getElem
  · rw [List.length_map, List.length_range]
  · intro k left right
    rw [List.getElem_map, List.getElem_range, holds k right, List.getElem?_eq_getElem right,
      Option.getD_some]

theorem reads_collect {Item Whole : Type} {element : Unmarshall → Item × Unmarshall}
    (add : Whole → Item → Whole) {encode : Item → List UInt8} (items : List Item)
    (reads : ∀ item ∈ items, Reads element (encode item) item) (whole : Whole) :
    Reads (fun u => Unmarshall.collect element add items.length u whole) (items.flatMap encode)
      (items.foldl add whole) := by
  induction items generalizing whole with
  | nil => exact Reads.pure whole
  | cons item rest ih =>
      have later := ih (fun other member => reads other (List.mem_cons_of_mem item member))
        (add whole item)
      exact Reads.bind
        (fun item u => Unmarshall.collect element add rest.length u (add whole item))
        (reads item List.mem_cons_self) later

theorem reads_sized {Item Whole : Type} {element : Unmarshall → Item × Unmarshall}
    (add : Whole → Item → Whole) {encode : Item → List UInt8} (items : List Item)
    (positive : ∀ item, 0 < (encode item).length)
    (reads : ∀ item ∈ items, Reads element (encode item) item) (whole : Whole) :
    Reads (fun u => Unmarshall.collect element add u.word.1.toNat u.word.2 whole)
      (bytes32 (UInt32.ofNat items.length) ++ items.flatMap encode) (items.foldl add whole) := by
  intro u ok small inside holds
  have few := length_le_flatMap items positive
  have size : (UInt32.ofNat items.length).toNat = items.length := by
    rw [List.length_append] at inside
    rw [UInt32.toNat_ofNat']
    omega
  have elements := reads_collect add items reads whole
  rw [← size] at elements
  exact Reads.bind (fun n u => Unmarshall.collect element add n.toNat u whole) (reads_word _)
    elements u ok small inside holds

theorem foldl_assign {Key Val : Type} {less : Key → Key → Bool} (pairs : List (Key × Val))
    (sorted : pairs.Pairwise (fun left right => less left.1 right.1 = true)) :
    pairs.foldl (fun sofar pair => assign less pair.1 pair.2 sofar) [] = pairs := by
  have last : ∀ (a : Key) (b : Val) (sofar : List (Key × Val)),
      (∀ pair ∈ sofar, less pair.1 a = true) → assign less a b sofar = sofar ++ [(a, b)] := by
    intro a b sofar below
    induction sofar with
    | nil => rfl
    | cons pair rest ih =>
        unfold assign
        rw [if_pos (below pair List.mem_cons_self),
          ih (fun other member => below other (List.mem_cons_of_mem pair member))]
        rfl
  have all : ∀ sofar rest : List (Key × Val),
      (sofar ++ rest).Pairwise (fun left right => less left.1 right.1 = true) →
      rest.foldl (fun sofar pair => assign less pair.1 pair.2 sofar) sofar = sofar ++ rest := by
    intro sofar rest
    induction rest generalizing sofar with
    | nil =>
        intro _sorted
        rw [List.append_nil]
        rfl
    | cons pair rest ih =>
        intro sortedAll
        have below : ∀ other ∈ sofar, less other.1 pair.1 = true :=
          fun other member =>
            (List.pairwise_append.mp sortedAll).2.2 other member pair List.mem_cons_self
        rw [List.foldl_cons, last pair.1 pair.2 sofar below, ih]
        · rw [List.append_assoc]
          rfl
        · rw [List.append_assoc]
          exact sortedAll
  exact all [] pairs sorted

theorem foldl_push {Item : Type} (items sofar : List Item) :
    items.foldl (fun xs x => xs ++ [x]) sofar = sofar ++ items := by
  induction items generalizing sofar with
  | nil => rw [List.append_nil, List.foldl_nil]
  | cons item rest ih =>
      rw [List.foldl_cons, ih, List.append_assoc]
      rfl

private theorem reads_bool (x : Bool) : Reads Ty.bool.unmarshall [x.toUInt8] x := by
  have byte := (reads_rawbyte x.toUInt8).map (fun word => (word != 0 : Bool))
  have same : (x.toUInt8.toInt8.toInt32.toUInt32 != 0 : Bool) = x := by
    cases x <;> rfl
  rw [same] at byte
  exact byte

private theorem reads_unsignedChar (x : UInt8) : Reads Ty.unsignedChar.unmarshall [x] x := by
  have byte := (reads_rawbyte x).map (fun word => word.toUInt8)
  rw [narrow_signed] at byte
  exact byte

private theorem reads_unsignedLongLong (x : UInt64) :
    Reads Ty.unsignedLongLong.unmarshall
      (bytes32 (x >>> 32).toUInt32 ++ bytes32 x.toUInt32) x := by
  intro u ok small inside holds
  rw [holds_append] at holds
  have length : (bytes32 (x >>> 32).toUInt32 ++ bytes32 x.toUInt32).length = 8 := rfl
  rw [length] at inside ⊢
  have high := reads_word _ u ok small (by rw [bytes32_length]; omega) holds.1
  have low := reads_word _ { u with ind := u.ind + 4 } ok small
    (by change u.ind + 4 + 4 ≤ u.sz; omega) holds.2
  rw [bytes32_length] at high low
  unfold Ty.unmarshall
  simp only [high, low, join64, Nat.add_assoc, Nat.reduceAdd]

private theorem reads_string (s : List UInt8) :
    Reads Ty.string.unmarshall (bytes32 (UInt32.ofNat s.length) ++ s) s := by
  intro u ok small inside holds
  have read := Reads.bind (fun sz u => u.rawbytes [] sz)
    (reads_word (UInt32.ofNat s.length)) (reads_rawbytes s) u ok small inside holds
  rw [List.length_append] at inside
  have word := reads_word (UInt32.ofNat s.length) u ok small (by omega) (holds_append.mp holds).1
  change (if u.word.2.ok = true then u.word.2.rawbytes [] u.word.1 else ([], u.word.2)) = _
  rw [if_pos (by rw [word]; exact ok)]
  exact read

private theorem reads_map {key value : Ty} {pairs : List (key.Raw × value.Raw)}
    (readsKey : ∀ pair ∈ pairs, Reads key.unmarshall (key.encode pair.1) pair.1)
    (readsValue : ∀ pair ∈ pairs, Reads value.unmarshall (value.encode pair.2) pair.2)
    (sorted : pairs.Pairwise (fun left right => key.less left.1 right.1 = true)) :
    Reads (Ty.map key value).unmarshall ((Ty.map key value).encode pairs) pairs := by
  have readsPair : ∀ pair ∈ pairs, Reads
      (fun u => (((key.unmarshall u).1, (value.unmarshall (key.unmarshall u).2).1),
        (value.unmarshall (key.unmarshall u).2).2))
      (key.encode pair.1 ++ value.encode pair.2) pair := by
    intro pair member
    exact Reads.bind (fun a u => ((a, (value.unmarshall u).1), (value.unmarshall u).2))
      (readsKey pair member) ((readsValue pair member).map (fun b => (pair.1, b)))
  have read := reads_sized
    (fun sofar (pair : key.Raw × value.Raw) => assign key.less pair.1 pair.2 sofar) pairs
    (fun pair => Nat.lt_of_lt_of_le (key.encode_pos pair.1)
      (List.sublist_append_left _ _).length_le) readsPair []
  rw [foldl_assign pairs sorted] at read
  exact read

private theorem reads_attr (a : FileSystem.Attr) :
    Reads Unmarshall.attr (Ty.attr.encode a) a := by
  intro u ok small inside holds
  have length : (Ty.attr.encode a).length = 20 := rfl
  rw [length] at inside ⊢
  unfold Ty.encode at holds
  rw [holds_append, holds_append, holds_append, holds_append] at holds
  obtain ⟨holds0, holds1, holds2, holds3, holds4⟩ := holds
  have first := word_at ok small (by omega) (show Holds u.buf (u.ind + 0) _ from holds0)
  have second := word_at ok small (by omega) (show Holds u.buf (u.ind + 4) _ from holds1)
  have third := word_at ok small (by omega) (show Holds u.buf (u.ind + 8) _ from holds2)
  have fourth := word_at ok small (by omega) (show Holds u.buf (u.ind + 12) _ from holds3)
  have fifth := word_at ok small (by omega) (show Holds u.buf (u.ind + 16) _ from holds4)
  simp only [Nat.add_zero, Nat.reduceAdd] at first second third fourth fifth
  unfold Unmarshall.attr
  simp only [first, second, third, fourth, fifth]

theorem reads_value (t : Ty) (v : t.Raw) (valid : t.Valid v) :
    Reads t.unmarshall (t.encode v) v := by
  induction t with
  | bool => exact reads_bool v
  | char => exact (reads_unsignedChar (Int8.toUInt8 v)).map UInt8.toInt8
  | unsignedChar => exact reads_unsignedChar v
  | short => exact (reads_half (Int16.toUInt16 v)).map UInt16.toInt16
  | unsignedShort => exact reads_half v
  | int => exact (reads_word (Int32.toUInt32 v)).map UInt32.toInt32
  | unsignedInt => exact reads_word v
  | unsignedLongLong => exact reads_unsignedLongLong v
  | string => exact reads_string v
  | vector element ih =>
      have read := reads_sized (fun (xs : List element.Raw) x => xs ++ [x]) v
        element.encode_pos (fun x member => ih x (valid x member)) []
      have pushed : List.foldl (fun (xs : List element.Raw) x => xs ++ [x]) [] v = v :=
        foldl_push v []
      rw [pushed] at read
      exact read
  | map key value ihKey ihValue =>
      exact reads_map (fun pair member => ihKey pair.1 (valid.2 pair member).1)
        (fun pair member => ihValue pair.2 (valid.2 pair member).2) valid.1
  | attr => exact reads_attr v

end CseLab.Rpc

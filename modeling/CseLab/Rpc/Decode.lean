import CseLab.Lib.Bounds
import CseLab.Rpc.Wire

/-! `operator>>` as a step on a target and a message: what the target holds
before counts, and every request for bytes and every container leaves a note.
Without the notes, and for a fresh target, it is `Ty.unmarshall`. -/

namespace CseLab.Rpc

open Bounds

/-- A request for bytes of the message: whether the branch that reads them was
taken, and `ok()` after it. -/
structure Ask where
  access : Access
  reads : Bool
  ok : Bool
deriving DecidableEq

/-- A container: the count in front of it, the bytes that remained behind the
count, and how many elements were decoded and added. -/
structure ContainerNote where
  announced : Nat
  remaining : Nat
  decoded : Nat
  appended : Nat
deriving DecidableEq

structure Decoding where
  u : Unmarshall
  asks : List Ask
  containers : List ContainerNote

def Decoding.start (u : Unmarshall) : Decoding := { u := u, asks := [], containers := [] }

def Decoding.ask (d : Decoding) (count : Nat) (reads : Bool) (u : Unmarshall) : Decoding :=
  { d with
    u := u
    asks := d.asks ++
      [{ access := { offset := d.u.ind, count := count, capacity := d.u.sz }
         reads := reads
         ok := u.ok }] }

def Decoding.note (d : Decoding) (c : ContainerNote) : Decoding :=
  { d with containers := d.containers ++ [c] }

def Decoding.seek (d : Decoding) (ind : Nat) : Decoding := { d with u := { d.u with ind := ind } }

/-! ### Operators -/

def Decoding.rawbyte (d : Decoding) : UInt32 × Decoding :=
  (d.u.rawbyte.1, d.ask 1 (decide (¬d.u.sz ≤ d.u.ind)) d.u.rawbyte.2)

def Decoding.rawbytes (d : Decoding) (ss : List UInt8) (n : UInt32) : List UInt8 × Decoding :=
  ((d.u.rawbytes ss n).1,
    d.ask n.toNat (decide (¬d.u.sz < (d.u.ind + n.toNat) % 2 ^ 32)) (d.u.rawbytes ss n).2)

def Decoding.word (d : Decoding) : UInt32 × Decoding :=
  let (b3, d) := d.rawbyte
  let (b2, d) := d.rawbyte
  let (b1, d) := d.rawbyte
  let (b0, d) := d.rawbyte
  ((b3 &&& 0xff) <<< 24 ||| (b2 &&& 0xff) <<< 16 ||| (b1 &&& 0xff) <<< 8 ||| (b0 &&& 0xff), d)

def Decoding.half (d : Decoding) : UInt16 × Decoding :=
  let (b1, d) := d.rawbyte
  let (b0, d) := d.rawbyte
  ((((b1 &&& 0xff) <<< 8).toUInt16.toUInt32 ||| (b0 &&& 0xff)).toUInt16, d)

def Decoding.longLong (d : Decoding) : UInt64 × Decoding :=
  let (h, d) := d.word
  let (l, d) := d.word
  (l.toUInt64 ||| h.toUInt64 <<< 32, d)

def Decoding.string (d : Decoding) (s : List UInt8) : List UInt8 × Decoding :=
  let (sz, d) := d.word
  if d.u.ok then d.rawbytes s sz else (s, d)

def Decoding.attr (d : Decoding) : FileSystem.Attr × Decoding :=
  let (type, d) := d.word
  let (atime, d) := d.word
  let (mtime, d) := d.word
  let (ctime, d) := d.word
  let (size, d) := d.word
  ({ type, atime, mtime, ctime, size }, d)

def Decoding.collect {Item Whole : Type} (element : Decoding → Item × Decoding)
    (add : Whole → Item → Whole) : (count : Nat) → Decoding → Whole → Nat → Whole × Nat × Decoding
  | 0, d, whole, decoded => (whole, decoded, d)
  | count + 1, d, whole, decoded =>
      let (item, d) := element d
      Decoding.collect element add count d (add whole item) (decoded + 1)

def Decoding.sized {Item : Type} (element : Decoding → Item × Decoding)
    (add : List Item → Item → List Item) (before : List Item) (d : Decoding) :
    List Item × Decoding :=
  let (n, d) := d.word
  let (after, decoded, rest) := Decoding.collect element add n.toNat d before 0
  (after, rest.note
    { announced := n.toNat
      remaining := d.u.sz - d.u.ind
      decoded := decoded
      appended := after.length - before.length })

/-- A variable without an initial value; for one that has no constructor the
value stands for any. -/
def Ty.fresh : (t : Ty) → t.Raw
  | .bool => false
  | .char => (0 : Int8)
  | .unsignedChar => (0 : UInt8)
  | .short => (0 : Int16)
  | .unsignedShort => (0 : UInt16)
  | .int => (0 : Int32)
  | .unsignedInt => (0 : UInt32)
  | .unsignedLongLong => (0 : UInt64)
  | .string => ([] : List UInt8)
  | .vector element => ([] : List element.Raw)
  | .map key value => ([] : List (key.Raw × value.Raw))
  | .attr => ({ type := 0, atime := 0, mtime := 0, ctime := 0, size := 0 } : FileSystem.Attr)

/-- `operator>>`: a string is swapped in, a map is cleared first, and a vector is
pushed to as it is. Elements go into local variables. -/
def Ty.decode : (t : Ty) → t.Raw → Decoding → t.Raw × Decoding
  | .bool => fun _ d => ((d.rawbyte.1 != 0 : Bool), d.rawbyte.2)
  | .char => fun _ d => (d.rawbyte.1.toUInt8.toInt8, d.rawbyte.2)
  | .unsignedChar => fun _ d => (d.rawbyte.1.toUInt8, d.rawbyte.2)
  | .short => fun _ d => (d.half.1.toInt16, d.half.2)
  | .unsignedShort => fun _ d => d.half
  | .int => fun _ d => (d.word.1.toInt32, d.word.2)
  | .unsignedInt => fun _ d => d.word
  | .unsignedLongLong => fun _ d => d.longLong
  | .string => fun (s : List UInt8) d => d.string s
  | .vector element => fun (v : List element.Raw) d =>
      Decoding.sized (element.decode element.fresh) (fun xs x => xs ++ [x]) v d
  | .map key value => fun _ d =>
      Decoding.sized
        (fun d =>
          let (a, d) := key.decode key.fresh d
          let (b, d) := value.decode value.fresh d
          ((a, b), d))
        (fun pairs (pair : key.Raw × value.Raw) => assign key.less pair.1 pair.2 pairs) [] d
  | .attr => fun _ d => d.attr

theorem Decoding.word_snd (d : Decoding) :
    d.word.2 = d.rawbyte.2.rawbyte.2.rawbyte.2.rawbyte.2 := by
  unfold Decoding.word
  dsimp only

theorem Decoding.half_snd (d : Decoding) : d.half.2 = d.rawbyte.2.rawbyte.2 := by
  unfold Decoding.half
  dsimp only

theorem Decoding.longLong_snd (d : Decoding) : d.longLong.2 = d.word.2.word.2 := by
  unfold Decoding.longLong
  dsimp only

theorem Decoding.attr_snd (d : Decoding) :
    d.attr.2 = d.word.2.word.2.word.2.word.2.word.2 := by
  unfold Decoding.attr
  dsimp only

/-! ### Without the notes -/

theorem Ty.unmarshall_vector (element : Ty) (u : Unmarshall) :
    (Ty.vector element).unmarshall u =
      Unmarshall.collect element.unmarshall (fun (xs : List element.Raw) x => xs ++ [x])
        u.word.1.toNat u.word.2 [] := by
  conv_lhs => unfold Ty.unmarshall
  dsimp only
  rfl

theorem Ty.unmarshall_map (key value : Ty) (u : Unmarshall) :
    (Ty.map key value).unmarshall u =
      Unmarshall.collect
        (fun u => (((key.unmarshall u).1, (value.unmarshall (key.unmarshall u).2).1),
          (value.unmarshall (key.unmarshall u).2).2))
        (fun pairs (pair : key.Raw × value.Raw) => assign key.less pair.1 pair.2 pairs)
        u.word.1.toNat u.word.2 [] := by
  conv_lhs => unfold Ty.unmarshall
  dsimp only
  rfl

def Unmarshall.string (u : Unmarshall) (s : List UInt8) : List UInt8 × Unmarshall :=
  let (sz, u) := u.word
  if u.ok then u.rawbytes s sz else (s, u)

/-- One operator does what another does, apart from the notes. -/
def Follows {Item : Type} (element : Decoding → Item × Decoding)
    (plain : Unmarshall → Item × Unmarshall) : Prop :=
  ∀ d, (element d).1 = (plain d.u).1 ∧ (element d).2.u = (plain d.u).2

theorem Follows.map {Item Image : Type} {element : Decoding → Item × Decoding}
    {plain : Unmarshall → Item × Unmarshall} (follows : Follows element plain)
    (f : Item → Image) :
    Follows (fun d => (f (element d).1, (element d).2)) (fun u => (f (plain u).1, (plain u).2)) :=
  fun d => ⟨congrArg f (follows d).1, (follows d).2⟩

theorem follows_rawbyte : Follows Decoding.rawbyte Unmarshall.rawbyte := fun _d => ⟨rfl, rfl⟩

theorem follows_rawbytes (ss : List UInt8) (n : UInt32) :
    Follows (fun d => d.rawbytes ss n) (fun u => u.rawbytes ss n) := fun _d => ⟨rfl, rfl⟩

theorem follows_word : Follows Decoding.word Unmarshall.word := by
  intro d
  unfold Decoding.word Unmarshall.word
  dsimp only
  simp only [(follows_rawbyte _).1, (follows_rawbyte _).2, and_self]

theorem follows_half : Follows Decoding.half Unmarshall.half := by
  intro d
  unfold Decoding.half Unmarshall.half
  dsimp only
  simp only [(follows_rawbyte _).1, (follows_rawbyte _).2, and_self]

theorem follows_longLong : Follows Decoding.longLong Ty.unsignedLongLong.unmarshall := by
  intro d
  unfold Decoding.longLong Ty.unmarshall
  dsimp only
  simp only [(follows_word _).1, (follows_word _).2, and_self]

theorem follows_attr : Follows Decoding.attr Unmarshall.attr := by
  intro d
  unfold Decoding.attr Unmarshall.attr
  dsimp only
  simp only [(follows_word _).1, (follows_word _).2, and_self]

section Collect

variable {Item Whole : Type} {element : Decoding → Item × Decoding}
  {plain : Unmarshall → Item × Unmarshall}

theorem Follows.collect (follows : Follows element plain) (add : Whole → Item → Whole)
    (count : Nat) (d : Decoding) (whole : Whole) (decoded : Nat) :
    (Decoding.collect element add count d whole decoded).1 =
        (Unmarshall.collect plain add count d.u whole).1 ∧
      (Decoding.collect element add count d whole decoded).2.2.u =
        (Unmarshall.collect plain add count d.u whole).2 := by
  induction count generalizing d whole decoded with
  | zero => exact ⟨rfl, rfl⟩
  | succ count ih =>
      obtain ⟨value, rest⟩ := follows d
      unfold Decoding.collect Unmarshall.collect
      dsimp only
      rw [← value, ← rest]
      exact ih (element d).2 (add whole (element d).1) (decoded + 1)

theorem Follows.sized (follows : Follows element plain) (add : List Item → Item → List Item)
    (before : List Item) :
    Follows (Decoding.sized element add before)
      (fun u => Unmarshall.collect plain add u.word.1.toNat u.word.2 before) := by
  intro d
  obtain ⟨size, rest⟩ := follows_word d
  unfold Decoding.sized
  dsimp only
  rw [← size, ← rest]
  exact follows.collect add d.word.1.toNat d.word.2 before 0

theorem Decoding.collect_decoded (element : Decoding → Item × Decoding)
    (add : Whole → Item → Whole) (count : Nat) (d : Decoding) (whole : Whole) (decoded : Nat) :
    (Decoding.collect element add count d whole decoded).2.1 = decoded + count := by
  induction count generalizing d whole decoded with
  | zero => rfl
  | succ count ih =>
      unfold Decoding.collect
      dsimp only
      rw [ih]
      omega

theorem Unmarshall.collect_push (plain : Unmarshall → Item × Unmarshall) (count : Nat)
    (u : Unmarshall) (before : List Item) :
    Unmarshall.collect plain (fun xs x => xs ++ [x]) count u before =
      (before ++ (Unmarshall.collect plain (fun xs x => xs ++ [x]) count u []).1,
        (Unmarshall.collect plain (fun xs x => xs ++ [x]) count u []).2) := by
  induction count generalizing u before with
  | zero =>
      unfold Unmarshall.collect
      rw [List.append_nil]
  | succ count ih =>
      unfold Unmarshall.collect
      dsimp only
      rw [ih _ (before ++ [(plain u).1]), ih _ ([] ++ [(plain u).1]), List.nil_append,
        List.append_assoc]

end Collect

theorem follows_string (s : List UInt8) :
    Follows (fun d => d.string s) (fun u => u.string s) := by
  intro d
  obtain ⟨size, rest⟩ := follows_word d
  unfold Decoding.string Unmarshall.string
  dsimp only
  rw [size, ← rest]
  split
  · exact follows_rawbytes s _ d.word.2
  · exact ⟨rfl, rfl⟩

theorem Follows.pair {First Second : Type} {first : Decoding → First × Decoding}
    {plainFirst : Unmarshall → First × Unmarshall} {second : Decoding → Second × Decoding}
    {plainSecond : Unmarshall → Second × Unmarshall} (follows : Follows first plainFirst)
    (followsSecond : Follows second plainSecond) :
    Follows (fun d => (((first d).1, (second (first d).2).1), (second (first d).2).2))
      (fun u => (((plainFirst u).1, (plainSecond (plainFirst u).2).1),
        (plainSecond (plainFirst u).2).2)) := by
  intro d
  obtain ⟨value, middle⟩ := follows d
  obtain ⟨second, last⟩ := followsSecond (first d).2
  rw [middle] at second last
  exact ⟨Prod.ext value second, last⟩

theorem follows_fresh (t : Ty) : Follows (t.decode t.fresh) t.unmarshall := by
  induction t with
  | bool => exact follows_rawbyte.map (fun b => (b != 0 : Bool))
  | char => exact follows_rawbyte.map (fun b => b.toUInt8.toInt8)
  | unsignedChar => exact follows_rawbyte.map UInt32.toUInt8
  | short => exact follows_half.map UInt16.toInt16
  | unsignedShort => exact follows_half
  | int => exact follows_word.map UInt32.toInt32
  | unsignedInt => exact follows_word
  | unsignedLongLong => exact follows_longLong
  | attr => exact follows_attr
  | string => exact follows_string []
  | vector element ih =>
      rw [funext element.unmarshall_vector]
      exact ih.sized _ []
  | map key value ihKey ihValue =>
      rw [funext (key.unmarshall_map value)]
      exact (ihKey.pair ihValue).sized _ []

theorem Unmarshall.string_snd (u : Unmarshall) (s : List UInt8) :
    (u.string s).2 = (u.string []).2 := by
  unfold Unmarshall.string
  dsimp only
  split
  · unfold Unmarshall.rawbytes
    dsimp only
    split
    · rfl
    · rfl
  · rfl

theorem Follows.push {Item : Type} {element : Decoding → Item × Decoding}
    {plain : Unmarshall → Item × Unmarshall} (follows : Follows element plain)
    (before : List Item) (d : Decoding) :
    (Decoding.sized element (fun xs x => xs ++ [x]) before d).1 =
        before ++ (Unmarshall.collect plain (fun xs x => xs ++ [x]) d.u.word.1.toNat
          d.u.word.2 []).1 ∧
      (Decoding.sized element (fun xs x => xs ++ [x]) before d).2.u =
        (Unmarshall.collect plain (fun xs x => xs ++ [x]) d.u.word.1.toNat d.u.word.2 []).2 := by
  have sized := follows.sized (fun xs x => xs ++ [x]) before d
  dsimp only at sized
  rw [Unmarshall.collect_push] at sized
  exact sized

def Ty.received : (t : Ty) → t.Raw → Unmarshall → t.Raw
  | .string => fun (s : List UInt8) u => (u.string s).1
  | .vector element => fun (v : List element.Raw) u =>
      let pushed : List element.Raw := ((Ty.vector element).unmarshall u).1
      v ++ pushed
  | t => fun _ u => (t.unmarshall u).1

/-- Decoding into any target moves through the message in the same way. -/
theorem decode_eq (t : Ty) (target : t.Raw) (d : Decoding) :
    (t.decode target d).1 = t.received target d.u ∧
      (t.decode target d).2.u = (t.unmarshall d.u).2 := by
  cases t with
  | bool => exact follows_fresh .bool d
  | char => exact follows_fresh .char d
  | unsignedChar => exact follows_fresh .unsignedChar d
  | short => exact follows_fresh .short d
  | unsignedShort => exact follows_fresh .unsignedShort d
  | int => exact follows_fresh .int d
  | unsignedInt => exact follows_fresh .unsignedInt d
  | unsignedLongLong => exact follows_fresh .unsignedLongLong d
  | map key value => exact follows_fresh (.map key value) d
  | attr => exact follows_fresh .attr d
  | string =>
      obtain ⟨value, rest⟩ := follows_string target d
      exact ⟨value, rest.trans (d.u.string_snd target)⟩
  | vector element =>
      unfold Ty.received
      dsimp only
      rw [element.unmarshall_vector]
      exact (follows_fresh element).push target d

/-! ### Lengths in a message -/

def Every (each : Unmarshall → Prop) (next : Unmarshall → Unmarshall) :
    (count : Nat) → Unmarshall → Prop
  | 0, _ => True
  | count + 1, u => each u ∧ Every each next count (next u)

/-- Something of the length of every string, and of the count of every container,
with the message behind it. A string whose length is cut off is not looked at. -/
def Ty.Lengths (onString onCount : Nat → Unmarshall → Prop) : Ty → Unmarshall → Prop
  | .string => fun u => u.word.2.ok = true → onString u.word.1.toNat u.word.2
  | .vector element => fun u =>
      onCount u.word.1.toNat u.word.2 ∧
        Every (element.Lengths onString onCount) (fun u => (element.unmarshall u).2)
          u.word.1.toNat u.word.2
  | .map key value => fun u =>
      onCount u.word.1.toNat u.word.2 ∧
        Every
          (fun u => key.Lengths onString onCount u ∧
            value.Lengths onString onCount (key.unmarshall u).2)
          (fun u => (value.unmarshall (key.unmarshall u).2).2) u.word.1.toNat u.word.2
  | _ => fun _ => True

/-- The facts `invariant` of every decoding are kept, and the facts `sees` about
its notes come down to facts about the lengths in the message. -/
structure Observer (invariant sees : Decoding → Prop)
    (onString onCount : Nat → Unmarshall → Prop) : Prop where
  byte : ∀ d, invariant d → invariant d.rawbyte.2 ∧ (sees d.rawbyte.2 ↔ sees d)
  bytes : ∀ d ss n, invariant d → d.u.ok = true → d.u.ind ≤ d.u.sz →
    invariant (d.rawbytes ss n).2 ∧ (sees (d.rawbytes ss n).2 ↔ sees d ∧ onString n.toNat d.u)
  note : ∀ d c (u : Unmarshall), invariant d → c.remaining = u.sz - u.ind →
    c.decoded = c.announced →
    invariant (d.note c) ∧ (sees (d.note c) ↔ sees d ∧ onCount c.announced u)
  seek : ∀ d ind, invariant d → invariant (d.seek ind) ∧ (sees (d.seek ind) ↔ sees d)

/-- What an operator does to the facts of an observer. -/
def Observed {Item : Type} (invariant sees : Decoding → Prop)
    (element : Decoding → Item × Decoding) (each : Unmarshall → Prop) : Prop :=
  ∀ d, invariant d → invariant (element d).2 ∧ (sees (element d).2 ↔ sees d ∧ each d.u)

section Observed

variable {invariant sees : Decoding → Prop} {onString onCount : Nat → Unmarshall → Prop}

theorem Observed.silent {Item : Type} {element : Decoding → Item × Decoding}
    (kept : ∀ d, invariant d → invariant (element d).2 ∧ (sees (element d).2 ↔ sees d)) :
    Observed invariant sees element (fun _ => True) := by
  intro d holds
  rw [and_true]
  exact kept d holds

theorem Observer.word (observer : Observer invariant sees onString onCount) (d : Decoding)
    (holds : invariant d) : invariant d.word.2 ∧ (sees d.word.2 ↔ sees d) := by
  rw [Decoding.word_snd]
  obtain ⟨first, sees1⟩ := observer.byte d holds
  obtain ⟨second, sees2⟩ := observer.byte _ first
  obtain ⟨third, sees3⟩ := observer.byte _ second
  obtain ⟨fourth, sees4⟩ := observer.byte _ third
  exact ⟨fourth, sees4.trans (sees3.trans (sees2.trans sees1))⟩

theorem Observed.map {Item Image : Type} {element : Decoding → Item × Decoding}
    {each : Unmarshall → Prop} (observed : Observed invariant sees element each)
    (f : Item → Image) :
    Observed invariant sees (fun d => (f (element d).1, (element d).2)) each := observed

theorem Observer.half (observer : Observer invariant sees onString onCount) (d : Decoding)
    (holds : invariant d) : invariant d.half.2 ∧ (sees d.half.2 ↔ sees d) := by
  rw [Decoding.half_snd]
  obtain ⟨first, sees1⟩ := observer.byte d holds
  obtain ⟨second, sees2⟩ := observer.byte _ first
  exact ⟨second, sees2.trans sees1⟩

theorem Observer.longLong (observer : Observer invariant sees onString onCount) (d : Decoding)
    (holds : invariant d) : invariant d.longLong.2 ∧ (sees d.longLong.2 ↔ sees d) := by
  rw [Decoding.longLong_snd]
  obtain ⟨first, sees1⟩ := observer.word d holds
  obtain ⟨second, sees2⟩ := observer.word _ first
  exact ⟨second, sees2.trans sees1⟩

theorem Observer.attr (observer : Observer invariant sees onString onCount) (d : Decoding)
    (holds : invariant d) : invariant d.attr.2 ∧ (sees d.attr.2 ↔ sees d) := by
  rw [Decoding.attr_snd]
  obtain ⟨first, sees1⟩ := observer.word d holds
  obtain ⟨second, sees2⟩ := observer.word _ first
  obtain ⟨third, sees3⟩ := observer.word _ second
  obtain ⟨fourth, sees4⟩ := observer.word _ third
  obtain ⟨fifth, sees5⟩ := observer.word _ fourth
  exact ⟨fifth, sees5.trans (sees4.trans (sees3.trans (sees2.trans sees1)))⟩

theorem Unmarshall.rawbyte_inside (u : Unmarshall) (ok : u.rawbyte.2.ok = true) :
    u.rawbyte.2.ind ≤ u.rawbyte.2.sz := by
  unfold Unmarshall.rawbyte at ok ⊢
  split at ok
  · cases ok
  · rename_i inside
    rw [if_neg inside]
    exact Nat.lt_of_not_le inside

theorem Decoding.word_inside (d : Decoding) (ok : d.word.2.u.ok = true) :
    d.word.2.u.ind ≤ d.word.2.u.sz := by
  rw [Decoding.word_snd] at ok ⊢
  exact Unmarshall.rawbyte_inside _ ok

theorem Observer.string (observer : Observer invariant sees onString onCount) (s : List UInt8) :
    Observed invariant sees (fun d => d.string s) (Ty.string.Lengths onString onCount) := by
  intro d holds
  obtain ⟨size, rest⟩ := follows_word d
  obtain ⟨kept, same⟩ := observer.word d holds
  have lengths : Ty.string.Lengths onString onCount d.u ↔
      (d.word.2.u.ok = true → onString d.word.1.toNat d.word.2.u) := by
    rw [size, rest]
    exact Iff.rfl
  rw [lengths]
  unfold Decoding.string
  dsimp only
  split
  · rename_i ok
    obtain ⟨keptBytes, sameBytes⟩ :=
      observer.bytes d.word.2 s d.word.1 kept ok (d.word_inside ok)
    refine ⟨keptBytes, sameBytes.trans (and_congr same ?_)⟩
    exact ⟨fun fits _ok => fits, fun fits => fits ok⟩
  · rename_i cut
    exact ⟨kept, same.trans (iff_self_and.mpr fun _ ok => absurd ok cut)⟩

theorem Observed.collect {Item Whole : Type} {element : Decoding → Item × Decoding}
    {plain : Unmarshall → Item × Unmarshall} {each : Unmarshall → Prop}
    (observed : Observed invariant sees element each) (follows : Follows element plain)
    (add : Whole → Item → Whole) (count : Nat) (d : Decoding) (whole : Whole) (decoded : Nat)
    (holds : invariant d) :
    invariant (Decoding.collect element add count d whole decoded).2.2 ∧
      (sees (Decoding.collect element add count d whole decoded).2.2 ↔
        sees d ∧ Every each (fun u => (plain u).2) count d.u) := by
  induction count generalizing d whole decoded with
  | zero => exact ⟨holds, (and_iff_left trivial).symm⟩
  | succ count ih =>
      obtain ⟨kept, first⟩ := observed d holds
      obtain ⟨rest, later⟩ := ih (element d).2 (add whole (element d).1) (decoded + 1) kept
      refine ⟨rest, later.trans ?_⟩
      rw [first, (follows d).2, and_assoc]
      rfl

theorem Observer.sized (observer : Observer invariant sees onString onCount) {Item : Type}
    {element : Decoding → Item × Decoding} {plain : Unmarshall → Item × Unmarshall}
    {each : Unmarshall → Prop} (observed : Observed invariant sees element each)
    (follows : Follows element plain) (add : List Item → Item → List Item)
    (before : List Item) :
    Observed invariant sees (Decoding.sized element add before)
      (fun u => onCount u.word.1.toNat u.word.2 ∧
        Every each (fun u => (plain u).2) u.word.1.toNat u.word.2) := by
  intro d holds
  obtain ⟨size, rest⟩ := follows_word d
  obtain ⟨kept, same⟩ := observer.word d holds
  obtain ⟨keptLoop, sameLoop⟩ := observed.collect follows add d.word.1.toNat d.word.2 before 0 kept
  have decoded := Decoding.collect_decoded element add d.word.1.toNat d.word.2 before 0
  rw [Nat.zero_add] at decoded
  obtain ⟨keptNote, sameNote⟩ := observer.note _
    { announced := d.word.1.toNat
      remaining := d.word.2.u.sz - d.word.2.u.ind
      decoded := (Decoding.collect element add d.word.1.toNat d.word.2 before 0).2.1
      appended :=
        (Decoding.collect element add d.word.1.toNat d.word.2 before 0).1.length - before.length }
    d.word.2.u keptLoop rfl decoded
  refine ⟨keptNote, sameNote.trans ?_⟩
  rw [sameLoop, same]
  dsimp only
  rw [← size, ← rest, and_assoc]
  exact and_congr_right fun _ => and_comm

theorem Observer.decode (observer : Observer invariant sees onString onCount) (t : Ty) :
    ∀ target, Observed invariant sees (t.decode target) (t.Lengths onString onCount) := by
  induction t with
  | bool => exact fun _ => (Observed.silent observer.byte).map (fun b => (b != 0 : Bool))
  | char => exact fun _ => (Observed.silent observer.byte).map (fun b => b.toUInt8.toInt8)
  | unsignedChar => exact fun _ => (Observed.silent observer.byte).map UInt32.toUInt8
  | short => exact fun _ => (Observed.silent observer.half).map UInt16.toInt16
  | unsignedShort => exact fun _ => Observed.silent observer.half
  | int => exact fun _ => (Observed.silent observer.word).map UInt32.toInt32
  | unsignedInt => exact fun _ => Observed.silent observer.word
  | unsignedLongLong => exact fun _ => Observed.silent observer.longLong
  | attr => exact fun _ => Observed.silent observer.attr
  | string => exact observer.string
  | vector element ih =>
      intro target
      exact observer.sized (ih element.fresh) (follows_fresh element) _ target
  | map key value ihKey ihValue =>
      intro _
      refine observer.sized ?_ ((follows_fresh key).pair (follows_fresh value)) _ []
      intro d holds
      obtain ⟨first, sees1⟩ := ihKey key.fresh d holds
      obtain ⟨second, sees2⟩ := ihValue value.fresh _ first
      refine ⟨second, sees2.trans ?_⟩
      rw [sees1, (follows_fresh key d).2, and_assoc]

end Observed

end CseLab.Rpc

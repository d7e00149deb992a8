import CseLab.Lib.OrderedWindow
import CseLab.Rpc.Message

/-! `reply_window_`: what a server remembers of one client. -/

namespace CseLab.Rpc

open OrderedWindow

/-- A duplicate is of an RPC that is still processed, of one that was replied to (the
reply is there), or of an old one whose reply has been forgotten. -/
inductive RpcState where
  | new
  | inProgress
  | done
  | forgotten
deriving DecidableEq

/-- State about an in-progress or completed RPC; `buf` is NULL or has the reply. -/
structure ReplyT where
  xid : Nat
  cbPresent : Bool
  buf : Option Reply
deriving DecidableEq

def ReplyT.start (xid : Nat) : ReplyT := { xid := xid, cbPresent := false, buf := none }

/-- `checkduplicate_and_update` on the list of one client: the state returned,
the reply for DONE, and the list afterwards. -/
def checkduplicateAndUpdate (rlist : List ReplyT) (xid xidRep : Nat) :
    RpcState × Option Reply × List ReplyT :=
  match rlist.find? (fun r => r.xid = xid) with
  | some r => if r.cbPresent then (.done, r.buf, rlist) else (.inProgress, none, rlist)
  | none =>
      if rlist.head?.any (fun front => xid < front.xid) then (.forgotten, none, rlist)
      else
        (.new, none,
          (insertByKey ReplyT.xid (ReplyT.start xid) rlist).dropWhile
            (fun r => decide (r.xid < xidRep)))

def addReply (rlist : List ReplyT) (xid : Nat) (b : Option Reply) : List ReplyT :=
  rlist.map (fun r => if r.xid = xid then { r with buf := b, cbPresent := true } else r)

/-- What `checkduplicate_and_update` can answer, and why. -/
inductive Checked (rlist : List ReplyT) (xid xidRep : Nat) :
    RpcState → Option Reply → List ReplyT → Prop
  | done (r : ReplyT) (member : r ∈ rlist) (same : r.xid = xid) (present : r.cbPresent = true) :
      Checked rlist xid xidRep .done r.buf rlist
  | inProgress (r : ReplyT) (member : r ∈ rlist) (same : r.xid = xid)
      (absent : r.cbPresent = false) : Checked rlist xid xidRep .inProgress none rlist
  | forgotten (front : ReplyT) (unknown : ∀ r ∈ rlist, r.xid ≠ xid)
      (first : rlist.head? = some front) (below : xid < front.xid) :
      Checked rlist xid xidRep .forgotten none rlist
  | new (unknown : ∀ r ∈ rlist, r.xid ≠ xid)
      (inside : ∀ front, rlist.head? = some front → front.xid ≤ xid) :
      Checked rlist xid xidRep .new none
        ((insertByKey ReplyT.xid (ReplyT.start xid) rlist).dropWhile
          (fun r => decide (r.xid < xidRep)))

theorem checkduplicateAndUpdate_spec (rlist : List ReplyT) (xid xidRep : Nat) :
    Checked rlist xid xidRep (checkduplicateAndUpdate rlist xid xidRep).1
      (checkduplicateAndUpdate rlist xid xidRep).2.1
      (checkduplicateAndUpdate rlist xid xidRep).2.2 := by
  unfold checkduplicateAndUpdate
  cases found : rlist.find? (fun r => r.xid = xid) with
  | some r =>
      have member := List.mem_of_find?_eq_some found
      have same : r.xid = xid :=
        of_decide_eq_true (List.find?_some (p := fun r : ReplyT => decide (r.xid = xid)) found)
      dsimp only
      cases present : r.cbPresent with
      | true => exact .done r member same present
      | false => exact .inProgress r member same present
  | none =>
      have unknown : ∀ r ∈ rlist, r.xid ≠ xid := by
        intro r member same
        exact absurd (decide_eq_true same) (List.find?_eq_none.mp found r member)
      dsimp only
      cases first : rlist.head? with
      | none =>
          refine .new unknown ?_
          intro front here
          cases here.symm.trans first
      | some front =>
          by_cases below : xid < front.xid
          · have any : (some front).any (fun front => decide (xid < front.xid)) = true :=
              decide_eq_true below
            rw [any]
            exact .forgotten front unknown first below
          · have any : (some front).any (fun front => decide (xid < front.xid)) = false :=
              decide_eq_false below
            rw [any]
            refine .new unknown ?_
            intro other here
            cases here.symm.trans first
            exact not_lt.mp below

/-! ### The order of a window -/

def Ordered (rlist : List ReplyT) : Prop := rlist.Pairwise (fun a b => a.xid < b.xid)

theorem mem_inserted {rlist : List ReplyT} {xid xidRep : Nat} {r : ReplyT}
    (ordered : Ordered rlist) :
    r ∈ (insertByKey ReplyT.xid (ReplyT.start xid) rlist).dropWhile
        (fun r => decide (r.xid < xidRep)) ↔
      (r = ReplyT.start xid ∨ r ∈ rlist) ∧ xidRep ≤ r.xid := by
  rw [mem_dropWhile_lt (insertByKey_sorted ReplyT.xid _ (strict_sorted ReplyT.xid ordered)), mem_insertByKey]

theorem Ordered.inserted {rlist : List ReplyT} {xid : Nat} (ordered : Ordered rlist)
    (unknown : ∀ r ∈ rlist, r.xid ≠ xid) (xidRep : Nat) :
    Ordered ((insertByKey ReplyT.xid (ReplyT.start xid) rlist).dropWhile
      (fun r => decide (r.xid < xidRep))) :=
  (insertByKey_strict ReplyT.xid ordered unknown).sublist (List.dropWhile_sublist _)

theorem addReply_xids (rlist : List ReplyT) (xid : Nat) (b : Option Reply) :
    (addReply rlist xid b).map ReplyT.xid = rlist.map ReplyT.xid := by
  unfold addReply
  rw [List.map_map]
  apply List.map_congr_left
  intro r _member
  change ReplyT.xid (if r.xid = xid then _ else r) = r.xid
  split
  · rfl
  · rfl

theorem Ordered.addReply {rlist : List ReplyT} (ordered : Ordered rlist) (xid : Nat)
    (b : Option Reply) : Ordered (addReply rlist xid b) := by
  have pairs : (rlist.map ReplyT.xid).Pairwise (fun a b => a < b) := List.pairwise_map.mpr ordered
  rw [← addReply_xids rlist xid b] at pairs
  exact List.pairwise_map.mp pairs

theorem mem_addReply {rlist : List ReplyT} {xid : Nat} {b : Option Reply} {r : ReplyT}
    (member : r ∈ addReply rlist xid b) :
    (r.xid = xid ∧ r.cbPresent = true ∧ r.buf = b) ∨ (r ∈ rlist ∧ r.xid ≠ xid) := by
  obtain ⟨before, inside, rfl⟩ := List.mem_map.mp member
  by_cases same : before.xid = xid
  · rw [if_pos same]
    exact Or.inl ⟨same, rfl, rfl⟩
  · rw [if_neg same]
    exact Or.inr ⟨inside, same⟩

theorem mem_addReply_self {rlist : List ReplyT} {b : Option Reply} {r : ReplyT}
    (member : r ∈ rlist) :
    { r with buf := b, cbPresent := true } ∈ addReply rlist r.xid b :=
  List.mem_map.mpr ⟨r, member, if_pos rfl⟩

theorem exists_xid_of_mem_addReply {rlist : List ReplyT} {xid : Nat} {b : Option Reply}
    {r : ReplyT} (member : r ∈ addReply rlist xid b) : ∃ q ∈ rlist, q.xid = r.xid := by
  have number := List.mem_map_of_mem (f := ReplyT.xid) member
  rw [addReply_xids] at number
  exact List.mem_map.mp number

/-! ### What a window covers -/

/-- An xid that the window still has, or that lies below its front. -/
def Covers (rlist : List ReplyT) (xid : Nat) : Prop :=
  ∃ front, rlist.head? = some front ∧ (xid < front.xid ∨ xid ∈ rlist.map ReplyT.xid)

theorem covers_addReply {rlist : List ReplyT} {xid x : Nat} {b : Option Reply} :
    Covers (addReply rlist xid b) x ↔ Covers rlist x := by
  unfold Covers
  rw [addReply_xids]
  cases rlist with
  | nil => rfl
  | cons head tail =>
      have sameHead : (if head.xid = xid then
          { head with buf := b, cbPresent := true } else head : ReplyT).xid = head.xid := by
        split
        · rfl
        · rfl
      constructor
      · rintro ⟨front, first, position⟩
        cases first
        rw [sameHead] at position
        exact ⟨head, rfl, position⟩
      · rintro ⟨front, first, position⟩
        cases first
        refine ⟨_, rfl, ?_⟩
        rw [sameHead]
        exact position

theorem Ordered.head_le {rlist : List ReplyT} {front r : ReplyT} (ordered : Ordered rlist)
    (first : rlist.head? = some front) (member : r ∈ rlist) : front.xid ≤ r.xid :=
  OrderedWindow.head_le (strict_sorted ReplyT.xid ordered) first member

/-- A request that acknowledges less than its own xid never empties the window,
and everything covered stays covered. -/
theorem Covers.inserted {rlist : List ReplyT} {xid xidRep x : Nat} (ordered : Ordered rlist)
    (inside : ∀ front, rlist.head? = some front → front.xid ≤ xid) (below : xidRep < xid)
    (covered : x = xid ∨ Covers rlist x) :
    Covers ((insertByKey ReplyT.xid (ReplyT.start xid) rlist).dropWhile
      (fun r => decide (r.xid < xidRep))) x := by
  have own : ReplyT.start xid ∈ (insertByKey ReplyT.xid (ReplyT.start xid) rlist).dropWhile
      (fun r => decide (r.xid < xidRep)) :=
    (mem_inserted ordered).mpr ⟨Or.inl rfl, below.le⟩
  obtain ⟨front, first⟩ :=
    Option.isSome_iff_exists.mp (List.isSome_head?.mpr (List.ne_nil_of_mem own))
  refine ⟨front, first, ?_⟩
  have frontMember := List.mem_of_mem_head? first
  rcases covered with rfl | ⟨before, firstBefore, position⟩
  · exact Or.inr (List.mem_map.mpr ⟨_, own, rfl⟩)
  · have ⟨origin, reaches⟩ := (mem_inserted ordered).mp frontMember
    have grows : before.xid ≤ front.xid := by
      rcases origin with rfl | member
      · exact inside before firstBefore
      · exact ordered.head_le firstBefore member
    rcases position with under | present
    · exact Or.inl (by omega)
    · obtain ⟨r, member, rfl⟩ := List.mem_map.mp present
      by_cases retired : r.xid < xidRep
      · exact Or.inl (by omega)
      · exact Or.inr (List.mem_map.mpr
          ⟨r, (mem_inserted ordered).mpr ⟨Or.inr member, not_lt.mp retired⟩, rfl⟩)

theorem not_covers_of_new {rlist : List ReplyT} {xid : Nat} (unknown : ∀ r ∈ rlist, r.xid ≠ xid)
    (inside : ∀ front, rlist.head? = some front → front.xid ≤ xid) : ¬ Covers rlist xid := by
  rintro ⟨front, first, under | present⟩
  · exact absurd (inside front first) (not_le.mpr under)
  · obtain ⟨r, member, same⟩ := List.mem_map.mp present
    exact unknown r member same

end CseLab.Rpc

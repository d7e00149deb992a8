import Mathlib.Tactic

/-! Objects that delete themselves when their count comes to zero after they have
died, and tables that have objects under keys of their own. -/

namespace CseLab.RefCount

variable {Object Key : Type*}

def deletes (dead : Object → Bool) (before after : Object → Int) (x : Object) : Bool :=
  dead x && decide (after x < before x ∧ after x = 0)

/-- What a change of the counts leaves on the heap. -/
def survivors (dead : Object → Bool) (before after : Object → Int) (heap : List Object) :
    List Object :=
  heap.filter fun x => !deletes dead before after x

section Heap

variable {dead : Object → Bool} {before after : Object → Int} {heap made : List Object}

theorem mem_of_survivors {x : Object} (survives : x ∈ survivors dead before after heap) :
    x ∈ heap :=
  List.mem_of_mem_filter survives

/-- The heap has the objects that are counted, when a count that comes to zero belongs
to a dead object and no count leaves zero. -/
theorem mem_survivors (live : ∀ x, x ∈ heap ↔ x ∈ made ∧ 0 < before x)
    (spends : ∀ x ∈ made, 0 < before x → after x ≤ 0 → dead x = true ∧ after x = 0)
    (stays : ∀ x ∈ made, before x ≤ 0 → after x ≤ 0) (x : Object) :
    x ∈ survivors dead before after heap ↔ x ∈ made ∧ 0 < after x := by
  unfold survivors
  rw [List.mem_filter, live x]
  simp only [deletes, Bool.not_and, Bool.or_eq_true, Bool.not_eq_true', decide_eq_false_iff_not]
  constructor
  · rintro ⟨⟨member, positive⟩, remains⟩
    refine ⟨member, ?_⟩
    by_contra few
    obtain ⟨died, zero⟩ := spends x member positive (by omega)
    rcases remains with alive | uncounted
    · rw [died] at alive
      exact Bool.noConfusion alive
    · exact uncounted ⟨by omega, zero⟩
  · rintro ⟨member, positive⟩
    have counted : 0 < before x := by
      by_contra few
      have later := stays x member (by omega)
      omega
    exact ⟨⟨member, counted⟩, .inr fun zero => by omega⟩

end Heap

theorem still_dead [DecidableEq Object] {dead : Object → Bool} {x : Object} (y : Object)
    (died : dead x = true) : Function.update dead y true x = true := by
  by_cases same : x = y
  · rw [same, Function.update_self]
  · rw [Function.update_of_ne same]
    exact died

/-- The counts are those of the holders, and the heap has what is held. -/
structure Accounts (heap made : List Object) (refno : Object → Int) (holders : Object → Nat) :
    Prop where
  counted : ∀ x, refno x = holders x
  live : ∀ x, x ∈ heap ↔ x ∈ made ∧ 0 < refno x
  made : ∀ x, 0 < holders x → x ∈ made

section Accounts

variable {heap made : List Object} {refno : Object → Int} {holders later : Object → Nat}
  {x : Object}

theorem Accounts.start : Accounts ([] : List Object) [] (fun _ => 0) (fun _ => 0) where
  counted := fun _ => rfl
  live := fun _ => iff_of_false List.not_mem_nil fun live => List.not_mem_nil live.1
  made := fun _ held => absurd held (Nat.lt_irrefl 0)

theorem Accounts.live_iff (accounts : Accounts heap made refno holders) (x : Object) :
    x ∈ heap ↔ 0 < holders x := by
  have count := accounts.counted x
  rw [accounts.live x]
  constructor
  · rintro ⟨-, positive⟩
    omega
  · exact fun held => ⟨accounts.made x held, by omega⟩

theorem Accounts.kept (accounts : Accounts heap made refno holders)
    (same : ∀ y, later y = holders y) : Accounts heap made refno later :=
  (funext same : later = holders) ▸ accounts

variable [DecidableEq Object]

theorem Accounts.make (accounts : Accounts heap made refno holders) (fresh : x ∉ made)
    (more : ∀ y, later y = holders y + if x = y then 1 else 0) :
    Accounts (x :: heap) (x :: made) (Function.update refno x 1) later := by
  have none : holders x = 0 := by
    by_contra held
    exact fresh (accounts.made x (Nat.pos_of_ne_zero held))
  constructor
  · intro y
    rw [more y]
    by_cases same : x = y
    · rw [← same, Function.update_self, none, if_pos rfl]
      rfl
    · rw [Function.update_of_ne (Ne.symm same), if_neg same, accounts.counted y]
      rfl
  · intro y
    rw [List.mem_cons, List.mem_cons, accounts.live y]
    by_cases same : y = x
    · rw [same, Function.update_self]
      exact ⟨fun _live => ⟨.inl rfl, by decide⟩, fun _live => .inl rfl⟩
    · rw [Function.update_of_ne same]
      simp only [same, false_or]
  · intro y held
    rw [more y] at held
    by_cases same : x = y
    · exact same ▸ List.mem_cons_self
    · rw [if_neg same] at held
      exact List.mem_cons_of_mem x (accounts.made y held)

theorem Accounts.acquire (accounts : Accounts heap made refno holders) (held : 0 < holders x)
    (more : ∀ y, later y = holders y + if x = y then 1 else 0) :
    Accounts heap made (Function.update refno x (refno x + 1)) later := by
  have counted (y : Object) : Function.update refno x (refno x + 1) y = later y := by
    have count := accounts.counted y
    rw [more y]
    by_cases same : x = y
    · rw [← same, Function.update_self, if_pos rfl, accounts.counted x]
      rfl
    · rw [Function.update_of_ne (Ne.symm same), if_neg same, count]
      rfl
  have positive (y : Object) : 0 < later y ↔ 0 < holders y := by
    rw [more y]
    by_cases same : x = y
    · rw [← same]
      omega
    · rw [if_neg same, Nat.add_zero]
  refine ⟨counted, fun y => ?_, fun y => (accounts.made y) ∘ (positive y).mp⟩
  have count := accounts.counted y
  have same := positive y
  rw [accounts.live y, counted y]
  exact and_congr_right fun _made => by omega

theorem Accounts.release (accounts : Accounts heap made refno holders) {dead : Object → Bool}
    (fewer : ∀ y, holders y = later y + if x = y then 1 else 0)
    (last : dead x = true ∨ 0 < later x) :
    Accounts (survivors dead refno (Function.update refno x (refno x - 1)) heap) made
      (Function.update refno x (refno x - 1)) later := by
  have counted (y : Object) : Function.update refno x (refno x - 1) y = later y := by
    have count := accounts.counted y
    have given := fewer y
    by_cases same : x = y
    · rw [← same] at count given ⊢
      rw [Function.update_self]
      rw [if_pos rfl] at given
      omega
    · rw [Function.update_of_ne (Ne.symm same)]
      rw [if_neg same] at given
      omega
  have below (y : Object) : later y ≤ holders y := by
    rw [fewer y]
    omega
  refine ⟨counted, fun y => ?_, fun y held => accounts.made y (Nat.lt_of_lt_of_le held (below y))⟩
  refine mem_survivors accounts.live (fun y _made positive few => ?_) (fun y _made few => ?_) y
  · rw [counted y] at few ⊢
    have count := accounts.counted y
    have given := fewer y
    by_cases same : x = y
    · refine ⟨last.elim (fun died => same ▸ died) fun held => ?_, by omega⟩
      rw [same] at held
      omega
    · rw [if_neg same] at given
      omega
  · have count := accounts.counted y
    have fewer := below y
    rw [counted y]
    omega

end Accounts

/-- Every object of the table is there under its own key, and something holds of it. -/
def Filed (table : Key → Option Object) (key : Object → Key) (holds : Object → Prop) : Prop :=
  ∀ k x, table k = some x → key x = k ∧ holds x

section Table

variable {table : Key → Option Object} {key : Object → Key} {holds later : Object → Prop}

theorem Filed.mono (filed : Filed table key holds) (still : ∀ x, holds x → later x) :
    Filed table key later :=
  fun k x here => (filed k x here).imp_right (still x)

variable [DecidableEq Key]

theorem Filed.clear (filed : Filed table key holds) (k : Key)
    (still : ∀ x, key x ≠ k → holds x → later x) :
    Filed (Function.update table k none) key later := by
  intro other x here
  by_cases same : other = k
  · rw [same, Function.update_self] at here
    cases here
  · rw [Function.update_of_ne same] at here
    obtain ⟨own, held⟩ := filed other x here
    exact ⟨own, still x (fun eq => same (own.symm.trans eq)) held⟩

omit [DecidableEq Key] in
theorem Filed.free {heap : List Object} (filed : Filed table key (· ∈ heap)) {k : Key}
    (free : k ∉ heap.map key) : table k = none := by
  cases here : table k with
  | none => rfl
  | some x =>
      obtain ⟨own, live⟩ := filed k x here
      exact absurd (List.mem_map.mpr ⟨x, live, own⟩) free

theorem Filed.file [DecidableEq Object] (filed : Filed table key holds) (k : Key) {new : Object}
    (fresh : ∀ x, holds x → x ≠ new) (still : ∀ x, holds x → later x) (held : later new) :
    Filed (Function.update table k (some new)) (Function.update key new k) later := by
  intro other x here
  by_cases same : other = k
  · rw [same, Function.update_self] at here
    cases here
    exact ⟨(Function.update_self ..).trans same.symm, held⟩
  · rw [Function.update_of_ne same] at here
    obtain ⟨own, held⟩ := filed other x here
    exact ⟨(Function.update_of_ne (fresh x held) _ _).trans own, still x held⟩

end Table

def Distinct (key : Object → Key) (heap : List Object) : Prop :=
  ∀ x ∈ heap, ∀ y ∈ heap, key x = key y → x = y

theorem Distinct.fewer {key : Object → Key} {heap rest : List Object}
    (distinct : Distinct key heap) (fewer : ∀ x ∈ rest, x ∈ heap) : Distinct key rest :=
  fun x here y there => distinct x (fewer x here) y (fewer y there)

theorem Distinct.cons [DecidableEq Object] {key : Object → Key} {heap : List Object}
    (distinct : Distinct key heap) {new : Object} {k : Key} (fresh : new ∉ heap)
    (free : k ∉ heap.map key) : Distinct (Function.update key new k) (new :: heap) := by
  have kept {x : Object} (old : x ∈ heap) : Function.update key new k x = key x :=
    Function.update_of_ne (fun (same : x = new) => fresh (same ▸ old)) _ _
  have apart {x : Object} (old : x ∈ heap) : Function.update key new k x ≠ k := by
    rw [kept old]
    exact fun same => free (List.mem_map.mpr ⟨x, old, same⟩)
  intro x here y there
  rcases List.mem_cons.mp here with first | old
  · rcases List.mem_cons.mp there with second | older
    · exact fun _same => first.trans second.symm
    · rw [first, Function.update_self]
      exact fun same => absurd same.symm (apart older)
  · rcases List.mem_cons.mp there with second | older
    · rw [second, Function.update_self]
      exact fun same => absurd same (apart old)
    · rw [kept old, kept older]
      exact distinct x old y older

end CseLab.RefCount

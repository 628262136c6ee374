import DocumentStore.Proofs.Double.Rounding
import DocumentStore.Value.Order

/-!
# The order of values

Values of every kind are ordered by a total preorder (`instTransOrdValue`), integers and numbers
together.  Comparisons of lists, documents and sorting keys are put together from comparisons of their
parts, so transitivity is stated for the results of three comparisons (`Chained`), a form that such
compositions keep.
-/

namespace DocumentStore

/-! ## Results of three comparisons -/

/-- Results that comparisons of `a` with `b`, of `b` with `c` and of `a` with `c` can have together. -/
def Chained (ab bc ac : Ordering) : Prop :=
  (ab = .eq → ac = bc) ∧ (bc = .eq → ac = ab) ∧ (ab = bc → ac = ab)

namespace Chained

variable {ab bc ac ab' bc' ac' : Ordering}

theorem of_trans {α : Type} {cmp : α → α → Ordering} [Std.TransCmp cmp] (a b c : α) :
    Chained (cmp a b) (cmp b c) (cmp a c) := by
  refine ⟨fun h => Std.TransCmp.congr_left h, fun h => (Std.TransCmp.congr_right h).symm, fun h => ?_⟩
  cases hab : cmp a b with
  | lt => exact Std.TransCmp.lt_trans hab (h ▸ hab)
  | eq => exact Std.TransCmp.eq_trans hab (h ▸ hab)
  | gt => exact Std.TransCmp.gt_trans hab (h ▸ hab)

theorem andThen (h : Chained ab bc ac) (h' : Chained ab' bc' ac') :
    Chained (ab.then ab') (bc.then bc') (ac.then ac') := by
  obtain ⟨h₁, h₂, h₃⟩ := h
  cases ab <;> cases bc <;> cases bc' <;> simp_all [Chained]

theorem swap (h : Chained ab bc ac) : Chained ab.swap bc.swap ac.swap := by
  obtain ⟨h₁, h₂, h₃⟩ := h
  cases ab <;> cases bc <;> simp_all [Chained]

theorem of_gt (ab : Ordering) : Chained ab .gt .gt :=
  ⟨fun _ => rfl, fun h => (by cases h), fun h => h.symm⟩

theorem isLE (h : Chained ab bc ac) (hab : ab.isLE = true) (hbc : bc.isLE = true) :
    ac.isLE = true := by
  obtain ⟨h₁, h₂, h₃⟩ := h
  cases ab <;> cases bc <;> simp_all

end Chained

namespace Value

/-! ## Numbers -/

/-- The place of an integer or a number on the line of doubles. -/
def place : Value → Int
  | integer n => (Double.ofInt n.toInt).rank
  | number x => x.rank
  | _ => 0

/-- What decides between integers and numbers at one place. -/
def tie : Value → Nat × Int
  | integer n => (0, n.toInt)
  | number _ => (1, 0)
  | _ => (0, 0)

theorem then_compare_of_mono {f : Int → Int} (hf : ∀ {x y}, x ≤ y → f x ≤ f y) (x y : Int) :
    (compare (f x) (f y)).then (compare x y) = compare x y := by
  rcases Int.lt_trichotomy x y with hlt | rfl | hgt
  · have hle : f x ≤ f y := hf (Int.le_of_lt hlt)
    rw [compare_lt_iff_lt.2 hlt]
    rcases Int.lt_or_eq_of_le hle with hlt' | heq
    · rw [compare_lt_iff_lt.2 hlt']
      rfl
    · rw [compare_eq_iff_eq.2 heq]
      rfl
  · rw [compare_eq_iff_eq.2 rfl]
    rfl
  · have hle : f y ≤ f x := hf (Int.le_of_lt hgt)
    rw [compare_gt_iff_gt.2 hgt]
    rcases Int.lt_or_eq_of_le hle with hlt' | heq
    · rw [compare_gt_iff_gt.2 hlt']
      rfl
    · rw [compare_eq_iff_eq.2 heq.symm]
      rfl

/-- Integers and numbers are ordered by place first. -/
theorem cmp_of_rank_two {a b : Value} (ha : a.kind.rank = 2) (hb : b.kind.rank = 2) :
    a.cmp b = ((compare a.place b.place).then (compare a.tie.1 b.tie.1)).then
      (compare a.tie.2 b.tie.2) := by
  cases a <;> simp [kind, Kind.rank] at ha <;> cases b <;> simp [kind, Kind.rank] at hb
  case integer.integer m n =>
    show compare m.toInt n.toInt = ((compare (Double.ofInt m.toInt).rank
      (Double.ofInt n.toInt).rank).then .eq).then (compare m.toInt n.toInt)
    rw [Ordering.then_eq]
    exact (then_compare_of_mono (f := fun i => (Double.ofInt i).rank) Double.rank_ofInt_mono
      m.toInt n.toInt).symm
  case integer.number n x =>
    show (compare (Double.ofInt n.toInt).rank x.rank).then .lt =
      ((compare (Double.ofInt n.toInt).rank x.rank).then .lt).then (compare n.toInt 0)
    cases compare (Double.ofInt n.toInt).rank x.rank <;> rfl
  case number.integer x n =>
    show (compare x.rank (Double.ofInt n.toInt).rank).then .gt =
      ((compare x.rank (Double.ofInt n.toInt).rank).then .gt).then (compare 0 n.toInt)
    cases compare x.rank (Double.ofInt n.toInt).rank <;> rfl
  case number.number x y =>
    show compare x.rank y.rank = ((compare x.rank y.rank).then .eq).then .eq
    cases compare x.rank y.rank <;> rfl

theorem cmp_swap_of_rank_two {a b : Value} (ha : a.kind.rank = 2) (hb : b.kind.rank = 2) :
    a.cmp b = (b.cmp a).swap := by
  rw [cmp_of_rank_two ha hb, cmp_of_rank_two hb ha, Ordering.swap_then, Ordering.swap_then,
    ← Std.OrientedCmp.eq_swap, ← Std.OrientedCmp.eq_swap, ← Std.OrientedCmp.eq_swap]

theorem cmp_chained_of_rank_two {a b c : Value} (ha : a.kind.rank = 2) (hb : b.kind.rank = 2)
    (hc : c.kind.rank = 2) : Chained (a.cmp b) (b.cmp c) (a.cmp c) := by
  rw [cmp_of_rank_two ha hb, cmp_of_rank_two hb hc, cmp_of_rank_two ha hc]
  exact ((Chained.of_trans _ _ _).andThen (.of_trans _ _ _)).andThen (.of_trans _ _ _)

/-! ## Kinds -/

/-- Values of kinds at different places are ordered by kind. -/
theorem cmp_of_rank_ne {a b : Value} (h : a.kind.rank ≠ b.kind.rank) :
    a.cmp b = compare a.kind.rank b.kind.rank := by
  cases a <;> cases b <;> first | rfl | exact absurd rfl h

/-- Of values that are not all at one place the kinds decide. -/
theorem cmp_chained_of_rank_ne {a b c : Value}
    (h : ¬ (a.kind.rank = b.kind.rank ∧ b.kind.rank = c.kind.rank)) :
    Chained (a.cmp b) (b.cmp c) (a.cmp c) := by
  by_cases hab : a.kind.rank = b.kind.rank
  · have hbc : b.kind.rank ≠ c.kind.rank := fun hbc => h ⟨hab, hbc⟩
    have hac : a.kind.rank ≠ c.kind.rank := hab ▸ hbc
    rw [cmp_of_rank_ne hbc, cmp_of_rank_ne hac, hab]
    refine ⟨fun _ => rfl, fun heq => absurd (compare_eq_iff_eq.1 heq) hbc, fun heq => heq.symm⟩
  · by_cases hbc : b.kind.rank = c.kind.rank
    · have hac : a.kind.rank ≠ c.kind.rank := hbc ▸ hab
      rw [cmp_of_rank_ne hab, cmp_of_rank_ne hac, hbc]
      rw [hbc] at hab
      exact ⟨fun heq => absurd (compare_eq_iff_eq.1 heq) hab, fun _ => rfl, fun _ => rfl⟩
    · rw [cmp_of_rank_ne hab, cmp_of_rank_ne hbc]
      by_cases hac : a.kind.rank = c.kind.rank
      · refine ⟨fun heq => absurd (compare_eq_iff_eq.1 heq) hab,
          fun heq => absurd (compare_eq_iff_eq.1 heq) hbc, fun heq => ?_⟩
        -- the first two results are opposite
        have hswap : compare b.kind.rank c.kind.rank = (compare c.kind.rank b.kind.rank).swap :=
          Std.OrientedCmp.eq_swap
        rw [← heq, hac] at hswap
        cases hcb : compare c.kind.rank b.kind.rank with
        | eq => exact absurd (compare_eq_iff_eq.1 hcb).symm hbc
        | lt =>
          rw [hcb] at hswap
          cases hswap
        | gt =>
          rw [hcb] at hswap
          cases hswap
      · rw [cmp_of_rank_ne hac]
        exact .of_trans _ _ _

end Value

/-! ## Values and documents -/

mutual

theorem Value.cmp_swap (a b : Value) : a.cmp b = (b.cmp a).swap := by
  by_cases hrank : a.kind.rank = b.kind.rank
  · cases a <;> cases b <;> simp [Value.kind, Kind.rank] at hrank
    case null.null => rfl
    case bool.bool x y => exact @Std.OrientedCmp.eq_swap _ compare _ x y
    case string.string x y => exact @Std.OrientedCmp.eq_swap _ compare _ x y
    case bytes.bytes x y => exact @Std.OrientedCmp.eq_swap _ compare _ x y
    case list.list as bs => exact Value.cmpItems_swap as bs
    case map.map d d' => exact Fields.cmp_swap d d'
    all_goals exact Value.cmp_swap_of_rank_two rfl rfl
  · rw [Value.cmp_of_rank_ne hrank, Value.cmp_of_rank_ne (Ne.symm hrank)]
    exact Std.OrientedCmp.eq_swap

theorem Value.cmpItems_swap (as bs : List Value) :
    Value.cmpItems as bs = (Value.cmpItems bs as).swap := by
  cases as with
  | nil => cases bs <;> rfl
  | cons a as =>
    cases bs with
    | nil => rfl
    | cons b bs =>
      show (a.cmp b).then (Value.cmpItems as bs) = ((b.cmp a).then (Value.cmpItems bs as)).swap
      rw [Ordering.swap_then, ← Value.cmp_swap a b, ← Value.cmpItems_swap as bs]

theorem Fields.cmp_swap {bound bound' : Option String} (d : Fields bound) (d' : Fields bound') :
    d.cmp d' = (d'.cmp d).swap := by
  cases d with
  | nil => cases d' <;> rfl
  | cons n _ v rest =>
    cases d' with
    | nil => rfl
    | cons n' _ v' rest' =>
      show ((compare n n').then (v.cmp v')).then (rest.cmp rest') =
        (((compare n' n).then (v'.cmp v)).then (rest'.cmp rest)).swap
      rw [Ordering.swap_then, Ordering.swap_then, ← Value.cmp_swap v v',
        ← Fields.cmp_swap rest rest', ← Std.OrientedCmp.eq_swap]

end

mutual

theorem Value.cmp_chained (a b c : Value) : Chained (a.cmp b) (b.cmp c) (a.cmp c) := by
  by_cases hrank : a.kind.rank = b.kind.rank ∧ b.kind.rank = c.kind.rank
  · obtain ⟨hab, hbc⟩ := hrank
    cases a <;> cases b <;> simp [Value.kind, Kind.rank] at hab <;>
      cases c <;> simp [Value.kind, Kind.rank] at hbc
    case null.null.null => exact ⟨fun _ => rfl, fun _ => rfl, fun _ => rfl⟩
    case bool.bool.bool x y z => exact @Chained.of_trans _ compare _ x y z
    case string.string.string x y z => exact @Chained.of_trans _ compare _ x y z
    case bytes.bytes.bytes x y z => exact @Chained.of_trans _ compare _ x y z
    case list.list.list as bs cs => exact Value.cmpItems_chained as bs cs
    case map.map.map d e f => exact Fields.cmp_chained d e f
    all_goals exact Value.cmp_chained_of_rank_two rfl rfl rfl
  · exact Value.cmp_chained_of_rank_ne hrank

theorem Value.cmpItems_chained (as bs cs : List Value) :
    Chained (Value.cmpItems as bs) (Value.cmpItems bs cs) (Value.cmpItems as cs) := by
  cases as with
  | nil => cases bs <;> cases cs <;> simp [Chained, Value.cmpItems]
  | cons a as =>
    cases bs with
    | nil => cases cs <;> simp [Chained, Value.cmpItems]
    | cons b bs =>
      cases cs with
      | nil => exact .of_gt _
      | cons c cs => exact (Value.cmp_chained a b c).andThen (Value.cmpItems_chained as bs cs)

theorem Fields.cmp_chained {bound bound' bound'' : Option String} (d : Fields bound)
    (e : Fields bound') (f : Fields bound'') : Chained (d.cmp e) (e.cmp f) (d.cmp f) := by
  cases d with
  | nil => cases e <;> cases f <;> simp [Chained, Fields.cmp]
  | cons n _ v rest =>
    cases e with
    | nil => cases f <;> simp [Chained, Fields.cmp]
    | cons n' _ v' rest' =>
      cases f with
      | nil => exact .of_gt _
      | cons n'' _ v'' rest'' =>
        exact ((Chained.of_trans n n' n'').andThen (Value.cmp_chained v v' v'')).andThen
          (Fields.cmp_chained rest rest' rest'')

end

instance : Std.TransOrd Value where
  eq_swap := Value.cmp_swap _ _
  isLE_trans := (Value.cmp_chained _ _ _).isLE

end DocumentStore

import DocumentStore.Proofs.Value.Order

/-!
# Equality and the order of values

Comparing two values gives a draw exactly if they are equal, although equality never crosses kinds and
the order does.  With the swap and transitivity of comparisons this makes the order a lawful total
order of all values.
-/

namespace DocumentStore

namespace Double

theorem cmp_eq_eq_iff {x y : Double} : x.cmp y = .eq ↔ x.same y = true := by
  rw [cmp, same, compare_eq_iff_eq, beq_iff_eq]

end Double

namespace Value

/-! ## Kinds -/

theorem kind_eq_of_same {a b : Value} (h : a.same b = true) : a.kind = b.kind := by
  cases a <;> cases b <;> first | rfl | cases h

/-- Values of two kinds are ordered, also an integer and a number at one place. -/
theorem cmp_ne_eq_of_kind_ne {a b : Value} (h : a.kind ≠ b.kind) : a.cmp b ≠ .eq := by
  by_cases hrank : a.kind.rank = b.kind.rank
  · cases a <;> cases b <;> simp [kind, Kind.rank] at h hrank
    case integer.number n x =>
      show (compare (Double.ofInt n.toInt).rank x.rank).then .lt ≠ .eq
      simp
    case number.integer x n =>
      show (compare x.rank (Double.ofInt n.toInt).rank).then .gt ≠ .eq
      simp
  · rw [cmp_of_rank_ne hrank]
    exact fun heq => hrank (compare_eq_iff_eq.1 heq)

end Value

/-! ## Draws -/

mutual

theorem Value.cmp_eq_eq_iff (a b : Value) : a.cmp b = .eq ↔ a.same b = true := by
  by_cases hkind : a.kind = b.kind
  · cases a <;> cases b <;> simp [Value.kind] at hkind
    case null.null => exact iff_of_true rfl rfl
    case bool.bool x y =>
      show compare x y = .eq ↔ (x == y) = true
      rw [compare_eq_iff_eq, beq_iff_eq]
    case integer.integer m n =>
      show compare m.toInt n.toInt = .eq ↔ (m == n) = true
      rw [compare_eq_iff_eq, beq_iff_eq, Int64.toInt_inj]
    case number.number x y => exact Double.cmp_eq_eq_iff
    case string.string s t =>
      show compare s t = .eq ↔ (s == t) = true
      rw [Std.LawfulEqCmp.compare_eq_iff_eq, beq_iff_eq]
    case bytes.bytes bs bs' =>
      show compare bs bs' = .eq ↔ (bs == bs') = true
      rw [Std.LawfulEqCmp.compare_eq_iff_eq, beq_iff_eq]
    case list.list as bs => exact Value.cmpItems_eq_eq_iff as bs
    case map.map d e => exact Fields.cmp_eq_eq_iff d e
  · exact iff_of_false (Value.cmp_ne_eq_of_kind_ne hkind)
      fun h => hkind (Value.kind_eq_of_same h)

theorem Value.cmpItems_eq_eq_iff (as bs : List Value) :
    Value.cmpItems as bs = .eq ↔ Value.sameItems as bs = true := by
  cases as with
  | nil => cases bs <;> simp [Value.cmpItems, Value.sameItems]
  | cons a as =>
    cases bs with
    | nil => simp [Value.cmpItems, Value.sameItems]
    | cons b bs =>
      rw [Value.cmpItems, Value.sameItems, Ordering.then_eq_eq, Bool.and_eq_true,
        Value.cmp_eq_eq_iff a b, Value.cmpItems_eq_eq_iff as bs]

theorem Fields.cmp_eq_eq_iff {bound bound' : Option String} (d : Fields bound)
    (e : Fields bound') : d.cmp e = .eq ↔ d.same e = true := by
  cases d with
  | nil => cases e <;> simp [Fields.cmp, Fields.same]
  | cons n _ v rest =>
    cases e with
    | nil => simp [Fields.cmp, Fields.same]
    | cons n' _ v' rest' =>
      rw [Fields.cmp, Fields.same, Ordering.then_eq_eq, Ordering.then_eq_eq, Bool.and_eq_true,
        Bool.and_eq_true, Std.LawfulEqCmp.compare_eq_iff_eq, beq_iff_eq, Value.cmp_eq_eq_iff v v',
        Fields.cmp_eq_eq_iff rest rest']

end

/-! ## The comparison behind `<` and `≤` -/

/-- No two documents are left unordered. -/
theorem Fields.partialCmp_eq {bound bound' : Option String} (d : Fields bound)
    (e : Fields bound') : d.partialCmp e = some (d.cmp e) := by
  cases d with
  | nil => cases e <;> rfl
  | cons n _ v rest =>
    cases e with
    | nil => rfl
    | cons n' _ v' rest' =>
      rw [Fields.partialCmp, Fields.cmp, Value.partialCmp, Fields.partialCmp_eq rest rest']
      cases compare n n' <;> cases v.cmp v' <;> rfl

namespace Value

theorem cmp_ne_gt_trans {a b c : Value} (hab : a.cmp b ≠ .gt) (hbc : b.cmp c ≠ .gt) :
    a.cmp c ≠ .gt := by
  exact Ordering.isLE_iff_ne_gt.1 ((cmp_chained a b c).isLE (Ordering.isLE_iff_ne_gt.2 hab)
    (Ordering.isLE_iff_ne_gt.2 hbc))

/-- Values are totally ordered: a draw means that they are equal, swapping them swaps the result, and
not coming behind is transitive.  The partial comparison gives the same results, for documents too, and
the kinds come in the given order, integers and numbers together. -/
theorem totally_ordered :
    (∀ a b : Value, a.cmp b = .eq ↔ (a == b) = true) ∧
    (∀ a b : Value, b.cmp a = (a.cmp b).swap) ∧
    (∀ a b c : Value, a.cmp b ≠ .gt → b.cmp c ≠ .gt → a.cmp c ≠ .gt) ∧
    (∀ a b : Value, a.partialCmp b = some (a.cmp b)) ∧
    (∀ d e : Document, d.partialCmp e = some (d.cmp e)) ∧
    [[Kind.null], [.bool], [.integer, .number], [.string], [.bytes], [.list], [.map]].Pairwise
      fun before behind => ∀ a b : Value, a.kind ∈ before → b.kind ∈ behind → a.cmp b = .lt := by
  refine ⟨cmp_eq_eq_iff, fun a b => cmp_swap b a, fun a b c => cmp_ne_gt_trans,
    fun a b => rfl, Fields.partialCmp_eq, ?_⟩
  have hranks : [[Kind.null], [.bool], [.integer, .number], [.string], [.bytes], [.list],
      [.map]].Pairwise fun before behind => ∀ k ∈ before, ∀ k' ∈ behind, k.rank < k'.rank := by
    decide
  refine hranks.imp fun h a b ha hb => ?_
  have hlt : a.kind.rank < b.kind.rank := h a.kind ha b.kind hb
  rw [cmp_of_rank_ne (Nat.ne_of_lt hlt)]
  exact compare_lt_iff_lt.2 hlt

end Value

end DocumentStore

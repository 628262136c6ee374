import DocumentStore.Proofs.Value.Order
import DocumentStore.Sorting

/-!
# Sorting documents

Every specification orders documents by a total preorder, so sorting by it puts documents in ascending
order, and those that compare equal keep the order that they had.
-/

namespace DocumentStore

theorem cmpOptional_swap (v w : Option Value) : cmpOptional v w = (cmpOptional w v).swap := by
  cases v <;> cases w
  case some.some a b => exact Value.cmp_swap a b
  all_goals rfl

theorem cmpOptional_chained (u v w : Option Value) :
    Chained (cmpOptional u v) (cmpOptional v w) (cmpOptional u w) := by
  cases u <;> cases v <;> cases w
  case some.some.some a b c => exact Value.cmp_chained a b c
  case some.some.none a b => exact .of_gt _
  all_goals simp [Chained, cmpOptional]

namespace Direction

theorem orient_swap (direction : Direction) (o : Ordering) :
    direction.orient o.swap = (direction.orient o).swap := by
  cases direction <;> rfl

theorem orient_chained (direction : Direction) {ab bc ac : Ordering} (h : Chained ab bc ac) :
    Chained (direction.orient ab) (direction.orient bc) (direction.orient ac) := by
  cases direction with
  | ascending => exact h
  | descending => exact h.swap

end Direction

namespace SortSpec

theorem cmp_cons (path : String) (direction : Direction) (keys : List (String × Direction))
    (a b : Document) : cmp ⟨(path, direction) :: keys⟩ a b =
      (direction.orient (cmpOptional (a.getPath? path) (b.getPath? path))).then
        (cmp ⟨keys⟩ a b) := rfl

theorem cmp_swap (s : SortSpec) (a b : Document) : s.cmp a b = (s.cmp b a).swap := by
  obtain ⟨keys⟩ := s
  induction keys with
  | nil => rfl
  | cons key keys ih =>
    obtain ⟨path, direction⟩ := key
    rw [cmp_cons, cmp_cons, Ordering.swap_then, ← ih, ← Direction.orient_swap, ← cmpOptional_swap]

theorem cmp_chained (s : SortSpec) (a b c : Document) :
    Chained (s.cmp a b) (s.cmp b c) (s.cmp a c) := by
  obtain ⟨keys⟩ := s
  induction keys with
  | nil => exact ⟨fun _ => rfl, fun _ => rfl, fun _ => rfl⟩
  | cons key keys ih =>
    obtain ⟨path, direction⟩ := key
    exact (direction.orient_chained (cmpOptional_chained _ _ _)).andThen ih

instance (s : SortSpec) : Std.TransCmp s.cmp where
  eq_swap := s.cmp_swap _ _
  isLE_trans := (s.cmp_chained _ _ _).isLE

theorem isLE_total (s : SortSpec) (a b : Document) :
    ((s.cmp a b).isLE || (s.cmp b a).isLE) = true := by
  rw [s.cmp_swap b a]
  cases s.cmp a b <;> rfl

/-- A list with the documents of another one in ascending order, in which documents that compare
equal to a document stand in the order that they had. -/
structure Sorts (s : SortSpec) (ds sorted : List Document) : Prop where
  perm : sorted.Perm ds
  ascending : sorted.Pairwise fun a b => s.cmp a b ≠ .gt
  stable : ∀ d, sorted.filter (fun e => s.cmp d e == .eq) = ds.filter fun e => s.cmp d e == .eq

theorem sorts_sort (s : SortSpec) (ds : List Document) : s.Sorts ds (s.sort ds) := by
  have htrans : ∀ a b c, (s.cmp a b).isLE = true → (s.cmp b c).isLE = true →
      (s.cmp a c).isLE = true := fun _ _ _ => Std.TransCmp.isLE_trans
  have hperm : (s.sort ds).Perm ds := List.mergeSort_perm ds _
  refine ⟨hperm, ?_, fun d => ?_⟩
  · have hsorted : (s.sort ds).Pairwise fun a b => (s.cmp a b).isLE = true :=
      List.pairwise_mergeSort htrans s.isLE_total ds
    exact hsorted.imp fun hle hgt => by simp [hgt] at hle
  -- the documents equal to `d` are in ascending order as they are
  · have hequal : (ds.filter fun e => s.cmp d e == .eq).Pairwise fun a b =>
        (s.cmp a b).isLE = true := by
      refine List.pairwise_iff_forall_sublist.2 fun {a b} hab => ?_
      have ha := hab.subset List.mem_cons_self
      have hb := hab.subset (List.mem_cons_of_mem _ List.mem_cons_self)
      have had : s.cmp d a = .eq := by simpa using (List.mem_filter.1 ha).2
      have hbd : s.cmp d b = .eq := by simpa using (List.mem_filter.1 hb).2
      rw [Std.TransCmp.eq_trans (Std.OrientedCmp.eq_symm had) hbd]
      rfl
    have hsublist : (ds.filter fun e => s.cmp d e == .eq).Sublist (s.sort ds) :=
      List.sublist_mergeSort htrans s.isLE_total hequal List.filter_sublist
    have hfiltered := hsublist.filter fun e => s.cmp d e == .eq
    simp only [List.filter_filter, Bool.and_self] at hfiltered
    exact (hfiltered.eq_of_length (hperm.filter _).length_eq.symm).symm

/-! ## One specification after another -/

theorem cmp_andThen (s t : SortSpec) (a b : Document) :
    (s.andThen t).cmp a b = (s.cmp a b).then (t.cmp a b) := by
  obtain ⟨keys⟩ := s
  induction keys with
  | nil => rfl
  | cons key keys ih =>
    obtain ⟨path, direction⟩ := key
    rw [cmp_cons, Ordering.then_assoc, ← ih]
    rfl

variable {s t : SortSpec} {ds mid sorted sorted' : List Document}

theorem cmp_self_beq (s : SortSpec) (d : Document) : (s.cmp d d == .eq) = true := by
  have hself : s.cmp d d = .eq := Std.ReflCmp.compare_self
  rw [hself]
  rfl

/-- Lists in which the same documents are equal to each one have the same documents. -/
theorem mem_iff_of_equal (hequal : ∀ d, sorted.filter (fun e => s.cmp d e == .eq) =
    sorted'.filter fun e => s.cmp d e == .eq) (d : Document) : d ∈ sorted ↔ d ∈ sorted' := by
  have hd : d ∈ sorted.filter (fun e => s.cmp d e == .eq) ↔
      d ∈ sorted'.filter fun e => s.cmp d e == .eq := by rw [hequal d]
  rwa [List.mem_filter, List.mem_filter, and_iff_left (s.cmp_self_beq d),
    and_iff_left (s.cmp_self_beq d)] at hd

/-- Of two ascending lists with the same documents neither first one stands before the other. -/
theorem cmp_first {a b : Document} (h : (a :: sorted).Pairwise fun a b => s.cmp a b ≠ .gt)
    (h' : (b :: sorted').Pairwise fun a b => s.cmp a b ≠ .gt)
    (hmem : ∀ d, d ∈ a :: sorted ↔ d ∈ b :: sorted') : s.cmp a b = .eq := by
  have hself : s.cmp a a = .eq := Std.ReflCmp.compare_self
  rcases List.mem_cons.1 ((hmem b).2 List.mem_cons_self) with rfl | hb
  · exact hself
  rcases List.mem_cons.1 ((hmem a).1 List.mem_cons_self) with rfl | ha
  · exact hself
  have hle : s.cmp a b ≠ .gt := (List.pairwise_cons.1 h).1 b hb
  have hge : s.cmp b a ≠ .gt := (List.pairwise_cons.1 h').1 a ha
  rw [s.cmp_swap b a] at hge
  cases hcmp : s.cmp a b with
  | eq => rfl
  | lt => exact absurd (by rw [hcmp]; rfl) hge
  | gt => exact absurd hcmp hle

/-- Ascending lists are equal if the documents equal to each one stand in them in the same order. -/
theorem eq_of_ascending (h : sorted.Pairwise fun a b => s.cmp a b ≠ .gt)
    (h' : sorted'.Pairwise fun a b => s.cmp a b ≠ .gt)
    (hequal : ∀ d, sorted.filter (fun e => s.cmp d e == .eq) =
      sorted'.filter fun e => s.cmp d e == .eq) : sorted = sorted' := by
  have hmem := mem_iff_of_equal hequal
  induction sorted generalizing sorted' with
  | nil => exact (List.eq_nil_iff_forall_not_mem.2 fun d hd => nomatch (hmem d).2 hd).symm
  | cons a sorted ih =>
    cases sorted' with
    | nil => exact nomatch (hmem a).1 List.mem_cons_self
    | cons b sorted' =>
      have hab : (s.cmp a b == .eq) = true := by
        rw [cmp_first h h' hmem]
        rfl
      -- so both stand first among the documents that are equal to the first one
      have hfirst := hequal a
      rw [List.filter_cons, List.filter_cons, if_pos (s.cmp_self_beq a), if_pos hab,
        List.cons_eq_cons] at hfirst
      obtain ⟨rfl, _⟩ := hfirst
      have hrest : ∀ d, sorted.filter (fun e => s.cmp d e == .eq) =
          sorted'.filter fun e => s.cmp d e == .eq := fun d => by
        have hd := hequal d
        rw [List.filter_cons, List.filter_cons] at hd
        by_cases hda : (s.cmp d a == .eq) = true
        · rw [if_pos hda, if_pos hda] at hd
          exact List.tail_eq_of_cons_eq hd
        · rwa [if_neg hda, if_neg hda] at hd
      rw [ih h.of_cons h'.of_cons hrest (mem_iff_of_equal hrest)]

theorem Sorts.unique (h : s.Sorts ds sorted) (h' : s.Sorts ds sorted') : sorted = sorted' :=
  eq_of_ascending h.ascending h'.ascending fun d => (h.stable d).trans (h'.stable d).symm

/-- A list sorted by that and then by this is sorted by both, as documents that are equal by this are
still ascending by that. -/
theorem Sorts.andThen (ht : t.Sorts ds mid) (hs : s.Sorts mid sorted) :
    (s.andThen t).Sorts ds sorted := by
  refine ⟨hs.perm.trans ht.perm, ?_, fun d => ?_⟩
  · refine List.pairwise_iff_forall_sublist.2 fun {a b} hab => ?_
    have hle := List.pairwise_iff_forall_sublist.1 hs.ascending hab
    rw [cmp_andThen]
    cases hcmp : s.cmp a b with
    | gt => exact absurd hcmp hle
    | lt => exact nofun
    | eq =>
      -- `s` kept the order that `t` gave to the two
      have hself : s.cmp a a = .eq := Std.ReflCmp.compare_self
      have hequal := hab.filter fun e => s.cmp a e == .eq
      rw [hs.stable a, List.filter_cons_of_pos (by rw [hself]; rfl),
        List.filter_cons_of_pos (by rw [hcmp]; rfl), List.filter_nil] at hequal
      exact List.pairwise_iff_forall_sublist.1 ht.ascending (hequal.trans List.filter_sublist)
  · -- the documents equal under both: those equal under one, out of those equal under the other
    have hboth : (fun e => (s.andThen t).cmp d e == .eq) =
        fun e => (s.cmp d e == .eq) && (t.cmp d e == .eq) := by
      funext e
      rw [cmp_andThen]
      cases s.cmp d e <;> rfl
    have hswap : (fun e => (s.cmp d e == .eq) && (t.cmp d e == .eq)) =
        fun e => (t.cmp d e == .eq) && (s.cmp d e == .eq) := funext fun e => Bool.and_comm _ _
    rw [hboth]
    calc sorted.filter (fun e => (s.cmp d e == .eq) && (t.cmp d e == .eq))
        = (sorted.filter fun e => s.cmp d e == .eq).filter fun e => t.cmp d e == .eq := by
          rw [hswap, List.filter_filter]
      _ = (mid.filter fun e => t.cmp d e == .eq).filter fun e => s.cmp d e == .eq := by
          rw [hs.stable d, List.filter_filter, List.filter_filter, hswap]
      _ = ds.filter fun e => (s.cmp d e == .eq) && (t.cmp d e == .eq) := by
          rw [ht.stable d, List.filter_filter]

/-- Sorting by both specifications is sorting by the less significant one first. -/
theorem sort_andThen (s t : SortSpec) (ds : List Document) :
    (s.andThen t).sort ds = s.sort (t.sort ds) :=
  (sorts_sort _ ds).unique ((t.sorts_sort ds).andThen (s.sorts_sort _))

/-- Sorting by several keys is sorting by each of them, from the last one to the first one. -/
theorem sort_eq_foldr (s : SortSpec) (ds : List Document) :
    s.sort ds = s.keys.foldr (fun key ds => sort ⟨[key]⟩ ds) ds := by
  obtain ⟨keys⟩ := s
  induction keys with
  | nil =>
    have hequal : ds.Pairwise fun a b => cmp ⟨[]⟩ a b ≠ .gt := List.pairwise_of_forall fun _ _ => nofun
    exact (sorts_sort _ ds).unique ⟨.refl ds, hequal, fun _ => rfl⟩
  | cons key keys ih =>
    rw [List.foldr_cons, ← ih, ← sort_andThen]
    rfl

end SortSpec

end DocumentStore

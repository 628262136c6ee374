import DocumentStore.Proofs.Store.KeyOrder
import DocumentStore.Store.Table
import Mathlib.Data.List.Perm.Subperm

/-!
# What a table holds

Tables are seen through the entries in them: a lookup finds the one entry of a key, a batch of
mutations of different keys replaces the entries of these keys and no others, and a scan is a part
of the list of all entries under a key.
-/

namespace DocumentStore.Table

/-! ## Lookups -/

/-- No two entries have one key. -/
theorem eq_of_same_key {t : Table} {e f : Entry} (he : e ∈ t.entries) (hf : f ∈ t.entries)
    (h : e.key.same f.key = true) : e = f := by
  have hall : ∀ ⦃a⦄, a ∈ t.entries → ∀ ⦃b⦄, b ∈ t.entries → a.key.same b.key = true → a = b := by
    -- of two different entries one has the smaller key
    refine List.Pairwise.forall_of_forall_of_flip (fun _ _ _ => rfl) ?_ ?_
    · refine t.ordered.imp fun hlt hsame => ?_
      rw [Key.same_iff.1 hsame] at hlt
      cases hlt
    · refine t.ordered.imp fun hlt hsame => ?_
      rw [Std.OrientedCmp.eq_symm (Key.same_iff.1 hsame)] at hlt
      cases hlt
  exact hall he hf h

theorem find?_eq_some_iff {t : Table} {key : Key} {e : Entry} :
    t.find? key = some e ↔ e ∈ t.entries ∧ e.key.same key = true := by
  constructor
  · intro h
    exact ⟨List.mem_of_find?_eq_some h, List.find?_some (p := fun f : Entry => f.key.same key) h⟩
  · rintro ⟨he, hkey⟩
    cases hf : t.find? key with
    | none => exact absurd hkey (List.find?_eq_none.1 hf e he)
    | some f =>
      have hfkey : f.key.same key = true := List.find?_some (p := fun f : Entry => f.key.same key) hf
      rw [Key.same_comm] at hfkey
      rw [eq_of_same_key he (List.mem_of_find?_eq_some hf) (Key.same_trans hkey hfkey)]

/-! ## Mutations -/

theorem mem_insert {t : Table} {e f : Entry} :
    f ∈ (t.insert e).entries ↔ f = e ∨ f ∈ t.entries ∧ ¬ f.key.same e.key = true := by
  -- the entry stands between those before its key and those behind it
  have hparts : f ∈ (t.insert e).entries ↔
      (f ∈ t.entries ∧ compare f.key e.key = .lt) ∨ f = e ∨
        (f ∈ t.entries ∧ compare e.key f.key = .lt) := by
    simp [insert, before, behind]
  rw [hparts, Key.same_iff]
  constructor
  · rintro (⟨hf, hlt⟩ | rfl | ⟨hf, hlt⟩)
    · exact .inr ⟨hf, by simp [hlt]⟩
    · exact .inl rfl
    · exact .inr ⟨hf, by simp [Std.OrientedCmp.gt_of_lt hlt]⟩
  · rintro (rfl | ⟨hf, hne⟩)
    · exact .inr (.inl rfl)
    · cases h : compare f.key e.key with
      | lt => exact .inl ⟨hf, rfl⟩
      | eq => exact absurd h hne
      | gt => exact .inr (.inr ⟨hf, Std.OrientedCmp.lt_of_gt h⟩)

theorem mem_erase {t : Table} {key : Key} {f : Entry} :
    f ∈ (t.erase key).entries ↔ f ∈ t.entries ∧ ¬ f.key.same key = true := by
  simp [erase]

theorem mem_apply {t : Table} {v : Version} {m : Mutation} {e : Entry} :
    e ∈ (t.apply v m).entries ↔
      (∃ key value, m = .set key value ∧ e = ⟨key, value, v⟩) ∨
        e ∈ t.entries ∧ ¬ e.key.same m.key = true := by
  cases m with
  | set key value =>
    rw [apply, mem_insert]
    constructor
    · rintro (rfl | h)
      · exact .inl ⟨key, value, rfl, rfl⟩
      · exact .inr h
    · rintro (⟨_, _, heq, rfl⟩ | h)
      · cases heq
        exact .inl rfl
      · exact .inr h
  | delete key => simp [apply, mem_erase, Mutation.key]

@[simp]
theorem applyAll_nil (t : Table) (v : Version) : t.applyAll v [] = t := rfl

theorem applyAll_append (t : Table) (v : Version) (ms ns : List Mutation) :
    t.applyAll v (ms ++ ns) = (t.applyAll v ms).applyAll v ns :=
  List.foldl_append

/-- Mutations of different keys replace the entries of these keys and no others. -/
theorem mem_applyAll {t : Table} {v : Version} {ms : List Mutation} {e : Entry}
    (hms : ms.Pairwise fun m n => ¬ m.key.same n.key = true) :
    e ∈ (t.applyAll v ms).entries ↔
      (∃ key value, .set key value ∈ ms ∧ e = ⟨key, value, v⟩) ∨
        e ∈ t.entries ∧ ∀ m ∈ ms, ¬ e.key.same m.key = true := by
  induction ms generalizing t with
  | nil => simp
  | cons m ms ih =>
    obtain ⟨hm, hms⟩ := List.pairwise_cons.1 hms
    change e ∈ ((t.apply v m).applyAll v ms).entries ↔ _
    -- the later mutations leave the key of the first one alone
    rw [ih hms, mem_apply]
    constructor
    · rintro (⟨key, value, hmem, rfl⟩ | ⟨⟨key, value, rfl, rfl⟩ | ⟨he, hne⟩, hall⟩)
      · exact .inl ⟨key, value, List.mem_cons_of_mem _ hmem, rfl⟩
      · exact .inl ⟨key, value, List.mem_cons_self, rfl⟩
      · exact .inr ⟨he, List.forall_mem_cons.2 ⟨hne, hall⟩⟩
    · rintro (⟨key, value, hmem, rfl⟩ | ⟨he, hall⟩)
      · rcases List.mem_cons.1 hmem with heq | hmem
        · exact .inr ⟨.inl ⟨key, value, heq.symm, rfl⟩, fun n hn => by
            simpa [← heq, Mutation.key] using hm n hn⟩
        · exact .inl ⟨key, value, hmem, rfl⟩
      · obtain ⟨hne, hall⟩ := List.forall_mem_cons.1 hall
        exact .inr ⟨.inr ⟨he, hne⟩, hall⟩

/-! ## Scans -/

theorem mem_of_mem_scan {t : Table} {base : Key} {after : Option Key} {limit : Nat} {e : Entry}
    (h : e ∈ t.scan base after limit) : e ∈ t.entries ∧ e.key.isUnder base = true := by
  have h := List.mem_of_mem_take h
  exact ⟨(List.mem_filter.1 ((List.takeWhile_sublist _).subset h)).1,
    List.all_eq_true.1 List.all_takeWhile e h⟩

def under (t : Table) (base : Key) : List Entry := t.entries.filter (·.key.isUnder base)

theorem mem_under {t : Table} {base : Key} {e : Entry} :
    e ∈ t.under base ↔ e ∈ t.entries ∧ e.key.isUnder base = true :=
  List.mem_filter

theorem under_ordered (t : Table) (base : Key) :
    (t.under base).Pairwise fun a b => compare a.key b.key = .lt :=
  t.ordered.filter _

theorem length_under_le (t : Table) (base : Key) : (t.under base).length ≤ t.size :=
  List.length_filter_le _ _

theorem size_le_of_subset {t t' : Table} (h : t'.entries ⊆ t.entries) : t'.size ≤ t.size := by
  have hnodup : t'.entries.Nodup := t'.ordered.imp fun {a b} hlt hab => by
    rw [hab, Std.ReflOrd.compare_self] at hlt
    cases hlt
  exact (List.subperm_of_subset hnodup h).length_le

/-- What is taken off the front of a list is all that satisfies the condition, if the condition
passes from each item to the earlier ones. -/
theorem takeWhile_eq_filter {α : Type} {p : α → Bool} {l : List α}
    (h : l.Pairwise fun a b => p b = true → p a = true) : l.takeWhile p = l.filter p := by
  induction l with
  | nil => rfl
  | cons a l ih =>
    obtain ⟨ha, hl⟩ := List.pairwise_cons.1 h
    cases hp : p a with
    | true => rw [List.takeWhile_cons, if_pos hp, List.filter_cons, if_pos hp, ih hl]
    | false =>
      have hnone : ∀ b ∈ l, ¬ p b = true := fun b hb hpb => by simp [ha b hb hpb] at hp
      rw [List.takeWhile_cons, if_neg (by simp [hp]), List.filter_cons, if_neg (by simp [hp]),
        List.filter_eq_nil_iff.2 hnone]

/-- A scan hands out the first entries behind its start if nothing behind the start lies before the
entries under the base. -/
theorem scan_eq_take_of_behind {t : Table} {base : Key} {after : Option Key} (limit : Nat)
    (h : ∀ e ∈ t.behind (after.getD base), compare base e.key = .lt) :
    t.scan base after limit =
      ((t.under base).filter fun e => compare (after.getD base) e.key == .lt).take limit := by
  -- behind the base, what lies before a key under the base is under the base as well
  have hpairs : (t.behind (after.getD base)).Pairwise fun a b =>
      b.key.isUnder base = true → a.key.isUnder base = true := by
    refine List.Pairwise.imp_of_mem (R := fun a b => compare a.key b.key = .lt) ?_
      (t.ordered.filter _)
    intro a b ha _ hab hb
    refine Key.isUnder_of_between (h a ha) ?_ hb
    rw [hab]
    rfl
  rw [scan, takeWhile_eq_filter hpairs, behind, under, List.filter_filter, List.filter_filter]
  congr 1
  exact List.filter_congr fun e _ => Bool.and_comm _ _

/-- A scan that starts at the base or behind it hands out the first entries behind its start. -/
theorem scan_eq_take {t : Table} {base : Key} {after : Option Key} (limit : Nat)
    (hafter : (compare base (after.getD base)).isLE = true) :
    t.scan base after limit =
      ((t.under base).filter fun e => compare (after.getD base) e.key == .lt).take limit :=
  scan_eq_take_of_behind limit fun _ he =>
    Std.TransCmp.lt_of_isLE_of_lt hafter (eq_of_beq (List.mem_filter.1 he).2)

/-- A scan that goes on behind the entries already seen. -/
theorem scan_eq_take_of_seen {t : Table} {base : Key} {seen rest : List Entry} (limit : Nat)
    (h : t.under base = seen ++ rest) :
    t.scan base (seen.getLast?.map (·.key)) limit = rest.take limit := by
  have hunder : ∀ e ∈ seen ++ rest, compare base e.key = .lt := fun e he =>
    Key.lt_of_isUnder (mem_under.1 (h ▸ he)).2
  have hord : (seen ++ rest).Pairwise fun a b => compare a.key b.key = .lt :=
    h ▸ t.under_ordered base
  rcases List.eq_nil_or_concat seen with rfl | ⟨init, last, rfl⟩
  · rw [scan_eq_take limit (by simp), h]
    congr 1
    exact List.filter_eq_self.2 fun e he => by simpa using hunder e he
  · rw [List.concat_eq_append] at h hunder hord ⊢
    have hlast : (init ++ [last]).getLast? = some last := by simp
    rw [hlast, scan_eq_take limit (by simp [hunder last (by simp)]), h]
    congr 1
    -- what was seen lies at the last key or before it, and the rest behind it
    have hseen : (init ++ [last]).filter (fun e => compare last.key e.key == .lt) = [] := by
      refine List.filter_eq_nil_iff.2 fun e he => ?_
      rcases List.mem_append.1 he with he | he
      · have hlt : compare e.key last.key = .lt :=
          (List.pairwise_append.1 (List.pairwise_append.1 hord).1).2.2 e he last (by simp)
        simp [Std.OrientedCmp.gt_of_lt hlt]
      · simp [List.mem_singleton.1 he]
    have hrest : rest.filter (fun e => compare last.key e.key == .lt) = rest :=
      List.filter_eq_self.2 fun e he => by
        simpa using (List.pairwise_append.1 hord).2.2 last (by simp) e he
    show ((init ++ [last]) ++ rest).filter (fun e => compare last.key e.key == .lt) = rest
    rw [List.filter_append, hseen, hrest, List.nil_append]

theorem scan_ordered (t : Table) (base : Key) (after : Option Key) (limit : Nat) :
    (t.scan base after limit).Pairwise fun a b => compare a.key b.key = .lt :=
  (t.ordered.filter _).sublist ((List.take_sublist _ _).trans (List.takeWhile_sublist _))

/-- What a scan hands out lies behind its start. -/
theorem behind_of_mem_scan {t : Table} {base : Key} {after : Option Key} {limit : Nat} {e : Entry}
    (h : e ∈ t.scan base after limit) : compare (after.getD base) e.key = .lt := by
  have h := (List.takeWhile_sublist _).subset (List.mem_of_mem_take h)
  exact eq_of_beq (List.mem_filter.1 h).2

/-- An entry behind the start of a scan is handed out, or the page is full with entries before it. -/
theorem mem_scan_or_full {t : Table} {base : Key} {after : Option Key} {f : Entry} (limit : Nat)
    (hafter : (compare base (after.getD base)).isLE = true) (hf : f ∈ t.entries)
    (hunder : f.key.isUnder base = true) (hbehind : compare (after.getD base) f.key = .lt) :
    f ∈ t.scan base after limit ∨ (t.scan base after limit).length = limit ∧
      ∀ e ∈ t.scan base after limit, compare e.key f.key = .lt := by
  rw [scan_eq_take limit hafter]
  generalize hl : ((t.under base).filter fun e => compare (after.getD base) e.key == .lt) = l
  have hord : (l.take limit ++ l.drop limit).Pairwise fun a b => compare a.key b.key = .lt := by
    rw [List.take_append_drop, ← hl]
    exact (t.under_ordered base).filter _
  have hmem : f ∈ l.take limit ++ l.drop limit := by
    rw [List.take_append_drop, ← hl]
    exact List.mem_filter.2 ⟨mem_under.2 ⟨hf, hunder⟩, beq_iff_eq.2 hbehind⟩
  rcases List.mem_append.1 hmem with htake | hdrop
  · exact .inl htake
  · refine .inr ⟨?_, fun e he => (List.pairwise_append.1 hord).2.2 e he f hdrop⟩
    have hlt : limit < l.length := by
      have hpos := List.length_pos_of_mem hdrop
      rw [List.length_drop] at hpos
      omega
    rw [List.length_take, Nat.min_eq_left (Nat.le_of_lt hlt)]

end DocumentStore.Table

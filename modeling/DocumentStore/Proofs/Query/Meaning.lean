import DocumentStore.Proofs.Collection.Plans

/-!
# What queries accept

A table of criteria accepts the documents that meet each criterion at its path, whatever the order of
the entries, and both queries together accept what each of them accepts (`Query.accepts_and`), whether
their criteria are put into one table or not.
-/

namespace DocumentStore

/-! ## Tables -/

namespace FieldTable

variable {α : Type}

theorem get?_eq_some_iff {t : FieldTable α} {name : String} {item : α} :
    t.get? name = some item ↔ (name, item) ∈ t.entries := by
  unfold get?
  rw [List.lookup_eq_some_iff]
  constructor
  · rintro ⟨l₁, l₂, hentries, _⟩
    rw [hentries]
    exact List.mem_append_right _ List.mem_cons_self
  · intro hmem
    obtain ⟨l₁, l₂, hentries⟩ := List.append_of_mem hmem
    refine ⟨l₁, l₂, hentries, fun entry hentry => ?_⟩
    -- no entry before it has the same name
    have hdistinct := t.distinct
    rw [hentries, List.map_append, List.nodup_append] at hdistinct
    have hne := hdistinct.2.2 entry.1 (List.mem_map_of_mem hentry) name (by simp)
    simpa using Ne.symm hne

/-- Entries of new names are put at the end. -/
theorem entries_insertAll {t : FieldTable α} {entries : List (String × α)}
    (h : ((t.entries ++ entries).map Prod.fst).Nodup) :
    (t.insertAll entries).entries = t.entries ++ entries := by
  induction entries generalizing t with
  | nil => exact (List.append_nil _).symm
  | cons entry entries ih =>
    have hnew : entry.1 ∉ t.entries.map Prod.fst := by
      intro hmem
      rw [List.map_append, List.nodup_append] at h
      exact h.2.2 _ hmem _ List.mem_cons_self rfl
    have hentries : (t.insert entry.1 entry.2).entries = t.entries ++ [entry] := by
      rw [insert, dif_neg hnew]
    show ((t.insert entry.1 entry.2).insertAll entries).entries = _
    rw [ih (by simpa [hentries] using h), hentries, List.append_assoc]
    rfl

theorem isDisjoint_iff {t u : FieldTable α} :
    t.isDisjoint u = true ↔ ∀ name ∈ u.names, name ∉ t.names := by
  simp [isDisjoint, contains]

theorem isDisjoint_comm (t u : FieldTable α) : t.isDisjoint u = u.isDisjoint t := by
  rw [Bool.eq_iff_iff, isDisjoint_iff, isDisjoint_iff]
  exact ⟨fun h name ht hu => h name hu ht, fun h name hu ht => h name ht hu⟩

/-- Tables without a common name are put one behind the other. -/
theorem entries_merge {t u : FieldTable α} (h : t.isDisjoint u = true) :
    (t.merge u).entries = t.entries ++ u.entries := by
  refine entries_insertAll ?_
  rw [List.map_append, List.nodup_append]
  refine ⟨t.distinct, u.distinct, fun name ht name' hu hname => ?_⟩
  exact isDisjoint_iff.1 h name' hu (hname ▸ ht)

end FieldTable

/-! ## Criteria at several paths -/

theorem CompiledQuery.accepts_fields_iff {criteria : FieldTable Criterion} {d : Document} :
    (fields criteria).accepts d = true ↔
      ∀ path criterion, (path, criterion) ∈ criteria.entries →
        criterion.accepts (d.getPath? path) = true := by
  constructor
  · intro h path criterion hmem
    exact accepts_criterion h (FieldTable.get?_eq_some_iff.2 hmem)
  · intro h
    refine List.all_eq_true.2 fun path _ => ?_
    cases hcriterion : (fields criteria).criterion? path with
    | none => rfl
    | some criterion => exact h path criterion (FieldTable.get?_eq_some_iff.1 hcriterion)

namespace Query

theorem compile_fields_of_isEmpty {criteria : FieldTable Criterion}
    (h : criteria.isEmpty = true) : (fields criteria).compile = .all := if_pos h

theorem compile_fields_of_not_isEmpty {criteria : FieldTable Criterion}
    (h : ¬ criteria.isEmpty = true) : (fields criteria).compile = .fields criteria := if_neg h

theorem accepts_fields_iff {criteria : FieldTable Criterion} {d : Document} :
    (fields criteria).compile.accepts d = true ↔
      ∀ path criterion, (path, criterion) ∈ criteria.entries →
        criterion.accepts (d.getPath? path) = true := by
  by_cases hempty : criteria.isEmpty = true
  · rw [compile_fields_of_isEmpty hempty, List.isEmpty_iff.1 hempty]
    exact iff_of_true rfl nofun
  · rw [compile_fields_of_not_isEmpty hempty]
    exact CompiledQuery.accepts_fields_iff

theorem criterion?_fields (criteria : FieldTable Criterion) (path : String) :
    (fields criteria).compile.criterion? path = criteria.get? path := by
  by_cases hempty : criteria.isEmpty = true
  · rw [compile_fields_of_isEmpty hempty, FieldTable.get?, List.isEmpty_iff.1 hempty]
    rfl
  · rw [compile_fields_of_not_isEmpty hempty]
    rfl

/-! ## Both queries -/

theorem and_fields {t u : FieldTable Criterion} (h : t.isDisjoint u = true) :
    (fields t).and (fields u) = fields (t.merge u) := if_pos h

theorem and_fields_of_not_isDisjoint {t u : FieldTable Criterion} (h : ¬ t.isDisjoint u = true) :
    (fields t).and (fields u) = predicate fun d =>
      (fields t).compile.accepts d && (fields u).compile.accepts d := if_neg h

/-- Both queries together accept what each of them accepts. -/
theorem accepts_and (a b : Query) (d : Document) :
    (a.and b).compile.accepts d = (a.compile.accepts d && b.compile.accepts d) := by
  cases a with
  | all => exact (Bool.true_and _).symm
  | predicate holds =>
    cases b with
    | all => exact (Bool.and_true _).symm
    | predicate holds' => rfl
    | fields u => rfl
  | fields t =>
    cases b with
    | all => exact (Bool.and_true _).symm
    | predicate holds => rfl
    | fields u =>
      by_cases hdisjoint : t.isDisjoint u = true
      -- in one table both have all their criteria
      · rw [and_fields hdisjoint, Bool.eq_iff_iff, Bool.and_eq_true, accepts_fields_iff,
          accepts_fields_iff, accepts_fields_iff, FieldTable.entries_merge hdisjoint]
        simp only [List.mem_append, or_imp, forall_and]
      · rw [and_fields_of_not_isDisjoint hdisjoint]
        rfl

/-- In either order both queries have the same criterion at each path. -/
theorem criterion?_and_comm (a b : Query) (path : String) :
    (a.and b).compile.criterion? path = (b.and a).compile.criterion? path := by
  cases a with
  | all => cases b <;> rfl
  | predicate holds => cases b <;> rfl
  | fields t =>
    cases b with
    | all => rfl
    | predicate holds => rfl
    | fields u =>
      by_cases hdisjoint : t.isDisjoint u = true
      · have hdisjoint' : u.isDisjoint t = true := by rwa [FieldTable.isDisjoint_comm]
        rw [and_fields hdisjoint, and_fields hdisjoint', criterion?_fields, criterion?_fields]
        refine Option.ext fun criterion => ?_
        rw [FieldTable.get?_eq_some_iff, FieldTable.get?_eq_some_iff,
          FieldTable.entries_merge hdisjoint, FieldTable.entries_merge hdisjoint',
          List.mem_append, List.mem_append, or_comm]
      -- a predicate names no path
      · rw [and_fields_of_not_isDisjoint hdisjoint,
          and_fields_of_not_isDisjoint (by rwa [FieldTable.isDisjoint_comm])]
        rfl

end Query

end DocumentStore

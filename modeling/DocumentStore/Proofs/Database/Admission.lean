import DocumentStore.Proofs.Database.Registry

/-!
# Which collections can be opened

A name is valid if there is something in it, no whitespace and no dollar sign in front.  Fields can be
declared as indexes if there are at most six, all different, and none of them is empty, dotted or the
identity.  A registry opens a name exactly if the name is valid and either bound, and no other fields are
asked for, or free, and the definition is valid (`Registry.exists_register_iff`).  Whatever else is asked
for is an error of configuration.
-/

namespace DocumentStore

/-! ## Index fields -/

structure IndexSet.Declarable (fields : List String) : Prop where
  size : fields.length ≤ 6
  nodup : fields.Nodup
  nonempty : ∀ field ∈ fields, field ≠ ""
  notIdentity : ∀ field ∈ fields, field ≠ identityField
  undotted : ∀ field ∈ fields, Path.isDotted field = false

namespace IndexSet

variable {fields : List String} {e : Error}

theorem checkFields_of_nodup {earlier : List String} (hnodup : fields.Nodup)
    (hall : ∀ field ∈ fields, field ≠ "" ∧ field ≠ identityField ∧ Path.isDotted field = false ∧
      field ∉ earlier) : checkFields earlier fields = .ok () := by
  induction fields generalizing earlier with
  | nil => rfl
  | cons field rest ih =>
    obtain ⟨hempty, hidentity, hdotted, hearlier⟩ := hall field List.mem_cons_self
    obtain ⟨hfield, hrest⟩ := List.nodup_cons.1 hnodup
    have hproblem : problem? earlier field = none := by
      unfold problem?
      rw [if_neg hempty, if_neg hidentity, if_neg (Bool.eq_false_iff.1 hdotted), if_neg hearlier]
    rw [checkFields, hproblem]
    -- the field is an earlier one for the rest, where it does not stand again
    refine ih hrest fun f hf => ?_
    obtain ⟨h₁, h₂, h₃, h₄⟩ := hall f (List.mem_cons_of_mem _ hf)
    refine ⟨h₁, h₂, h₃, fun hmem => ?_⟩
    rcases List.mem_append.1 hmem with hmem | hmem
    · exact h₄ hmem
    · exact hfield (List.mem_singleton.1 hmem ▸ hf)

theorem ofFields_eq_ok_iff : ofFields fields = .ok ⟨fields⟩ ↔ Declarable fields := by
  unfold ofFields
  by_cases hsize : maxSize < fields.length
  · rw [if_pos hsize]
    exact ⟨nofun, fun h => absurd h.size (Nat.not_le.2 hsize)⟩
  rw [if_neg hsize]
  constructor
  · intro h
    obtain ⟨hcheck, _⟩ := Except.check_bind_eq_ok_iff.1 h
    obtain ⟨hnodup, hall⟩ := nodup_of_checkFields hcheck
    exact ⟨Nat.not_lt.1 hsize, hnodup, fun f hf => (hall f hf).1, fun f hf => (hall f hf).2.1,
      fun f hf => (hall f hf).2.2.1⟩
  · intro h
    have hcheck : checkFields [] fields = .ok () := checkFields_of_nodup h.nodup fun f hf =>
      ⟨h.nonempty f hf, h.notIdentity f hf, h.undotted f hf, List.not_mem_nil⟩
    exact Except.check_bind_eq_ok_iff.2 ⟨hcheck, rfl⟩

theorem kind_of_checkFields {earlier : List String} (h : checkFields earlier fields = .error e) :
    e.kind = .configuration := by
  induction fields generalizing earlier with
  | nil => cases h
  | cons field rest ih =>
    rw [checkFields] at h
    split at h
    · cases h
      rfl
    · exact ih h

theorem kind_of_ofFields (h : ofFields fields = .error e) : e.kind = .configuration := by
  unfold ofFields at h
  by_cases hsize : maxSize < fields.length
  · rw [if_pos hsize] at h
    cases h
    rfl
  · rw [if_neg hsize] at h
    rcases Except.bind_eq_error_iff.1 h with hfields | ⟨_, _, h⟩
    · exact kind_of_checkFields hfields
    · cases h

end IndexSet

/-! ## Definitions -/

namespace RetryPolicy

variable {p : Option RetryPolicy} {e : Error}

theorem checkOptional_eq_ok_iff : checkOptional p = .ok () ↔ p ≠ some (.untilSuccess 0) := by
  cases p with
  | none => exact ⟨nofun, fun _ => rfl⟩
  | some p => exact check_eq_ok_iff.trans (not_congr (Option.some_inj).symm)

theorem kind_of_checkOptional (h : checkOptional p = .error e) : e.kind = .configuration := by
  cases p with
  | none => cases h
  | some p =>
    change p.check = .error e at h
    unfold check at h
    split at h
    · cases h
      rfl
    · cases h

end RetryPolicy

namespace Collection

variable {name : String} {options : CollectionOptions} {defaults : CollectionDefaults}

structure Definable (options : CollectionOptions) : Prop where
  indexes : IndexSet.Declarable options.indexFields
  updateRetry : options.updateRetry ≠ some (.untilSuccess 0)
  deleteRetry : options.deleteRetry ≠ some (.untilSuccess 0)

theorem define_eq_ok_iff {c : Collection} : define name options defaults = .ok c ↔
    Definable options ∧ c = ⟨name, ⟨options.indexFields⟩, options, defaults⟩ := by
  constructor
  · intro h
    obtain ⟨_, hupdate, hdelete, rfl⟩ := define_eq_ok h
    obtain ⟨indexes, hindexes, h⟩ := Except.bind_eq_ok_iff.1 h
    obtain ⟨_, h⟩ := Except.check_bind_eq_ok_iff.1 h
    obtain ⟨_, h⟩ := Except.check_bind_eq_ok_iff.1 h
    obtain rfl : indexes = ⟨options.indexFields⟩ := (Collection.mk.inj (Except.ok.inj h)).2.1
    exact ⟨⟨IndexSet.ofFields_eq_ok_iff.1 hindexes, RetryPolicy.checkOptional_eq_ok_iff.1 hupdate,
      RetryPolicy.checkOptional_eq_ok_iff.1 hdelete⟩, rfl⟩
  · rintro ⟨h, rfl⟩
    exact Except.bind_eq_ok_iff.2 ⟨_, IndexSet.ofFields_eq_ok_iff.2 h.indexes,
      Except.check_bind_eq_ok_iff.2 ⟨RetryPolicy.checkOptional_eq_ok_iff.2 h.updateRetry,
        Except.check_bind_eq_ok_iff.2 ⟨RetryPolicy.checkOptional_eq_ok_iff.2 h.deleteRetry, rfl⟩⟩⟩

theorem kind_of_define {e : Error} (h : define name options defaults = .error e) :
    e.kind = .configuration := by
  rcases Except.bind_eq_error_iff.1 h with hindexes | ⟨_, _, h⟩
  · exact IndexSet.kind_of_ofFields hindexes
  rcases Except.bind_eq_error_iff.1 h with hupdate | ⟨_, _, h⟩
  · exact RetryPolicy.kind_of_checkOptional hupdate
  rcases Except.bind_eq_error_iff.1 h with hdelete | ⟨_, _, h⟩
  · exact RetryPolicy.kind_of_checkOptional hdelete
  · cases h

end Collection

/-! ## Names -/

namespace Registry

variable {r r' : Registry} {name : String} {options : Option CollectionOptions}
  {defaults : CollectionDefaults} {c : Collection}

structure ValidName (name : String) : Prop where
  nonempty : name ≠ ""
  unspaced : ∀ ch ∈ name.toList, Text.isBlank ch = false
  unreserved : name.toList.head? ≠ some '$'

theorem nameProblem?_eq_none_iff : nameProblem? name = none ↔ ValidName name := by
  unfold nameProblem?
  by_cases hempty : name = ""
  · rw [if_pos hempty]
    exact ⟨nofun, fun h => absurd hempty h.nonempty⟩
  rw [if_neg hempty]
  by_cases hspace : name.toList.any Text.isBlank = true
  · refine iff_of_false (fun h => ?_) fun h => ?_
    · split at h <;> cases h
    · obtain ⟨ch, hch, hblank⟩ := List.any_eq_true.1 hspace
      rw [h.unspaced ch hch] at hblank
      cases hblank
  have hunspaced : ∀ ch ∈ name.toList, Text.isBlank ch = false := by simpa using hspace
  have hnotBlank : ¬ Text.isAllBlank name = true := by
    intro hblank
    obtain ⟨ch, hch⟩ := List.exists_mem_of_ne_nil _ (mt String.toList_eq_nil_iff.1 hempty)
    have hch' := List.all_eq_true.1 hblank ch hch
    rw [hunspaced ch hch] at hch'
    cases hch'
  rw [if_neg hnotBlank, if_neg hspace]
  by_cases hreserved : name.toList.head? = some '$'
  · rw [if_pos hreserved]
    exact ⟨nofun, fun h => absurd hreserved h.unreserved⟩
  · rw [if_neg hreserved]
    exact ⟨fun _ => ⟨hempty, hunspaced, hreserved⟩, fun _ => rfl⟩

theorem checkName_eq_ok_iff : checkName name = .ok () ↔ ValidName name := by
  rw [← nameProblem?_eq_none_iff, checkName]
  cases nameProblem? name with
  | none => exact ⟨fun _ => rfl, fun _ => rfl⟩
  | some problem => exact ⟨nofun, nofun⟩

/-! ## Opening -/

/-- The name can be opened with the options: if it is bound, they ask for no other indexes, and if it is
free, a collection can be defined with them. -/
structure Admits (r : Registry) (name : String) (options : Option CollectionOptions) : Prop where
  valid : ValidName name
  same : ∀ c, r.find? name = some c → ∀ o ∈ options, o.indexFields = c.indexes.fields
  new : r.find? name = none → Collection.Definable (options.getD {})

theorem exists_register_iff :
    (∃ c r', r.register name options defaults = .ok (c, r')) ↔ r.Admits name options := by
  constructor
  · rintro ⟨c, r', h⟩
    obtain ⟨hname, ⟨hfind, rfl⟩ | ⟨hfind, hdefine, rfl⟩⟩ := register_cases h
    · refine ⟨checkName_eq_ok_iff.1 hname, fun c' hc' o ho => ?_, fun hnone => ?_⟩
      · by_contra hother
        obtain rfl := Option.mem_def.1 ho
        cases h.symm.trans (register_of_other hname hc' hother)
      · cases hfind.symm.trans hnone
    · refine ⟨checkName_eq_ok_iff.1 hname, fun c' hc' => ?_, fun _ =>
        (Collection.define_eq_ok_iff.1 hdefine).1⟩
      cases hfind.symm.trans hc'
  · intro h
    have hname := checkName_eq_ok_iff.2 h.valid
    cases hfind : r.find? name with
    | some c => exact ⟨c, r, register_of_bound hname hfind (h.same c hfind)⟩
    | none =>
      exact ⟨_, _, register_of_free hname hfind (Collection.define_eq_ok_iff.2 ⟨h.new hfind, rfl⟩)⟩

theorem kind_of_register {e : Error} (h : r.register name options defaults = .error e) :
    e.kind = .configuration := by
  rcases Except.bind_eq_error_iff.1 h with hname | ⟨_, _, h⟩
  · unfold checkName at hname
    split at hname <;> cases hname
    rfl
  split at h
  · split at h
    · split at h
      · cases h
      · cases h
        rfl
    · cases h
  · rcases Except.bind_eq_error_iff.1 h with hdefine | ⟨_, _, h⟩
    · exact Collection.kind_of_define hdefine
    · cases h

end Registry

end DocumentStore

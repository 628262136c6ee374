import DocumentStore.Proofs.Document.Names
import DocumentStore.Proofs.Document.Updates
import DocumentStore.Proofs.Query.Literals

/-!
# Updates made of documents

The update made of a document puts the values of its fields under their names and leaves all other
fields as they are.  If no name is empty or has a dot, it succeeds on the documents that have the same
identity, unless it has none itself, and what it makes of them the query made of the same document
accepts.
-/

namespace DocumentStore

namespace Document

variable {d d' : Document} {name : String} {v : Value}

theorem putPath_of_plainName (h : PlainName name) (d : Document) (v : Value) :
    d.putPath name v = .ok (d.insert name v) := by
  obtain ⟨hname, hrest⟩ := List.cons.inj (Path.segments_of_undotted h.2)
  rw [putPath, hname, hrest]
  exact putIn_nil_eq_ok.2 ⟨h.1, rfl⟩

/-- A document in which the fields of another one stand and all others are as before. -/
structure Assigns {bound : Option String} (u : Fields bound) (d d' : Document) : Prop where
  assigned : ∀ name v, u.get? name = some v → d'.get? name = some v
  kept : ∀ name, u.get? name = none → d'.get? name = d.get? name

/-- A first document has no identity, or one that equals the identity of the second one. -/
def SharesIdentity (u d : Document) : Prop :=
  ∀ v, u.identity? = some v → ∃ w, d.identity? = some w ∧ (v == w) = true

namespace Assigns

variable {bound : Option String}

/-- Only one document has these fields. -/
theorem unique {u : Fields bound} {d'' : Document} (h : Assigns u d d') (h' : Assigns u d d'') :
    d' = d'' := by
  refine Fields.ext fun name => ?_
  cases hu : u.get? name with
  | none => rw [h.kept name hu, h'.kept name hu]
  | some v => rw [h.assigned name v hu, h'.assigned name v hu]

/-- Fields that stand there already change nothing. -/
theorem again {u : Fields bound} (h : Assigns u d d') : Assigns u d' d' :=
  ⟨h.assigned, fun _ _ => rfl⟩

theorem nil (d : Document) : Assigns (.nil : Fields bound) d d :=
  ⟨fun _ _ h => (by cases h), fun _ _ => rfl⟩

/-- The first field before the others. -/
theorem cons {above : Above bound name} {rest : Fields (some name)}
    (h : Assigns rest (d.insert name v) d') : Assigns (.cons name above v rest) d d' := by
  constructor
  · intro m w hw
    rw [Fields.get?_cons] at hw
    by_cases hm : m = name
    · subst hm
      rw [if_pos rfl] at hw
      cases hw
      -- no later field has the name
      rw [h.kept m (Fields.get?_eq_none_of_le (String.lt_irrefl m)), get?_insert_self]
    · rw [if_neg hm] at hw
      exact h.assigned m w hw
  · intro m hnone
    rw [Fields.get?_cons] at hnone
    by_cases hm : m = name
    · rw [if_pos hm] at hnone
      cases hnone
    · rw [if_neg hm] at hnone
      rw [h.kept m hnone, get?_insert_of_ne v hm]

end Assigns

end Document

/-! ## The changes -/

namespace Update

open Document (Assigns SharesIdentity)

variable {u d d' : Document}

def assignments {bound : Option String} (u : Fields bound) : List (String × FieldChange) :=
  u.toList.map fun (name, value) => (name, .set value)

theorem map_fst_assignments {bound : Option String} (u : Fields bound) :
    (assignments u).map Prod.fst = u.names := by
  rw [assignments, List.map_map]
  rfl

theorem updated_ofDocument (u d : Document) :
    (ofDocument u).updated d = applyChanges (assignments u) d := by
  have hentries : (FieldTable.ofList (assignments u)).entries = assignments u := by
    refine FieldTable.entries_insertAll (t := .empty) ?_
    show ((assignments u).map Prod.fst).Nodup
    rw [map_fst_assignments]
    exact Fields.nodup_names u
  show applyChanges (FieldTable.ofList (assignments u)).entries d = _
  rw [hentries]

/-- Fields are put under plain names one after another. -/
theorem applyChanges_assignments {bound : Option String} (u : Fields bound)
    (hnames : ∀ name ∈ u.names, PlainName name) (d : Document) :
    ∃ d', applyChanges (assignments u) d = .ok d' ∧ Assigns u d d' := by
  induction u using Fields.field_induction generalizing d with
  | nil => exact ⟨d, rfl, .nil d⟩
  | cons n above v rest ih =>
    obtain ⟨hname, hrest⟩ := List.forall_mem_cons.1 hnames
    obtain ⟨d', happly, hassigns⟩ := ih hrest (d.insert n v)
    refine ⟨d', ?_, hassigns.cons⟩
    have hput : (FieldChange.set v).apply n d = .ok (d.insert n v) :=
      Document.putPath_of_plainName hname d v
    exact Except.bind_eq_ok_iff.2 ⟨_, hput, happly⟩

/-- The identity is kept if it is not among the fields or is there already. -/
theorem sameOptional_identity_iff (h : Assigns u d d') :
    sameOptional d'.identity? d.identity? = true ↔ SharesIdentity u d := by
  unfold SharesIdentity
  cases hu : u.identity? with
  | none =>
    have hkept : d'.identity? = d.identity? := h.kept identityField hu
    rw [hkept]
    refine iff_of_true ?_ fun v hv => by cases hv
    cases d.identity? with
    | none => rfl
    | some w => exact Value.same_refl w
  | some v =>
    have hassigned : d'.identity? = some v := h.assigned identityField v hu
    rw [hassigned]
    cases hd : d.identity? with
    | none => simp [sameOptional]
    | some w =>
      simp only [Option.some.injEq, forall_eq', exists_eq_left']
      rfl

section Plain

variable (hnames : ∀ name ∈ u.names, PlainName name)

include hnames

theorem updated_ofDocument_eq_ok_iff :
    (ofDocument u).updated d = .ok d' ↔ Assigns u d d' := by
  obtain ⟨made, happly, hassigns⟩ := applyChanges_assignments u hnames d
  rw [updated_ofDocument, happly]
  constructor
  · rintro ⟨⟩
    exact hassigns
  · intro h
    rw [h.unique hassigns]

theorem apply_ofDocument_eq_ok_iff :
    (ofDocument u).apply d = .ok d' ↔ Assigns u d d' ∧ SharesIdentity u d := by
  rw [apply_eq_ok_iff, updated_ofDocument_eq_ok_iff hnames]
  exact and_congr_right sameOptional_identity_iff

theorem exists_apply_ofDocument (h : SharesIdentity u d) :
    ∃ d', (ofDocument u).apply d = .ok d' ∧ Assigns u d d' := by
  obtain ⟨d', _, hassigns⟩ := applyChanges_assignments u hnames d
  exact ⟨d', (apply_ofDocument_eq_ok_iff hnames).2 ⟨hassigns, h⟩, hassigns⟩

/-- A second time there is nothing to change. -/
theorem apply_ofDocument_again (h : (ofDocument u).apply d = .ok d') :
    (ofDocument u).apply d' = .ok d' := by
  obtain ⟨hassigns, _⟩ := (apply_ofDocument_eq_ok_iff hnames).1 h
  refine (apply_ofDocument_eq_ok_iff hnames).2 ⟨hassigns.again, fun v hv => ?_⟩
  exact ⟨v, hassigns.assigned identityField v hv, Value.same_refl v⟩

theorem apply_ofDocument_of_not_sharesIdentity (h : ¬ SharesIdentity u d) :
    (ofDocument u).apply d = .error .identityChanged := by
  obtain ⟨d', happly, hassigns⟩ := applyChanges_assignments u hnames d
  rw [apply, updated_ofDocument, happly]
  refine if_neg fun hsame => h ?_
  exact (sameOptional_identity_iff hassigns).1 hsame

/-- The query made of the document accepts what the update makes of others. -/
theorem accepts_of_assigns (h : Assigns u d d') :
    (Query.ofDocument u).compile.accepts d' = true := by
  refine Query.accepts_ofDocument_iff.2 fun name v hv => ⟨v, ?_, Value.admits_refl v⟩
  have hname : PlainName name := hnames name (Fields.mem_names_iff.2 ⟨v, hv⟩)
  have hplain : Path.isDotted name = false := by
    simpa [Path.isDotted] using hname.2
  rw [Document.getPath?_of_undotted hplain]
  exact h.assigned name v hv

end Plain

end Update

end DocumentStore

import DocumentStore.Update
import DocumentStore.Proofs.Document.Paths
import DocumentStore.Proofs.Program.Checks

/-!
# Changes of fields in any order

A change of a field writes or removes one value, computed from what its path leads to.  Two changes whose
paths part can be made in either order, also where they share documents that one of them creates or
fails at (`Document.writeIn_comm`), so a list of such changes has one outcome in every order
(`Update.parting_changes_commute`).
-/

namespace DocumentStore

namespace Document

open DocumentStore.Path (Parting parting_cons_iff segments)

variable {d d₁ d₂ : Document} {m n next : String} {ms ns rest : List String}
  {value value₁ value₂ : Option Value}

/-! ## Writing or removing -/

def writeIn (d : Document) (name : String) (rest : List String) :
    Option Value → Except Error Document
  | some v => d.putIn name v rest
  | none => .ok (d.eraseIn name rest)

theorem getIn?_of_writeIn (h : d.writeIn n ns value = .ok d₁) : d₁.getIn? n ns = value := by
  cases value with
  | some v => exact getIn?_of_putIn h
  | none =>
    cases h
    exact getIn?_eraseIn_self d n ns

theorem getIn?_of_writeIn_of_parting (h : d.writeIn n ns value = .ok d₁)
    (hparts : Parting (n :: ns) (m :: ms)) : d₁.getIn? m ms = d.getIn? m ms := by
  cases value with
  | some v => exact getIn?_of_putIn_of_parting h hparts
  | none =>
    cases h
    exact getIn?_eraseIn_of_parting hparts

theorem get?_of_writeIn_of_ne (h : d.writeIn n ns value = .ok d₁) (hne : m ≠ n) :
    d₁.get? m = d.get? m := by
  have hparts : Parting (n :: ns) [m] := parting_cons_iff.2 (.inl hne.symm)
  exact getIn?_of_writeIn_of_parting h hparts

/-- All that writing behind a name can do: there is nothing to take out, or the document that the name
leads into is changed. -/
theorem writeIn_cons_eq_ok :
    d.writeIn n (next :: rest) value = .ok d₁ ↔
      (value = none ∧ d.getIn? n (next :: rest) = none ∧ d₁ = d) ∨
      ((value = none → d.getIn? n (next :: rest) ≠ none) ∧ (value ≠ none → n ≠ "") ∧
        ∃ nested changed, d.within? n = some nested ∧
          nested.writeIn next rest value = .ok changed ∧ d₁ = d.insert n (.map changed)) := by
  cases value with
  | some v => simp [writeIn, putIn_cons_eq_ok]
  | none =>
    cases hleads : d.getIn? n (next :: rest) with
    | none => simp [writeIn, eraseIn_of_getIn? hleads, eq_comm]
    | some v =>
      rw [getIn?_cons] at hleads
      obtain ⟨nested, hwithin, hnested⟩ := Option.bind_eq_some_iff.1 hleads
      simp [writeIn, eraseIn_cons hwithin hnested, hwithin, eq_comm]

/-! ## Two writes -/

theorem within?_congr {e : Document} (h : d.get? n = e.get? n) : d.within? n = e.within? n := by
  rw [within?, within?, h]

/-- What is written behind a name depends on the field of that name only. -/
theorem exists_writeIn_of_get?_eq {e : Document} (hget : e.get? n = d.get? n)
    (h : d.writeIn n ns value = .ok d₁) :
    ∃ e₁, e.writeIn n ns value = .ok e₁ ∧ e₁.get? n = d₁.get? n := by
  cases ns with
  | nil =>
    cases value with
    | some v =>
      obtain ⟨hname, rfl⟩ := putIn_nil_eq_ok.1 h
      exact ⟨_, putIn_nil_eq_ok.2 ⟨hname, rfl⟩, by rw [get?_insert_self, get?_insert_self]⟩
    | none =>
      cases h
      exact ⟨_, rfl, (getIn?_eraseIn_self e n []).trans (getIn?_eraseIn_self d n []).symm⟩
  | cons next rest =>
    obtain ⟨rfl, hleads, rfl⟩ | ⟨hleads, hname, nested, changed, hwithin, hwrite, rfl⟩ :=
      writeIn_cons_eq_ok.1 h
    · rw [← getIn?_congr hget] at hleads
      exact ⟨e, writeIn_cons_eq_ok.2 (.inl ⟨rfl, hleads, rfl⟩), hget⟩
    · rw [← getIn?_congr hget] at hleads
      rw [← within?_congr hget] at hwithin
      exact ⟨_, writeIn_cons_eq_ok.2
        (.inr ⟨hleads, hname, nested, changed, hwithin, hwrite, rfl⟩),
        by rw [get?_insert_self, get?_insert_self]⟩

theorem writeIn_comm_of_ne (hne : m ≠ n) (h₁ : d.writeIn n ns value₁ = .ok d₁)
    (h₂ : d₁.writeIn m ms value₂ = .ok d₂) :
    ∃ e, d.writeIn m ms value₂ = .ok e ∧ e.writeIn n ns value₁ = .ok d₂ := by
  obtain ⟨e, he, hm⟩ := exists_writeIn_of_get?_eq (get?_of_writeIn_of_ne h₁ hne).symm h₂
  obtain ⟨f, hf, hn⟩ := exists_writeIn_of_get?_eq (get?_of_writeIn_of_ne he hne.symm) h₁
  -- both orders change two fields, each in the same way
  have hsame : f = d₂ := by
    apply Fields.ext
    intro k
    by_cases hkn : k = n
    · rw [hkn, hn, get?_of_writeIn_of_ne h₂ hne.symm]
    · rw [get?_of_writeIn_of_ne hf hkn]
      by_cases hkm : k = m
      · rw [hkm, hm]
      · rw [get?_of_writeIn_of_ne he hkm, get?_of_writeIn_of_ne h₂ hkm,
          get?_of_writeIn_of_ne h₁ hkn]
  exact ⟨e, he, hsame ▸ hf⟩

/-- Two writes along chains that part can be made in either order.  Behind a common name the second one
works on what the first one left, which may be a document that the first one created. -/
theorem writeIn_comm (hparts : Parting (n :: ns) (m :: ms)) (h₁ : d.writeIn n ns value₁ = .ok d₁)
    (h₂ : d₁.writeIn m ms value₂ = .ok d₂) :
    ∃ e, d.writeIn m ms value₂ = .ok e ∧ e.writeIn n ns value₁ = .ok d₂ := by
  induction ns generalizing d d₁ d₂ n m ms with
  | nil => exact writeIn_comm_of_ne hparts.ne_of_single h₁ h₂
  | cons k ks ih =>
    by_cases hne : m = n
    · subst hne
      obtain ⟨l, ls, rfl, hrest⟩ := hparts.exists_of_cons
      -- neither write changes what the other one finds
      have hfound₁ := getIn?_of_writeIn_of_parting h₂ hparts.symm
      have hfound₂ := getIn?_of_writeIn_of_parting h₁ hparts
      obtain ⟨rfl, hleads₁, rfl⟩ | ⟨hleads₁, hname₁, nested, changed₁, hwithin, hwrite₁, rfl⟩ :=
        writeIn_cons_eq_ok.1 h₁
      · exact ⟨d₂, h₂, writeIn_cons_eq_ok.2 (.inl ⟨rfl, hfound₁.trans hleads₁, rfl⟩)⟩
      obtain ⟨rfl, hleads₂, rfl⟩ | ⟨hleads₂, hname₂, _, changed₂, hwithin₁, hwrite₂, rfl⟩ :=
        writeIn_cons_eq_ok.1 h₂
      · exact ⟨d, writeIn_cons_eq_ok.2 (.inl ⟨rfl, hfound₂.symm.trans hleads₂, rfl⟩), h₁⟩
      -- both change the document behind the common name
      rw [within?_insert_map] at hwithin₁
      cases hwithin₁
      obtain ⟨between, hbetween, hlast⟩ := ih hrest hwrite₁ hwrite₂
      have hfirst : d.writeIn m (l :: ls) value₂ = .ok (d.insert m (.map between)) :=
        writeIn_cons_eq_ok.2
          (.inr ⟨hfound₂ ▸ hleads₂, hname₂, nested, between, hwithin, hbetween, rfl⟩)
      have hfound := getIn?_of_writeIn_of_parting hfirst hparts.symm
      refine ⟨_, hfirst, writeIn_cons_eq_ok.2 (.inr ⟨hfound.symm ▸ hleads₁, hname₁, between,
        changed₂, within?_insert_map d m between, hlast, ?_⟩)⟩
      rw [insert_insert, insert_insert]
    · exact writeIn_comm_of_ne hne h₁ h₂

/-! ## Writing along a path -/

def writePath (d : Document) (path : String) (value : Option Value) : Except Error Document :=
  d.writeIn (Path.names path).1 (Path.names path).2 value

variable {p q : String}

theorem getPath?_of_writePath (h : d.writePath p value = .ok d₁) : d₁.getPath? p = value :=
  getIn?_of_writeIn h

theorem getPath?_of_writePath_of_parting (h : d.writePath p value = .ok d₁)
    (hparts : Parting (segments p) (segments q)) : d₁.getPath? q = d.getPath? q :=
  getIn?_of_writeIn_of_parting h hparts

theorem writePath_comm (hparts : Parting (segments p) (segments q))
    (h₁ : d.writePath p value₁ = .ok d₁) (h₂ : d₁.writePath q value₂ = .ok d₂) :
    ∃ e, d.writePath q value₂ = .ok e ∧ e.writePath p value₁ = .ok d₂ :=
  writeIn_comm hparts h₁ h₂

end Document

open DocumentStore.Path (Parting segments)

namespace FieldChange

variable {p q : String} {change other : FieldChange} {d d₁ d₂ : Document}

/-- The value that a change makes of an old one; none takes the field out. -/
def value (change : FieldChange) (old : Option Value) : Option Value :=
  match change with
  | set v => some v
  | unset => none
  | transform f => f old

theorem apply_eq_writePath (path : String) (change : FieldChange) (d : Document) :
    change.apply path d = d.writePath path (change.value (d.getPath? path)) := by
  cases change with
  | set v => rfl
  | unset => rfl
  | transform f =>
    rw [apply, value]
    cases f (d.getPath? path) <;> rfl

theorem getPath?_of_apply (h : change.apply p d = .ok d₁) :
    d₁.getPath? p = change.value (d.getPath? p) := by
  rw [apply_eq_writePath] at h
  exact Document.getPath?_of_writePath h

theorem getPath?_of_apply_of_parting (h : change.apply p d = .ok d₁)
    (hparts : Parting (segments p) (segments q)) : d₁.getPath? q = d.getPath? q := by
  rw [apply_eq_writePath] at h
  exact Document.getPath?_of_writePath_of_parting h hparts

/-- Changes of paths that part can be made in either order. -/
theorem apply_comm (hparts : Parting (segments p) (segments q)) (h₁ : change.apply p d = .ok d₁)
    (h₂ : other.apply q d₁ = .ok d₂) :
    ∃ e, other.apply q d = .ok e ∧ change.apply p e = .ok d₂ := by
  have hsame := getPath?_of_apply_of_parting h₁ hparts
  rw [apply_eq_writePath] at h₁ h₂
  rw [hsame] at h₂
  obtain ⟨e, he, hlast⟩ := Document.writePath_comm hparts h₁ h₂
  rw [← apply_eq_writePath] at he
  refine ⟨e, he, ?_⟩
  rw [apply_eq_writePath, getPath?_of_apply_of_parting he hparts.symm]
  exact hlast

end FieldChange

namespace Update

variable {changes order : List (String × FieldChange)} {d d' : Document} {q : String}

/-! ## Lists of changes -/

def AllPart (changes : List (String × FieldChange)) : Prop :=
  changes.Pairwise fun a b => Parting (segments a.1) (segments b.1)

instance (changes : List (String × FieldChange)) : Decidable (AllPart changes) :=
  have (a b : String × FieldChange) : Decidable (Parting (segments a.1) (segments b.1)) :=
    inferInstance
  inferInstanceAs (Decidable (changes.Pairwise _))

theorem AllPart.perm (h : AllPart changes) (hperm : order.Perm changes) : AllPart order :=
  (hperm.pairwise_iff Parting.symm).2 h

/-- No path has two changes. -/
theorem AllPart.nodup (h : AllPart changes) : (changes.map Prod.fst).Nodup :=
  List.pairwise_map.2 (h.imp fun hparts heq => hparts.1 (by simp [heq]))

theorem getPath?_of_applyChanges_of_parting (h : applyChanges changes d = .ok d')
    (hparts : ∀ change ∈ changes, Parting (segments change.1) (segments q)) :
    d'.getPath? q = d.getPath? q := by
  induction changes generalizing d with
  | nil =>
    cases h
    rfl
  | cons first rest ih =>
    obtain ⟨hfirst, hrest⟩ := List.forall_mem_cons.1 hparts
    obtain ⟨d₁, happly, h⟩ := Except.bind_eq_ok_iff.1 h
    rw [ih h hrest, FieldChange.getPath?_of_apply_of_parting happly hfirst]

/-- Each of the changed paths has the value that its change makes of the old one. -/
theorem getPath?_of_applyChanges (hparts : AllPart changes) (h : applyChanges changes d = .ok d')
    {path : String} {change : FieldChange} (hmem : (path, change) ∈ changes) :
    d'.getPath? path = change.value (d.getPath? path) := by
  induction changes generalizing d with
  | nil => cases hmem
  | cons first rest ih =>
    obtain ⟨hfirst, hrest⟩ := List.pairwise_cons.1 hparts
    obtain ⟨d₁, happly, hothers⟩ := Except.bind_eq_ok_iff.1 h
    rcases List.mem_cons.1 hmem with rfl | hmem
    · rw [getPath?_of_applyChanges_of_parting hothers fun other hother => (hfirst other hother).symm]
      exact FieldChange.getPath?_of_apply happly
    · rw [ih hrest hothers hmem, FieldChange.getPath?_of_apply_of_parting happly (hfirst _ hmem)]

/-- Changes whose paths part can be made in any order. -/
theorem applyChanges_perm (hparts : AllPart changes) (hperm : changes.Perm order)
    (h : applyChanges changes d = .ok d') : applyChanges order d = .ok d' := by
  induction hperm generalizing d with
  | nil => exact h
  | cons first hperm ih =>
    obtain ⟨d₁, happly, h⟩ := Except.bind_eq_ok_iff.1 h
    exact Except.bind_eq_ok_iff.2 ⟨d₁, happly, ih (List.pairwise_cons.1 hparts).2 h⟩
  | swap second first rest =>
    obtain ⟨d₁, h₁, h⟩ := Except.bind_eq_ok_iff.1 h
    obtain ⟨d₂, h₂, h⟩ := Except.bind_eq_ok_iff.1 h
    have hparted := (List.pairwise_cons.1 hparts).1 _ List.mem_cons_self
    obtain ⟨e, he, hlast⟩ := FieldChange.apply_comm hparted h₁ h₂
    exact Except.bind_eq_ok_iff.2 ⟨e, he, Except.bind_eq_ok_iff.2 ⟨d₂, hlast, h⟩⟩
  | trans hperm _ ih₁ ih₂ => exact ih₂ (hparts.perm hperm.symm) (ih₁ hparts h)

/-! ## Updates made of changes -/

def withChanges (u : Update) (changes : List (String × FieldChange)) : Update :=
  changes.foldl (fun u change => u.withChange change.1 change.2) u

/-- A table of changes of distinct paths has them in the order in which they are added. -/
theorem withChanges_fields (t : FieldTable FieldChange)
    (hdistinct : ((t.entries ++ changes).map Prod.fst).Nodup) :
    (fields t).withChanges changes = fields ⟨t.entries ++ changes, hdistinct⟩ := by
  induction changes generalizing t with
  | nil => simp [withChanges]
  | cons first rest ih =>
    have hnew : first.1 ∉ t.entries.map Prod.fst := by
      intro hmem
      rw [List.map_append, List.nodup_append] at hdistinct
      exact hdistinct.2.2 _ hmem _ (by simp) rfl
    have hentries : (t.insert first.1 first.2).entries = t.entries ++ [first] := by
      rw [FieldTable.insert, dif_neg hnew]
    have hstep : (fields t).withChanges (first :: rest) =
        (fields (t.insert first.1 first.2)).withChanges rest := rfl
    rw [hstep, ih]
    · simp [hentries]
    · simpa [hentries] using hdistinct

theorem withChanges_document (f : Document → Except Error Document) :
    (document f).withChanges changes = document fun d => f d >>= applyChanges changes := by
  induction changes generalizing f with
  | nil => exact congrArg document (funext fun d => (bind_pure (f d)).symm)
  | cons first rest ih =>
    have hstep : (document f).withChanges (first :: rest) =
        (document fun d => f d >>= first.2.apply first.1).withChanges rest := rfl
    rw [hstep, ih]
    exact congrArg document (funext fun d => bind_assoc (f d) _ _)

theorem updated_withChanges_none (hdistinct : (changes.map Prod.fst).Nodup) :
    (Update.none.withChanges changes).updated d = applyChanges changes d := by
  rw [none, withChanges_fields .empty hdistinct]
  rfl

theorem updated_withChanges_identity :
    ((document .ok).withChanges changes).updated d = applyChanges changes d := by
  rw [withChanges_document]
  rfl

/-- An update that leaves the identity as it is gives the updated document. -/
theorem apply_eq_ok_iff {u : Update} :
    u.apply d = .ok d' ↔
      u.updated d = .ok d' ∧ sameOptional d'.identity? d.identity? = true := by
  constructor
  · intro h
    obtain ⟨changed, hupdated, h⟩ := Except.bind_eq_ok_iff.1 h
    by_cases hsame : sameOptional changed.identity? d.identity? = true
    · rw [if_pos hsame] at h
      cases h
      exact ⟨hupdated, hsame⟩
    · rw [if_neg hsame] at h
      cases h
  · rintro ⟨hupdated, hsame⟩
    exact Except.bind_eq_ok_iff.2 ⟨d', hupdated, if_pos hsame⟩

theorem apply_withChanges_perm (hparts : AllPart changes) (hperm : changes.Perm order)
    (h : (Update.none.withChanges changes).apply d = .ok d') :
    (Update.none.withChanges order).apply d = .ok d' := by
  obtain ⟨hupdated, hsame⟩ := apply_eq_ok_iff.1 h
  rw [updated_withChanges_none hparts.nodup] at hupdated
  refine apply_eq_ok_iff.2 ⟨?_, hsame⟩
  rw [updated_withChanges_none (hparts.perm hperm.symm).nodup]
  exact applyChanges_perm hparts hperm hupdated

/-- Changes of paths that part have one outcome in every order: an error, or one document, in which
each changed path has the value that its change makes of what the path led to at first.  They have the
same outcome as changes of what a function leaves as it is. -/
theorem parting_changes_commute (hparts : AllPart changes) (d : Document) :
    ((∀ order, order.Perm changes → ∃ e, (Update.none.withChanges order).apply d = .error e) ∨
      ∃ d', (∀ order, order.Perm changes → (Update.none.withChanges order).apply d = .ok d') ∧
        ∀ path change, (path, change) ∈ changes →
          d'.getPath? path = change.value (d.getPath? path)) ∧
    ∀ order, order.Perm changes →
      ((document .ok).withChanges order).apply d = (Update.none.withChanges order).apply d := by
  constructor
  · cases happly : (Update.none.withChanges changes).apply d with
    | error e =>
      refine .inl fun order hperm => ?_
      cases horder : (Update.none.withChanges order).apply d with
      | error e' => exact ⟨e', rfl⟩
      | ok d' =>
        rw [apply_withChanges_perm (hparts.perm hperm) hperm horder] at happly
        cases happly
    | ok d' =>
      refine .inr ⟨d', fun order hperm => ?_, fun path change hmem => ?_⟩
      · exact apply_withChanges_perm hparts hperm.symm happly
      · have hupdated := (apply_eq_ok_iff.1 happly).1
        rw [updated_withChanges_none hparts.nodup] at hupdated
        exact getPath?_of_applyChanges hparts hupdated hmem
  · intro order hperm
    rw [apply, apply, updated_withChanges_identity,
      updated_withChanges_none (hparts.perm hperm).nodup]

end Update

/-! ## Changes below one name -/

namespace Sample

def guest : Document :=
  (Document.insert .nil "_id" (.string "u1")).insert "home" .null

/-- Three changes below that null: one puts a value there, one takes out what is not there, and one
puts a value if there is none. -/
def housing : List (String × FieldChange) :=
  [("home.city", .set (.string "Oslo")), ("home.street", .unset),
    ("home.geo.lat", .transform fun old => old.or (some (.integer 60)))]

end Sample

namespace Update

open Sample in
/-- Changes that share a null, which two of them replace by a document, give one document. -/
theorem parting_changes_commute_below_null : AllPart housing ∧
    ∃ d', (∀ order, order.Perm housing → (Update.none.withChanges order).apply guest = .ok d' ∧
        ((document .ok).withChanges order).apply guest = .ok d') ∧
      d'.getPath? "home.city" = some (.string "Oslo") ∧ d'.getPath? "home.street" = Option.none ∧
      d'.getPath? "home.geo.lat" = some (.integer 60) := by
  have hparts : AllPart housing := by decide +kernel
  have hok : ((Update.none.withChanges housing).apply guest).toBool = true := by decide +kernel
  obtain ⟨herror | ⟨d', horders, hvalues⟩, hsame⟩ := parting_changes_commute hparts guest
  · obtain ⟨e, he⟩ := herror housing (List.Perm.refl _)
    rw [he] at hok
    cases hok
  · refine ⟨hparts, d', fun order hperm => ⟨horders order hperm, ?_⟩, ?_, ?_, ?_⟩
    · rw [hsame order hperm, horders order hperm]
    · exact hvalues "home.city" (.set (.string "Oslo")) (by simp [housing])
    · exact hvalues "home.street" .unset (by simp [housing])
    · exact hvalues "home.geo.lat" (.transform fun old => old.or (some (.integer 60)))
        (by simp [housing])

end Update

end DocumentStore

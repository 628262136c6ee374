import DocumentStore.Database.Basic
import DocumentStore.Proofs.Collection.Entries
import DocumentStore.Proofs.Database.Settings

/-!
# Registries

A registry binds each name to a collection of that name that could be defined.  Opening a name either
gives the collection it is bound to or binds it to a new one, and leaves all other names alone.  The names
that are bound are listed in ascending order.
-/

namespace DocumentStore

/-! ## Lookups -/

namespace FieldTable

variable {α : Type}

theorem lookup_replace (name : String) (item : α) (entries : List (String × α)) (name' : String)
    (hmem : name ∈ entries.map Prod.fst) :
    (replace name item entries).lookup name' =
      if name' = name then some item else entries.lookup name' := by
  induction entries with
  | nil => cases hmem
  | cons entry entries ih =>
    obtain ⟨first, old⟩ := entry
    have hcons : replace name item ((first, old) :: entries) =
        (first, if first = name then item else old) :: replace name item entries := by
      unfold replace
      rw [List.map_cons]
      by_cases hfirst : first = name
      · rw [if_pos hfirst, if_pos hfirst]
      · rw [if_neg hfirst, if_neg hfirst]
    rw [hcons, List.lookup_cons, List.lookup_cons]
    by_cases hname' : name' = first
    · subst hname'
      by_cases hfirst : name' = name
      · simp [hfirst]
      · simp [hfirst]
    · have hne : (name' == first) = false := beq_eq_false_iff_ne.2 hname'
      rw [hne]
      by_cases hmem' : name ∈ entries.map Prod.fst
      · exact ih hmem'
      -- the name is that of the first entry, and of no other
      · obtain rfl : first = name := by
          rcases List.mem_cons.1 hmem with h | h
          · exact h.symm
          · exact absurd h hmem'
        have hsame : replace first item entries = entries := by
          refine (List.map_congr_left fun entry hentry => ?_).trans (List.map_id entries)
          refine if_neg fun he : entry.1 = first => hmem' ?_
          rw [← he]
          exact List.mem_map_of_mem hentry
        rw [hsame, if_neg hname']

theorem get?_insert (t : FieldTable α) (name : String) (item : α) (name' : String) :
    (t.insert name item).get? name' = if name' = name then some item else t.get? name' := by
  unfold insert get?
  split
  · rename_i hmem
    exact lookup_replace name item t.entries name' hmem
  · rename_i hmem
    rw [List.lookup_append]
    by_cases hname' : name' = name
    · subst hname'
      have hnone : t.entries.lookup name' = none :=
        List.lookup_eq_none_iff.2 fun entry hentry => by
          simpa using fun he : name' = entry.1 => hmem (he ▸ List.mem_map_of_mem hentry)
      simp [hnone]
    · rw [List.lookup_cons, beq_eq_false_iff_ne.2 hname', if_neg hname', List.lookup_nil,
        Option.or_none]

theorem get?_erase (t : FieldTable α) (name name' : String) :
    (t.erase name).get? name' = if name' = name then none else t.get? name' := by
  show (t.entries.filter (·.1 != name)).lookup name' = _
  unfold get?
  induction t.entries with
  | nil => simp
  | cons entry entries ih =>
    obtain ⟨first, item⟩ := entry
    rw [List.filter_cons]
    by_cases hfirst : first = name
    · subst hfirst
      rw [if_neg (by simp), ih, List.lookup_cons]
      by_cases hname' : name' = first
      · rw [if_pos hname', if_pos hname']
      · rw [if_neg hname', if_neg hname', beq_eq_false_iff_ne.2 hname']
    · rw [if_pos (by simpa using hfirst), List.lookup_cons, List.lookup_cons, ih]
      by_cases hname' : name' = first
      · subst hname'
        simp [hfirst]
      · rw [beq_eq_false_iff_ne.2 hname']

theorem mem_names_iff {t : FieldTable α} {name : String} :
    name ∈ t.names ↔ ∃ item, t.get? name = some item := by
  have hnone : t.get? name = none ↔ name ∉ t.names := by
    unfold names get?
    rw [List.lookup_eq_none_iff, List.mem_map]
    simp only [bne_iff_ne, ne_eq, not_exists, not_and]
    exact forall₂_congr fun entry _ => not_congr eq_comm
  rw [← Option.ne_none_iff_exists', ne_eq, hnone, not_not]

end FieldTable

/-! ## Collections that were opened -/

/-- The collection could be defined, with the settings of a database. -/
def Collection.Opened (c : Collection) : Prop :=
  ∃ options defaults, define c.name options defaults = .ok c ∧ defaults.Valid

namespace Collection.Opened

variable {c : Collection}

theorem wellIndexed (h : c.Opened) : c.WellIndexed := by
  obtain ⟨_, _, hdefine, _⟩ := h
  exact wellIndexed_of_define hdefine

theorem defaults (h : c.Opened) : c.defaults.Valid := by
  obtain ⟨_, _, hdefine, hvalid⟩ := h
  rw [(define_eq_ok hdefine).2.2.2]
  exact hvalid

theorem deleteRetry (h : c.Opened) : RetryPolicy.checkOptional c.options.deleteRetry = .ok () := by
  obtain ⟨_, _, hdefine, _⟩ := h
  obtain ⟨_, _, hdelete, hc⟩ := define_eq_ok hdefine
  rw [hc]
  exact hdelete

/-- The policy for deletes allows an attempt. -/
theorem check_deletePolicy (h : c.Opened) : (c.retryPolicy .delete {}).check = .ok () := by
  have hoptional := h.deleteRetry
  have hdefault := h.defaults.deleteRetry
  unfold retryPolicy
  cases hretry : c.options.deleteRetry with
  | none => simpa [hretry] using hdefault
  | some p =>
    rw [hretry] at hoptional
    exact hoptional

end Collection.Opened

namespace Registry

variable {r r' : Registry} {name : String} {options : Option CollectionOptions}
  {defaults : CollectionDefaults} {c : Collection}

def find? (r : Registry) (name : String) : Option Collection := r.collections.get? name

theorem find?_unregister (r : Registry) (name name' : String) :
    (r.unregister name).find? name' = if name' = name then none else r.find? name' :=
  r.collections.get?_erase name name'

/-- All that opening a name can do: give what is registered and change nothing, or define a collection
for a name that is free. -/
theorem register_cases (h : r.register name options defaults = .ok (c, r')) :
    checkName name = .ok () ∧
      ((r.find? name = some c ∧ r' = r) ∨
        (r.find? name = none ∧ Collection.define name (options.getD {}) defaults = .ok c ∧
          r' = ⟨r.collections.insert name c⟩)) := by
  obtain ⟨hname, h⟩ := Except.check_bind_eq_ok_iff.1 h
  refine ⟨hname, ?_⟩
  cases hfind : r.collections.get? name with
  | none =>
    rw [hfind] at h
    obtain ⟨c', hdefine, h⟩ := Except.bind_eq_ok_iff.1 h
    cases h
    exact .inr ⟨hfind, hdefine, rfl⟩
  | some c' =>
    rw [hfind] at h
    refine .inl ?_
    rcases options with _ | o
    · cases h
      exact ⟨hfind, rfl⟩
    · dsimp only at h
      split at h
      · cases h
        exact ⟨hfind, rfl⟩
      · cases h

theorem register_of_bound (hname : checkName name = .ok ()) (hfind : r.find? name = some c)
    (hsame : ∀ o ∈ options, o.indexFields = c.indexes.fields) :
    r.register name options defaults = .ok (c, r) := by
  unfold register
  rw [hname, show r.collections.get? name = some c from hfind]
  cases options with
  | none => rfl
  | some o => exact if_pos (hsame o rfl).symm

theorem register_of_other (hname : checkName name = .ok ()) (hfind : r.find? name = some c)
    {o : CollectionOptions} (hother : o.indexFields ≠ c.indexes.fields) :
    r.register name (some o) defaults = .error (.redefined name c.indexes.fields) := by
  unfold register
  rw [hname, show r.collections.get? name = some c from hfind]
  exact if_neg fun h => hother h.symm

theorem register_of_free (hname : checkName name = .ok ()) (hfind : r.find? name = none)
    (hdefine : Collection.define name (options.getD {}) defaults = .ok c) :
    r.register name options defaults = .ok (c, ⟨r.collections.insert name c⟩) := by
  unfold register
  rw [hname, show r.collections.get? name = none from hfind]
  exact Except.check_bind_eq_ok_iff.2 ⟨rfl, Except.bind_eq_ok_iff.2 ⟨c, hdefine, rfl⟩⟩

/-- What is bound to a name after one was opened. -/
theorem find?_register (h : r.register name options defaults = .ok (c, r')) (name' : String) :
    r'.find? name' = if name' = name then some c else r.find? name' := by
  obtain ⟨_, ⟨hfind, rfl⟩ | ⟨_, _, rfl⟩⟩ := register_cases h
  · by_cases hname' : name' = name
    · rw [if_pos hname', hname', hfind]
    · rw [if_neg hname']
  · exact r.collections.get?_insert name c name'

/-- A name that is bound keeps its collection when any name is opened. -/
theorem register_keeps (h : r.register name options defaults = .ok (c, r')) {name' : String}
    {c' : Collection} (hfind : r.find? name' = some c') : r'.find? name' = some c' := by
  obtain ⟨_, ⟨_, rfl⟩ | ⟨hfree, _, _⟩⟩ := register_cases h
  · exact hfind
  · have hname : name' ≠ name := by
      rintro rfl
      cases hfree.symm.trans hfind
    rw [find?_register h, if_neg hname, hfind]

/-- Every name is bound to a collection of that name that was opened. -/
def Sound (r : Registry) : Prop := ∀ name c, r.find? name = some c → c.name = name ∧ c.Opened

theorem sound_empty : Sound empty := fun _ _ h => by cases h

theorem Sound.unregister (h : r.Sound) (name : String) : (r.unregister name).Sound := by
  intro name' c hc
  rw [find?_unregister] at hc
  split at hc
  · cases hc
  · exact h name' c hc

/-- The collection that opening a name gives, and the registry after that. -/
structure Opens (r : Registry) (name : String) (c : Collection) (r' : Registry) : Prop where
  name_eq : c.name = name
  opened : c.Opened
  find? : ∀ name', r'.find? name' = if name' = name then some c else r.find? name'
  sound : r'.Sound
  /-- A name that is registered keeps its collection. -/
  keeps : ∀ c', r.find? name = some c' → c' = c ∧ r' = r

theorem Sound.register (h : r.Sound) (hdefaults : defaults.Valid)
    (hregister : r.register name options defaults = .ok (c, r')) : r.Opens name c r' := by
  have hfind? := find?_register hregister
  obtain ⟨_, ⟨hfind, rfl⟩ | ⟨hfind, hdefine, rfl⟩⟩ := register_cases hregister
  · obtain ⟨hname, hopened⟩ := h name c hfind
    refine ⟨hname, hopened, hfind?, h, fun c' hc' => ⟨?_, rfl⟩⟩
    rw [hfind] at hc'
    cases hc'
    rfl
  · have hname : c.name = name := by rw [(Collection.define_eq_ok hdefine).2.2.2]
    have hopened : c.Opened := ⟨_, _, hname ▸ hdefine, hdefaults⟩
    refine ⟨hname, hopened, hfind?, fun name' c' hc' => ?_, fun c' hc' => ?_⟩
    · rw [hfind?] at hc'
      split at hc'
      · rename_i hname'
        cases hc'
        exact ⟨hname.trans hname'.symm, hopened⟩
      · exact h name' c' hc'
    · rw [hfind] at hc'
      cases hc'

/-! ## Names -/

theorem mem_names_iff : name ∈ r.names ↔ ∃ c, r.find? name = some c :=
  List.mem_mergeSort.trans FieldTable.mem_names_iff

theorem mem_names_register (h : r.register name options defaults = .ok (c, r')) {name' : String} :
    name' ∈ r'.names ↔ name' = name ∨ name' ∈ r.names := by
  rw [mem_names_iff, mem_names_iff, find?_register h]
  by_cases hname' : name' = name
  · simp [hname']
  · simp [hname']

theorem mem_names_unregister {name' : String} :
    name' ∈ (r.unregister name).names ↔ name' ≠ name ∧ name' ∈ r.names := by
  rw [mem_names_iff, mem_names_iff, find?_unregister]
  by_cases hname' : name' = name
  · simp [hname']
  · simp [hname']

/-- The names are listed in ascending order, each once. -/
theorem pairwise_names (r : Registry) : r.names.Pairwise (· < ·) := by
  have htrans : ∀ a b c : String, decide (a ≤ b) = true → decide (b ≤ c) = true →
      decide (a ≤ c) = true := fun a b c hab hbc =>
    decide_eq_true (String.le_trans (of_decide_eq_true hab) (of_decide_eq_true hbc))
  have htotal : ∀ a b : String, (decide (a ≤ b) || decide (b ≤ a)) = true := fun a b => by
    simpa only [Bool.or_eq_true, decide_eq_true_eq] using String.le_total a b
  have hsorted := List.pairwise_mergeSort htrans htotal r.collections.names
  have hnodup : r.names.Nodup := (List.mergeSort_perm _ _).nodup_iff.2 r.collections.distinct
  refine (hsorted.and hnodup).imp fun {a b} h => Decidable.byContradiction fun hlt => ?_
  exact h.2 (String.le_antisymm (of_decide_eq_true h.1) (String.not_lt.1 hlt))

end Registry

end DocumentStore

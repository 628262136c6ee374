import DocumentStore.Proofs.Document.Fields
import DocumentStore.Proofs.Value.Equality
import Mathlib.Data.List.Forall2

/-!
# Values inside values

What holds of all values without parts, and passes from items to lists and from fields to documents,
holds of all values (`Value.nested_induction`).  Equality is read part by part: lists are equal item by
item, and documents are equal if they have equal values under the same names.
-/

namespace DocumentStore

/-! ## Induction over parts -/

def Value.IsLeaf (v : Value) : Prop := v.kind ≠ .list ∧ v.kind ≠ .map

/-- Induction on a value, from its items or the values of its fields to itself. -/
theorem Value.nested_induction {motive : Value → Prop} (leaf : ∀ v : Value, v.IsLeaf → motive v)
    (list : ∀ items : List Value, (∀ v ∈ items, motive v) → motive (.list items))
    (map : ∀ d : Document, (∀ name v, d.get? name = some v → motive v) → motive (.map d))
    (v : Value) : motive v := by
  -- the hypotheses of the recursion for fields and items say so of each value in them
  refine @Value.rec motive (fun _ d => ∀ name v, d.get? name = some v → motive v)
    (fun items => ∀ v ∈ items, motive v) (leaf _ ⟨nofun, nofun⟩) (fun b => leaf _ ⟨nofun, nofun⟩)
    (fun n => leaf _ ⟨nofun, nofun⟩) (fun x => leaf _ ⟨nofun, nofun⟩)
    (fun s => leaf _ ⟨nofun, nofun⟩) (fun bs => leaf _ ⟨nofun, nofun⟩) list map ?_ ?_ nofun
    (fun v rest hv hrest => List.forall_mem_cons.2 ⟨hv, hrest⟩) v
  · intro _ name v hv
    cases hv
  · intro _ n above w rest hw hrest name v hv
    rw [Fields.get?_cons] at hv
    by_cases hname : name = n
    · rw [if_pos hname] at hv
      exact Option.some.inj hv ▸ hw
    · rw [if_neg hname] at hv
      exact hrest name v hv

/-- Induction along fields, from the later ones to all. -/
theorem Fields.field_induction {motive : (bound : Option String) → Fields bound → Prop}
    (nil : ∀ {bound : Option String}, motive bound .nil)
    (cons : ∀ {bound : Option String} (n : String) (above : Above bound n) (v : Value)
      (rest : Fields (some n)), motive (some n) rest → motive bound (.cons n above v rest))
    {bound : Option String} (d : Fields bound) : motive bound d :=
  @Fields.rec (fun _ => True) motive (fun _ => True) trivial (fun _ => trivial) (fun _ => trivial)
    (fun _ => trivial) (fun _ => trivial) (fun _ => trivial) (fun _ _ => trivial)
    (fun _ _ => trivial) nil (fun n above v rest _ hrest => cons n above v rest hrest) trivial
    (fun _ _ _ _ => trivial) bound d

/-! ## Equality part by part -/

namespace Value

theorem same_iff {a b : Value} : a.same b = true ↔ compare a b = .eq := (cmp_eq_eq_iff a b).symm

theorem same_refl (a : Value) : a.same a = true := same_iff.2 Std.ReflOrd.compare_self

theorem same_trans {a b c : Value} (hab : a.same b = true) (hbc : b.same c = true) :
    a.same c = true :=
  same_iff.2 (Std.TransCmp.eq_trans (same_iff.1 hab) (same_iff.1 hbc))

theorem sameItems_iff {as bs : List Value} :
    sameItems as bs = true ↔ List.Forall₂ (fun a b => a.same b = true) as bs := by
  induction as generalizing bs with
  | nil => cases bs <;> simp [sameItems]
  | cons a as ih =>
    cases bs with
    | nil => simp [sameItems]
    | cons b bs => rw [sameItems, Bool.and_eq_true, ih, List.forall₂_cons]

end Value

namespace Fields

theorem mem_toList_iff {bound : Option String} {d : Fields bound} {name : String} {v : Value} :
    (name, v) ∈ d.toList ↔ d.get? name = some v := by
  induction d using field_induction with
  | nil => simp [toList]
  | cons n above w rest ih =>
    rw [toList, List.mem_cons, Prod.mk.injEq, ih, get?_cons]
    by_cases hname : name = n
    · subst hname
      rw [if_pos rfl, get?_eq_none_of_le (String.lt_irrefl name)]
      simp [eq_comm]
    · simp [hname]

theorem mem_names_iff {bound : Option String} {d : Fields bound} {name : String} :
    name ∈ d.names ↔ ∃ v, d.get? name = some v := by
  simp [names, mem_toList_iff]

/-- No name has two fields. -/
theorem nodup_names {bound : Option String} (d : Fields bound) : d.names.Nodup := by
  induction d using field_induction with
  | nil => exact List.nodup_nil
  | cons n above v rest ih =>
    refine List.nodup_cons.2 ⟨fun hmem => ?_, ih⟩
    obtain ⟨w, hw⟩ := mem_names_iff.1 hmem
    exact String.lt_irrefl n (above_of_get? hw)

/-- Documents that are equal have equal values under each name. -/
theorem exists_get?_of_same {bound bound' : Option String} {d : Fields bound} {e : Fields bound'}
    (h : d.same e = true) {name : String} {v : Value} (hv : d.get? name = some v) :
    ∃ w, e.get? name = some w ∧ v.same w = true := by
  match d, e with
  | nil, _ => cases hv
  | cons .., nil => cases h
  | cons n _ a rest, cons n' _ b rest' =>
    simp only [same, Bool.and_eq_true, beq_iff_eq] at h
    obtain ⟨⟨rfl, hab⟩, hrest⟩ := h
    rw [get?_cons] at hv ⊢
    by_cases hname : name = n
    · rw [if_pos hname] at hv ⊢
      cases hv
      exact ⟨b, rfl, hab⟩
    · rw [if_neg hname] at hv ⊢
      exact exists_get?_of_same hrest hv

/-- Documents with equal values under the names of the first one, and no other names, are equal. -/
theorem same_of_get? {bound bound' : Option String} {d : Fields bound} {e : Fields bound'}
    (hvalues : ∀ name v, d.get? name = some v → ∃ w, e.get? name = some w ∧ v.same w = true)
    (hnames : ∀ name, (e.get? name).isSome → (d.get? name).isSome) : d.same e = true := by
  match d, e with
  | nil, nil => rfl
  | nil, cons n _ w rest =>
    have hn := hnames n (by rw [get?_cons, if_pos rfl]; rfl)
    cases hn
  | cons n _ v rest, nil =>
    obtain ⟨w, hw, _⟩ := hvalues n v (by rw [get?_cons, if_pos rfl])
    cases hw
  | cons n above v rest, cons n' above' v' rest' =>
    -- the first name of each side stands on the other side too, so that they are one name
    have hle : ¬ n < n' := by
      intro hlt
      obtain ⟨w, hw, _⟩ := hvalues n v (by rw [get?_cons, if_pos rfl])
      rw [get?_cons, if_neg (String.ne_of_lt hlt),
        get?_eq_none_of_le (String.lt_asymm hlt)] at hw
      cases hw
    have hge : ¬ n' < n := by
      intro hlt
      have hn := hnames n' (by rw [get?_cons, if_pos rfl]; rfl)
      rw [get?_cons, if_neg (String.ne_of_lt hlt),
        get?_eq_none_of_le (String.lt_asymm hlt)] at hn
      cases hn
    obtain rfl : n = n' := String.le_antisymm (String.not_lt.1 hge) (String.not_lt.1 hle)
    have hrest : rest.same rest' = true := by
      refine same_of_get? (fun name w hw => ?_) fun name hname => ?_
      · have hne : name ≠ n := fun h => String.lt_irrefl n (h ▸ above_of_get? hw)
        obtain ⟨w', hw', hsame⟩ := hvalues name w (by rw [get?_cons, if_neg hne, hw])
        rw [get?_cons, if_neg hne] at hw'
        exact ⟨w', hw', hsame⟩
      · obtain ⟨w, hw⟩ := Option.isSome_iff_exists.1 hname
        have hne : name ≠ n := fun h => String.lt_irrefl n (h ▸ above_of_get? hw)
        have hn := hnames name (by rw [get?_cons, if_neg hne, hw]; rfl)
        rwa [get?_cons, if_neg hne] at hn
    obtain ⟨w, hw, hsame⟩ := hvalues n v (by rw [get?_cons, if_pos rfl])
    rw [get?_cons, if_pos rfl] at hw
    cases hw
    rw [same, beq_self_eq_true, hsame, hrest]
    rfl

end Fields

end DocumentStore

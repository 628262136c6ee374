import DocumentStore.Value.Basic

/-!
# Fields of a document

A document is determined by the values under its names (`Fields.ext`), so every operation on it is
described by what it does to lookups.
-/

namespace DocumentStore

namespace Fields

variable {bound bound' : Option String}

@[simp]
theorem get?_nil (name : String) : (nil : Fields bound).get? name = none := rfl

theorem get?_cons {n : String} (above : Above bound n) (v : Value) (rest : Fields (some n))
    (name : String) :
    (cons n above v rest).get? name = if name = n then some v else rest.get? name := rfl

/-- Only names above the bound have values. -/
theorem above_of_get? {bound : Option String} {d : Fields bound} {name : String} {v : Value}
    (h : d.get? name = some v) : Above bound name := by
  match d with
  | nil => cases h
  | cons n above w rest =>
    rw [get?_cons] at h
    by_cases hn : name = n
    · exact hn ▸ above
    · rw [if_neg hn] at h
      exact above.trans name (above_of_get? h)

theorem get?_eq_none_of_le {bound name : String} {d : Fields (some bound)} (h : ¬ bound < name) :
    d.get? name = none := by
  cases hget : d.get? name with
  | none => rfl
  | some v => exact absurd (above_of_get? hget) h

/-- Fields are determined by the values under their names. -/
theorem ext {bound : Option String} {d e : Fields bound} (h : ∀ name, d.get? name = e.get? name) :
    d = e := by
  match d, e with
  | nil, nil => rfl
  | nil, cons n above v rest =>
    have hn := h n
    rw [get?_cons, if_pos rfl] at hn
    cases hn
  | cons n above v rest, nil =>
    have hn := h n
    rw [get?_cons, if_pos rfl] at hn
    cases hn
  | cons n above v rest, cons n' above' v' rest' =>
    -- the first name of each side has a value on the other side, so neither is below the other
    have hle : ¬ n < n' := by
      intro hlt
      have hn := h n
      rw [get?_cons, get?_cons, if_pos rfl, if_neg (String.ne_of_lt hlt),
        get?_eq_none_of_le (String.lt_asymm hlt)] at hn
      cases hn
    have hge : ¬ n' < n := by
      intro hlt
      have hn := h n'
      rw [get?_cons, get?_cons, if_pos rfl, if_neg (String.ne_of_lt hlt),
        get?_eq_none_of_le (String.lt_asymm hlt)] at hn
      cases hn
    obtain rfl : n = n' := String.le_antisymm (String.not_lt.1 hge) (String.not_lt.1 hle)
    have hv := h n
    rw [get?_cons, get?_cons, if_pos rfl, if_pos rfl] at hv
    obtain rfl := Option.some.inj hv
    have hrest : rest = rest' := ext fun name => by
      have hname := h name
      rw [get?_cons, get?_cons] at hname
      by_cases hn : name = n
      · subst hn
        rw [get?_eq_none_of_le (String.lt_irrefl _), get?_eq_none_of_le (String.lt_irrefl _)]
      · rwa [if_neg hn, if_neg hn] at hname
    rw [hrest]

/-! ## Changes -/

@[simp]
theorem get?_lower {bound : Option String} (d : Fields bound)
    (h : ∀ name, Above bound name → Above bound' name) (name : String) :
    (d.lower h).get? name = d.get? name := by
  match d with
  | nil => rfl
  | cons n above v rest => rfl

theorem get?_insertAbove {bound : Option String} (d : Fields bound) {name : String}
    (above : Above bound name) (v : Value) (m : String) :
    (d.insertAbove name above v).get? m = if m = name then some v else d.get? m := by
  match d with
  | nil => rfl
  | cons n hn w rest =>
    unfold insertAbove
    by_cases hbefore : name < n
    · rw [dif_pos hbefore, get?_cons]
      rfl
    · by_cases hbehind : n < name
      · rw [dif_neg hbefore, dif_pos hbehind, get?_cons, get?_cons,
          get?_insertAbove rest hbehind v m]
        by_cases hm : m = n
        · rw [if_pos hm, if_pos hm, if_neg (fun h => String.ne_of_lt hbehind (hm ▸ h))]
        · rw [if_neg hm, if_neg hm]
      · obtain rfl : name = n :=
          String.le_antisymm (String.not_lt.1 hbehind) (String.not_lt.1 hbefore)
        rw [dif_neg hbefore, dif_neg hbehind, get?_cons, get?_cons]
        by_cases hm : m = name
        · rw [if_pos hm, if_pos hm]
        · rw [if_neg hm, if_neg hm, if_neg hm]

@[simp]
theorem get?_erase {bound : Option String} (d : Fields bound) (name m : String) :
    (d.erase name).get? m = if m = name then none else d.get? m := by
  match d with
  | nil => rw [erase, get?_nil, ite_self]
  | cons n above v rest =>
    unfold erase
    by_cases hname : name = n
    · subst hname
      rw [if_pos rfl, get?_lower, get?_cons]
      by_cases hm : m = name
      · rw [if_pos hm, hm, get?_eq_none_of_le (String.lt_irrefl _)]
      · rw [if_neg hm, if_neg hm]
    · rw [if_neg hname, get?_cons, get?_cons, get?_erase rest name m]
      by_cases hm : m = n
      · rw [if_pos hm, if_pos hm, if_neg (fun h => hname (h.symm.trans hm))]
      · rw [if_neg hm, if_neg hm]

end Fields

namespace Document

@[simp]
theorem get?_insert (d : Document) (name : String) (v : Value) (m : String) :
    (d.insert name v).get? m = if m = name then some v else d.get? m :=
  Fields.get?_insertAbove d trivial v m

theorem get?_insert_self (d : Document) (name : String) (v : Value) :
    (d.insert name v).get? name = some v := by
  rw [get?_insert, if_pos rfl]

theorem get?_insert_of_ne {d : Document} {name m : String} (v : Value) (h : m ≠ name) :
    (d.insert name v).get? m = d.get? m := by
  rw [get?_insert, if_neg h]

/-- Of two values put under one name the second one stays. -/
theorem insert_insert (d : Document) (name : String) (v w : Value) :
    (d.insert name v).insert name w = d.insert name w := by
  apply Fields.ext
  intro m
  by_cases hm : m = name <;> simp [hm]

/-- Taking out what is not there changes nothing. -/
theorem erase_of_get? {d : Document} {name : String} (h : d.get? name = none) :
    Fields.erase d name = d := by
  apply Fields.ext
  intro m
  by_cases hm : m = name
  · rw [Fields.get?_erase, if_pos hm, hm, h]
  · rw [Fields.get?_erase, if_neg hm]

end Document

end DocumentStore

import DocumentStore.Proofs.Query.Meaning
import DocumentStore.Proofs.Value.Nesting

/-!
# Literal criteria as an order of values

The criterion that asks for a value admits every value that goes on where the first one has fields: the
leaves and the lengths of lists must agree, while documents may have more fields.  This is a partial
order of values up to equality, and the query made of a document accepts the documents above it.
-/

namespace DocumentStore

namespace Value

/-- The criterion that asks for the first value accepts the second one. -/
def Admits (a b : Value) : Prop := (Criterion.ofValue a).accepts (some b) = true

instance (a b : Value) : Decidable (a.Admits b) :=
  inferInstanceAs (Decidable ((Criterion.ofValue a).accepts (some b) = true))

inductive MapFree : Value → Prop where
  | leaf {v : Value} (h : v.IsLeaf) : MapFree v
  | list {items : List Value} (h : ∀ v ∈ items, MapFree v) : MapFree (.list items)

/-! ## Part by part -/

theorem accepts_none (v : Value) : (Criterion.ofValue v).accepts none = false := by
  cases v <;> rfl

/-- A field that is asked for must be there. -/
theorem accepts_iff {v : Value} {w : Option Value} :
    (Criterion.ofValue v).accepts w = true ↔ ∃ w', w = some w' ∧ v.Admits w' := by
  cases w with
  | none => simp [accepts_none]
  | some w => simp [Admits]

theorem admits_iff_of_isLeaf {a b : Value} (h : a.IsLeaf) :
    a.Admits b ↔ a.same b = true := by
  obtain ⟨hlist, hmap⟩ := h
  cases a with
  | list items => exact absurd rfl hlist
  | map d => exact absurd rfl hmap
  | _ => cases b <;> exact Iff.rfl

theorem isLeaf_of_same {a b : Value} (h : a.IsLeaf) (hsame : a.same b = true) : b.IsLeaf := by
  rw [IsLeaf, ← kind_eq_of_same hsame]
  exact h

theorem acceptItems_iff {as bs : List Value} :
    Criterion.acceptItems (Criterion.ofItems as) bs = true ↔ List.Forall₂ Admits as bs := by
  induction as generalizing bs with
  | nil => cases bs <;> simp [Criterion.ofItems, Criterion.acceptItems]
  | cons a as ih =>
    cases bs with
    | nil => simp [Criterion.ofItems, Criterion.acceptItems]
    | cons b bs =>
      rw [Criterion.ofItems, Criterion.acceptItems, Bool.and_eq_true, ih, List.forall₂_cons]
      rfl

theorem admits_list_iff {as : List Value} {b : Value} :
    (list as).Admits b ↔ ∃ bs, b = .list bs ∧ List.Forall₂ Admits as bs := by
  cases b with
  | list bs =>
    rw [Admits, Criterion.ofValue, Criterion.accepts, acceptItems_iff]
    simp
  | _ => simp [Admits, Criterion.ofValue, Criterion.accepts]

theorem acceptFields_iff {bound : Option String} {d : Fields bound} {e : Document} :
    Criterion.acceptFields (Criterion.ofFields d) e = true ↔
      ∀ name v, d.get? name = some v → ∃ w, e.get? name = some w ∧ v.Admits w := by
  induction d using Fields.field_induction with
  | nil => simp [Criterion.ofFields, Criterion.acceptFields]
  | cons n above v rest ih =>
    rw [Criterion.ofFields, Criterion.acceptFields, Bool.and_eq_true, ih, accepts_iff]
    constructor
    · rintro ⟨hfirst, hrest⟩ name w hw
      rw [Fields.get?_cons] at hw
      by_cases hname : name = n
      · rw [if_pos hname] at hw
        cases hw
        exact hname ▸ hfirst
      · rw [if_neg hname] at hw
        exact hrest name w hw
    · intro h
      refine ⟨h n v (by rw [Fields.get?_cons, if_pos rfl]), fun name w hw => h name w ?_⟩
      -- the later fields have other names
      have hne : name ≠ n := fun he => String.lt_irrefl n (he ▸ Fields.above_of_get? hw)
      rw [Fields.get?_cons, if_neg hne, hw]

theorem admits_map_iff {d : Document} {b : Value} :
    (map d).Admits b ↔ ∃ e : Document, b = .map e ∧
      ∀ name v, d.get? name = some v → ∃ w, e.get? name = some w ∧ v.Admits w := by
  cases b with
  | map e =>
    rw [Admits, Criterion.ofValue, Criterion.accepts, acceptFields_iff]
    simp
  | _ => simp [Admits, Criterion.ofValue, Criterion.accepts]

/-! ## The laws of an order -/

theorem admits_of_same {a b : Value} (h : a.same b = true) : a.Admits b := by
  induction a using nested_induction generalizing b with
  | leaf a hleaf => exact (admits_iff_of_isLeaf hleaf).2 h
  | list as ih =>
    cases b with
    | list bs =>
      refine admits_list_iff.2 ⟨bs, rfl, ?_⟩
      obtain ⟨hlength, hitems⟩ := List.forall₂_iff_get.1 (sameItems_iff.1 h)
      exact List.forall₂_iff_get.2 ⟨hlength, fun i hi hi' =>
        ih _ (List.get_mem as ⟨i, hi⟩) (hitems i hi hi')⟩
    | _ => cases h
  | map d ih =>
    cases b with
    | map e =>
      refine admits_map_iff.2 ⟨e, rfl, fun name v hv => ?_⟩
      obtain ⟨w, hw, hvw⟩ := Fields.exists_get?_of_same h hv
      exact ⟨w, hw, ih name v hv hvw⟩
    | _ => cases h

theorem admits_refl (a : Value) : a.Admits a := admits_of_same (same_refl a)

theorem admits_trans {a b c : Value} (hab : a.Admits b) (hbc : b.Admits c) : a.Admits c := by
  induction a using nested_induction generalizing b c with
  | leaf a hleaf =>
    have hsame := (admits_iff_of_isLeaf hleaf).1 hab
    have hsame' := (admits_iff_of_isLeaf (isLeaf_of_same hleaf hsame)).1 hbc
    exact (admits_iff_of_isLeaf hleaf).2 (same_trans hsame hsame')
  | list as ih =>
    obtain ⟨bs, rfl, hasbs⟩ := admits_list_iff.1 hab
    obtain ⟨cs, rfl, hbscs⟩ := admits_list_iff.1 hbc
    obtain ⟨hlength, hitems⟩ := List.forall₂_iff_get.1 hasbs
    obtain ⟨hlength', hitems'⟩ := List.forall₂_iff_get.1 hbscs
    refine admits_list_iff.2 ⟨cs, rfl, List.forall₂_iff_get.2
      ⟨hlength.trans hlength', fun i hi hi' => ?_⟩⟩
    have hi'' : i < bs.length := hlength ▸ hi
    exact ih _ (List.get_mem as ⟨i, hi⟩) (hitems i hi hi'') (hitems' i hi'' hi')
  | map d ih =>
    obtain ⟨e, rfl, hde⟩ := admits_map_iff.1 hab
    obtain ⟨f, rfl, hef⟩ := admits_map_iff.1 hbc
    refine admits_map_iff.2 ⟨f, rfl, fun name u hu => ?_⟩
    obtain ⟨v, hv, huv⟩ := hde name u hu
    obtain ⟨w, hw, hvw⟩ := hef name v hv
    exact ⟨w, hw, ih name u hu huv hvw⟩

theorem same_of_admits {a b : Value} (hab : a.Admits b) (hba : b.Admits a) : a.same b = true := by
  induction a using nested_induction generalizing b with
  | leaf a hleaf => exact (admits_iff_of_isLeaf hleaf).1 hab
  | list as ih =>
    obtain ⟨bs, rfl, hasbs⟩ := admits_list_iff.1 hab
    obtain ⟨_, heq, hbsas⟩ := admits_list_iff.1 hba
    cases heq
    obtain ⟨hlength, hitems⟩ := List.forall₂_iff_get.1 hasbs
    obtain ⟨_, hitems'⟩ := List.forall₂_iff_get.1 hbsas
    exact sameItems_iff.2 (List.forall₂_iff_get.2 ⟨hlength, fun i hi hi' =>
      ih _ (List.get_mem as ⟨i, hi⟩) (hitems i hi hi') (hitems' i hi' hi)⟩)
  | map d ih =>
    obtain ⟨e, rfl, hde⟩ := admits_map_iff.1 hab
    obtain ⟨_, heq, hed⟩ := admits_map_iff.1 hba
    cases heq
    refine Fields.same_of_get? (fun name v hv => ?_) fun name hname => ?_
    -- the value under a name of one side stands between that of the other side and itself
    · obtain ⟨w, hw, hvw⟩ := hde name v hv
      obtain ⟨v', hv', hwv⟩ := hed name w hw
      rw [hv] at hv'
      cases hv'
      exact ⟨w, hw, ih name v hv hvw hwv⟩
    · obtain ⟨w, hw⟩ := Option.isSome_iff_exists.1 hname
      obtain ⟨v, hv, _⟩ := hed name w hw
      rw [hv]
      rfl

theorem MapFree.same_of_admits {a b : Value} (ha : a.MapFree) (h : a.Admits b) :
    a.same b = true := by
  induction ha generalizing b with
  | leaf hleaf => exact (admits_iff_of_isLeaf hleaf).1 h
  | list _ ih =>
    obtain ⟨bs, rfl, hitems⟩ := admits_list_iff.1 h
    obtain ⟨hlength, hitems⟩ := List.forall₂_iff_get.1 hitems
    exact sameItems_iff.2 (List.forall₂_iff_get.2 ⟨hlength, fun i hi hi' =>
      ih _ (List.get_mem _ ⟨i, hi⟩) (hitems i hi hi')⟩)

end Value

/-! ## Queries made of documents -/

namespace Query

variable {d e : Document}

theorem mem_ofFields_iff {bound : Option String} {d : Fields bound} {name : String}
    {criterion : Criterion} : (name, criterion) ∈ Criterion.ofFields d ↔
      ∃ v, d.get? name = some v ∧ criterion = Criterion.ofValue v := by
  induction d using Fields.field_induction with
  | nil => simp [Criterion.ofFields]
  | cons n above w rest ih =>
    rw [Criterion.ofFields, List.mem_cons, Prod.mk.injEq, ih, Fields.get?_cons]
    by_cases hname : name = n
    · subst hname
      rw [if_pos rfl, Fields.get?_eq_none_of_le (String.lt_irrefl name)]
      simp
    · simp [hname]

theorem nodup_ofFields {bound : Option String} (d : Fields bound) :
    ((Criterion.ofFields d).map Prod.fst).Nodup := by
  induction d using Fields.field_induction with
  | nil => exact List.nodup_nil
  | cons n above w rest ih =>
    rw [Criterion.ofFields, List.map_cons]
    refine List.nodup_cons.2 ⟨fun hmem => ?_, ih⟩
    obtain ⟨⟨name, criterion⟩, hentry, rfl⟩ := List.mem_map.1 hmem
    obtain ⟨v, hv, _⟩ := mem_ofFields_iff.1 hentry
    exact String.lt_irrefl name (Fields.above_of_get? hv)

/-- The query made of a document asks at each of its names for the value there. -/
theorem accepts_ofDocument_iff : (ofDocument d).compile.accepts e = true ↔
    ∀ name v, d.get? name = some v → ∃ w, e.getPath? name = some w ∧ v.Admits w := by
  have hentries : (FieldTable.ofList (Criterion.ofFields d)).entries = Criterion.ofFields d :=
    FieldTable.entries_insertAll (t := .empty) (nodup_ofFields d)
  rw [ofDocument, accepts_fields_iff, hentries]
  simp only [mem_ofFields_iff]
  constructor
  · exact fun h name v hv => Value.accepts_iff.1 (h name _ ⟨v, hv, rfl⟩)
  · rintro h name criterion ⟨v, hv, rfl⟩
    exact Value.accepts_iff.2 (h name v hv)

/-- Names without dots are no paths into other documents, and so the query made of a document accepts
the documents above it. -/
theorem accepts_ofDocument_iff_admits (hnames : ∀ name ∈ d.names, Path.isDotted name = false) :
    (ofDocument d).compile.accepts e = true ↔ (Value.map d).Admits (.map e) := by
  have hget : ∀ name v, d.get? name = some v → e.getPath? name = e.get? name :=
    fun name v hv => Document.getPath?_of_undotted (hnames name (Fields.mem_names_iff.2 ⟨v, hv⟩))
  rw [accepts_ofDocument_iff, Value.admits_map_iff]
  constructor
  · intro h
    refine ⟨e, rfl, fun name v hv => ?_⟩
    rw [← hget name v hv]
    exact h name v hv
  · rintro ⟨_, he, h⟩ name v hv
    cases he
    rw [hget name v hv]
    exact h name v hv

/-- The names of a document that is below another one are names of the other one. -/
theorem names_subset_of_admits {d' : Document} (h : (Value.map d').Admits (.map d)) :
    d'.names ⊆ d.names := by
  intro name hname
  obtain ⟨_, heq, hvalues⟩ := Value.admits_map_iff.1 h
  cases heq
  obtain ⟨v, hv⟩ := Fields.mem_names_iff.1 hname
  obtain ⟨w, hw, _⟩ := hvalues name v hv
  exact Fields.mem_names_iff.2 ⟨w, hw⟩

end Query

/-- Literal criteria put values in a partial order up to equality, on values without documents the
equality itself.  The query made of a document whose names have no dots accepts the document, and what
it accepts is accepted by the queries made of the documents below. -/
theorem Value.literals_ordered :
    (∀ a : Value, a.Admits a) ∧
    (∀ a b c : Value, a.Admits b → b.Admits c → a.Admits c) ∧
    (∀ a b : Value, a.Admits b → b.Admits a → (a == b) = true) ∧
    (∀ a b : Value, (a == b) = true → a.Admits b) ∧
    (∀ a b : Value, a.MapFree → a.Admits b → (a == b) = true) ∧
    ∀ d : Document, (∀ name ∈ d.names, Path.isDotted name = false) →
      (Query.ofDocument d).compile.accepts d = true ∧
      ∀ e d' : Document, (Query.ofDocument d).compile.accepts e = true →
        (Value.map d').Admits (.map d) → (Query.ofDocument d').compile.accepts e = true := by
  refine ⟨admits_refl, fun a b c => admits_trans, fun a b => same_of_admits,
    fun a b => admits_of_same, fun a b ha => ha.same_of_admits, fun d hnames => ⟨?_, ?_⟩⟩
  · exact (Query.accepts_ofDocument_iff_admits hnames).2 (admits_refl _)
  · intro e d' he hd
    have hnames' : ∀ name ∈ d'.names, Path.isDotted name = false := fun name hname =>
      hnames name (Query.names_subset_of_admits hd hname)
    have hde := (Query.accepts_ofDocument_iff_admits hnames).1 he
    exact (Query.accepts_ofDocument_iff_admits hnames').2 (admits_trans hd hde)

namespace Sample

def item (fields : List (String × Value)) : Value :=
  .map (Document.ofList (("price", .number ⟨0⟩) :: fields))

/-- An order of one item, the first of which asks for the least. -/
def anyOrder : Document := Document.ofList [("items", .list [item []])]

def paidOrder : Document :=
  Document.ofList [("items", .list [item [("count", .integer 2)]]), ("paid", .bool true)]

def storedOrder : Document := Document.ofList [("_id", .string "o1"),
  ("items", .list [item [("price", .number ⟨0x8000000000000000⟩), ("count", .integer 2),
    ("note", .null)]]), ("paid", .bool true)]

end Sample

open Sample in
/-- An order is admitted by one that asks for less, in documents inside a list too, and the two zeros
are one number. -/
theorem Value.literals_ordered_of_orders :
    (Value.map anyOrder).Admits (.map paidOrder) ∧
    (Value.map paidOrder).Admits (.map storedOrder) ∧
    (Value.map anyOrder).Admits (.map storedOrder) ∧
    ¬ (Value.map storedOrder).Admits (.map paidOrder) ∧
    (Value.list [.number ⟨0⟩]).MapFree ∧
    (Value.list [.number ⟨0⟩] == .list [.number ⟨0x8000000000000000⟩]) = true ∧
    (Query.ofDocument paidOrder).compile.accepts paidOrder = true ∧
    (Query.ofDocument paidOrder).compile.accepts storedOrder = true ∧
    (Query.ofDocument anyOrder).compile.accepts storedOrder = true := by
  obtain ⟨_, htrans, hantisymm, _, hequal, hqueries⟩ := Value.literals_ordered
  have hany : (Value.map anyOrder).Admits (.map paidOrder) := by decide +kernel
  have hpaid : (Value.map paidOrder).Admits (.map storedOrder) := by decide +kernel
  have hnames : ∀ name ∈ paidOrder.names, Path.isDotted name = false := by decide +kernel
  have haccepts : (Query.ofDocument paidOrder).compile.accepts storedOrder = true := by
    decide +kernel
  have hzero : (Value.list [.number ⟨0⟩]).MapFree :=
    .list (List.forall_mem_singleton.2 (.leaf ⟨nofun, nofun⟩))
  obtain ⟨hself, hbelow⟩ := hqueries paidOrder hnames
  refine ⟨hany, hpaid, htrans _ _ _ hany hpaid, ?_, hzero, ?_, hself, haccepts,
    hbelow storedOrder anyOrder haccepts hany⟩
  · intro hstored
    exact absurd (hantisymm _ _ hpaid hstored) (by decide +kernel)
  · exact hequal _ _ hzero (by decide +kernel)

end DocumentStore

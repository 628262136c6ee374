import DocumentStore.Proofs.Document.Names
import DocumentStore.Proofs.Document.Paths
import DocumentStore.Proofs.Value.Nesting

/-!
# Documents with a path for each value

The check of documents lets through the documents whose identity is a string and whose names, at any
depth, are names that a path can hold.  In such a document the names that lead to a value through nested
documents make up a path of their own, at which the value is read and replaced
(`Document.storable_addressed`).
-/

namespace DocumentStore

/-- Names without dots are the names of the path that they make up. -/
theorem Path.segments_join {name : String} {rest : List String}
    (h : ∀ s ∈ name :: rest, '.' ∉ s.toList) : segments (join (name :: rest)) = name :: rest := by
  induction rest generalizing name with
  | nil => rw [join, String.intercalate_singleton, segments_of_undotted (h name List.mem_cons_self)]
  | cons next rest ih =>
    obtain ⟨hname, hrest⟩ := List.forall_mem_cons.1 h
    have hjoin : join (name :: next :: rest) = name ++ "." ++ join (next :: rest) :=
      String.intercalate_cons_cons
    rw [hjoin, segments_append, segments_of_undotted hname, ih hrest]
    rfl

namespace Document

inductive Leads : Document → List String → Value → Prop where
  | last {d : Document} {name : String} {v : Value} (h : d.get? name = some v) : Leads d [name] v
  | through {d nested : Document} {name : String} {rest : List String} {v : Value}
    (h : d.get? name = some (.map nested)) (hrest : Leads nested rest v) : Leads d (name :: rest) v

/-- The names lead to `v` in the first document and to `w` in the second one, and this is all that is
different. -/
inductive Replaces (v w : Value) : Document → List String → Document → Prop where
  | last {d d' : Document} {name : String} (h : d.get? name = some v)
    (h' : d'.get? name = some w) (hothers : ∀ m, m ≠ name → d'.get? m = d.get? m) :
    Replaces v w d [name] d'
  | through {d d' nested nested' : Document} {name : String} {rest : List String}
    (h : d.get? name = some (.map nested)) (h' : d'.get? name = some (.map nested'))
    (hothers : ∀ m, m ≠ name → d'.get? m = d.get? m) (hrest : Replaces v w nested rest nested') :
    Replaces v w d (name :: rest) d'

variable {d : Document} {name : String} {names rest : List String} {v : Value}

theorem Leads.exists_cons (h : d.Leads names v) : ∃ name rest, names = name :: rest := by
  cases h with
  | last h => exact ⟨_, _, rfl⟩
  | through h hrest => exact ⟨_, _, rfl⟩

theorem Leads.getIn? (h : d.Leads (name :: rest) v) : d.getIn? name rest = some v := by
  induction rest generalizing d name with
  | nil =>
    cases h with
    | last h => exact h
    | through h hrest => cases hrest
  | cons next rest ih =>
    cases h with
    | through h hrest =>
      rw [Document.getIn?, h]
      exact ih hrest

/-- Every name on the way is one of a document inside. -/
theorem Leads.plainName (h : d.Leads names v) (hd : d.Addressable) :
    ∀ name ∈ names, PlainName name := by
  induction h with
  | last h =>
    obtain ⟨hname, _⟩ := Value.addressable_map_iff.1 hd _ (Fields.mem_toList_iff.2 h)
    exact List.forall_mem_singleton.2 hname
  | through h _ ih =>
    obtain ⟨hname, hnested⟩ := Value.addressable_map_iff.1 hd _ (Fields.mem_toList_iff.2 h)
    exact List.forall_mem_cons.2 ⟨hname, ih hnested⟩

/-- Where names lead to a value another one can be put in its place. -/
theorem Leads.exists_replaces (h : d.Leads (name :: rest) v)
    (hnames : ∀ s ∈ name :: rest, s ≠ "") (w : Value) :
    ∃ d', d.putIn name w rest = .ok d' ∧ Replaces v w d (name :: rest) d' := by
  induction rest generalizing d name with
  | nil =>
    cases h with
    | last h =>
      refine ⟨d.insert name w, putIn_nil_eq_ok.2 ⟨hnames name List.mem_cons_self, rfl⟩, ?_⟩
      exact .last h (get?_insert_self d name w) fun m hm => get?_insert_of_ne w hm
    | through h hrest => cases hrest
  | cons next rest ih =>
    cases h with
    | @through _ nested _ _ _ h hrest =>
      obtain ⟨hname, hnames⟩ := List.forall_mem_cons.1 hnames
      obtain ⟨nested', hput, hreplaces⟩ := ih hrest hnames
      have hwithin : d.within? name = some nested := by
        rw [within?, h]
      refine ⟨d.insert name (.map nested'),
        putIn_cons_eq_ok.2 ⟨hname, nested, nested', hwithin, hput, rfl⟩, ?_⟩
      exact .through h (get?_insert_self d name _) (fun m hm => get?_insert_of_ne _ hm) hreplaces

/-! ## Documents that can be stored -/

section Addressable

variable (hd : d.Addressable) (h : d.Leads names v)

include hd h

theorem Leads.segments_join : Path.segments (Path.join names) = names := by
  obtain ⟨name, rest, rfl⟩ := h.exists_cons
  exact Path.segments_join fun s hs => (h.plainName hd s hs).2

theorem Leads.getPath? : d.getPath? (Path.join names) = some v := by
  obtain ⟨name, rest, rfl⟩ := h.exists_cons
  rw [getPath?_of_segments (h.segments_join hd)]
  exact h.getIn?

theorem Leads.setPath (w : Value) :
    ∃ d', d.setPath (Path.join names) w = (.ok (), d') ∧ Replaces v w d names d' := by
  obtain ⟨name, rest, rfl⟩ := h.exists_cons
  obtain ⟨d', hput, hreplaces⟩ := h.exists_replaces (fun s hs => (h.plainName hd s hs).1) w
  obtain ⟨hfirst, hothers⟩ := List.cons.inj (h.segments_join hd)
  refine ⟨d', ?_, hreplaces⟩
  rw [setPath_eq, putPath, hfirst, hothers, hput]
  rfl

end Addressable

/-- The check of documents lets through those with a string for an identity and with names, in all
documents inside, that are not empty and have no dots.  Whatever names lead to in such a document is
what their path leads to and what is replaced along their path, and different names have different
paths. -/
theorem storable_addressed (d : Document) :
    (d.checkStorable = .ok () ↔ (∃ id, d.identity? = some (.string id)) ∧
      ∀ e, (Value.map d).Contains e → ∀ name ∈ e.names, name ≠ "" ∧ '.' ∉ name.toList) ∧
    (d.checkStorable = .ok () →
      (∀ names v, d.Leads names v → d.getPath? (Path.join names) = some v ∧
        ∀ w, ∃ d', d.setPath (Path.join names) w = (.ok (), d') ∧ Replaces v w d names d') ∧
      ∀ names names' v v', d.Leads names v → d.Leads names' v' →
        Path.join names = Path.join names' → names = names') := by
  refine ⟨checkStorable_eq_ok_iff, fun hstorable => ?_⟩
  have hd : d.Addressable := (checkStorable_eq_ok_iff.1 hstorable).2
  refine ⟨fun names v h => ⟨h.getPath? hd, h.setPath hd⟩, fun names names' v v' h h' hjoin => ?_⟩
  rw [← h.segments_join hd, hjoin, h'.segments_join hd]

end Document

namespace Sample

def destination : Document :=
  .ofList [("city", .string "Oslo"), ("geo", .map (Document.ofList [("lat", .integer 60)]))]

def parcel : Document :=
  .ofList [("_id", .string "p1"), ("to", .map destination),
    ("items", .list [.map (Document.ofList [("sku", .string "x")])])]

end Sample

namespace Document

open Sample in
/-- A value two documents deep is read and replaced along its path, and names in a list of documents
are looked at too. -/
theorem storable_addressed_of_parcel : parcel.checkStorable = .ok () ∧
    (∀ e, (Value.map parcel).Contains e → ∀ name ∈ e.names, name ≠ "" ∧ '.' ∉ name.toList) ∧
    parcel.Leads ["to", "geo", "lat"] (.integer 60) ∧
    parcel.getPath? "to.geo.lat" = some (.integer 60) ∧
    (∃ d', parcel.setPath "to.geo.lat" (.integer 59) = (.ok (), d') ∧
      Replaces (.integer 60) (.integer 59) parcel ["to", "geo", "lat"] d') ∧
    ∀ names v, parcel.Leads names v → Path.join names = "to.geo.lat" →
      names = ["to", "geo", "lat"] := by
  have hstorable : parcel.checkStorable = .ok () := rfl
  have hlat : parcel.Leads ["to", "geo", "lat"] (.integer 60) :=
    .through rfl (.through rfl (.last rfl))
  have hpath : Path.join ["to", "geo", "lat"] = "to.geo.lat" := by decide +kernel
  obtain ⟨hnames, hleads⟩ := storable_addressed parcel
  obtain ⟨hvalues, hdifferent⟩ := hleads hstorable
  obtain ⟨hget, hset⟩ := hvalues _ _ hlat
  rw [hpath] at hget hset
  refine ⟨hstorable, (hnames.1 hstorable).2, hlat, hget, hset _, fun names v h hjoin => ?_⟩
  exact hdifferent names _ v _ h hlat (hjoin.trans hpath.symm)

end Document

end DocumentStore

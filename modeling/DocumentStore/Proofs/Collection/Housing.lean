import DocumentStore.Proofs.Collection.Contending
import DocumentStore.Proofs.Collection.Mirrors

/-!
# Documents under their identities

Whichever collections wrote them, with whichever indexes, the entries of a store hold documents under
keys with the identities of these documents (`Table.Housed`).  All operations keep it so
(`Program.Mirrors.housed_step`).  It is less than a consistent table, where the entries under a name
are those of one collection, but it is enough for all documents of a name to be found and deleted.
-/

namespace DocumentStore

/-! ## Entries that hold documents -/

/-- The value is a document, and the key is a primary key or an index key with its identity. -/
def Houses (key : Key) (value : Value) : Prop :=
  ∃ (name id : String) (d : Document), value = .map d ∧ d.identity? = some (.string id) ∧
    (key = Layout.primaryKey name id ∨
      ∃ field part, field ≠ identityField ∧ key = Layout.indexKey name field part id)

theorem Houses.identity {name id : String} {d : Document}
    (h : Houses (Layout.primaryKey name id) (.map d)) : d.identity? = some (.string id) := by
  obtain ⟨name', id', d', hvalue, hid, hkey | ⟨field, part, _, hkey⟩⟩ := h
  · cases hvalue
    cases hkey
    exact hid
  · cases hkey

/-- The entries under the primary keys of a name are primary entries. -/
theorem Houses.of_isUnder {name : String} {key : Key} {value : Value} (h : Houses key value)
    (hunder : key.isUnder (Layout.primaryBase name) = true) :
    ∃ (id : String) (d : Document), key = Layout.primaryKey name id ∧ value = .map d ∧
      d.identity? = some (.string id) := by
  obtain ⟨name', id, d, hvalue, hid, rfl | ⟨field, part, hfield, rfl⟩⟩ := h
  · have hname : name = name' := by
      simpa [Key.isUnder, Layout.primaryKey, Layout.primaryBase, Key.properlyExtends,
        KeyPart.same_refl] using hunder
    exact ⟨id, d, hname ▸ rfl, hvalue, hid⟩
  · simp [Key.isUnder, Layout.indexKey, Layout.primaryBase] at hunder
    exact absurd hunder.2.1.symm hfield

namespace Collection

variable {c : Collection} {id : String} {d : Document} {key : Key}

theorem houses_of_mem_keysOf (hc : c.WellIndexed) (hid : d.identity? = some (.string id))
    (hkey : key ∈ c.keysOf d id) : Houses key (.map d) := by
  refine ⟨c.name, id, d, rfl, hid, ?_⟩
  rcases List.mem_cons.1 hkey with rfl | hkey
  · exact .inl rfl
  · obtain ⟨field, hfield, part, _, rfl⟩ := mem_indexKeys.1 hkey
    exact .inr ⟨field, part, hc.notIdentity field hfield, rfl⟩

/-- What an operation writes are documents under their identities. -/
theorem Sends.houses (hc : c.WellIndexed) {p : Purpose} {b b' : Batch}
    (h : c.Sends (.own c.name Houses) p b b') {key : Key} {value : Value}
    (hset : .set key value ∈ b.mutations) : Houses key value := by
  cases h with
  | insert _ hdocs =>
    rw [insertBatch_eq] at hset
    obtain ⟨p, hp, hset⟩ := List.mem_flatMap.1 hset
    obtain ⟨key', hkey, heq⟩ := List.mem_map.1 hset
    cases heq
    exact houses_of_mem_keysOf hc (hdocs p hp).1 hkey
  | @change change q e e' s s' id result b b' hlike hs _ _ hid hmade _ =>
    -- the document that was read had the identity under which it is written again
    have hidentity : s.document.identity? = some (.string id) := by
      rcases hid with hid | hkey
      · exact identity_of_requireId hid
      · have hhouses : Houses e.key e.value := hlike.known
        rw [hkey, (ofEntry_eq_ok_iff.1 hs).1] at hhouses
        exact hhouses.identity
    obtain ⟨_, _, hreplaces, hnew⟩ := changeBatch_spec hc hmade
    obtain ⟨d, hd, rfl, hkey⟩ := (hreplaces.sets key value).1 hset
    exact houses_of_mem_keysOf hc (hnew hidentity d hd).1 hkey

theorem Sends.fits_own (hc : c.WellIndexed) {p : Purpose} {b b' : Batch}
    (h : c.Sends (.own c.name Houses) p b b') : (Pairing.own c.name Houses).Fits b b' :=
  h.fits rfl fun _ _ hset => h.houses hc hset

end Collection

/-! ## Tables of documents -/

def Table.Housed (t : Table) : Prop := ∀ e ∈ t.entries, Houses e.key e.value

theorem Table.housed_empty : Table.empty.Housed := fun e he => by cases he

theorem Table.Housed.mirrored {db : MemoryDatabase} (h : db.memory.table.Housed) (name : String) :
    (Pairing.own name Houses).Mirrored db db :=
  Pairing.mirrored_self db fun e he => h e (Table.mem_owned.1 he).1

/-- Entries under a name that are known to hold documents, beside entries that did so before. -/
theorem Table.Housed.of_mirrored {t : Table} (h : t.Housed) {name : String} {db db' : MemoryDatabase}
    (hmirrored : (Pairing.own name Houses).Mirrored db db')
    (hother : t.SameElsewhere name db.memory.table) : db.memory.table.Housed := by
  intro e he
  by_cases howned : e.key.belongsTo name = true
  · have hentries := hmirrored.entries
    obtain ⟨i, hi, rfl⟩ := List.mem_iff_getElem.1 (Table.mem_owned.2 ⟨he, howned⟩)
    exact (hentries.get hi (hentries.length_eq ▸ hi)).known
  · exact h e ((hother e (Bool.eq_false_iff.2 howned)).1 he)

section Programs

variable {α : Type} {c : Collection} {p : Purpose} {post : α → α → Prop} {db : MemoryDatabase}

/-- The request of an operation leaves documents under their identities, and what is left of the
operation is as it was. -/
theorem Program.Mirrors.housed_step (hc : c.WellIndexed) {r : Request} {next : r.Answer → Program α}
    (h : (ask r next).Mirrors (.own c.name Houses) (c.Sends (.own c.name Houses) p) post (ask r next))
    (hdb : db.memory.table.Housed) :
    (next (Database.answer r db).1).Mirrors (.own c.name Houses)
        (c.Sends (.own c.name Houses) p) post (next (Database.answer r db).1) ∧
      (Database.answer r db).2.memory.table.Housed := by
  obtain ⟨hnext, hmirrored, hother⟩ := h.step (fun _ _ hb => hb.fits_own hc) (hdb.mirrored c.name)
  exact ⟨hnext, hdb.of_mirrored hmirrored hother⟩

end Programs

/-! ## The documents of a name -/

namespace Table.Housed

variable {t : Table} {name : String} {e : Entry}

theorem primary (h : t.Housed) (he : e ∈ t.under (Layout.primaryBase name)) :
    ∃ (id : String) (d : Document), e = ⟨Layout.primaryKey name id, .map d, e.version⟩ ∧
      d.identity? = some (.string id) := by
  obtain ⟨hmem, hunder⟩ := Table.mem_under.1 he
  obtain ⟨id, d, hkey, hvalue, hid⟩ := (h e hmem).of_isUnder hunder
  refine ⟨id, d, ?_, hid⟩
  rw [← hkey, ← hvalue]

/-- Every entry gives a candidate. -/
theorem ofEntry (h : t.Housed) (he : e ∈ t.entries) : ∃ s, Candidate.ofEntry e = .ok s := by
  obtain ⟨_, _, d, hvalue, _⟩ := h e he
  exact ⟨⟨d, e.version⟩, Collection.ofEntry_eq_ok_iff.2 ⟨hvalue, rfl⟩⟩

/-- All documents of a name are there to be deleted, in the order of their identities. -/
theorem pending (h : t.Housed) (c : Collection) :
    c.Pending .delete .all (fun d => d) t
      (CompiledQuery.all.candidates (t.under (Layout.primaryBase c.name))) := by
  have hstored : ∀ {e s}, e ∈ t.under (Layout.primaryBase c.name) → Candidate.ofEntry e = .ok s →
      ∃ id, e.key = c.primaryKey id ∧ s.document.identity? = some (.string id) ∧
        c.stored? t id = some s := by
    intro e s he hes
    obtain ⟨id, d, hkey, hid⟩ := h.primary he
    rw [hkey] at hes
    cases hes
    refine ⟨id, by rw [hkey]; rfl, hid, Collection.stored?_eq_some_iff.2 ?_⟩
    show ⟨Layout.primaryKey c.name id, .map d, e.version⟩ ∈ t.entries
    rw [← hkey]
    exact (Table.mem_under.1 he).1
  refine ⟨fun s hs => ?_, fun s hs => rfl, ?_, fun s hs => ⟨rfl, fun new hnew => by cases hnew⟩⟩
  · obtain ⟨⟨e, he, hes⟩, _⟩ := CompiledQuery.mem_candidates.1 hs
    obtain ⟨id, _, hid, hs⟩ := hstored he hes
    exact ⟨id, hid, hs⟩
  -- different primary keys have different identities
  · refine List.pairwise_filterMap.2 ((t.under_ordered _).imp_of_mem ?_)
    intro e e' he he' hlt s hs s' hs' hsame
    obtain ⟨id, hkey, hid, _⟩ := hstored he (CompiledQuery.candidate_eq_some_iff.1 hs).1
    obtain ⟨id', hkey', hid', _⟩ := hstored he' (CompiledQuery.candidate_eq_some_iff.1 hs').1
    rw [hid, hid'] at hsame
    cases hsame
    rw [hkey, hkey', Key.same_iff.1 (Key.same_refl _)] at hlt
    cases hlt

end Table.Housed

end DocumentStore

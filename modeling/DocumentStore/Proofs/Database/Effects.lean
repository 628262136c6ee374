import DocumentStore.Proofs.Collection.Stopping
import DocumentStore.Proofs.Database.Runs

/-!
# The commits of a program that runs alone

`Program.effects` are the commits that take effect in a run of a program that nobody interferes with.
They lead from one memory to the other and are all of a kind that the program may make
(`Program.Upholds.effects`).  So an update that changed some documents made one commit for each of
them, in their order, that replaced all entries of the document (`Collection.Rewrites.commits`).
-/

namespace DocumentStore

/-- Each commit makes a new version. -/
theorem Linked.version_eq {m m' : Memory} {ws : List Commit} (h : Linked m ws m') :
    m'.version = m.version + ws.length := by
  induction h with
  | nil _ hversion => exact hversion
  | @cons m _ w ws _ hversion heffective _ ih =>
    have hnext : w.after.version = m.version + 1 := hversion ▸ heffective.version_eq
    rw [ih, hnext, List.length_cons, Nat.add_assoc, Nat.add_comm 1]

namespace Program

variable {α : Type} {c : Collection} {P : Commit → Prop}

/-- The commits of a run of the program alone that take effect, in their order. -/
def effects : Program α → MemoryDatabase → List Commit
  | done _, _ => []
  | ask r next, db =>
    (db.effect? r).toList ++ (next (Database.answer r db).1).effects (Database.answer r db).2
  | unfinished, _ => []

/-- The commits of a run lead to its memory, and the program may make them. -/
theorem Upholds.effects
    (hP : ∀ w, c.Sound w.before → w.Effective → P w → c.Progress w.before w.after)
    {post : α → Standpoint → Prop} {p : Program α} {v : Standpoint} (hv : c.Sound v.memory)
    (h : p.Upholds (c.sharing P) post v) :
    Linked v.memory (p.effects v.database) (v.database.run p).2.memory ∧
      ∀ w ∈ p.effects v.database, P w := by
  induction p generalizing v with
  | done a => exact ⟨.nil rfl rfl, fun w hw => by cases hw⟩
  | unfinished => exact ⟨.nil rfl rfl, fun w hw => by cases hw⟩
  | ask r next ih =>
    obtain ⟨hadmits, hnext⟩ := h v (.refl hv)
    have hv : c.Sound v.database.memory := hv
    obtain ⟨hprogress, hlinked⟩ := Linked.of_request (r := r) hv fun w hw hsound heffective =>
      hP w hsound heffective (hadmits w hw)
    obtain ⟨hlinked', hall⟩ := ih _ (v := (v.answer r).2) hprogress.sound hnext
    refine ⟨hlinked.append hlinked', fun w hw => ?_⟩
    rcases List.mem_append.1 hw with hw | hw
    · exact hadmits w (Option.mem_toList.1 hw)
    · exact hall w hw

end Program

namespace Collection

variable {c : Collection} {u : Update} {q : CompiledQuery} {f : Document → Document}
  {s : Candidate} {cs : List Candidate} {m m' : Memory} {ws : List Commit} {w : Commit}

/-- A commit that puts the updated form of a document in its place.  Before and after it all entries
of the collection are those of its documents, so that it replaces all entries of this one. -/
structure Updates (c : Collection) (u : Update) (q : CompiledQuery) (f : Document → Document)
    (s : Candidate) (w : Commit) : Prop where
  effective : w.Effective
  before : c.Consistent w.before.table
  after : c.Consistent w.after.table
  changes : ∃ id, c.Changes (.update u) q id s (f s.document) w

/-- An update of the document that is stored under an identity leaves it in a version of its own, so
that no other commit can have left it so. -/
theorem Changes.eq_of_stored? {id id' : String} {old : Candidate} {result new : Document}
    (hm : c.Sound w.before) (heffective : w.Effective)
    (h : c.Changes (.update u) q id' old result w)
    (hstored : c.stored? w.after.table id = some ⟨new, w.version⟩) : id' = id := by
  by_contra hne
  have hold : c.stored? w.before.table id = some ⟨new, w.version⟩ := by
    rw [h.after, Function.update_of_ne (Ne.symm hne)] at hstored
    exact hstored
  exact absurd (hm.dated hold) (Nat.not_le_of_lt heffective.version_lt)

/-- The updates of the documents behind one leave it as it is after its own update. -/
theorem Rewrites.stored?_first {id : String} {batch : Batch} {t t' : Table} {v v' : Version}
    (hc : c.WellIndexed) (ht : c.Consistent t) (hfirst : ∀ s' ∈ cs, IdLess s.document s'.document)
    (hless : cs.Pairwise fun s s' => IdLess s.document s'.document)
    (hid : s.document.identity? = some (.string id)) (hs : c.stored? t id = some s)
    (hmade : c.changeBatch (.update u) s id = .ok (f s.document, batch))
    (h : c.Rewrites (.update u) f cs (t.applyAll (v + 1) batch.mutations) (v + 1) t' v') :
    c.stored? t' id = some ⟨f s.document, v + 1⟩ := by
  obtain ⟨hconsistent, hchanged⟩ := ht.change hc hs hmade (v + 1)
  have hkept := (h.alters hc hconsistent hless).kept id fun s' hs' hstored' => by
    obtain ⟨i, j, hi, hj, hlt⟩ := hfirst s' hs'
    cases hi.symm.trans hid
    cases hj.symm.trans (hconsistent.identity hstored')
    exact String.lt_irrefl _ hlt
  rw [hkept, hchanged, Function.update_self]
  rfl

/-- Documents that were updated one after another were so in one commit each. -/
theorem Rewrites.commits (hc : c.WellIndexed) (hm : c.Sound m) (hlinked : Linked m ws m')
    (hall : ∀ w ∈ ws, (Purpose.change (.update u) q).Allows c w)
    (hless : cs.Pairwise fun s s' => IdLess s.document s'.document)
    (h : c.Rewrites (.update u) f cs m.table m.version m'.table m'.version) :
    List.Forall₂ (c.Updates u q f) cs ws := by
  have hlength : ws.length = cs.length :=
    Nat.add_left_cancel (hlinked.version_eq.symm.trans h.version_eq)
  induction cs generalizing m ws with
  | nil =>
    obtain rfl : ws = [] := List.eq_nil_of_length_eq_zero hlength
    exact .nil
  | cons s rest ih =>
    obtain ⟨w, ws, rfl⟩ : ∃ w ws', ws = w :: ws' :=
      List.exists_cons_of_length_eq_add_one hlength
    obtain ⟨hw, hall⟩ := List.forall_mem_cons.1 hall
    obtain ⟨hfirst, hless⟩ := List.pairwise_cons.1 hless
    obtain ⟨id, batch, hid, hs, hmade, hrewrites⟩ := rewrites_cons_iff.1 h
    cases hlinked with
    | cons htable hversion heffective hrest =>
    have hbefore : c.Sound w.before := hm.of_eq htable hversion
    have hafter := hw.progress hc _ hbefore heffective
    have hwversion : w.version = m.version + 1 := hversion ▸ heffective.version_eq
    have hstored := hrewrites.stored?_first hc hm.consistent hfirst hless hid hs hmade
    have hprogress : c.Progress w.after m' := hrest.progress hafter.sound fun w' hw' hsound he =>
      (hall w' hw').progress hc _ hsound he
    have hown : c.stored? w.after.table id = some ⟨f s.document, w.version⟩ := by
      rw [hwversion]
      rcases hprogress.kept hstored with hown | hlt
      · exact hown
      · have hle : m.version + 1 ≤ w.after.version := Nat.le_of_eq hwversion.symm
        exact absurd hlt (Nat.not_lt_of_ge hle)
    -- so it is this document that the commit replaced
    obtain ⟨id', old, result, hchanges⟩ := hw
    obtain rfl := hchanges.eq_of_stored? hbefore heffective hown
    have hstoredBefore : c.stored? w.before.table id' = some s := by
      rw [htable]
      exact hs
    cases hchanges.stored.symm.trans hstoredBefore
    cases hmade.symm.trans hchanges.made
    have htable' : w.after.table = m.table.applyAll (m.version + 1) w.batch.mutations := by
      rw [← htable, ← hwversion]
      exact heffective.table
    rw [← htable', ← hwversion] at hrewrites
    refine .cons ⟨heffective, hbefore.consistent, hafter.sound.consistent, id', hchanges⟩ ?_
    exact ih hafter.sound hrest hall hless hrewrites (Nat.succ.inj hlength)

end Collection

end DocumentStore

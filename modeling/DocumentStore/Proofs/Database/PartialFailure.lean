import DocumentStore.Proofs.Database.Effects
import DocumentStore.Proofs.Database.MapRefinement

/-!
# Updates that fail on one of many documents

An update of the documents that match a query goes through them in the order of their identities.  If
it fails, it does so on one of them, and those before it are updated as a whole or, under a policy of a
single attempt, were skipped because of a conflict.  Whatever the reason and the attempt, no document is
updated in part, and an update of one document that fails changes nothing.
-/

namespace DocumentStore

namespace System

variable {c : Collection} {db db' : MemoryDatabase} {fuel : Nat} {q : Query} {u : Update}
  {o : WriteOptions} {e : Error}

/-- An update breaks off on the document `s`: of the documents that match before the call, some are
skipped, some are changed, and `s` and the rest are not reached.  `ws` are the commits of the update. -/
structure BreaksOff (c : Collection) (db : MemoryDatabase) (q : Query) (u : Update)
    (policy : RetryPolicy) (e : Error) (ws : List Commit) (db' : MemoryDatabase)
    (skipped changed : List Candidate) (s : Candidate) (rest : List Candidate) : Prop where
  /-- These are all documents that match, with their versions, in the order of their identities. -/
  selects : c.Selects db.memory.table q.compile ((skipped ++ changed) ++ s :: rest)
  /-- One document is skipped for each conflict, and under a policy of a single attempt only. -/
  skips : skipped.length = db.skipped policy (skipped.length + changed.length)
  /-- The error is the one that the update raises on `s`. -/
  raises : c.Raises (.update u) policy db.settings.store.remaining.toNat s.document e
  succeeds : ∀ s' ∈ changed,
    c.Succeeds (.update u) s'.document ((Change.update u).made s'.document)
  /-- Each document that is changed has a commit of its own, which replaces all its entries. -/
  commits : List.Forall₂ (c.Updates u q.compile (Change.update u).made) changed ws
  linked : Linked db.memory ws db'.memory
  consistent : c.Consistent db'.memory.table
  /-- Where the changed documents were their updated forms are, and all else is as it was. -/
  alters : c.Alters (.update u) (Change.update u).made changed db.memory.table db'.memory.table
  /-- The skipped documents, `s` and the rest have kept their versions. -/
  keeps : ∀ s' ∈ skipped ++ s :: rest, ∀ id, c.stored? db.memory.table id = some s' →
    c.stored? db'.memory.table id = some s'

/-- An update that comes to an end, and that breaks off on one of the documents that match if it
fails, unless its own options give a policy that allows no attempt. -/
structure MayBreakOff (c : Collection) (db : MemoryDatabase) (q : Query) (u : Update)
    (o : WriteOptions) (update : Action (List Document)) : Prop where
  finishes : ∃ r db', db.run update = (some r, db')
  failure : ∀ e db', db.run update = (some (.error e), db') →
    ((∃ policy, o.retry = some policy ∧ policy.check = .error e) ∧ db' = db) ∨
      ∃ skipped changed s rest,
        BreaksOff c db q u (c.retryPolicy (.update u) o) e (Program.effects update db) db' skipped
          changed s rest ∧
        (o.justOnce = true → changed = [])

theorem succeeds_of_rewrites {change : Change} {cs : List Candidate} {t t' : Table}
    {v v' : Version} (hc : c.WellIndexed) (ht : c.Consistent t)
    (h : c.Rewrites change change.made cs t v t' v') :
    ∀ s ∈ cs, c.Succeeds change s.document (change.made s.document) := by
  induction h with
  | nil t v => exact fun s hs => by cases hs
  | cons hid hs hmade _ ih =>
    obtain ⟨happly, _, _, hnew⟩ := Collection.changeBatch_spec hc hmade
    exact List.forall_mem_cons.2 ⟨⟨happly, fun new hmem => (hnew hid new hmem).2⟩,
      ih (ht.change hc hs hmade _).1⟩

/-- What a change stops at settles what it leaves. -/
theorem Served.breaksOff (h : Served c db fuel) {skipped changed rest : List Candidate}
    {s : Candidate} (hrun : db.run (c.updateWith q u o fuel) = (some (.error e), db'))
    (hsplit : c.selected db.memory.table q.compile = (skipped ++ changed) ++ s :: rest)
    (hstops : c.StopsAt (.update u) (c.retryPolicy (.update u) o) db skipped changed s e db') :
    BreaksOff c db q u (c.retryPolicy (.update u) o) e
      (Program.effects (c.updateWith q u o fuel) db) db' skipped changed s rest := by
  have hc := h.wellIndexed
  have hconsistent := h.sound.consistent
  have hselects : c.Selects db.memory.table q.compile ((skipped ++ changed) ++ s :: rest) :=
    hsplit ▸ Collection.selects_selected hc hconsistent q.compile
  have hless := hselects.ascending
  have hchanged := (List.pairwise_append.1 (List.pairwise_append.1 hless).1).2.1
  obtain ⟨hlinked, hallowed⟩ : Linked db.memory (Program.effects (c.updateWith q u o fuel) db)
        (db.run (c.updateWith q u o fuel)).2.memory ∧
      ∀ w ∈ Program.effects (c.updateWith q u o fuel) db,
        (Purpose.change (.update u) q.compile).Allows c w :=
    Program.Upholds.effects (v := ⟨db, []⟩) (fun w hw he hallows => hallows.progress hc _ hw he)
      h.sound (Collection.change_yields hc q o fuel h.sound)
  rw [hrun] at hlinked
  have halters := hstops.rewrites.alters hc hconsistent hchanged
  refine ⟨hselects, hstops.skips, hstops.raises, succeeds_of_rewrites hc hconsistent hstops.rewrites,
    hstops.rewrites.commits hc h.sound hlinked hallowed hchanged, hlinked,
    hstops.rewrites.consistent hc hconsistent, halters, fun s' hs' id hid => ?_⟩
  -- a document is listed once, so that it is not one of those that were changed
  rw [← hid]
  refine halters.kept id fun s'' hs'' hid'' => ?_
  obtain rfl : s' = s'' := Option.some.inj (hid.symm.trans hid'')
  obtain ⟨hbefore, _, hbehind⟩ := List.pairwise_append.1 hless
  obtain ⟨_, _, hskipped⟩ := List.pairwise_append.1 hbefore
  rcases List.mem_append.1 hs' with hmem | hmem
  · exact Collection.not_idLess_self _ (hskipped s' hmem s' hs'')
  · exact Collection.not_idLess_self _ (hbehind s' (List.mem_append_right _ hs'') s' hmem)

theorem Served.updateWith_mayBreakOff (h : Served c db fuel) (q : Query) (u : Update)
    (o : WriteOptions) : MayBreakOff c db q u o (c.updateWith q u o fuel) := by
  have hends : (c.updateWith q u o fuel).Ends (fun _ _ => True)
      (fun e db' => ((∃ policy, o.retry = some policy ∧ policy.check = .error e) ∧ db' = db) ∨
        c.Stops (.update u) (c.retryPolicy (.update u) o) db
          (c.selected db.memory.table q.compile) o.justOnce e db') db := by
    cases hpolicy : (c.retryPolicy (.update u) o).check with
    | error e =>
      -- the policies of the collection and of the database were checked before
      have hown : ∃ policy, o.retry = some policy ∧ policy.check = .error e := by
        obtain ⟨justOnce, _ | policy⟩ := o
        · cases hpolicy.symm.trans (h.retryPolicy (.update u) justOnce)
        · exact ⟨policy, rfl, hpolicy⟩
      refine .bind (.ofExcept (fun a ha => ?_) fun e' he' => .inl ⟨?_, rfl⟩)
      · cases hpolicy.symm.trans ha
      · cases hpolicy.symm.trans he'
        exact hown
    | ok _ =>
      exact (Collection.change_stops h.wellIndexed h.sound.consistent h.opened
        h.defaults.scanBatch_pos h.size_lt hpolicy).imp (fun _ _ _ => trivial)
        fun _ _ hstops => .inr hstops
  refine ⟨?_, fun e db' hrun => ?_⟩
  · obtain ⟨r, db', hrun, _⟩ := hends
    exact ⟨r, db', hrun⟩
  · rcases hends.fail_of_run hrun with hpolicy | ⟨skipped, changed, s, rest, hsplit, hstops, honce⟩
    · exact .inl hpolicy
    · exact .inr ⟨skipped, changed, s, rest, h.breaksOff hrun hsplit hstops, honce⟩

/-- An update of many documents that fails leaves a prefix of them updated, and an update of one
document that fails changes nothing, whatever conflicts are to come. -/
theorem failed_updates_break_off (h : Served c db fuel) (q : Query) (u : Update) :
    (∀ o, MayBreakOff c db q u o (c.updateWith q u o fuel)) ∧
      MayBreakOff c db q u {} (c.updateMany q u fuel) ∧
      ∀ e db', db.run (c.updateOne q u fuel) = (some (.error e), db') →
        db'.memory.table = db.memory.table ∧ db'.memory.version = db.memory.version := by
  refine ⟨h.updateWith_mayBreakOff q u, h.updateWith_mayBreakOff q u {}, fun e db' hrun => ?_⟩
  have hends : (c.updateOne q u fuel).Ends (fun _ _ => True) (fun _ db' =>
      db'.memory.table = db.memory.table ∧ db'.memory.version = db.memory.version) db := by
    refine .bind ((Collection.change_stops (o := .once) h.wellIndexed h.sound.consistent h.opened
      h.defaults.scanBatch_pos h.size_lt (h.retryPolicy (.update u) true)).imp
      (fun _ _ _ => .pure trivial) ?_)
    rintro e db' ⟨skipped, changed, s, rest, _, hstops, honce⟩
    have hrewrites := hstops.rewrites
    rw [honce rfl] at hrewrites
    exact ⟨hrewrites.table_eq, hrewrites.version_eq⟩
  exact hends.fail_of_run hrun

end System

namespace Sample

def placed : Document :=
  .ofList [("_id", .string "c"), ("stock", .integer 7), ("place", .string "attic")]

def place : Update := .document fun d =>
  match d.get? "place" with
  | some _ => .error (.reported .validation "taken")
  | none => d.put "place" (.string "shelf")

def placing : List Move :=
  stocking ++ [.start (.insertOne placed) 9, .request 1, .contend 1]

end Sample

namespace System

open Sample in
/-- With one attempt for each article, the first is skipped, the second gets a place, and the third has
one. -/
theorem failed_updates_break_off_of_placing : ∃ (db db' : MemoryDatabase) (s₁ s₂ s₃ : Candidate),
    let update := articles.updateWith (inStock 7) place { retry := some .single } 9
    Served articles db 9 ∧ [s₁, s₂, s₃].map (·.document) = [article "a" 7, article "b" 7, placed] ∧
      db.run update = (some (.error (.reported .validation "taken")), db') ∧
      BreaksOff articles db (inStock 7) place .single (.reported .validation "taken")
        (Program.effects update db) db' [s₁] [s₂] s₃ [] := by
  let db := (start.play articles placing).2.database
  have hserved : Served articles db 9 :=
    ⟨⟨_, _, _, define_articles⟩, ⟨by decide, rfl, rfl⟩,
      ⟨start, _, _, initial_start, ⟨placing, rfl⟩, rfl⟩, rfl, by decide +kernel⟩
  have hfailed : (db.run (articles.updateWith (inStock 7) place { retry := some .single } 9)).1.any
      (fun r => !r.toBool) = true := by decide +kernel
  have hupdate := (failed_updates_break_off hserved (inStock 7) place).1 { retry := some .single }
  obtain ⟨r, db', hrun⟩ := hupdate.finishes
  rw [hrun] at hfailed
  rcases r with e | results
  swap
  · cases hfailed
  rcases hupdate.failure e db' hrun with
    ⟨⟨_, hown, hpolicy⟩, _⟩ | ⟨skipped, changed, s, rest, hbreaks, _⟩
  · cases hown
    cases hpolicy
  have hall : ((skipped ++ changed) ++ s :: rest).map (·.document) =
      [article "a" 7, article "b" 7, placed] :=
    (Collection.selects_selected hserved.wellIndexed hserved.sound.consistent
      (inStock 7).compile).lists.unique hbreaks.selects.lists rfl
  have hskips : skipped.length = min 1 (skipped.length + changed.length) := hbreaks.skips
  -- the update does not fail on the articles without a place
  have hne : ∀ id ∈ ["a", "b"], s.document ≠ article id 7 := by
    intro id hid hs
    have hsucceeds : articles.Succeeds (.update place) (article id 7)
        ((Change.update place).made (article id 7)) := by
      rcases List.mem_pair.1 hid with rfl | rfl <;>
        exact ⟨rfl, fun new hnew => by cases hnew; rfl⟩
    obtain ⟨maxAttempts, hpolicy⟩ := (hs ▸ hbreaks.raises).of_succeeds hsucceeds
    cases hpolicy
  rcases skipped with _ | ⟨s₁, _ | ⟨s₁', skipped⟩⟩
  · obtain rfl : changed = [] := by
      rw [List.length_nil] at hskips
      exact List.eq_nil_of_length_eq_zero (by omega)
    exact absurd (List.cons.inj hall).1 (hne "a" (by decide))
  · rcases changed with _ | ⟨s₂, _ | ⟨s₂', changed⟩⟩
    · exact absurd (List.cons.inj (List.cons.inj hall).2).1 (hne "b" (by decide))
    · obtain ⟨hplaced, hrest⟩ := List.cons.inj (List.cons.inj (List.cons.inj hall).2).2
      obtain rfl : rest = [] := List.map_eq_nil_iff.1 hrest
      -- it is the one that has a place, and this is what the update says of it
      have hraises := hbreaks.raises
      rw [show s.document = placed from hplaced] at hraises
      obtain rfl : e = .reported .validation "taken" := by
        cases hraises with
        | rejected h => exact (Except.error.inj h).symm
        | refused happly _ _ => cases happly
        | exhausted _ hsucceeds _ _ => cases hsucceeds.applied
      exact ⟨db, db', s₁, s₂, s, hserved, hall, hrun, hbreaks⟩
    · have hmore := (List.cons.inj (List.cons.inj (List.cons.inj hall).2).2).2
      simp at hmore
  · rw [List.length_cons, List.length_cons] at hskips
    omega

end System

end DocumentStore

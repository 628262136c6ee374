import DocumentStore.Proofs.Collection.Cursors
import DocumentStore.Proofs.Collection.Operations
import DocumentStore.Proofs.Program.Mirroring

/-!
# Operations cannot tell stores apart

Every operation of a collection keeps to keys under the name of the collection, and what it does does
not depend on the versions it reads but through their equality (`Operation.mirrors`).  The rules follow
the operations: from the pages of a scan to candidates, from attempts on one candidate to changes, and
from prepared documents to inserts.
-/

namespace DocumentStore

namespace Pairing

variable (R : Pairing)

/-! ## What stands for each other -/

def Twin (s s' : Candidate) : Prop :=
  ∃ e e', R.Like e e' ∧ Candidate.ofEntry e = .ok s ∧ Candidate.ofEntry e' = .ok s'

structure Scans (s s' : Scan) : Prop where
  base : s'.base = s.base
  pageSize : s'.pageSize = s.pageSize
  last : s'.last = s.last
  exhausted : s'.exhausted = s.exhausted
  owned : s.base.belongsTo R.name = true
  under : ∀ key ∈ s.last, key.isUnder s.base = true
  page : R.Page s.base s.page s'.page

inductive Sources : EntrySource → EntrySource → Prop where
  | nothing : Sources .nothing .nothing
  | single {e e' : Option Entry} (h : Option.Rel R.Like e e') : Sources (.single e) (.single e')
  | scan {s s' : Scan} (h : R.Scans s s') : Sources (.scan s) (.scan s')

structure Supplies (q : CompiledQuery) (candidates candidates' : Candidates) : Prop where
  source : R.Sources candidates.source candidates'.source
  query : candidates.query = q
  query' : candidates'.query = q

variable {R} {e e' : Entry} {s s' : Candidate}

theorem Like.ofEntry (h : R.Like e e') :
    SameOutcome (fun s s' => Candidate.ofEntry e = .ok s ∧ Candidate.ofEntry e' = .ok s')
      (Candidate.ofEntry e) (Candidate.ofEntry e') := by
  have hentry : ∀ s, Candidate.ofEntry e = .ok s →
      Candidate.ofEntry e' = .ok ⟨s.document, e'.version⟩ := fun s hs =>
    Collection.ofEntry_eq_ok_iff.2 ⟨h.value.trans (Collection.ofEntry_eq_ok_iff.1 hs).1, rfl⟩
  cases he : Candidate.ofEntry e with
  | ok s =>
    rw [hentry s he]
    exact .ok ⟨rfl, rfl⟩
  | error err =>
    have herror : Candidate.ofEntry e' = .error err := by
      rw [← he]
      unfold Candidate.ofEntry at he ⊢
      rw [h.value, h.key]
      split
      · rename_i d hd
        rw [hd] at he
        cases he
      · rfl
    rw [herror]
    exact .error err

theorem Twin.document (h : R.Twin s s') : s'.document = s.document := by
  obtain ⟨e, e', hlike, hs, hs'⟩ := h
  have hvalue := (Collection.ofEntry_eq_ok_iff.1 hs').1
  rw [hlike.value, (Collection.ofEntry_eq_ok_iff.1 hs).1] at hvalue
  exact (Value.map.inj hvalue).symm

theorem Twin.versions (h : R.Twin s s') : R.versions s.version s'.version := by
  obtain ⟨e, e', hlike, hs, hs'⟩ := h
  rw [← (Collection.ofEntry_eq_ok_iff.1 hs).2, ← (Collection.ofEntry_eq_ok_iff.1 hs').2]
  exact hlike.versions

end Pairing

variable {R : Pairing} {sends : Batch → Batch → Prop}

/-! ## Scans -/

namespace Scan

variable {s s' : Scan}

theorem pop_mirrors (h : R.Scans s s') :
    Option.Rel R.Like s.pop.1 s'.pop.1 ∧ R.Scans s.pop.2 s'.pop.2 := by
  obtain ⟨base, pageSize, page, last, exhausted⟩ := s
  obtain ⟨base', pageSize', page', last', exhausted'⟩ := s'
  obtain ⟨rfl, rfl, rfl, rfl, howned, hunder, hpage⟩ := h
  cases hpage with
  | nil => exact ⟨.none, rfl, rfl, rfl, rfl, howned, hunder, .nil⟩
  | cons he hrest =>
    obtain ⟨hlike, hkey⟩ := he
    refine ⟨.some hlike, rfl, rfl, ?_, rfl, howned, ?_, hrest⟩
    · show some _ = some _
      rw [hlike.key]
    · intro key hmem
      cases hmem
      exact hkey

theorem next_mirrors (h : R.Scans s s') :
    s.next.Mirrors R sends
      (fun r r' => Option.Rel (SameOutcome R.Like) r.1 r'.1 ∧ R.Scans r.2 r'.2) s'.next := by
  have hitem : ∀ {e e' : Option Entry}, Option.Rel R.Like e e' →
      Option.Rel (SameOutcome R.Like) (e.map .ok) (e'.map .ok) := by
    intro e e' he
    cases he with
    | none => exact .none
    | some he => exact .some (.ok he)
  have hempty : s'.page.isEmpty = s.page.isEmpty := by
    rw [Bool.eq_iff_iff, List.isEmpty_iff_length_eq_zero, List.isEmpty_iff_length_eq_zero,
      h.page.length_eq]
  unfold next
  rw [hempty, h.exhausted]
  -- both scans ask for a page here, or neither does
  by_cases hask : (s.page.isEmpty && !s.exhausted) = true
  · rw [if_pos hask, if_pos hask, h.base, h.last, h.pageSize]
    refine Program.Mirrors.bind (Action.Mirrors.scan s.pageSize h.owned h.under) fun r r' hr => ?_
    cases hr with
    | ok hpage =>
      have hlength : ∀ {l l' : List Entry}, R.Page s.base l l' →
          decide (l'.length < s'.pageSize) = decide (l.length < s.pageSize) := fun hl => by
        rw [h.pageSize, hl.length_eq]
      have hrefill : R.Scans (s.refill _) (s'.refill _) :=
        ⟨h.base, h.pageSize, h.last, hlength hpage, h.owned, h.under, hpage⟩
      obtain ⟨hfirst, hrest⟩ := pop_mirrors hrefill
      exact .pure ⟨hitem hfirst, hrest⟩
    | error e =>
      exact .pure ⟨.some (.error e), rfl, rfl, rfl, rfl, h.owned, h.under, h.page⟩
  · rw [if_neg hask, if_neg hask]
    obtain ⟨hfirst, hrest⟩ := pop_mirrors h
    exact .pure ⟨hitem hfirst, hrest⟩

theorem begin_mirrors {base : Key} (pageSize : Nat) (hbase : base.belongsTo R.name = true) :
    Action.Mirrors R sends R.Scans (begin base pageSize) (begin base pageSize) := by
  unfold begin
  split
  · exact .throw _
  · refine .bind (.lift .askIsClosed) fun closed closed' hclosed => ?_
    subst hclosed
    split
    · exact .throw _
    · exact .pure ⟨rfl, rfl, rfl, rfl, hbase, fun key hkey => (by cases hkey), .nil⟩

end Scan

theorem EntrySource.next_mirrors {source source' : EntrySource} (h : R.Sources source source') :
    source.next.Mirrors R sends
      (fun r r' => Option.Rel (SameOutcome R.Like) r.1 r'.1 ∧ R.Sources r.2 r'.2)
      source'.next := by
  cases h with
  | nothing => exact .pure ⟨.none, .nothing⟩
  | single he =>
    cases he with
    | none => exact .pure ⟨.none, .single .none⟩
    | some he => exact .pure ⟨.some (.ok he), .single .none⟩
  | scan hs =>
    exact Program.Mirrors.bind (Scan.next_mirrors hs) fun _ _ hr => .pure ⟨hr.1, .scan hr.2⟩

/-! ## Candidates -/

namespace Candidates

variable {c : Collection} {q : CompiledQuery} {candidates candidates' : Candidates}

def Match (R : Pairing) (q : CompiledQuery) (s s' : Candidate) : Prop :=
  R.Twin s s' ∧ q.accepts s.document = true

theorem next_mirrors (fuel : Nat) (h : R.Supplies q candidates candidates') :
    (candidates.next fuel).Mirrors R sends
      (fun r r' => Option.Rel (SameOutcome (Match R q)) r.1 r'.1 ∧ R.Supplies q r.2 r'.2)
      (candidates'.next fuel) := by
  induction fuel generalizing candidates candidates' with
  | zero => exact .unfinished
  | succ fuel ih =>
    obtain ⟨source, _⟩ := candidates
    obtain ⟨source', _⟩ := candidates'
    obtain ⟨hsource, rfl, rfl⟩ := h
    refine Program.Mirrors.bind (EntrySource.next_mirrors hsource) fun r r' hr => ?_
    obtain ⟨item, source⟩ := r
    obtain ⟨item', source'⟩ := r'
    obtain ⟨hitem, hsource⟩ := hr
    cases hitem with
    | none => exact .pure ⟨.none, hsource, rfl, rfl⟩
    | @some item item' hitem =>
      have hcandidate : SameOutcome R.Twin (item >>= Candidate.ofEntry)
          (item' >>= Candidate.ofEntry) := by
        cases hitem with
        | ok he => exact he.ofEntry.imp fun _ _ hs => ⟨_, _, he, hs.1, hs.2⟩
        | error e => exact .error e
      dsimp only
      generalize (item >>= Candidate.ofEntry) = candidate at hcandidate ⊢
      generalize (item' >>= Candidate.ofEntry) = candidate' at hcandidate ⊢
      cases hcandidate with
      | error e => exact .pure ⟨.some (.error e), .nothing, rfl, rfl⟩
      | ok htwin =>
        dsimp only
        -- the documents are equal, so both match or both are passed over
        rw [htwin.document]
        split
        · rename_i haccepts
          exact .pure ⟨.some (.ok ⟨htwin, haccepts⟩), hsource, rfl, rfl⟩
        · exact ih ⟨hsource, rfl, rfl⟩

theorem collect_mirrors (fuel : Nat) (limit : Option Nat)
    (h : R.Supplies q candidates candidates') :
    Action.Mirrors R sends (List.Forall₂ (Match R q)) (candidates.collect fuel limit)
      (candidates'.collect fuel limit) := by
  induction fuel generalizing candidates candidates' limit with
  | zero =>
    by_cases hlimit : limit = some 0
    · rw [hlimit, collect_no_more, collect_no_more]
      exact .pure .nil
    · rw [collect_zero hlimit, collect_zero hlimit]
      exact Program.Mirrors.unfinished
  | succ fuel ih =>
    by_cases hlimit : limit = some 0
    · rw [hlimit, collect_no_more, collect_no_more]
      exact .pure .nil
    · rw [collect_succ hlimit, collect_succ hlimit]
      refine .bind (.lift (next_mirrors _ h)) fun r r' hr => ?_
      obtain ⟨item, rest⟩ := r
      obtain ⟨item', rest'⟩ := r'
      obtain ⟨hitem, hrest⟩ := hr
      cases hitem with
      | none => exact .pure .nil
      | some hitem =>
        cases hitem with
        | error e => exact .throw e
        | ok hs => exact .bind (ih _ hrest) fun found found' hfound => .pure (.cons hs hfound)

theorem ofPlan_mirrors (hname : R.name = c.name) (plan : Plan) (bound : Option Nat) :
    Action.Mirrors R sends (R.Supplies plan.query) (ofPlan c plan bound) (ofPlan c plan bound) := by
  unfold ofPlan
  split
  · exact .pure ⟨.nothing, rfl, rfl⟩
  · refine .bind (M := R.Sources) ?_ fun source source' hsource => .pure ⟨hsource, rfl, rfl⟩
    have hscan : ∀ base : Key, base.parts.head? = some (.string c.name) →
        Action.Mirrors R sends R.Sources (do return .scan (← Scan.begin base (pageSize c bound)))
          (do return .scan (← Scan.begin base (pageSize c bound))) := fun base hbase =>
      .bind (Scan.begin_mirrors _ (Key.belongsTo_iff.2 (hname ▸ hbase)))
        fun s s' hs => .pure (.scan hs)
    unfold sourceOf
    split
    · exact .pure .nothing
    · rename_i id
      refine .bind (.get (Key.belongsTo_iff.2 (hname ▸ rfl))) fun e e' he => .pure (.single ?_)
      cases he with
      | none => exact .none
      | some he => exact .some he.1
    · exact hscan _ rfl
    · exact hscan _ rfl

end Candidates

/-! ## Batches -/

namespace Collection

variable {c : Collection} {change : Change} {q : CompiledQuery} {id : String} {s s' : Candidate}
  {result : Document} {b b' : Batch}

/-- The version that a document was read at shows in the check of a change and nowhere else. -/
theorem changeBatch_version (c : Collection) (change : Change) (d : Document) (v v' : Version)
    (id : String) : c.changeBatch change ⟨d, v'⟩ id =
      (c.changeBatch change ⟨d, v⟩ id).map fun r =>
        (r.1, ⟨[⟨c.primaryKey id, some v'⟩], r.2.mutations⟩) := by
  cases change with
  | update u =>
    unfold changeBatch
    dsimp only
    cases u.apply d with
    | error e => rfl
    | ok new =>
      cases hcheck : c.checkDocument new with
      | error e => simp [bind, Except.bind, hcheck, Except.map]
      | ok _ => simp [bind, Except.bind, hcheck, Except.map, pure, Except.pure, updateBatch_eq]
  | delete =>
    unfold changeBatch
    simp [deleteBatch_eq, Except.map, pure, Except.pure]

theorem owns_of_mem_changeBatch (h : c.changeBatch change s id = .ok (result, b)) :
    b.checks = [⟨c.primaryKey id, some s.version⟩] ∧ ∀ m ∈ b.mutations, c.Owns id m.key := by
  unfold changeBatch at h
  cases change with
  | update u =>
    obtain ⟨new, _, h⟩ := Except.bind_eq_ok_iff.1 h
    cases (Except.check_bind_eq_ok_iff.1 h).2
    rw [updateBatch_eq]
    refine ⟨rfl, fun m hm => ?_⟩
    rcases List.mem_cons.1 hm with rfl | hm
    · exact .inl rfl
    · obtain ⟨field, _, hm⟩ := List.mem_flatMap.1 hm
      obtain ⟨part, hkey⟩ := key_of_mem_indexMoves hm
      exact .inr ⟨field, part, hkey⟩
  | delete =>
    cases h
    rw [deleteBatch_eq]
    refine ⟨rfl, fun m hm => ?_⟩
    obtain ⟨key, hkey, rfl⟩ := List.mem_map.1 hm
    exact owns_of_mem_keysOf hkey

/-- The batches that an operation can send: new documents that can be stored, or a change of a
document that was read under its identity. -/
inductive Sends (c : Collection) (R : Pairing) : Purpose → Batch → Batch → Prop where
  | insert {docs : List (String × Document)} (hnodup : (docs.map Prod.fst).Nodup)
    (hdocs : ∀ p ∈ docs, c.Storable p) :
    Sends c R .insert (c.insertBatch docs) (c.insertBatch docs)
  | change {change : Change} {q : CompiledQuery} {e e' : Entry} {s s' : Candidate} {id : String}
    {result : Document} {b b' : Batch} (hlike : R.Like e e') (hs : Candidate.ofEntry e = .ok s)
    (hs' : Candidate.ofEntry e' = .ok s') (haccepts : q.accepts s.document = true)
    (hid : s.document.requireId = .ok id ∨ e.key = c.primaryKey id)
    (hmade : c.changeBatch change s id = .ok (result, b))
    (hmade' : c.changeBatch change s' id = .ok (result, b')) :
    Sends c R (.change change q) b b'

theorem Owns.belongsTo {key : Key} (h : c.Owns id key) : key.belongsTo c.name = true :=
  Key.belongsTo_iff.2 h.head?

theorem primaryKey_belongsTo (c : Collection) (id : String) :
    (c.primaryKey id).belongsTo c.name = true :=
  Key.belongsTo_iff.2 rfl

theorem Sends.fits (hname : R.name = c.name) {p : Purpose} (h : c.Sends R p b b')
    (hknown : ∀ key value, .set key value ∈ b.mutations → R.known key value) : R.Fits b b' := by
  cases h with
  | @insert docs hnodup hdocs =>
    refine ⟨?_, rfl, fun m hm => ?_, hknown⟩
    · refine List.forall₂_same.2 fun check hcheck => ⟨rfl, ?_⟩
      rw [insertBatch_eq] at hcheck
      obtain ⟨p, _, hcheck⟩ := List.mem_flatMap.1 hcheck
      obtain ⟨key, hkey, rfl⟩ := List.mem_map.1 hcheck
      exact ⟨hname ▸ (owns_of_mem_keysOf hkey).belongsTo, .none⟩
    · rw [insertBatch_eq] at hm
      obtain ⟨p, _, hm⟩ := List.mem_flatMap.1 hm
      obtain ⟨key, hkey, rfl⟩ := List.mem_map.1 hm
      exact hname ▸ (owns_of_mem_keysOf hkey).belongsTo
  | @change change q e e' s s' id result b b' hlike hs hs' _ _ hmade hmade' =>
    have htwin : R.Twin s s' := ⟨e, e', hlike, hs, hs'⟩
    obtain ⟨d, v⟩ := s
    obtain ⟨d', v'⟩ := s'
    obtain rfl : d' = d := htwin.document
    obtain ⟨hchecks, howns⟩ := owns_of_mem_changeBatch hmade
    rw [changeBatch_version c change d' v v' id, hmade] at hmade'
    cases hmade'
    refine ⟨?_, rfl, fun m hm => hname ▸ (howns m hm).belongsTo, hknown⟩
    rw [hchecks]
    have hprimary : (c.primaryKey id).belongsTo R.name = true :=
      hname ▸ c.primaryKey_belongsTo id
    exact .cons ⟨rfl, hprimary, .some htwin.versions⟩ .nil

/-! ## Changes -/

def TwinAt (c : Collection) (R : Pairing) (q : CompiledQuery) (id : String) (s s' : Candidate) :
    Prop :=
  ∃ e e', R.Like e e' ∧ Candidate.ofEntry e = .ok s ∧ Candidate.ofEntry e' = .ok s' ∧
    q.accepts s.document = true ∧
    (s.document.requireId = .ok id ∨ e.key = c.primaryKey id)

theorem TwinAt.twin (h : c.TwinAt R q id s s') : R.Twin s s' := by
  obtain ⟨e, e', hlike, hs, hs', _⟩ := h
  exact ⟨e, e', hlike, hs, hs'⟩

theorem attempt_mirrors (h : c.TwinAt R q id s s') :
    Action.Mirrors R (c.Sends R (.change change q)) Eq (c.attempt change s id)
      (c.attempt change s' id) := by
  have htwin := h.twin
  obtain ⟨e, e', hlike, hs, hs', haccepts, hid⟩ := h
  have hbatch : c.changeBatch change s' id = (c.changeBatch change s id).map fun r =>
      (r.1, ⟨[⟨c.primaryKey id, some s'.version⟩], r.2.mutations⟩) := by
    obtain ⟨d, v⟩ := s
    obtain ⟨d', v'⟩ := s'
    obtain rfl : d' = d := htwin.document
    exact c.changeBatch_version change d' v v' id
  have hsends : SameOutcome (fun r r' => r'.1 = r.1 ∧ c.Sends R (.change change q) r.2 r'.2)
      (c.changeBatch change s id) (c.changeBatch change s' id) := by
    cases hmade : c.changeBatch change s id with
    | error err =>
      rw [hbatch, hmade]
      exact .error err
    | ok r =>
      rw [hmade] at hbatch
      rw [hbatch]
      exact .ok ⟨rfl, .change hlike hs hs' haccepts hid hmade hbatch⟩
  refine .bind (.ofExcept hsends) fun r r' hr => ?_
  obtain ⟨result, b⟩ := r
  obtain ⟨result', b'⟩ := r'
  obtain ⟨rfl, hb⟩ := hr
  refine .bind (.commit hb) fun o o' ho => ?_
  cases ho with
  | committed _ => exact .pure rfl
  | conflict => exact .pure rfl

theorem refetch_mirrors (hname : R.name = c.name) (id : String) (q : CompiledQuery) :
    Action.Mirrors R sends (Option.Rel (c.TwinAt R q id)) (c.refetch id q) (c.refetch id q) := by
  have hprimary : (c.primaryKey id).belongsTo R.name = true :=
    hname ▸ c.primaryKey_belongsTo id
  refine .bind (.get hprimary) fun e e' he => ?_
  cases he with
  | none => exact .pure .none
  | some he =>
    obtain ⟨hlike, hkey⟩ := he
    refine .bind (.ofExcept hlike.ofEntry) fun s s' hs => ?_
    have hdocument : s'.document = s.document :=
      Pairing.Twin.document ⟨_, _, hlike, hs.1, hs.2⟩
    rw [hdocument]
    split
    · rename_i haccepts
      exact .pure (.some ⟨_, _, hlike, hs.1, hs.2, haccepts, .inr (same_primaryKey_iff.1 hkey)⟩)
    · exact .pure .none

theorem changeOne_mirrors (hname : R.name = c.name) (policy : RetryPolicy) (retries : Nat)
    (h : c.TwinAt R q id s s') :
    Action.Mirrors R (c.Sends R (.change change q)) Eq (c.changeOne change q policy id retries s)
      (c.changeOne change q policy id retries s') := by
  induction retries generalizing s s' with
  | zero =>
    unfold changeOne
    refine .bind (attempt_mirrors h) fun o o' ho => ?_
    subst ho
    cases o with
    | some result => exact .pure rfl
    | none =>
      cases policy with
      | single => exact .pure rfl
      | untilSuccess maxAttempts => exact .throw _
  | succ retries ih =>
    unfold changeOne
    refine .bind (attempt_mirrors h) fun o o' ho => ?_
    subst ho
    cases o with
    | some result => exact .pure rfl
    | none =>
      refine .bind (refetch_mirrors hname id q) fun found found' hfound => ?_
      cases hfound with
      | none => exact .pure rfl
      | some hs => exact ih hs

theorem changeCandidate_mirrors (hname : R.name = c.name) (policy : RetryPolicy)
    (h : Candidates.Match R q s s') :
    Action.Mirrors R (c.Sends R (.change change q)) Eq (c.changeCandidate change q policy s)
      (c.changeCandidate change q policy s') := by
  obtain ⟨⟨e, e', hlike, hs, hs'⟩, haccepts⟩ := h
  have hdocument : s'.document = s.document := Pairing.Twin.document ⟨e, e', hlike, hs, hs'⟩
  have hid : SameOutcome (fun id id' => id' = id ∧ s.document.requireId = .ok id)
      s.document.requireId s'.document.requireId := by
    rw [hdocument]
    cases s.document.requireId with
    | ok id => exact .ok ⟨rfl, rfl⟩
    | error err => exact .error err
  refine .bind (.ofExcept hid) fun id id' hids => ?_
  obtain ⟨rfl, hid⟩ := hids
  exact changeOne_mirrors hname policy policy.retries ⟨e, e', hlike, hs, hs', haccepts, .inl hid⟩

theorem changeFirst_mirrors (hname : R.name = c.name) (policy : RetryPolicy) (fuel : Nat)
    {candidates candidates' : Candidates} (h : R.Supplies q candidates candidates') :
    Action.Mirrors R (c.Sends R (.change change q)) Eq
      (c.changeFirst change q policy fuel candidates)
      (c.changeFirst change q policy fuel candidates') := by
  induction fuel generalizing candidates candidates' with
  | zero => exact Program.Mirrors.unfinished
  | succ fuel ih =>
    refine .bind (.lift (Candidates.next_mirrors _ h)) fun r r' hr => ?_
    obtain ⟨item, rest⟩ := r
    obtain ⟨item', rest'⟩ := r'
    obtain ⟨hitem, hrest⟩ := hr
    cases hitem with
    | none => exact .pure rfl
    | some hitem =>
      cases hitem with
      | error e => exact .throw e
      | ok hs =>
        refine .bind (changeCandidate_mirrors hname policy hs) fun o o' ho => ?_
        subst ho
        cases o with
        | some result => exact .pure rfl
        | none => exact ih hrest

theorem changeEach_mirrors (hname : R.name = c.name) (policy : RetryPolicy)
    {cs cs' : List Candidate} (h : List.Forall₂ (Candidates.Match R q) cs cs') :
    Action.Mirrors R (c.Sends R (.change change q)) Eq (c.changeEach change q policy cs)
      (c.changeEach change q policy cs') := by
  induction h with
  | nil => exact .pure rfl
  | cons hs _ ih =>
    refine .bind (changeCandidate_mirrors hname policy hs) fun o o' ho => ?_
    refine .bind ih fun results results' hresults => ?_
    subst ho
    subst hresults
    exact .pure rfl

theorem change_mirrors (hname : R.name = c.name) (q : Query) (o : WriteOptions) (fuel : Nat) :
    Action.Mirrors R (c.Sends R (.change change q.compile)) Eq (c.change change q o fuel)
      (c.change change q o fuel) := by
  refine .bind (.ofExcept (.refl _)) fun _ _ _ => ?_
  refine .bind (Candidates.ofPlan_mirrors hname _ _) fun candidates candidates' hcandidates => ?_
  split
  · exact changeFirst_mirrors hname _ fuel hcandidates
  · refine .bind (Candidates.collect_mirrors fuel none hcandidates) fun cs cs' hcs => ?_
    exact changeEach_mirrors hname _ hcs

/-! ## Inserts -/

/-- Documents are prepared in the same way if no identity is drawn, or the same ones are. -/
theorem prepare_mirrors (d : Document) (hd : d.hasIdentity = true ∨ R.sharesIds) :
    Action.Mirrors R sends (fun p p' => p' = p ∧ c.Storable p) (c.prepare d) (c.prepare d) := by
  have hrest : ∀ d : Document, Action.Mirrors R sends (fun p p' => p' = p ∧ c.Storable p)
      (do Action.ofExcept (c.checkDocument d); return (← Action.ofExcept d.requireId, d))
      (do Action.ofExcept (c.checkDocument d); return (← Action.ofExcept d.requireId, d)) := by
    intro d
    cases hcheck : c.checkDocument d with
    | error e => exact .bind (M := fun _ _ => False) (.ofExcept (.error e)) fun _ _ h => h.elim
    | ok _ =>
      refine .bind (M := fun _ _ => True) (.ofExcept (.ok trivial)) fun _ _ _ => ?_
      cases hid : d.requireId with
      | error e => exact .bind (M := fun _ _ => False) (.ofExcept (.error e)) fun _ _ h => h.elim
      | ok id =>
        refine .bind (M := fun id₁ id₂ => id₁ = id ∧ id₂ = id) (.ofExcept (.ok ⟨rfl, rfl⟩)) ?_
        rintro _ _ ⟨rfl, rfl⟩
        exact .pure ⟨rfl, identity_of_requireId hid, hcheck⟩
  unfold prepare
  dsimp only
  by_cases hidentity : d.hasIdentity = true
  · rw [if_pos hidentity]
    refine .bind (M := Eq) (.pure rfl) fun d d' hdd => ?_
    subst hdd
    exact hrest d
  · rw [if_neg hidentity]
    refine .bind (M := Eq) (.lift (.askFreshId (hd.resolve_left hidentity))) fun id id' hid => ?_
    subst hid
    refine .bind (M := Eq) (.ofExcept (.refl _)) fun d d' hdd => ?_
    subst hdd
    exact hrest d

theorem prepareAll_mirrors (ds : List Document)
    (hds : ∀ d ∈ ds, d.hasIdentity = true ∨ R.sharesIds) :
    Action.Mirrors R sends (fun ps ps' => ps' = ps ∧ ∀ p ∈ ps, c.Storable p) (c.prepareAll ds)
      (c.prepareAll ds) := by
  induction ds with
  | nil => exact .pure ⟨rfl, fun p hp => by cases hp⟩
  | cons d ds ih =>
    obtain ⟨hd, hds⟩ := List.forall_mem_cons.1 hds
    refine .bind (prepare_mirrors d hd) fun p p' hp => ?_
    refine .bind (ih hds) fun ps ps' hps => ?_
    obtain ⟨rfl, hp⟩ := hp
    obtain ⟨rfl, hps⟩ := hps
    exact .pure ⟨rfl, List.forall_mem_cons.2 ⟨hp, hps⟩⟩

theorem insertOne_mirrors (d : Document) (hd : d.hasIdentity = true ∨ R.sharesIds) :
    Action.Mirrors R (c.Sends R .insert) Eq (c.insertOne d) (c.insertOne d) := by
  refine .bind (prepare_mirrors d hd) fun p p' hp => ?_
  obtain ⟨rfl, hp⟩ := hp
  have hsends : c.Sends R .insert (c.insertBatch [p']) (c.insertBatch [p']) :=
    .insert (by simp) (by simpa using hp)
  refine .bind (.commit hsends) fun o o' ho => ?_
  cases ho with
  | committed _ => exact .pure rfl
  | conflict => exact .throw _

theorem insertMany_mirrors (ds : List Document)
    (hds : ∀ d ∈ ds, d.hasIdentity = true ∨ R.sharesIds) :
    Action.Mirrors R (c.Sends R .insert) Eq (c.insertMany ds) (c.insertMany ds) := by
  unfold insertMany
  split
  · exact .pure rfl
  · refine .bind (prepareAll_mirrors ds hds) fun ps ps' hps => ?_
    obtain ⟨rfl, hps⟩ := hps
    dsimp only
    split
    · exact .bind (M := fun _ _ => False) (.throw _) fun _ _ h => h.elim
    · rename_i hnone
      have hnodup : (ps'.map Prod.fst).Nodup := by
        refine (firstRepeated_eq_none [] ?_).1
        exact Option.eq_none_iff_forall_ne_some.2 hnone
      refine .bind (.commit (.insert hnodup hps)) fun o o' ho => ?_
      cases ho with
      | committed _ => exact .pure rfl
      | conflict => exact .throw _

end Collection

/-! ## Cursors -/

theorem Candidates.documents_eq {q : CompiledQuery} {cs cs' : List Candidate}
    (h : List.Forall₂ (Match R q) cs cs') :
    cs'.map (·.document) = cs.map (·.document) := by
  induction h with
  | nil => rfl
  | cons hs _ ih => rw [List.map_cons, List.map_cons, hs.1.document, ih]

inductive Pairing.Streams (R : Pairing) : DocumentStream → DocumentStream → Prop where
  | streaming {q : CompiledQuery} {candidates candidates' : Candidates}
    (h : R.Supplies q candidates candidates') : Streams R (.streaming candidates)
      (.streaming candidates')
  | buffered (ds : List Document) : Streams R (.buffered ds) (.buffered ds)

namespace DocumentStream

theorem next_mirrors (fuel : Nat) {stream stream' : DocumentStream} (h : R.Streams stream stream') :
    (stream.next fuel).Mirrors R sends (fun r r' => r'.1 = r.1 ∧ R.Streams r.2 r'.2)
      (stream'.next fuel) := by
  cases h with
  | streaming h =>
    refine Program.Mirrors.bind (Candidates.next_mirrors fuel h) fun r r' hr => ?_
    obtain ⟨item, rest⟩ := r
    obtain ⟨item', rest'⟩ := r'
    obtain ⟨hitem, hrest⟩ := hr
    refine .pure ⟨?_, .streaming hrest⟩
    cases hitem with
    | none => rfl
    | some hitem =>
      cases hitem with
      | error e => rfl
      | ok hs => exact congrArg (fun d => some (Except.ok d)) hs.1.document
  | buffered ds =>
    cases ds with
    | nil => exact .pure ⟨rfl, .buffered []⟩
    | cons d ds => exact .pure ⟨rfl, .buffered ds⟩

theorem collect_mirrors (fuel : Nat) {stream stream' : DocumentStream}
    (h : R.Streams stream stream') :
    (stream.collect fuel).Mirrors R sends Eq (stream'.collect fuel) := by
  induction fuel generalizing stream stream' with
  | zero => exact .unfinished
  | succ fuel ih =>
    refine Program.Mirrors.bind (next_mirrors _ h) fun r r' hr => ?_
    obtain ⟨item, rest⟩ := r
    obtain ⟨item', rest'⟩ := r'
    obtain ⟨hitem, hrest⟩ := hr
    have hitem : item' = item := hitem
    subst hitem
    cases item' with
    | none => exact .pure rfl
    | some item =>
      refine Program.Mirrors.bind (ih hrest) fun items items' hitems => ?_
      subst hitems
      exact .pure rfl

end DocumentStream

namespace Cursor

variable {c : Collection}

theorem getMany_mirrors (hname : R.name = c.name) (plan : Plan) (ops : List CursorOp)
    (fuel : Nat) :
    Action.Mirrors R sends Eq (getMany ⟨c, plan, ops⟩ fuel) (getMany ⟨c, plan, ops⟩ fuel) := by
  refine .bind (Candidates.ofPlan_mirrors hname _ _) fun candidates candidates' hcandidates => ?_
  refine .bind (Candidates.collect_mirrors fuel _ hcandidates) fun cs cs' hcs => .pure ?_
  rw [Candidates.documents_eq hcs]

theorem getOne_mirrors (hname : R.name = c.name) (plan : Plan) (ops : List CursorOp)
    (fuel : Nat) :
    Action.Mirrors R sends Eq (getOne ⟨c, plan, ops⟩ fuel) (getOne ⟨c, plan, ops⟩ fuel) := by
  refine .bind (getMany_mirrors hname plan (ops ++ [.limit 1]) fuel) fun ds ds' hds => .pure ?_
  rw [hds]

theorem count_mirrors (hname : R.name = c.name) (plan : Plan) (ops : List CursorOp)
    (fuel : Nat) :
    Action.Mirrors R sends Eq (count ⟨c, plan, ops⟩ fuel) (count ⟨c, plan, ops⟩ fuel) := by
  refine .bind (getMany_mirrors hname plan ops fuel) fun ds ds' hds => .pure ?_
  rw [hds]

theorem iterate_mirrors (hname : R.name = c.name) (plan : Plan) (ops : List CursorOp)
    (fuel : Nat) :
    Action.Mirrors R sends Eq (iterate ⟨c, plan, ops⟩ fuel) (iterate ⟨c, plan, ops⟩ fuel) := by
  have hstream : Action.Mirrors R sends R.Streams (DocumentStream.ofCursor ⟨c, plan, ops⟩ fuel)
      (DocumentStream.ofCursor ⟨c, plan, ops⟩ fuel) := by
    unfold DocumentStream.ofCursor
    split
    · exact .bind (Candidates.ofPlan_mirrors hname _ _) fun _ _ hcandidates =>
        .pure (.streaming hcandidates)
    · refine .bind (getMany_mirrors hname plan ops fuel) fun ds ds' hds => ?_
      subst hds
      exact .pure (.buffered ds)
  exact .bind hstream fun stream stream' h => .lift (DocumentStream.collect_mirrors fuel h)

end Cursor

/-! ## Operations -/

namespace Operation

variable {c : Collection}

def Identified : Operation → Prop
  | insertOne d => d.hasIdentity = true
  | insertMany ds => ∀ d ∈ ds, d.hasIdentity = true
  | _ => True

/-- Whatever a collection is asked for, it is done in the same way in stores that agree under its
name. -/
theorem mirrors (hname : R.name = c.name) (op : Operation) (fuel : Nat)
    (hids : op.Identified ∨ R.sharesIds) :
    Action.Mirrors R (c.Sends R op.purpose) Eq (op.program c fuel) (op.program c fuel) := by
  have hmany : ∀ (change : Change) (q : Query) (o : WriteOptions),
      Action.Mirrors R (c.Sends R (.change change q.compile)) Eq
        (do return Reply.documents (← c.change change q o fuel))
        (do return Reply.documents (← c.change change q o fuel)) := fun change q o =>
    .bind (Collection.change_mirrors hname q o fuel) fun ds ds' hds => .pure (by rw [hds])
  have hone : ∀ (change : Change) (q : Query),
      Action.Mirrors R (c.Sends R (.change change q.compile)) Eq
        (do return Reply.documents (← (do return (← c.change change q .once fuel).head? :
          Action (Option Document))).toList)
        (do return Reply.documents (← (do return (← c.change change q .once fuel).head? :
          Action (Option Document))).toList) := fun change q =>
    .bind (M := Eq) (.bind (Collection.change_mirrors hname q .once fuel) fun ds ds' hds =>
      .pure (by rw [hds])) fun d d' hd => .pure (by rw [hd])
  cases op with
  | insertOne d =>
    exact .bind (Collection.insertOne_mirrors d hids) fun d d' hd => .pure (by rw [hd])
  | insertMany ds =>
    have hds : ∀ d ∈ ds, d.hasIdentity = true ∨ R.sharesIds := fun d hd =>
      hids.imp_left fun h => h d hd
    exact .bind (Collection.insertMany_mirrors ds hds) fun ds ds' hds => .pure (by rw [hds])
  | updateOne q u => exact hone (.update u) q
  | updateMany q u => exact hmany (.update u) q {}
  | updateWith q u o => exact hmany (.update u) q o
  | deleteOne q => exact hone .delete q
  | deleteMany q => exact hmany .delete q {}
  | deleteWith q o => exact hmany .delete q o
  | dropAll =>
    exact .bind (M := Eq) (.bind (Collection.change_mirrors hname .all {} fuel)
      fun ds ds' hds => .pure (by rw [hds])) fun n n' hn => .pure (by rw [hn])
  | find q ops =>
    exact .bind (Cursor.getMany_mirrors hname _ ops fuel) fun ds ds' hds => .pure (by rw [hds])

end Operation

end DocumentStore

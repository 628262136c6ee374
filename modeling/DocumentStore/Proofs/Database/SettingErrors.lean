import DocumentStore.Proofs.Collection.Complaints
import DocumentStore.Proofs.Collection.Cursors
import DocumentStore.Proofs.Collection.Failures
import DocumentStore.Proofs.Database.MapRefinement
import DocumentStore.Proofs.Database.Registry
import DocumentStore.Proofs.Program.Regimes

/-!
# Errors that stem from settings

A page without entries and a policy without attempts are errors of the settings of a database or of a
collection.  Through a collection that could be opened no operation meets the first one, and none meets the
second one but for a policy of its own call, whatever the store holds and answers, as long as the caller's
own functions do not report these errors.
-/

namespace DocumentStore

inductive Error.OfSettings : Error → Prop where
  | zeroPage : OfSettings .zeroPage
  | noAttempts : OfSettings .noAttempts

theorem Error.OfSettings.not_complains {e : Error} (h : e.OfSettings) : ¬ e.Complains := by
  cases h <;> nofun

variable {e : Error} {c : Collection}

/-! ## Reading -/

theorem Candidate.ofEntry_ne_error (he : e.OfSettings) (entry : Entry) :
    Candidate.ofEntry entry ≠ .error e := by
  unfold ofEntry
  split
  · nofun
  · intro h
    cases h
    cases he

theorem Scan.begin_spares (he : e.OfSettings) (base : Key) {pageSize : Nat}
    (hpage : e = .zeroPage → 0 < pageSize) : (begin base pageSize).Under (.sparing e) fun _ => True := by
  unfold begin
  split
  · rename_i hzero
    exact .throw fun h => Nat.ne_of_gt (hpage h.symm) hzero
  · refine .bindAny (.lift (Program.Under.free trivial _)) fun closed => ?_
    split
    · refine .throw ?_
      rintro rfl
      cases he
    · exact .pure trivial

theorem Scan.next_spares (s : Scan) : s.next.Under (.sparing e) fun r => r.1 ≠ some (.error e) := by
  have hpop : ∀ s : Scan, s.pop.1.map Except.ok ≠ some (.error e : Except Error Entry) := by
    intro s h
    obtain ⟨_, _, heq⟩ := Option.map_eq_some_iff.1 h
    cases heq
  unfold next
  split
  · refine .bind (Program.Under.imp (fun r hr => ?_) (Action.scan_spares s.base s.last s.pageSize))
    cases r with
    | ok page => exact .pure (hpop _)
    | error e' => exact .pure fun h => hr (Except.error.inj (Option.some.inj h))
  · exact .pure (hpop s)

theorem EntrySource.next_spares (source : EntrySource) :
    source.next.Under (.sparing e) fun r => r.1 ≠ some (.error e) := by
  cases source with
  | nothing => exact .pure nofun
  | single entry =>
    refine .pure fun h => ?_
    obtain ⟨_, _, heq⟩ := Option.map_eq_some_iff.1 h
    cases heq
  | scan s => exact .bind ((Scan.next_spares s).imp fun _ h => .pure h)

namespace Candidates

theorem next_spares (he : e.OfSettings) (fuel : Nat) (candidates : Candidates) :
    (candidates.next fuel).Under (.sparing e) fun r => r.1 ≠ some (.error e) := by
  induction fuel generalizing candidates with
  | zero => trivial
  | succ fuel ih =>
    refine .bind ((EntrySource.next_spares candidates.source).imp fun r hr => ?_)
    obtain ⟨item, source⟩ := r
    rcases item with _ | item
    · exact .pure nofun
    · dsimp only
      split
      · rename_i e' he'
        refine .pure fun h => ?_
        obtain rfl : e' = e := Except.error.inj (Option.some.inj h)
        rcases Except.bind_eq_error_iff.1 he' with hitem | ⟨entry, _, hentry⟩
        · exact hr (congrArg _ hitem)
        · exact Candidate.ofEntry_ne_error he entry hentry
      · split
        · exact .pure nofun
        · exact ih _

theorem collect_spares (he : e.OfSettings) (fuel : Nat) (limit : Option Nat)
    (candidates : Candidates) : (candidates.collect fuel limit).Under (.sparing e) fun _ => True := by
  induction fuel generalizing candidates limit with
  | zero =>
    by_cases hlimit : limit = some 0
    · rw [hlimit, collect_no_more]
      exact .pure trivial
    · rw [collect_zero hlimit]
      exact trivial
  | succ fuel ih =>
    by_cases hlimit : limit = some 0
    · rw [hlimit, collect_no_more]
      exact .pure trivial
    rw [collect_succ hlimit]
    refine .bind (.lift ((next_spares he (fuel + 1) candidates).imp fun r hr => ?_))
    obtain ⟨item, rest⟩ := r
    rcases item with _ | e' | candidate
    · exact .pure trivial
    · exact .throw fun h => hr (congrArg _ (congrArg _ h))
    · exact .bindAny (ih _ rest) fun _ => .pure trivial

/-- With a bound of zero nothing is scanned; with any other bound a page holds something. -/
theorem ofPlan_spares (he : e.OfSettings) (hbatch : 0 < c.defaults.scanBatch) (plan : Plan)
    (bound : Option Nat) : (ofPlan c plan bound).Under (.sparing e) fun _ => True := by
  unfold ofPlan
  split
  · exact .pure trivial
  · rename_i hbound
    have hpage : 0 < pageSize c bound := by
      cases bound with
      | none => exact hbatch
      | some n =>
        have hn : n ≠ 0 := fun hn => hbound (hn ▸ rfl)
        exact Nat.lt_min.2 ⟨Nat.pos_of_ne_zero hn, hbatch⟩
    refine .bindAny ?_ fun _ => .pure trivial
    unfold sourceOf
    split
    · exact .pure trivial
    · exact .bindAny (Action.get_spares _) fun _ => .pure trivial
    · exact .bindAny (Scan.begin_spares he _ fun _ => hpage) fun _ => .pure trivial
    · exact .bindAny (Scan.begin_spares he _ fun _ => hpage) fun _ => .pure trivial

end Candidates

/-! ## Cursors -/

namespace Cursor

variable {cursor : Cursor} (he : e.OfSettings) (hbatch : 0 < cursor.collection.defaults.scanBatch)
include he hbatch

theorem getMany_spares (fuel : Nat) : (cursor.getMany fuel).Under (.sparing e) fun _ => True :=
  .bindAny (Candidates.ofPlan_spares he hbatch _ _) fun candidates =>
    .bindAny (Candidates.collect_spares he fuel _ candidates) fun _ => .pure trivial

theorem getOne_spares (fuel : Nat) : (cursor.getOne fuel).Under (.sparing e) fun _ => True :=
  have hlimited : 0 < (cursor.withOp (.limit 1)).collection.defaults.scanBatch := hbatch
  .bindAny (getMany_spares he hlimited fuel) fun _ => .pure trivial

theorem count_spares (fuel : Nat) : (cursor.count fuel).Under (.sparing e) fun _ => True :=
  .bindAny (getMany_spares he hbatch fuel) fun _ => .pure trivial

end Cursor

namespace DocumentStream

theorem next_spares (he : e.OfSettings) (fuel : Nat) (stream : DocumentStream) :
    (stream.next fuel).Under (.sparing e) fun r => r.1 ≠ some (.error e) := by
  cases stream with
  | streaming candidates =>
    refine .bind ((Candidates.next_spares he fuel candidates).imp fun r hr => .pure fun h => hr ?_)
    obtain ⟨item, rest⟩ := r
    rcases item with _ | e' | candidate
    · cases h
    · cases h
      rfl
    · cases h
  | buffered ds => cases ds <;> exact .pure nofun

theorem collect_spares (he : e.OfSettings) (fuel : Nat) (stream : DocumentStream) :
    (stream.collect fuel).Under (.sparing e) fun items => .error e ∉ items := by
  induction fuel generalizing stream with
  | zero => trivial
  | succ fuel ih =>
    refine .bind ((next_spares he (fuel + 1) stream).imp fun r hr => ?_)
    obtain ⟨item, rest⟩ := r
    rcases item with _ | item
    · exact .pure (List.not_mem_nil)
    · refine .bind ((ih rest).imp fun items hitems => .pure fun hmem => ?_)
      rcases List.mem_cons.1 hmem with h | h
      · exact hr (congrArg _ h.symm)
      · exact hitems h

end DocumentStream

theorem Cursor.iterate_spares {cursor : Cursor} (he : e.OfSettings)
    (hbatch : 0 < cursor.collection.defaults.scanBatch) (fuel : Nat) :
    (cursor.iterate fuel).Under (.sparing e) fun items => .error e ∉ items := by
  have hstream : (DocumentStream.ofCursor cursor fuel).Under (.sparing e) fun _ => True := by
    unfold DocumentStream.ofCursor
    split
    · exact .bindAny (Candidates.ofPlan_spares he hbatch _ _) fun _ => .pure trivial
    · exact .bindAny (getMany_spares he hbatch fuel) fun _ => .pure trivial
  exact .bindAny hstream fun stream => .lift (DocumentStream.collect_spares he fuel stream)

/-! ## Changes -/

namespace Collection.Opened

theorem updateRetry (h : c.Opened) : RetryPolicy.checkOptional c.options.updateRetry = .ok () := by
  obtain ⟨_, _, hdefine, _⟩ := h
  obtain ⟨_, hupdate, _, hc⟩ := define_eq_ok hdefine
  rw [hc]
  exact hupdate

/-- A policy without attempts is that of the call. -/
theorem override_of_retryPolicy (hc : c.Opened) {change : Change} {o : WriteOptions}
    (h : c.retryPolicy change o = .untilSuccess 0) : o.retry = some (.untilSuccess 0) := by
  unfold retryPolicy at h
  cases hretry : o.retry with
  | some p =>
    rw [hretry] at h
    cases change <;> exact congrArg some h
  | none =>
    rw [hretry] at h
    cases change with
    | update u =>
      exact absurd h (RetryPolicy.check_eq_ok_iff.1
        (RetryPolicy.check_getD hc.updateRetry hc.defaults.updateRetry))
    | delete =>
      exact absurd h (RetryPolicy.check_eq_ok_iff.1
        (RetryPolicy.check_getD hc.deleteRetry hc.defaults.deleteRetry))

end Collection.Opened

def Change.Reports (change : Change) (e : Error) : Prop :=
  ∃ f d, change = .update (.document f) ∧ f d = .error e

namespace Collection

def Invalidates (c : Collection) (e : Error) : Prop := ∃ d, c.options.validate d = .error e

variable {change : Change} (he : e.OfSettings) (hvalid : ¬ c.Invalidates e)
  (hreports : ¬ change.Reports e)

include he hvalid in
theorem checkDocument_ne_error (d : Document) : c.checkDocument d ≠ .error e := by
  intro h
  rcases complains_or_invalid h with h | h
  · exact he.not_complains h
  · exact hvalid ⟨d, h⟩

theorem requireId_ne_error (he : e.OfSettings) (d : Document) : d.requireId ≠ .error e := by
  unfold Document.requireId
  split
  · nofun
  · intro h
    cases h
    cases he

theorem refetch_spares (he : e.OfSettings) (id : String) (q : CompiledQuery) :
    (c.refetch id q).Under (.sparing e) fun _ => True := by
  refine .bindAny (Action.get_spares _) fun found => ?_
  cases found with
  | none => exact .pure trivial
  | some entry =>
    exact .bindAny (.ofExcept (.sparing (Candidate.ofEntry_ne_error he entry)))
      fun _ => .pure trivial

include he hvalid hreports

theorem changeBatch_ne_error (candidate : Candidate) (id : String) :
    c.changeBatch change candidate id ≠ .error e := by
  intro h
  cases change with
  | delete => cases h
  | update u =>
    rcases Except.bind_eq_error_iff.1 h with h | ⟨new, _, h⟩
    · rcases Update.complains_or_raised h with hcomplains | ⟨f, rfl, hf⟩
      · exact he.not_complains hcomplains
      · exact hreports ⟨f, _, rfl, hf⟩
    · rcases Except.bind_eq_error_iff.1 h with h | ⟨_, _, h⟩
      · exact checkDocument_ne_error he hvalid new h
      · cases h

theorem attempt_spares (candidate : Candidate) (id : String) :
    (c.attempt change candidate id).Under (.sparing e) fun _ => True :=
  .bindAny (.ofExcept (.sparing (changeBatch_ne_error he hvalid hreports candidate id)))
    fun _ => .bindAny (Action.commit_spares _) fun _ => .pure trivial

theorem changeOne_spares (q : CompiledQuery) (policy : RetryPolicy) (id : String) (retries : Nat)
    (candidate : Candidate) :
    (c.changeOne change q policy id retries candidate).Under (.sparing e) fun _ => True := by
  induction retries generalizing candidate with
  | zero =>
    unfold changeOne
    refine .bindAny (attempt_spares he hvalid hreports candidate id) fun result => ?_
    cases result with
    | some result => exact .pure trivial
    | none =>
      cases policy with
      | single => exact .pure trivial
      | untilSuccess maxAttempts =>
        refine .throw ?_
        rintro rfl
        cases he
  | succ retries ih =>
    unfold changeOne
    refine .bindAny (attempt_spares he hvalid hreports candidate id) fun result => ?_
    cases result with
    | some result => exact .pure trivial
    | none =>
      refine .bindAny (refetch_spares he id q) fun found => ?_
      cases found with
      | none => exact .pure trivial
      | some candidate => exact ih candidate

theorem changeCandidate_spares (q : CompiledQuery) (policy : RetryPolicy) (candidate : Candidate) :
    (c.changeCandidate change q policy candidate).Under (.sparing e) fun _ => True :=
  .bindAny (.ofExcept (.sparing (requireId_ne_error he _))) fun id =>
    changeOne_spares he hvalid hreports q policy id _ candidate

theorem changeFirst_spares (q : CompiledQuery) (policy : RetryPolicy) (fuel : Nat)
    (candidates : Candidates) :
    (c.changeFirst change q policy fuel candidates).Under (.sparing e) fun _ => True := by
  induction fuel generalizing candidates with
  | zero => trivial
  | succ fuel ih =>
    refine .bind (.lift ((Candidates.next_spares he (fuel + 1) candidates).imp fun r hr => ?_))
    obtain ⟨item, rest⟩ := r
    rcases item with _ | e' | candidate
    · exact .pure trivial
    · exact .throw fun h => hr (congrArg _ (congrArg _ h))
    · refine .bindAny (changeCandidate_spares he hvalid hreports q policy candidate) fun result => ?_
      cases result with
      | some result => exact .pure trivial
      | none => exact ih rest

theorem changeEach_spares (q : CompiledQuery) (policy : RetryPolicy)
    (candidates : List Candidate) :
    (c.changeEach change q policy candidates).Under (.sparing e) fun _ => True := by
  induction candidates with
  | nil => exact .pure trivial
  | cons candidate rest ih =>
    exact .bindAny (changeCandidate_spares he hvalid hreports q policy candidate)
      fun _ => .bindAny ih fun _ => .pure trivial

theorem change_spares (hc : c.Opened) {o : WriteOptions}
    (hretry : e = .noAttempts → o.retry ≠ some (.untilSuccess 0)) (q : Query) (fuel : Nat) :
    (c.change change q o fuel).Under (.sparing e) fun _ => True := by
  have hcheck : (c.retryPolicy change o).check ≠ .error e := by
    unfold RetryPolicy.check
    split
    · rename_i hpolicy
      exact fun h => hretry (Except.error.inj h).symm (hc.override_of_retryPolicy hpolicy)
    · nofun
  refine .bindAny (.ofExcept (.sparing hcheck)) fun _ => ?_
  refine .bindAny (Candidates.ofPlan_spares he hc.defaults.scanBatch_pos _ _) fun candidates => ?_
  split
  · exact changeFirst_spares he hvalid hreports _ _ fuel candidates
  · exact .bindAny (Candidates.collect_spares he fuel none candidates)
      fun _ => changeEach_spares he hvalid hreports _ _ _

end Collection

/-! ## Operations -/

namespace Collection

variable (he : e.OfSettings) (hvalid : ¬ c.Invalidates e)
include he hvalid

theorem prepare_spares (d : Document) : (c.prepare d).Under (.sparing e) fun _ => True := by
  have hchecked : ∀ d : Document, Action.Under (.sparing e) (fun _ => True) (do
      Action.ofExcept (c.checkDocument d)
      return (← Action.ofExcept d.requireId, d)) := fun d =>
    .bindAny (.ofExcept (.sparing (checkDocument_ne_error he hvalid d))) fun _ =>
      .bindAny (.ofExcept (.sparing (requireId_ne_error he d))) fun _ => .pure trivial
  have hput : ∀ id, d.put identityField (.string id) ≠ .error e := fun id h =>
    he.not_complains (Document.complains_of_put h)
  unfold prepare
  split
  · exact .bindAny (.pure trivial) hchecked
  · exact .bindAny (.lift (Program.Under.free trivial _)) fun id =>
      .bindAny (.ofExcept (.sparing (hput id))) hchecked

theorem prepareAll_spares (ds : List Document) : (c.prepareAll ds).Under (.sparing e) fun _ => True := by
  induction ds with
  | nil => exact .pure trivial
  | cons d ds ih =>
    exact .bindAny (prepare_spares he hvalid d) fun _ => .bindAny ih fun _ => .pure trivial

theorem insertOne_spares (d : Document) : (c.insertOne d).Under (.sparing e) fun _ => True := by
  refine .bindAny (prepare_spares he hvalid d) fun prepared => ?_
  refine .bindAny (Action.commit_spares _) fun result => ?_
  cases result with
  | committed version => exact .pure trivial
  | conflict =>
    refine .throw ?_
    rintro rfl
    cases he

theorem insertMany_spares (ds : List Document) : (c.insertMany ds).Under (.sparing e) fun _ => True := by
  unfold insertMany
  split
  · exact .pure trivial
  · refine .bindAny (prepareAll_spares he hvalid ds) fun prepared => ?_
    dsimp only
    split
    · refine .bind (.throw ?_)
      rintro rfl
      cases he
    · refine .bindAny (Action.commit_spares _) fun result => ?_
      cases result with
      | committed version => exact .pure trivial
      | conflict =>
        refine .throw ?_
        rintro rfl
        cases he

end Collection

namespace Operation

/-- The caller's own functions, the validator or that of the update, report the error. -/
def Reports (c : Collection) (op : Operation) (e : Error) : Prop :=
  c.Invalidates e ∨ ∃ change q, op.purpose = .change change q ∧ change.Reports e

/-- No operation through a collection that could be opened fails for a setting of the database or of the
collection. -/
theorem program_spares (he : e.OfSettings) (hc : c.Opened) {op : Operation}
    (hreports : ¬ op.Reports c e)
    (hretry : e = .noAttempts → op.options.retry ≠ some (.untilSuccess 0)) (fuel : Nat) :
    (op.program c fuel).Under (.sparing e) fun _ => True := by
  have hvalid : ¬ c.Invalidates e := fun h => hreports (.inl h)
  have hchange : ∀ change q o, (∃ q', op.purpose = .change change q') → op.options.retry = o.retry →
      (c.change change q o fuel).Under (.sparing e) fun _ => True := by
    rintro change q o ⟨q', hpurpose⟩ ho
    rw [ho] at hretry
    exact Collection.change_spares he hvalid (fun h => hreports (.inr ⟨_, _, hpurpose, h⟩)) hc
      hretry q fuel
  cases op with
  | insertOne d => exact .bindAny (Collection.insertOne_spares he hvalid d) fun _ => .pure trivial
  | insertMany ds =>
    exact .bindAny (Collection.insertMany_spares he hvalid ds) fun _ => .pure trivial
  | updateOne q u =>
    exact .bindAny (.bindAny (hchange (.update u) q .once ⟨_, rfl⟩ rfl) fun _ => .pure trivial)
      fun _ => .pure trivial
  | updateMany q u =>
    exact .bindAny (hchange (.update u) q {} ⟨_, rfl⟩ rfl) fun _ => .pure trivial
  | updateWith q u o =>
    exact .bindAny (hchange (.update u) q o ⟨_, rfl⟩ rfl) fun _ => .pure trivial
  | deleteOne q =>
    exact .bindAny (.bindAny (hchange .delete q .once ⟨_, rfl⟩ rfl) fun _ => .pure trivial)
      fun _ => .pure trivial
  | deleteMany q => exact .bindAny (hchange .delete q {} ⟨_, rfl⟩ rfl) fun _ => .pure trivial
  | deleteWith q o => exact .bindAny (hchange .delete q o ⟨_, rfl⟩ rfl) fun _ => .pure trivial
  | dropAll =>
    exact .bindAny (.bindAny (hchange .delete .all {} ⟨_, rfl⟩ rfl) fun _ => .pure trivial)
      fun _ => .pure trivial
  | find q ops =>
    exact .bindAny (Cursor.getMany_spares he hc.defaults.scanBatch_pos fuel) fun _ => .pure trivial

/-- A call whose own policy has no attempts fails at once. -/
theorem program_of_override {op : Operation} (h : op.options.retry = some (.untilSuccess 0))
    (c : Collection) (fuel : Nat) : op.program c fuel = Action.ofExcept (.error .noAttempts) := by
  have hchange : ∀ change q o, op.options = o →
      c.change change q o fuel = Action.ofExcept (.error .noAttempts) := by
    rintro change q o rfl
    have hpolicy : c.retryPolicy change op.options = .untilSuccess 0 := by
      unfold Collection.retryPolicy
      rw [h]
      cases change <;> rfl
    unfold Collection.change
    rw [hpolicy]
    rfl
  cases op with
  | updateWith q u o =>
    rw [program, Collection.updateWith, hchange (.update u) q o rfl]
    rfl
  | deleteWith q o =>
    rw [program, Collection.deleteWith, hchange .delete q o rfl]
    rfl
  | insertOne _ | insertMany _ | updateOne _ _ | updateMany _ _ | deleteOne _ | deleteMany _
  | dropAll | find _ _ => cases h

end Operation

end DocumentStore

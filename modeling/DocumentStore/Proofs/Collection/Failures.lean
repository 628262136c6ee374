import DocumentStore.Proofs.Collection.Operations
import DocumentStore.Proofs.Collection.Persistence

/-!
# How operations fail

An operation that runs next to other clients fails for one of a few reasons: the store, its retry
policy, conflicts, or what the checks and the caller's own functions say of a document.  The entries
that it reads are none of them, since each entry holds a document that was checked.
-/

namespace DocumentStore

/-! ## Reasons -/

namespace Collection

inductive StoreFault (c : Collection) : Error → Prop where
  | closed : StoreFault c .closedStore
  | listOnClosed : StoreFault c .listOnClosedStore
  | zeroPage (h : c.defaults.scanBatch = 0) : StoreFault c .zeroPage

inductive InsertFault (c : Collection) : Error → Prop where
  | store {e : Error} (h : c.StoreFault e) : InsertFault c e
  | refused {d : Document} {e : Error} (h : c.checkDocument d = .error e) : InsertFault c e
  | repeated (id : String) : InsertFault c (.repeatedId id)
  | stored (id : String) : InsertFault c (.alreadyStored id c.name)
  | collision : InsertFault c (.batchCollision c.name)

/-- Why a change of the documents that match a query can fail.  A change starts from a document that
the collection takes. -/
inductive ChangeFault (c : Collection) (change : Change) (q : CompiledQuery) (policy : RetryPolicy) :
    Error → Prop where
  | store {e : Error} (h : c.StoreFault e) : ChangeFault c change q policy e
  | policy {e : Error} (h : policy.check = .error e) : ChangeFault c change q policy e
  | refused {s : Candidate} {id : String} {e : Error} (hdocument : c.Persistable s.document)
    (haccepts : q.accepts s.document = true) (h : c.changeBatch change s id = .error e) :
    ChangeFault c change q policy e
  | exhausted {maxAttempts : UInt32} (id : String) (h : policy = .untilSuccess maxAttempts) :
    ChangeFault c change q policy (.retriesExhausted change.kind id maxAttempts.toNat)

end Collection

variable {α β : Type} {c : Collection} {P P' : Commit → Prop} {v : Standpoint} {E : Error → Prop}

/-! ## Rules -/

/-- Two conditions on one program.  That it commits only what it may need be known of one of them. -/
theorem Program.Upholds.and {post post' : α → Standpoint → Prop} {p : Program α}
    (h : p.Upholds (c.sharing P) post v) (h' : p.Upholds (c.sharing P') post' v) :
    p.Upholds (c.sharing P) (fun a v => post a v ∧ post' a v) v := by
  induction p generalizing v with
  | done a => exact ⟨h, h'⟩
  | ask r next ih =>
    intro v' hv'
    obtain ⟨hadmits, hnext⟩ := h v' hv'
    exact ⟨hadmits, ih _ hnext (h' v' hv').2⟩
  | unfinished => trivial

/-- A program of which nothing is asked. -/
theorem Program.Upholds.free (p : Program α) (v : Standpoint) :
    p.Upholds (c.sharing fun _ => True) (fun _ _ => True) v := by
  induction p generalizing v with
  | done a => trivial
  | ask r next ih => exact fun v' _ => ⟨fun _ _ => trivial, ih _ _⟩
  | unfinished => trivial

theorem Program.Reads.and {Q R : α → Memory → Prop} {p : Program α} (h : p.Reads c P Q v)
    (h' : p.Reads c P R v) : p.Reads c P (fun a m => Q a m ∧ R a m) v :=
  (Program.Upholds.and h h').imp fun _ _ ha => ⟨ha.1.1, ha.1.2, ha.2.2⟩

namespace Action

/-- Whatever the other clients do, the action fails with no other errors than these. -/
def FailsWith (c : Collection) (E : Error → Prop) (p : Action α) (v : Standpoint) : Prop :=
  Program.Upholds (c.sharing fun _ => True) (fun r _ => ∀ e, r = .error e → E e) p v

namespace FailsWith

theorem imp {E' : Error → Prop} (himp : ∀ e, E e → E' e) {p : Action α} (h : p.FailsWith c E v) :
    p.FailsWith c E' v :=
  Program.Upholds.imp (fun _ _ hr e he => himp e (hr e he)) h

theorem ofExcept {r : Except Error α} (h : ∀ e, r = .error e → E e) :
    (Action.ofExcept r).FailsWith c E v := h

theorem bindExcept {r : Except Error α} {f : α → Action β} (hE : ∀ e, r = .error e → E e)
    (hf : ∀ a, r = .ok a → (f a).FailsWith c E v) : (Action.ofExcept r >>= f).FailsWith c E v := by
  cases r with
  | ok a => exact hf a rfl
  | error e => exact ofExcept (r := .error e) fun e' he' => by cases he'; exact hE e rfl

theorem pure {a : α} : (Pure.pure a : Action α).FailsWith c E v :=
  ofExcept (r := .ok a) fun _ he => by cases he

theorem throw {e : Error} (h : E e) : (MonadExcept.throw e : Action α).FailsWith c E v :=
  ofExcept (r := .error e) fun _ he => by cases he; exact h

theorem bind {p : Action α} {f : α → Action β} {post : α → Standpoint → Prop}
    (hE : p.FailsWith c E v) (h : Action.Upholds (c.sharing P) post p v)
    (hf : ∀ a v', post a v' → (f a).FailsWith c E v') : (p >>= f).FailsWith c E v := by
  refine Program.Upholds.bind ((Program.Upholds.and hE h).imp fun r v' hr => ?_)
  cases r with
  | ok a => exact hf a v' (hr.2 a rfl)
  | error e => exact throw (hr.1 e rfl)

theorem bindReads {p : Action α} {f : α → Action β} {Q : α → Memory → Prop}
    (hE : p.FailsWith c E v) (h : p.Reads c (fun _ => True) Q v)
    (hf : ∀ a v', v.Precedes c v' → Q a v'.memory → (f a).FailsWith c E v') :
    (p >>= f).FailsWith c E v := by
  have hupholds : Action.Upholds (c.sharing fun _ => True)
      (fun a v' => v.Precedes c v' ∧ Q a v'.memory) p v :=
    Program.Upholds.imp (fun _ _ hr a ha => ⟨hr.1, hr.2 a ha⟩) h
  exact hE.bind hupholds fun a v' ha => hf a v' ha.1 ha.2

/-- What follows an action may fail in the same ways whatever the result. -/
theorem bindAny {p : Action α} {f : α → Action β} (hE : p.FailsWith c E v)
    (hf : ∀ a v', (f a).FailsWith c E v') : (p >>= f).FailsWith c E v :=
  hE.bind (Program.Upholds.free p v |>.imp fun _ _ _ _ _ => trivial) fun a v' _ => hf a v'

theorem lift (p : Program α) : (liftM p : Action α).FailsWith c E v :=
  Program.Upholds.bind ((Program.Upholds.free p v).imp fun _ _ _ => pure)

end FailsWith

/-! ## Requests -/

/-- A closed store is the only reason for a request to fail. -/
theorem get_fails (key : Key) : (Action.get key).FailsWith c c.StoreFault v := by
  intro v' _
  refine ⟨fun _ _ => trivial, fun e he => ?_⟩
  change (v'.memory.get key).1 = .error e at he
  unfold Memory.get at he
  split at he
  · cases he
    exact .closed
  · split at he <;> cases he

theorem scan_fails (base : Key) (after : Option Key) (limit : Nat) :
    (Action.scan base after limit).FailsWith c c.StoreFault v := by
  intro v' _
  refine ⟨fun _ _ => trivial, fun e he => ?_⟩
  change (v'.memory.scan base after limit).1 = .error e at he
  unfold Memory.scan at he
  split at he
  · cases he
    exact .closed
  · cases he

theorem commit_fails (b : Batch) : (Action.commit b).FailsWith c c.StoreFault v := by
  intro v' _
  refine ⟨fun _ _ => trivial, fun e he => ?_⟩
  change (KeyValueStore.commit v'.database.settings.store b).1 = .error e at he
  by_cases hcontended : (!b.checks.isEmpty && v'.database.settings.store.remaining != 0) = true
  · rw [Database.commit_of_contended hcontended] at he
    cases he
  · rw [Database.commit_of_quiet hcontended] at he
    change (v'.memory.commit b).1 = .error e at he
    unfold Memory.commit at he
    split at he
    · cases he
      exact .closed
    · split at he <;> cases he

end Action

/-! ## Reading -/

/-- The page after the last one may be asked of a closed store. -/
theorem Scan.next_faults {s : Scan} (hv : c.Sound v.memory) :
    s.next.Reads c P (fun r _ => ∀ e, r.1 = some (.error e) → c.StoreFault e) v := by
  have hnone : ∀ (s : Scan) (e : Error),
      s.pop.1.map Except.ok = some (.error e : Except Error Entry) → c.StoreFault e := by
    intro s e he
    obtain ⟨_, _, heq⟩ := Option.map_eq_some_iff.1 he
    cases heq
  unfold Scan.next
  split
  · have hscan : Program.Reads c P (fun r _ => ∀ e, r = .error e → c.StoreFault e)
        (Action.scan s.base s.last s.pageSize).run v := by
      have hreads : (Action.scan s.base s.last s.pageSize).Reads c P (fun _ _ => True) v :=
        .scan fun _ _ => trivial
      exact (Program.Upholds.and hreads (Action.scan_fails _ _ _)).imp
        fun _ _ hr => ⟨hr.1.1, hr.2⟩
    refine Program.Reads.bind hscan fun r v' hv' hr => ?_
    cases r with
    | ok page => exact .pure hv'.sound (hnone _)
    | error e =>
      refine .pure hv'.sound fun e' he' => ?_
      cases he'
      exact hr e rfl
  · exact .pure hv (hnone s)

theorem Scan.begin_fails {base : Key} {pageSize : Nat}
    (hpage : pageSize = 0 → c.defaults.scanBatch = 0) :
    (Scan.begin base pageSize).FailsWith c c.StoreFault v := by
  unfold Scan.begin
  split
  · rename_i hzero
    exact .throw (.zeroPage (hpage hzero))
  · refine Action.FailsWith.bindAny (.lift _) fun closed _ => ?_
    split
    · exact .throw .listOnClosed
    · exact .pure

theorem EntrySource.next_faults {source : EntrySource} (hv : c.Sound v.memory) :
    source.next.Reads c P (fun r _ => ∀ e, r.1 = some (.error e) → c.StoreFault e) v := by
  cases source with
  | nothing => exact .pure hv fun _ he => by cases he
  | single e =>
    refine .pure hv fun e' he' => ?_
    obtain ⟨_, _, heq⟩ := Option.map_eq_some_iff.1 he'
    cases heq
  | scan s => exact Program.Reads.bind (Scan.next_faults hv) fun _ _ hv' hr => .pure hv'.sound hr

namespace Candidates

/-- An entry that was read holds a document, so only the store can be at fault. -/
theorem next_faults (candidates : Candidates) (fuel : Nat) (hv : c.Sound v.memory)
    (hs : c.Supplies v.memory candidates.source) :
    (candidates.next fuel).Reads c P
      (fun r _ => ∀ e, r.1 = some (.error e) → c.StoreFault e) v := by
  induction fuel generalizing candidates v with
  | zero => trivial
  | succ fuel ih =>
    refine Program.Reads.bind ((EntrySource.next_reads hv hs).and (EntrySource.next_faults hv))
      fun r v' hv' hr => ?_
    obtain ⟨item, source⟩ := r
    obtain ⟨⟨hseen, hsupplies⟩, hfault⟩ := hr
    rcases item with _ | item
    · exact .pure hv'.sound fun _ he => by cases he
    · dsimp only
      split
      · rename_i e he
        refine .pure hv'.sound fun e' he' => ?_
        cases he'
        cases item with
        | error e' =>
          cases he
          exact hfault _ rfl
        | ok entry =>
          obtain ⟨id, s, _, hes⟩ := hseen entry rfl
          cases he.symm.trans hes
      · split
        · exact .pure hv'.sound fun _ he => by cases he
        · exact ih ⟨source, candidates.query⟩ hv'.sound hsupplies

theorem collect_fails (candidates : Candidates) (fuel : Nat) (limit : Option Nat)
    (hv : c.Sound v.memory) (hs : c.Supplies v.memory candidates.source) :
    (candidates.collect fuel limit).FailsWith c c.StoreFault v := by
  induction fuel generalizing candidates v limit with
  | zero =>
    by_cases hlimit : limit = some 0
    · rw [hlimit, collect_no_more]
      exact .pure
    · rw [collect_zero hlimit]
      trivial
  | succ fuel ih =>
    by_cases hlimit : limit = some 0
    · rw [hlimit, collect_no_more]
      exact .pure
    rw [collect_succ hlimit]
    refine Action.FailsWith.bindReads (.lift _)
      (.lift ((next_reads _ _ hv hs).and (next_faults _ _ hv hs))) fun r v' hv' hr => ?_
    obtain ⟨item, rest⟩ := r
    obtain ⟨⟨hoffers, hsupplies, hquery⟩, hfault⟩ := hr
    rcases item with _ | _ | candidate
    · exact .pure
    · exact .throw (hfault _ rfl)
    · exact .bindAny (ih rest _ hv'.sound hsupplies) fun _ _ => .pure

/-- With a bound of zero nothing is scanned, so a page can only be empty if all are. -/
theorem ofPlan_fails {plan : Plan} {bound : Option Nat} :
    (ofPlan c plan bound).FailsWith c c.StoreFault v := by
  have hpage : bound ≠ some 0 → pageSize c bound = 0 → c.defaults.scanBatch = 0 := by
    intro hbound hzero
    unfold pageSize at hzero
    cases bound with
    | none => exact hzero
    | some n =>
      have hn : n ≠ 0 := fun hn => hbound (hn ▸ rfl)
      dsimp only at hzero
      omega
  unfold ofPlan
  split
  · exact .pure
  · rename_i hbound
    refine Action.FailsWith.bindAny ?_ fun _ _ => .pure
    unfold sourceOf
    split
    · exact .pure
    · exact .bindAny (Action.get_fails _) fun _ _ => .pure
    · exact .bindAny (Scan.begin_fails (hpage hbound)) fun _ _ => .pure
    · exact .bindAny (Scan.begin_fails (hpage hbound)) fun _ _ => .pure

end Candidates

/-! ## Changes -/

namespace Collection

theorem refetch_fails {id : String} {q : CompiledQuery} :
    (c.refetch id q).FailsWith c c.StoreFault v := by
  have hget : (Action.get (c.primaryKey id)).Reads c (fun _ => True)
      (fun e _ => ∀ e' ∈ e, ∃ s, Candidate.ofEntry e' = .ok s) v := by
    refine .get fun v' hv' e' he' => ?_
    obtain ⟨s, _, hes⟩ := hv'.sound.stored_of_find? he'
    exact ⟨s, hes⟩
  refine (Action.get_fails _).bindReads hget fun e v' hv' he => ?_
  cases e with
  | none => exact .pure
  | some e =>
    obtain ⟨s, hes⟩ := he e rfl
    refine .bindExcept (fun error herror => ?_) fun _ _ => .pure
    cases herror.symm.trans hes

variable {change : Change} {q : CompiledQuery} {policy : RetryPolicy} {candidate : Candidate}
  {id : String}

theorem attempt_fails (hdocument : c.Persistable candidate.document)
    (haccepts : q.accepts candidate.document = true) :
    (c.attempt change candidate id).FailsWith c (c.ChangeFault change q policy) v := by
  refine .bindExcept (fun e he => .refused hdocument haccepts he) fun r _ => ?_
  exact .bindAny ((Action.commit_fails _).imp fun _ he => .store he) fun _ _ => .pure

theorem Known.persistable {m : Memory} (h : c.Known m id candidate) :
    c.Persistable candidate.document :=
  checkDocument_eq_ok_iff.1 h.checked

theorem changeOne_fails (hc : c.WellIndexed) (retries : Nat) (hv : c.Sound v.memory)
    (hknown : c.Known v.memory id candidate) (haccepts : q.accepts candidate.document = true) :
    (c.changeOne change q policy id retries candidate).FailsWith c
      (c.ChangeFault change q policy) v := by
  -- on the attempts that are left, each on a document that is known
  induction retries generalizing candidate v with
  | zero =>
    unfold changeOne
    refine .bindAny (attempt_fails hknown.persistable haccepts) fun o _ => ?_
    cases o with
    | some result => exact .pure
    | none =>
      cases policy with
      | single => exact .pure
      | untilSuccess maxAttempts => exact .throw (.exhausted id rfl)
  | succ retries ih =>
    unfold changeOne
    refine .bind (attempt_fails hknown.persistable haccepts)
      (attempt_yields hc hv hknown haccepts) fun o v' hv' => ?_
    cases o with
    | some result => exact .pure
    | none =>
      refine .bindReads (refetch_fails.imp fun _ he => .store he) refetch_reads
        fun found v'' hv'' hfound => ?_
      cases found with
      | none => exact .pure
      | some candidate' =>
        obtain ⟨hknown', haccepts'⟩ := hfound candidate' rfl
        exact ih hv''.sound hknown' haccepts'

theorem changeCandidate_fails (hc : c.WellIndexed) (hv : c.Sound v.memory)
    (h : c.Offers q v.memory candidate) :
    (c.changeCandidate change q policy candidate).FailsWith c (c.ChangeFault change q policy) v := by
  obtain ⟨⟨id, hknown⟩, haccepts⟩ := h
  have hid := requireId_of_identity hknown.identity
  refine .bindExcept (fun e he => ?_) fun id' hid' => ?_
  · cases he.symm.trans hid
  · cases hid'.symm.trans hid
    exact changeOne_fails hc _ hv hknown haccepts

theorem changeFirst_fails (hc : c.WellIndexed) (fuel : Nat) {candidates : Candidates}
    (hv : c.Sound v.memory) (hs : c.Supplies v.memory candidates.source)
    (hq : candidates.query = q) :
    (c.changeFirst change q policy fuel candidates).FailsWith c
      (c.ChangeFault change q policy) v := by
  induction fuel generalizing candidates v with
  | zero => trivial
  | succ fuel ih =>
    refine .bindReads (.lift _) (.lift ((Candidates.next_reads _ _ hv hs).and
      (Candidates.next_faults _ _ hv hs))) fun r v' hv' hr => ?_
    obtain ⟨item, rest⟩ := r
    obtain ⟨⟨hoffers, hsupplies, hquery⟩, hfault⟩ := hr
    rcases item with _ | _ | candidate
    · exact .pure
    · exact .throw (.store (hfault _ rfl))
    · have hcandidate := hoffers candidate rfl
      rw [hq] at hcandidate
      refine .bind (changeCandidate_fails hc hv'.sound hcandidate)
        (changeCandidate_yields hc policy hv'.sound hcandidate) fun o v'' hv'' => ?_
      cases o with
      | some result => exact .pure
      | none => exact ih hv''.sound (Supplies.progress hsupplies hv''.progress) (hquery.trans hq)

theorem changeEach_fails (hc : c.WellIndexed) {candidates : List Candidate}
    (hv : c.Sound v.memory) (h : ∀ candidate ∈ candidates, c.Offers q v.memory candidate) :
    (c.changeEach change q policy candidates).FailsWith c (c.ChangeFault change q policy) v := by
  induction candidates generalizing v with
  | nil => exact .pure
  | cons candidate rest ih =>
    obtain ⟨hfirst, hrest⟩ := List.forall_mem_cons.1 h
    refine .bind (changeCandidate_fails hc hv hfirst) (changeCandidate_yields hc policy hv hfirst)
      fun o v' hv' => ?_
    refine .bindAny (ih hv'.sound fun candidate hmem => ?_) fun _ _ => .pure
    exact (hrest candidate hmem).progress hv'.progress

/-- Whatever the plan, the options and the other clients, a change fails for one of these reasons. -/
theorem change_fails (hc : c.WellIndexed) (change : Change) (q : Query) (o : WriteOptions)
    (fuel : Nat) (hv : c.Sound v.memory) :
    (c.change change q o fuel).FailsWith c
      (c.ChangeFault change q.compile (c.retryPolicy change o)) v := by
  refine .bindExcept (fun e he => .policy he) fun _ _ => ?_
  refine .bindReads (Candidates.ofPlan_fails.imp fun _ he => .store he)
    (Candidates.ofPlan_reads hv) fun candidates v' hv' hcandidates => ?_
  obtain ⟨hsupplies, hquery⟩ := hcandidates
  split
  · exact changeFirst_fails hc fuel hv'.sound hsupplies hquery
  · refine .bindReads ((Candidates.collect_fails _ fuel none hv'.sound hsupplies).imp
      fun _ he => .store he) (Candidates.collect_reads _ fuel none hv'.sound hsupplies)
      fun found v'' hv'' hfound => ?_
    rw [hquery] at hfound
    exact changeEach_fails hc hv''.sound hfound

/-! ## Inserts -/

/-- A document that passes the checks has an identity, so nothing fails behind them. -/
theorem prepare_fails (d : Document) : (c.prepare d).FailsWith c c.InsertFault v := by
  have hrest : ∀ (d : Document) (v : Standpoint), Action.FailsWith c c.InsertFault (do
      Action.ofExcept (c.checkDocument d)
      return (← Action.ofExcept d.requireId, d)) v := by
    intro d v
    refine .bindExcept (fun e he => .refused he) fun _ hcheck => ?_
    obtain ⟨id, hid⟩ := (checkDocument_eq_ok_iff.1 hcheck).identity
    refine .bindExcept (fun e he => ?_) fun _ _ => .pure
    cases he.symm.trans (requireId_of_identity hid)
  unfold prepare
  dsimp only
  split
  · exact .bindAny .pure hrest
  · refine .bindAny (.lift _) fun id _ => .bindExcept (fun e he => ?_) fun d' _ => hrest d' _
    cases he

theorem prepareAll_fails (ds : List Document) :
    (c.prepareAll ds).FailsWith c c.InsertFault v := by
  induction ds generalizing v with
  | nil => exact .pure
  | cons d ds ih => exact .bindAny (prepare_fails d) fun _ _ => .bindAny ih fun _ _ => .pure

theorem insertOne_fails (d : Document) : (c.insertOne d).FailsWith c c.InsertFault v := by
  refine .bindAny (prepare_fails d) fun p _ => ?_
  refine .bindAny ((Action.commit_fails _).imp fun _ he => .store he) fun result _ => ?_
  cases result with
  | committed version => exact .pure
  | conflict => exact .throw (.stored p.1)

theorem insertMany_fails (ds : List Document) : (c.insertMany ds).FailsWith c c.InsertFault v := by
  unfold insertMany
  split
  · exact .pure
  · refine .bindAny (prepareAll_fails ds) fun docs _ => ?_
    dsimp only
    split
    · rename_i id _
      refine .bindExcept (r := .error (.repeatedId id)) (fun e he => ?_) fun _ h => (by cases h)
      cases he
      exact .repeated id
    · refine .bindAny ((Action.commit_fails _).imp fun _ he => .store he) fun result _ => ?_
      cases result with
      | committed version => exact .pure
      | conflict => exact .throw .collision

end Collection

/-! ## Operations -/

theorem Cursor.getMany_fails (plan : Plan) (ops : List CursorOp) (fuel : Nat)
    (hv : c.Sound v.memory) :
    (Cursor.getMany ⟨c, plan, ops⟩ fuel).FailsWith c c.StoreFault v := by
  refine .bindReads Candidates.ofPlan_fails (Candidates.ofPlan_reads hv)
    fun candidates v' hv' hcandidates => ?_
  exact .bindAny (Candidates.collect_fails _ fuel _ hv'.sound hcandidates.1) fun _ _ => .pure

namespace Operation

def options : Operation → WriteOptions
  | updateOne .. | deleteOne .. => .once
  | updateWith _ _ o | deleteWith _ o => o
  | _ => {}

def Fault (c : Collection) (op : Operation) (e : Error) : Prop :=
  match op.purpose with
  | .read => c.StoreFault e
  | .insert => c.InsertFault e
  | .change change q => c.ChangeFault change q (c.retryPolicy change op.options) e

/-- Whatever the other clients do, an operation fails for one of its reasons. -/
theorem fails (hc : c.WellIndexed) (op : Operation) (fuel : Nat) (hv : c.Sound v.memory) :
    (op.program c fuel).FailsWith c (op.Fault c) v := by
  have hchange : ∀ change q o, (c.change change q o fuel).FailsWith c
      (c.ChangeFault change q.compile (c.retryPolicy change o)) v := fun change q o =>
    Collection.change_fails hc change q o fuel hv
  cases op with
  | insertOne d => exact .bindAny (Collection.insertOne_fails d) fun _ _ => .pure
  | insertMany ds => exact .bindAny (Collection.insertMany_fails ds) fun _ _ => .pure
  | updateOne q u =>
    exact .bindAny (.bindAny (hchange (.update u) q .once) fun _ _ => .pure) fun _ _ => .pure
  | updateMany q u => exact .bindAny (hchange (.update u) q {}) fun _ _ => .pure
  | updateWith q u o => exact .bindAny (hchange (.update u) q o) fun _ _ => .pure
  | deleteOne q =>
    exact .bindAny (.bindAny (hchange .delete q .once) fun _ _ => .pure) fun _ _ => .pure
  | deleteMany q => exact .bindAny (hchange .delete q {}) fun _ _ => .pure
  | deleteWith q o => exact .bindAny (hchange .delete q o) fun _ _ => .pure
  | dropAll =>
    exact .bindAny (.bindAny (hchange .delete .all {}) fun _ _ => .pure) fun _ _ => .pure
  | find q ops => exact .bindAny (Cursor.getMany_fails _ ops fuel hv) fun _ _ => .pure

end Operation

end DocumentStore

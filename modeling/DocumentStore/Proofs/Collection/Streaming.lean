import DocumentStore.Collection.Cursor
import DocumentStore.Proofs.Collection.Iterating

/-!
# Streams of documents that others change

The stream of a cursor without operations hands out what its query accepts of the entries of a scan,
one page after another, while others use the database.  Besides the scan only an entry that holds no
document ends it.
-/

namespace DocumentStore

variable {base : Key} {pageSize : Nat} {q : CompiledQuery} {met before : List Memory}
  {es : List Entry} {s : Scan} {sh : Shared} {k fuel : Nat}

theorem CompiledQuery.candidates_append (q : CompiledQuery) (es es' : List Entry) :
    q.candidates (es ++ es') = q.candidates es ++ q.candidates es' :=
  List.filterMap_append

theorem CompiledQuery.candidates_corrupt {e : Entry} {x : Error}
    (h : Candidate.ofEntry e = .error x) : q.candidates [e] = [] := by
  unfold candidates
  rw [List.filterMap_cons, h]
  rfl

/-! ## Candidates -/

namespace Candidates

variable {c : Candidates}

/-- The entries that candidates are looked for in: those that a scan reads, each with a document, or
all before the first one without. -/
inductive Reads (base : Key) (pageSize : Nat) (met : List Memory) : List Entry → Ending → Prop where
  | scanned {es : List Entry} {ending : Ending} (h : Scan.Reads base pageSize met es ending)
    (hdocs : ∀ e ∈ es, ∃ s, Candidate.ofEntry e = .ok s) : Reads base pageSize met es ending
  | corrupt {es : List Entry} {e : Entry} {x : Error}
    (h : Scan.Reads base pageSize met (es ++ [e]) .going)
    (hdocs : ∀ e ∈ es, ∃ s, Candidate.ofEntry e = .ok s) (he : Candidate.ofEntry e = .error x) :
    Reads base pageSize met (es ++ [e]) (.failed x)

structure Along (base : Key) (pageSize : Nat) (q : CompiledQuery) (met : List Memory)
    (es : List Entry) (s : Scan) (c : Candidates) : Prop where
  query : c.query = q
  source : c.source = .scan s
  along : s.Along base pageSize met es
  documents : ∀ e ∈ es, ∃ s, Candidate.ofEntry e = .ok s

def Stopped (c : Candidates) : Prop := c.source = .nothing ∨ ∃ s, c.source = .scan s ∧ s.Stopped

theorem Stopped.next_settles (h : c.Stopped) (hfuel : 0 < fuel) :
    (c.next fuel).Settles (fun r sh' => sh' = sh ∧ r.1 = none ∧ r.2.Stopped) sh := by
  obtain ⟨fuel, rfl⟩ : ∃ n, fuel = n + 1 := ⟨fuel - 1, by omega⟩
  have hsource : c.source.next.Settles (fun r sh' => sh' = sh ∧ r = (none, c.source)) sh := by
    rcases h with hnothing | ⟨s, hscan, hs⟩
    · rw [hnothing]
      exact .pure ⟨rfl, rfl⟩
    · rw [hscan]
      refine .bind (hs.next_settles.imp ?_)
      rintro r sh' ⟨rfl, rfl⟩
      exact .pure ⟨rfl, rfl⟩
  refine .bind (hsource.imp ?_)
  rintro r sh' ⟨rfl, rfl⟩
  exact .pure ⟨rfl, rfl, h⟩

def Steps (base : Key) (pageSize : Nat) (q : CompiledQuery) (before : List Memory)
    (es : List Entry) (k : Nat) (item : Option (Except Error Candidate)) (c : Candidates)
    (sh : Shared) : Prop :=
  ∃ met es', sh.met = before ++ met ∧ match item with
    | some (.ok candidate) => q.candidates es' = q.candidates es ++ [candidate] ∧
        ∃ s, c.Along base pageSize q met es' s ∧ s.EndsWithin k sh
    | some (.error e) => q.candidates es' = q.candidates es ∧
        Reads base pageSize met es' (.failed e) ∧ c.Stopped
    | none => q.candidates es' = q.candidates es ∧ Reads base pageSize met es' .ended ∧ c.Stopped

theorem Along.source_settles (hpos : 0 < pageSize) (h : c.Along base pageSize q met es s)
    (hmet : sh.met = before ++ met) (hends : s.EndsWithin (k + 1) sh) :
    c.source.next.Settles (fun r sh' => ∃ s', r.2 = .scan s' ∧
      Scan.Steps base pageSize before es r.1 s' sh' ∧
      ∀ e, r.1 = some (.ok e) → s'.EndsWithin k sh') sh := by
  rw [h.source]
  exact .bind (((Scan.next_settles hpos h.along hmet).and hends).imp fun r sh' hr =>
    .pure ⟨r.2, rfl, hr⟩)

/-- What the search leads to behind entries that give no candidate. -/
theorem Steps.of_passed {es' : List Entry} {item : Option (Except Error Candidate)}
    (h : Steps base pageSize q before es' k item c sh)
    (hpassed : q.candidates es' = q.candidates es) :
    Steps base pageSize q before es (k + 1) item c sh := by
  obtain ⟨met, es'', hmet, hitem⟩ := h
  rw [hpassed] at hitem
  refine ⟨met, es'', hmet, ?_⟩
  rcases item with _ | x | found
  · exact hitem
  · exact hitem
  · obtain ⟨hfound, s, halong, hends⟩ := hitem
    exact ⟨hfound, s, halong, hends.mono (Nat.le_succ k)⟩

/-- A scan that ends within the fuel has a next candidate, or comes to its end. -/
theorem next_settles (hpos : 0 < pageSize) (h : c.Along base pageSize q met es s)
    (hmet : sh.met = before ++ met) (hends : s.EndsWithin k sh) (hfuel : k ≤ fuel) :
    (c.next fuel).Settles (fun r sh' => Steps base pageSize q before es k r.1 r.2 sh') sh := by
  induction fuel generalizing c s met es sh k with
  | zero =>
    obtain rfl : k = 0 := Nat.le_zero.1 hfuel
    exact hends.elim
  | succ fuel ih =>
    obtain ⟨k, rfl⟩ : ∃ n, k = n + 1 := by
      cases k with
      | zero => exact hends.elim
      | succ k => exact ⟨k, rfl⟩
    refine .bind ((h.source_settles hpos hmet hends).imp ?_)
    rintro ⟨item, source⟩ sh' ⟨s', rfl, ⟨met', hmet', hstep⟩, hends'⟩
    rcases item with _ | e | e
    · obtain ⟨hreads, hstopped⟩ := hstep
      exact .pure ⟨met', es, hmet', rfl, .scanned hreads h.documents, .inr ⟨s', rfl, hstopped⟩⟩
    · obtain ⟨hreads, hstopped⟩ := hstep
      exact .pure ⟨met', es, hmet', rfl, .scanned hreads h.documents, .inl rfl⟩
    -- an entry was read
    · have hends' := hends' e rfl
      cases he : Candidate.ofEntry e with
      | error x =>
        have hbind : (Except.ok e >>= Candidate.ofEntry) = .error x := he
        dsimp only
        rw [hbind]
        refine .pure ⟨met', es ++ [e], hmet', ?_, .corrupt hstep.reads_going h.documents he, .inl rfl⟩
        rw [q.candidates_append, CompiledQuery.candidates_corrupt he, List.append_nil]
      | ok candidate =>
        have hdocs : ∀ f ∈ es ++ [e], ∃ s, Candidate.ofEntry f = .ok s := by
          intro f hf
          rcases List.mem_append.1 hf with hf | hf
          · exact h.documents f hf
          · exact ⟨candidate, List.mem_singleton.1 hf ▸ he⟩
        have hcandidates : q.candidates (es ++ [e]) =
            q.candidates es ++ if q.accepts candidate.document then [candidate] else [] := by
          rw [q.candidates_append, CompiledQuery.candidates_cons he]
          rfl
        have halong : Along base pageSize q met' (es ++ [e]) s' { c with source := .scan s' } :=
          ⟨h.query, rfl, hstep, hdocs⟩
        have hbind : (Except.ok e >>= Candidate.ofEntry) = .ok candidate := he
        dsimp only
        rw [hbind]
        dsimp only
        by_cases haccepts : q.accepts candidate.document = true
        · rw [if_pos haccepts] at hcandidates
          rw [if_pos (h.query ▸ haccepts)]
          exact .pure ⟨met', es ++ [e], hmet', hcandidates, s', halong,
            hends'.mono (Nat.le_succ k)⟩
        · rw [if_neg haccepts, List.append_nil] at hcandidates
          rw [if_neg (h.query ▸ haccepts)]
          exact (ih halong hmet' hends' (Nat.le_of_succ_le_succ hfuel)).imp fun _ _ hsteps =>
            hsteps.of_passed hcandidates

end Candidates

/-! ## Streams -/

namespace DocumentStream

def calls (fuel : Nat) : Nat → DocumentStream → Program (List (Option (Except Error Document)))
  | 0, _ => return []
  | n + 1, s => do
    let (item, s) ← s.next fuel
    return item :: (← s.calls fuel n)

theorem calls_of_stopped {c : Candidates} (h : c.Stopped) (hfuel : 0 < fuel) (n : Nat) :
    ((streaming c).calls fuel n).Settles (fun items sh' => sh' = sh ∧
      items = List.replicate n none) sh := by
  induction n generalizing c with
  | zero => exact .pure ⟨rfl, rfl⟩
  | succ n ih =>
    refine .bind (.bind ((h.next_settles hfuel).imp ?_))
    rintro ⟨item, c'⟩ sh' ⟨rfl, rfl, hc'⟩
    refine .pure (.bind ((ih hc').imp ?_))
    rintro items sh'' ⟨rfl, rfl⟩
    exact .pure ⟨rfl, rfl⟩

theorem calls_settles {c : Candidates} (hpos : 0 < pageSize) (h : c.Along base pageSize q met es s)
    (hmet : sh.met = before ++ met) (hends : s.EndsWithin k sh) (hfuel : k ≤ fuel) (n : Nat) :
    ((streaming c).calls fuel n).Settles (fun items sh' => ∃ met' es' found ending,
      sh'.met = before ++ met' ∧ items.length = n ∧
      Handed (found.map (·.document)) ending items ∧
      q.candidates es' = q.candidates es ++ found ∧
      Candidates.Reads base pageSize met' es' ending) sh := by
  have hfuelpos : 0 < fuel := by
    cases k with
    | zero => exact hends.elim
    | succ k => omega
  induction n generalizing c s met es sh with
  | zero =>
    exact .pure ⟨met, es, [], .going, hmet, rfl, .going, (List.append_nil _).symm,
      .scanned h.along.reads_going h.documents⟩
  | succ n ih =>
    refine .bind (.bind ((Candidates.next_settles hpos h hmet hends hfuel).imp ?_))
    rintro ⟨item, c'⟩ sh' ⟨met', es', hmet', hitem⟩
    refine .pure ?_
    rcases item with _ | x | candidate
    · -- the end: whatever calls are left hand out nothing
      obtain ⟨hsame, hreads, hstopped⟩ := hitem
      refine .bind ((calls_of_stopped hstopped hfuelpos n).imp ?_)
      rintro items sh'' ⟨rfl, rfl⟩
      exact .pure ⟨met', es', [], .ended, hmet', by simp, .ended n, by rw [hsame, List.append_nil],
        hreads⟩
    · -- an error: nothing after it either
      obtain ⟨hsame, hreads, hstopped⟩ := hitem
      refine .bind ((calls_of_stopped hstopped hfuelpos n).imp ?_)
      rintro items sh'' ⟨rfl, rfl⟩
      exact .pure ⟨met', es', [], .failed x, hmet', by simp, .failed x n,
        by rw [hsame, List.append_nil], hreads⟩
    · -- a document: the scan is still along its entries, one call fewer is left
      obtain ⟨hfound, s', halong, hends'⟩ := hitem
      refine .bind ((ih halong hmet' hends').imp ?_)
      rintro items sh'' ⟨met'', es'', found, ending, hmet'', hlength, hhanded, hsame, hreads⟩
      refine .pure ⟨met'', es'', candidate :: found, ending, hmet'', congrArg (· + 1) hlength,
        hhanded.item candidate.document, ?_, hreads⟩
      rw [hsame, hfound, List.append_assoc]
      rfl

end DocumentStream

/-! ## Cursors -/

def Strategy.scanBase? (c : Collection) : Strategy → Option Key
  | byIndex field part => some (Layout.indexBase c.name field part)
  | everything => some (Layout.primaryBase c.name)
  | nothing | byId _ => none

namespace Cursor

def calls (cursor : Cursor) (fuel n : Nat) : Action (List (Option (Except Error Document))) := do
  let stream ← DocumentStream.ofCursor cursor fuel
  stream.calls fuel n

/-- What calls on the stream of a cursor give that scans the entries under `base`. -/
def Streams (cursor : Cursor) (base : Key) (n : Nat)
    (r : Except Error (List (Option (Except Error Document)))) (sh : Shared) : Prop :=
  match r with
  | .error e => e = .zeroPage ∧ cursor.collection.defaults.scanBatch = 0 ∨
      e = .listOnClosedStore ∧ ∃ m, sh.met = [m] ∧ m.closed = true
  | .ok items => ∃ first met es ending, sh.met = first :: met ∧ items.length = n ∧
      Handed ((cursor.plan.query.candidates es).map (·.document)) ending items ∧
      Candidates.Reads base cursor.collection.defaults.scanBatch met es ending

theorem calls_settles {cursor : Cursor} (hops : cursor.ops = [])
    (hbase : cursor.plan.strategy.scanBase? cursor.collection = some base) (db : MemoryDatabase)
    (deeds : List (List Deed)) :
    ∃ k, ∀ fuel, k ≤ fuel → ∀ n,
      (cursor.calls fuel n).Settles (fun r sh => cursor.Streams base n r sh) (.start db deeds) := by
  obtain ⟨c, plan, ops⟩ := cursor
  obtain rfl : ops = [] := hops
  -- the stream is opened before the fuel matters
  have hopens : Program.Settles (fun r sh =>
        (∃ e, r = .error e ∧ ∀ n, Streams ⟨c, plan, []⟩ base n (.error e) sh) ∨
        r = .ok ⟨.scan (.start base c.defaults.scanBatch), plan.query⟩ ∧
          0 < c.defaults.scanBatch ∧ ∃ first, sh.met = [first])
      (Candidates.ofPlan c plan none) (.start db deeds) := by
    have hscan : Program.Settles (fun r sh =>
          (∃ e, r = .error e ∧ ∀ n, Streams ⟨c, plan, []⟩ base n (.error e) sh) ∨
          r = .ok (.scan (.start base c.defaults.scanBatch)) ∧
            0 < c.defaults.scanBatch ∧ ∃ first, sh.met = [first])
        (do return .scan (← Scan.begin base c.defaults.scanBatch) : Action EntrySource)
        (.start db deeds) := by
      refine .bind (Scan.begin_settles.imp ?_)
      rintro r sh (⟨rfl, hzero⟩ | ⟨hmet, ⟨rfl, hclosed⟩ | ⟨rfl, hpos⟩⟩)
      · exact .pure (.inl ⟨_, rfl, fun n => .inl ⟨rfl, hzero⟩⟩)
      · exact .pure (.inl ⟨_, rfl, fun n => .inr ⟨rfl, _, hmet, hclosed⟩⟩)
      · exact .pure (.inr ⟨rfl, hpos, _, hmet⟩)
    have hsource : Candidates.sourceOf c none plan.strategy =
        (do return .scan (← Scan.begin base c.defaults.scanBatch)) := by
      cases hstrategy : plan.strategy <;> rw [hstrategy] at hbase <;> cases hbase <;> rfl
    unfold Candidates.ofPlan
    rw [if_neg (by simp), hsource]
    refine .bind (hscan.imp ?_)
    rintro r sh (⟨e, rfl, he⟩ | ⟨rfl, hpos, hmet⟩)
    · exact .pure (.inl ⟨e, rfl, he⟩)
    · exact .pure (.inr ⟨rfl, hpos, hmet⟩)
  obtain ⟨r, sh, hrun, ⟨e, rfl, he⟩ | ⟨rfl, hpos, first, hmet⟩⟩ := hopens
  · exact ⟨0, fun fuel _ n => .bind (.bind ⟨_, sh, hrun, .pure (.pure (he n))⟩)⟩
  · obtain ⟨k, hends⟩ := Scan.exists_endsWithin (.start base c.defaults.scanBatch) sh
    refine ⟨k, fun fuel hfuel n => .bind (.bind ⟨_, sh, hrun, .pure ?_⟩)⟩
    have halong : Candidates.Along base c.defaults.scanBatch plan.query [] []
        (.start base c.defaults.scanBatch) ⟨.scan (.start base c.defaults.scanBatch), plan.query⟩ :=
      ⟨rfl, rfl, Scan.along_start base _, nofun⟩
    have hmet : sh.met = [first] ++ [] := hmet
    refine .bind ((DocumentStream.calls_settles hpos halong hmet hends hfuel n).imp ?_)
    rintro items sh' ⟨met, es, found, ending, hmet', hlength, hhanded, hfound, hreads⟩
    refine .pure ⟨first, met, es, ending, hmet', hlength, ?_, hreads⟩
    obtain rfl : plan.query.candidates es = found := hfound
    exact hhanded

end Cursor

end DocumentStore

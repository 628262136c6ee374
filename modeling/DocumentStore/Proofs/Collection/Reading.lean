import DocumentStore.Proofs.Collection.Standpoint

/-!
# What programs read

Whatever the other clients do, an entry read under the name of a collection holds a document that is
known from then on, be it from a page that is out of date.  The candidates of a query are therefore
known documents that match it.
-/

namespace DocumentStore

variable {c : Collection} {P : Commit → Prop} {v : Standpoint} {m m' : Memory}

namespace Collection

/-! ## Entries that were read -/

def Seen (c : Collection) (m : Memory) (e : Entry) : Prop :=
  ∃ id s, c.Known m id s ∧ Candidate.ofEntry e = .ok s

theorem Seen.progress {e : Entry} (h : c.Seen m e) (hp : c.Progress m m') : c.Seen m' e := by
  obtain ⟨id, s, hknown, hes⟩ := h
  exact ⟨id, s, hknown.progress hp, hes⟩

theorem Sound.seen (h : c.Sound m) {e : Entry} (he : e ∈ m.table.entries)
    (hhead : e.key.parts.head? = some (.string c.name)) : c.Seen m e := by
  obtain ⟨id, s, hs, hes⟩ := h.stored_of_mem he hhead
  obtain ⟨_, hvalue, hversion⟩ := mem_entriesOf.1 hes
  exact ⟨id, s, h.known hs, ofEntry_eq_ok_iff.2 ⟨hvalue, hversion⟩⟩

/-- A scan below the name of the collection, with what is left of a page that was read there. -/
structure Scans (c : Collection) (m : Memory) (s : Scan) : Prop where
  base : s.base.parts.head? = some (.string c.name)
  page : ∀ e ∈ s.page, c.Seen m e

theorem Scans.progress {s : Scan} (h : c.Scans m s) (hp : c.Progress m m') : c.Scans m' s :=
  ⟨h.base, fun e he => (h.page e he).progress hp⟩

theorem Scans.pop {s : Scan} (h : c.Scans m s) :
    (∀ e, s.pop.1 = some e → c.Seen m e) ∧ c.Scans m s.pop.2 := by
  unfold Scan.pop
  split
  · exact ⟨fun e he => (by cases he), h⟩
  · rename_i e rest hpage
    have hall := h.page
    rw [hpage] at hall
    obtain ⟨hfirst, hrest⟩ := List.forall_mem_cons.1 hall
    exact ⟨fun e' he' => (by cases he'; exact hfirst), h.base, hrest⟩

def Supplies (c : Collection) (m : Memory) : EntrySource → Prop
  | .nothing => True
  | .single e => ∀ e' ∈ e, c.Seen m e'
  | .scan s => c.Scans m s

theorem Supplies.progress {source : EntrySource} (h : c.Supplies m source)
    (hp : c.Progress m m') : c.Supplies m' source := by
  cases source with
  | nothing => trivial
  | single e => exact fun e' he' => (h e' he').progress hp
  | scan s => exact Scans.progress h hp

end Collection

/-! ## Scans -/

/-- What a page of a scan can hold. -/
theorem Collection.Sound.seen_of_mem_scan (h : c.Sound m) {base : Key} {after : Option Key}
    {limit : Nat} (hbase : base.parts.head? = some (.string c.name)) :
    ∀ e ∈ m.table.scan base after limit, c.Seen m e := by
  intro e he
  obtain ⟨hmem, hunder⟩ := Table.mem_of_mem_scan he
  exact h.seen hmem (Key.head?_of_isUnder hunder hbase)

theorem Scan.next_reads {s : Scan} (hv : c.Sound v.memory) (hs : c.Scans v.memory s) :
    s.next.Reads c P
      (fun r m => (∀ e, r.1 = some (.ok e) → c.Seen m e) ∧ c.Scans m r.2) v := by
  -- the same for the item that a scan hands out
  have hpop : ∀ {m s}, c.Scans m s →
      (∀ e, s.pop.1.map Except.ok = some (.ok e : Except Error Entry) → c.Seen m e) ∧
        c.Scans m s.pop.2 := by
    intro m s hs
    refine ⟨fun e he => hs.pop.1 e ?_, hs.pop.2⟩
    obtain ⟨e', he', heq⟩ := Option.map_eq_some_iff.1 he
    cases heq
    exact he'
  unfold Scan.next
  split
  · have hscan : (Action.scan s.base s.last s.pageSize).Reads c P
        (fun page m => ∀ e ∈ page, c.Seen m e) v :=
      .scan fun v' hv' => hv'.sound.seen_of_mem_scan hs.base
    refine Program.Reads.bind hscan fun r v' hv' hr => ?_
    cases r with
    | ok page => exact .pure hv'.sound (hpop ⟨hs.base, hr page rfl⟩)
    | error e =>
      refine .pure hv'.sound ⟨fun e' he' => ?_, hs.base, (hs.progress hv'.progress).page⟩
      cases he'
  · exact .pure hv (hpop hs)

theorem Scan.begin_reads {base : Key} {pageSize : Nat} (hv : c.Sound v.memory)
    (hbase : base.parts.head? = some (.string c.name)) :
    (Scan.begin base pageSize).Reads c P (fun s m => c.Scans m s) v := by
  unfold Scan.begin
  split
  · exact .throw hv _
  · refine .bind (.lift Program.Reads.isClosed) fun closed v' hv' _ => ?_
    split
    · exact .throw hv'.sound _
    · exact .pure hv'.sound ⟨hbase, fun e he => by cases he⟩

/-! ## Candidates -/

theorem EntrySource.next_reads {source : EntrySource} (hv : c.Sound v.memory)
    (hs : c.Supplies v.memory source) :
    source.next.Reads c P
      (fun r m => (∀ e, r.1 = some (.ok e) → c.Seen m e) ∧ c.Supplies m r.2) v := by
  cases source with
  | nothing => exact .pure hv ⟨fun e he => (by cases he), trivial⟩
  | single e =>
    refine .pure hv ⟨fun e' he' => ?_, fun e' he' => (by cases he')⟩
    obtain ⟨e'', he'', heq⟩ := Option.map_eq_some_iff.1 he'
    cases heq
    exact hs _ he''
  | scan s =>
    exact Program.Reads.bind (Scan.next_reads hv hs) fun r v' hv' hr => .pure hv'.sound hr

namespace Collection

def Offers (c : Collection) (q : CompiledQuery) (m : Memory) (candidate : Candidate) : Prop :=
  (∃ id, c.Known m id candidate) ∧ q.accepts candidate.document = true

theorem Offers.progress {q : CompiledQuery} {candidate : Candidate} (h : c.Offers q m candidate)
    (hp : c.Progress m m') : c.Offers q m' candidate := by
  obtain ⟨⟨id, hknown⟩, haccepts⟩ := h
  exact ⟨⟨id, hknown.progress hp⟩, haccepts⟩

end Collection

namespace Candidates

/-- The next candidate is a known document that matches, whatever the page is that it stands in. -/
theorem next_reads (candidates : Candidates) (fuel : Nat) (hv : c.Sound v.memory)
    (hs : c.Supplies v.memory candidates.source) :
    (candidates.next fuel).Reads c P (fun r m =>
      (∀ candidate, r.1 = some (.ok candidate) → c.Offers candidates.query m candidate) ∧
        c.Supplies m r.2.source ∧ r.2.query = candidates.query) v := by
  -- on the fuel, as entries that do not match are passed over
  induction fuel generalizing candidates v with
  | zero => trivial
  | succ fuel ih =>
    refine Program.Reads.bind (EntrySource.next_reads hv hs) fun r v' hv' hr => ?_
    obtain ⟨item, source⟩ := r
    obtain ⟨hseen, hsupplies⟩ := hr
    rcases item with _ | item
    · exact .pure hv'.sound ⟨fun _ he => (by cases he), hsupplies, rfl⟩
    · dsimp only
      split
      · exact .pure hv'.sound ⟨fun _ he => (by cases he), trivial, rfl⟩
      · rename_i candidate hcandidate
        split
        · rename_i haccepts
          refine .pure hv'.sound ⟨fun candidate' he => ?_, hsupplies, rfl⟩
          cases he
          rcases item with _ | e
          · cases hcandidate
          · obtain ⟨id, s, hknown, hes⟩ := hseen e rfl
            cases hcandidate.symm.trans hes
            exact ⟨⟨id, hknown⟩, haccepts⟩
        · exact ih ⟨source, candidates.query⟩ hv'.sound hsupplies

theorem collect_no_more (fuel : Nat) (candidates : Candidates) :
    candidates.collect fuel (some 0) = pure [] := by
  cases fuel <;> rfl

theorem collect_zero {limit : Option Nat} (h : limit ≠ some 0) (candidates : Candidates) :
    candidates.collect 0 limit = Action.fallible .unfinished := by
  rcases limit with _ | _ | n
  · rfl
  · exact absurd rfl h
  · rfl

theorem collect_succ {limit : Option Nat} (h : limit ≠ some 0) (fuel : Nat)
    (candidates : Candidates) :
    candidates.collect (fuel + 1) limit = (do
      match ← candidates.next (fuel + 1) with
      | (none, _) => return []
      | (some (.error e), _) => throw e
      | (some (.ok candidate), rest) =>
        return candidate :: (← rest.collect fuel (limit.map (· - 1)))) := by
  rcases limit with _ | _ | n
  · rfl
  · exact absurd rfl h
  · rfl

theorem collect_reads (candidates : Candidates) (fuel : Nat) (limit : Option Nat)
    (hv : c.Sound v.memory) (hs : c.Supplies v.memory candidates.source) :
    (candidates.collect fuel limit).Reads c P (fun found m =>
      ∀ candidate ∈ found, c.Offers candidates.query m candidate) v := by
  induction fuel generalizing candidates v limit with
  | zero =>
    by_cases hlimit : limit = some 0
    · rw [hlimit, collect_no_more]
      exact .pure hv fun _ he => by cases he
    · rw [collect_zero hlimit]
      trivial
  | succ fuel ih =>
    by_cases hlimit : limit = some 0
    · rw [hlimit, collect_no_more]
      exact .pure hv fun _ he => by cases he
    · rw [collect_succ hlimit]
      refine .bind (.lift (next_reads _ _ hv hs)) fun r v' hv' hr => ?_
      obtain ⟨item, rest⟩ := r
      obtain ⟨hoffers, hsupplies, hquery⟩ := hr
      rcases item with _ | _ | candidate
      · exact .pure hv'.sound fun _ he => by cases he
      · exact .throw hv'.sound _
      · refine .bind (ih rest _ hv'.sound hsupplies) fun found v'' hv'' hfound => ?_
        refine .pure hv''.sound (List.forall_mem_cons.2 ⟨?_, ?_⟩)
        · exact (hoffers _ rfl).progress hv''.progress
        -- the query goes along from candidate to candidate
        · rw [← show rest.query = candidates.query from hquery]
          exact hfound

theorem ofPlan_reads {plan : Plan} {bound : Option Nat} (hv : c.Sound v.memory) :
    (ofPlan c plan bound).Reads c P (fun candidates m =>
      c.Supplies m candidates.source ∧ candidates.query = plan.query) v := by
  unfold ofPlan
  split
  · exact .pure hv ⟨trivial, rfl⟩
  · refine .bind (Q := fun source m => c.Supplies m source) ?_ fun source v' hv' hsource =>
      .pure hv'.sound ⟨hsource, rfl⟩
    unfold sourceOf
    split
    · exact .pure hv trivial
    · rename_i id
      refine .bind (Q := fun e m => ∀ e' ∈ e, c.Seen m e') (.get fun v' hv' e' he' => ?_)
        fun e v' hv' he => .pure hv'.sound he
      -- an entry found at a primary key is one of the collection
      obtain ⟨hmem, hkey⟩ := Table.find?_eq_some_iff.1 he'
      refine hv'.sound.seen hmem ?_
      rw [Collection.same_primaryKey_iff.1 hkey]
      rfl
    · exact .bind (Scan.begin_reads hv rfl) fun s v' hv' hs => .pure hv'.sound hs
    · exact .bind (Scan.begin_reads hv rfl) fun s v' hv' hs => .pure hv'.sound hs

end Candidates

theorem Cursor.getMany_reads (plan : Plan) (ops : List CursorOp) (fuel : Nat)
    (hv : c.Sound v.memory) :
    (getMany ⟨c, plan, ops⟩ fuel).Reads c P (fun _ _ => True) v := by
  refine .bind (Candidates.ofPlan_reads hv) fun candidates v' hv' hcandidates => ?_
  refine .bind (Candidates.collect_reads _ _ _ hv'.sound hcandidates.1) fun found v'' hv'' _ => ?_
  exact .pure hv''.sound trivial

/-- A document that is read again is known and matches. -/
theorem Collection.refetch_reads {id : String} {q : CompiledQuery} :
    (c.refetch id q).Reads c P (fun found m =>
      ∀ candidate ∈ found, c.Known m id candidate ∧ q.accepts candidate.document = true) v := by
  refine .bind (Q := fun e m => ∀ e' ∈ e, ∃ s, c.stored? m.table id = some s ∧
    Candidate.ofEntry e' = .ok s) (.get fun v' hv' e' he' => ?_) fun e v' hv' he => ?_
  · exact hv'.sound.stored_of_find? he'
  · rcases e with _ | e
    · exact .pure hv'.sound fun _ hs => by cases hs
    · obtain ⟨s, hs, hes⟩ := he e rfl
      refine .bind (.ofExcept (Q := fun candidate m => candidate = s ∧ c.Known m id s) hv'.sound
        fun candidate hcandidate => ?_) fun candidate v'' hv'' hcandidate => ?_
      · exact ⟨Except.ok.inj (hcandidate.symm.trans hes), hv'.sound.known hs⟩
      · obtain ⟨rfl, hknown⟩ := hcandidate
        refine .pure hv''.sound fun candidate' hcandidate' => ?_
        split at hcandidate'
        · rename_i haccepts
          cases hcandidate'
          exact ⟨hknown, haccepts⟩
        · cases hcandidate'

end DocumentStore

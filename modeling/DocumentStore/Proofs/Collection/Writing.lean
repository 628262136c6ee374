import DocumentStore.Proofs.Collection.Reading
import Mathlib.Data.List.Forall2

/-!
# What programs write

A client that changes documents commits nothing but changes that start from the document stored just
before the commit, and gives back one result for each of its commits.  A client that inserts
documents commits nothing but documents under free identities.
-/

namespace DocumentStore

inductive Purpose where
  | read
  | insert
  | change (change : Change) (query : CompiledQuery)

def Purpose.Allows (c : Collection) : Purpose → Commit → Prop
  | read, _ => False
  | insert, w => ∃ docs, c.Inserts docs w
  | change ch q, w => ∃ id old result, c.Changes ch q id old result w

theorem Purpose.Allows.progress {c : Collection} (hc : c.WellIndexed) (p : Purpose) {w : Commit}
    (hw : c.Sound w.before) (he : w.Effective) (h : p.Allows c w) :
    c.Progress w.before w.after := by
  cases p with
  | read => cases h
  | insert =>
    obtain ⟨docs, hinserts⟩ := h
    exact hinserts.progress hc hw he
  | change ch q =>
    obtain ⟨id, old, result, hchanges⟩ := h
    exact hchanges.progress hc hw he

namespace Collection

variable {c : Collection} {change : Change} {q : CompiledQuery} {v v' v'' : Standpoint}
  {results results' : List Document}

/-! ## Changes -/

/-- A list of results that stands for the commits of a client, in their order. -/
def Reports (c : Collection) (change : Change) (q : CompiledQuery) (ws : List Commit)
    (results : List Document) : Prop :=
  List.Forall₂ (fun w result => ∃ id old, c.Changes change q id old result w) ws results

/-- A client gets from one standpoint to a later one with commits of its own, which the results
stand for. -/
structure Yields (c : Collection) (change : Change) (q : CompiledQuery) (v : Standpoint)
    (results : List Document) (v' : Standpoint) : Prop where
  progress : c.Progress v.memory v'.memory
  commits : ∃ ws, v'.commits = v.commits ++ ws ∧ c.Reports change q ws results

theorem Yields.of_precedes (h : v.Precedes c v') : c.Yields change q v [] v' :=
  ⟨h.progress, [], by rw [h.commits_eq, List.append_nil], .nil⟩

theorem Yields.trans (h : c.Yields change q v results v')
    (h' : c.Yields change q v' results' v'') : c.Yields change q v (results ++ results') v'' := by
  obtain ⟨ws, hws, hreports⟩ := h.commits
  obtain ⟨ws', hws', hreports'⟩ := h'.commits
  refine ⟨h.progress.trans h'.progress, ws ++ ws', ?_, List.rel_append hreports hreports'⟩
  rw [hws', hws, List.append_assoc]

theorem Yields.sound (h : c.Yields change q v results v') : c.Sound v'.memory := h.progress.sound

abbrev changing (c : Collection) (change : Change) (q : CompiledQuery) : Sharing Standpoint :=
  c.sharing ((Purpose.change change q).Allows c)

/-- One attempt on a known document. -/
theorem attempt_yields (hc : c.WellIndexed) {candidate : Candidate} {id : String}
    (hv : c.Sound v.memory) (hknown : c.Known v.memory id candidate)
    (haccepts : q.accepts candidate.document = true) :
    Action.Upholds (c.changing change q) (fun o v' => c.Yields change q v o.toList v')
      (c.attempt change candidate id) v := by
  refine Action.Reads.bindUpholds (.ofExcept (Q := fun r _ => c.changeBatch change candidate id =
    .ok r) hv fun r hr => hr) fun r v' hv' hr => ?_
  obtain ⟨result, batch⟩ := r
  -- the document may be long gone, but then the check of its version does not hold
  have hchanges : ∀ w, v'.Lands c batch w → c.Changes change q id candidate result w :=
    fun w hw => changes_of_effective hc hw.sound hw.effective
      ((hknown.progress hv'.progress).progress hw.progress) haccepts (hw.batch ▸ hr)
  refine Action.Upholds.bind (Action.Upholds.commit
    (fun w hw he => Purpose.Allows.progress hc _ hw he)
    (fun w hw => ⟨id, candidate, result, hchanges w hw⟩) ?_ ?_)
  · intro version v'' w hw hprogress hcommits
    refine Action.Upholds.pure ⟨hv'.progress.trans hprogress, [w], ?_, ?_⟩
    · rw [hcommits, hv'.commits_eq]
    · exact .cons ⟨id, candidate, hchanges w hw⟩ .nil
  · intro v'' hv''
    exact Action.Upholds.pure (.of_precedes (hv'.trans hv''))

/-- All attempts on a document, each on what was read last. -/
theorem changeOne_yields (hc : c.WellIndexed) (policy : RetryPolicy) {candidate : Candidate}
    {id : String} (retries : Nat) (hv : c.Sound v.memory)
    (hknown : c.Known v.memory id candidate) (haccepts : q.accepts candidate.document = true) :
    Action.Upholds (c.changing change q) (fun o v' => c.Yields change q v o.toList v')
      (c.changeOne change q policy id retries candidate) v := by
  -- on the attempts that are left, each on a document that is known
  induction retries generalizing candidate v with
  | zero =>
    unfold changeOne
    refine Action.Upholds.bind ((attempt_yields hc hv hknown haccepts).imp fun o v' hv' => ?_)
    cases o with
    | some result => exact .pure hv'
    | none =>
      cases policy with
      | single => exact .pure hv'
      | untilSuccess maxAttempts => exact .throw _
  | succ retries ih =>
    unfold changeOne
    refine Action.Upholds.bind ((attempt_yields hc hv hknown haccepts).imp fun o v' hv' => ?_)
    cases o with
    | some result => exact .pure hv'
    | none =>
      -- after a conflict, with the document that is stored now
      refine Action.Reads.bindUpholds refetch_reads fun found v'' hv'' hfound => ?_
      cases found with
      | none => exact .pure (hv'.trans (.of_precedes hv''))
      | some candidate' =>
        obtain ⟨hknown', haccepts'⟩ := hfound candidate' rfl
        refine (ih hv''.sound hknown' haccepts').imp fun o v₃ hv₃ => ?_
        exact (hv'.trans (.of_precedes hv'')).trans hv₃

theorem changeCandidate_yields (hc : c.WellIndexed) (policy : RetryPolicy) {candidate : Candidate}
    (hv : c.Sound v.memory) (h : c.Offers q v.memory candidate) :
    Action.Upholds (c.changing change q) (fun o v' => c.Yields change q v o.toList v')
      (c.changeCandidate change q policy candidate) v := by
  obtain ⟨⟨id, hknown⟩, haccepts⟩ := h
  refine Action.Reads.bindUpholds (.ofExcept (Q := fun id' _ => id' = id) hv fun id' hid => ?_)
    fun id' v' hv' hid => ?_
  · rw [requireId_of_identity hknown.identity] at hid
    exact (Except.ok.inj hid).symm
  · subst hid
    refine (changeOne_yields hc policy policy.retries hv'.sound (hknown.progress hv'.progress)
      haccepts).imp fun o v'' hv'' => ?_
    exact (Yields.of_precedes hv').trans hv''

theorem changeFirst_yields (hc : c.WellIndexed) (policy : RetryPolicy) (fuel : Nat)
    {candidates : Candidates} (hv : c.Sound v.memory)
    (hs : c.Supplies v.memory candidates.source) (hq : candidates.query = q) :
    Action.Upholds (c.changing change q)
      (fun results v' => c.Yields change q v results v' ∧ results.length ≤ 1)
      (c.changeFirst change q policy fuel candidates) v := by
  induction fuel generalizing candidates v with
  | zero => trivial
  | succ fuel ih =>
    refine Action.Reads.bindUpholds (.lift (Candidates.next_reads _ _ hv hs)) fun r v' hv' hr => ?_
    obtain ⟨item, rest⟩ := r
    obtain ⟨hoffers, hsupplies, hquery⟩ := hr
    rcases item with _ | _ | candidate
    · exact .pure ⟨.of_precedes hv', by simp⟩
    · exact .throw _
    · have hcandidate := hoffers candidate rfl
      rw [hq] at hcandidate
      refine Action.Upholds.bind ((changeCandidate_yields hc policy hv'.sound hcandidate).imp
        fun o v'' hv'' => ?_)
      have hv₂ := (Yields.of_precedes hv').trans hv''
      cases o with
      | some result => exact .pure ⟨hv₂, by simp⟩
      | none =>
        -- the candidate was skipped, and the rest of the page is out of date by what was committed
        have hsupplies' := Supplies.progress hsupplies hv''.progress
        exact (ih hv''.sound hsupplies' (hquery.trans hq)).imp fun results v₃ hv₃ =>
          ⟨hv₂.trans hv₃.1, hv₃.2⟩

theorem changeEach_yields (hc : c.WellIndexed) (policy : RetryPolicy) {candidates : List Candidate}
    (hv : c.Sound v.memory) (h : ∀ candidate ∈ candidates, c.Offers q v.memory candidate) :
    Action.Upholds (c.changing change q) (fun results v' => c.Yields change q v results v')
      (c.changeEach change q policy candidates) v := by
  induction candidates generalizing v with
  | nil => exact .pure (.of_precedes (.refl hv))
  | cons candidate rest ih =>
    obtain ⟨hfirst, hrest⟩ := List.forall_mem_cons.1 h
    refine Action.Upholds.bind ((changeCandidate_yields hc policy hv hfirst).imp fun o v' hv' => ?_)
    refine Action.Upholds.bind ((ih hv'.sound fun candidate hmem => ?_).imp
      fun results v'' hv'' => ?_)
    -- what was collected stays known while earlier candidates are changed
    · exact (hrest candidate hmem).progress hv'.progress
    · exact .pure (hv'.trans hv'')

/-- Whatever the plan, the options and the other clients, a change reports its commits. -/
theorem change_yields (hc : c.WellIndexed) (q : Query) (o : WriteOptions) (fuel : Nat)
    (hv : c.Sound v.memory) :
    Action.Upholds (c.changing change q.compile) (fun results v' =>
        c.Yields change q.compile v results v' ∧ (o.justOnce = true → results.length ≤ 1))
      (c.change change q o fuel) v := by
  refine Action.Reads.bindUpholds (.ofExcept (Q := fun _ _ => True) hv fun _ _ => trivial)
    fun _ v' hv' _ => ?_
  refine Action.Reads.bindUpholds (Candidates.ofPlan_reads hv'.sound)
    fun candidates v'' hv'' hcandidates => ?_
  obtain ⟨hsupplies, hquery⟩ := hcandidates
  have hv₂ := hv'.trans hv''
  by_cases honce : o.justOnce = true
  · rw [if_pos honce]
    exact (changeFirst_yields hc _ fuel hv''.sound hsupplies hquery).imp fun results v₃ hv₃ =>
      ⟨(Yields.of_precedes hv₂).trans hv₃.1, fun _ => hv₃.2⟩
  · rw [if_neg honce]
    refine Action.Reads.bindUpholds (Candidates.collect_reads _ fuel none hv''.sound hsupplies)
      fun found v₃ hv₃ hfound => ?_
    rw [hquery] at hfound
    refine (changeEach_yields hc _ hv₃.sound hfound).imp fun results v₄ hv₄ => ?_
    exact ⟨(Yields.of_precedes (hv₂.trans hv₃)).trans hv₄, fun h => absurd h honce⟩

/-! ## Inserts -/

def Storable (c : Collection) (p : String × Document) : Prop :=
  p.2.identity? = some (.string p.1) ∧ c.checkDocument p.2 = .ok ()

theorem prepare_reads {P : Commit → Prop} (d : Document) (hv : c.Sound v.memory) :
    (c.prepare d).Reads c P (fun p _ => c.Storable p) v := by
  -- what is done in both cases, once the document has an identity
  have hrest : ∀ (d : Document) (v : Standpoint), c.Sound v.memory →
      Action.Reads c P (fun p _ => c.Storable p) (do
        Action.ofExcept (c.checkDocument d)
        return (← Action.ofExcept d.requireId, d)) v := by
    intro d v hv
    refine .bind (.ofExcept (Q := fun _ _ => c.checkDocument d = .ok ()) hv fun _ h => h)
      fun _ v' hv' hcheck => ?_
    refine .bind (.ofExcept (Q := fun id _ => d.requireId = .ok id) hv'.sound fun _ h => h)
      fun id v'' hv'' hid => ?_
    exact .pure hv''.sound ⟨identity_of_requireId hid, hcheck⟩
  unfold prepare
  dsimp only
  split
  · exact .bind (.pure hv (Q := fun _ _ => True) trivial) fun d v' hv' _ => hrest d v' hv'.sound
  · refine .bind (.lift Program.Reads.freshId) fun id v' hv' _ => ?_
    refine .bind (.ofExcept (Q := fun _ _ => True) hv'.sound fun _ _ => trivial)
      fun d v'' hv'' _ => hrest d v'' hv''.sound

theorem prepareAll_reads {P : Commit → Prop} (ds : List Document) (hv : c.Sound v.memory) :
    (c.prepareAll ds).Reads c P (fun docs _ => ∀ p ∈ docs, c.Storable p) v := by
  induction ds generalizing v with
  | nil => exact .pure hv fun _ hp => by cases hp
  | cons d ds ih =>
    refine .bind (prepare_reads d hv) fun p v' hv' hp => ?_
    refine .bind (ih hv'.sound) fun docs v'' hv'' hdocs => ?_
    exact .pure hv''.sound (List.forall_mem_cons.2 ⟨hp, hdocs⟩)

theorem firstRepeated_eq_none (seen : List String) {ids : List String}
    (h : firstRepeated seen ids = none) :
    ids.Nodup ∧ ∀ id ∈ ids, id ∉ seen := by
  induction ids generalizing seen with
  | nil => exact ⟨.nil, fun _ hid => by cases hid⟩
  | cons id ids ih =>
    rw [firstRepeated] at h
    split at h
    · cases h
    · rename_i hid
      obtain ⟨hnodup, hall⟩ := ih _ h
      refine ⟨List.nodup_cons.2 ⟨fun hmem => hall id hmem List.mem_cons_self, hnodup⟩, ?_⟩
      exact List.forall_mem_cons.2 ⟨hid, fun id' hid' hseen =>
        hall id' hid' (List.mem_cons_of_mem _ hseen)⟩

/-- A list of results that stands for the one commit of a client that inserts them; without results
there is no need for a commit. -/
def Stores (c : Collection) (ws : List Commit) (results : List Document) : Prop :=
  (ws = [] ∧ results = []) ∨
    ∃ w docs, ws = [w] ∧ c.Inserts docs w ∧ results = docs.map Prod.snd

abbrev inserting (c : Collection) : Sharing Standpoint := c.sharing (Purpose.insert.Allows c)

/-- The commit of prepared documents. -/
theorem commit_stores (hc : c.WellIndexed) (docs : List (String × Document))
    (hnodup : (docs.map Prod.fst).Nodup) (hdocs : ∀ p ∈ docs, c.Storable p)
    (hcommits : v.commits = []) :
    Action.Upholds c.inserting (fun result v' => result.isCommitted = true →
      c.Stores v'.commits (docs.map Prod.snd)) (Action.commit (c.insertBatch docs)) v := by
  have hinserts : ∀ w, v.Lands c (c.insertBatch docs) w → c.Inserts docs w := fun w hw =>
    inserts_of_effective hc hw.sound hw.effective hnodup hdocs hw.batch
  refine Action.Upholds.commit (fun w hw he => Purpose.Allows.progress hc _ hw he)
    (fun w hw => ⟨docs, hinserts w hw⟩) ?_ ?_
  · intro version v' w hw _ hws _
    rw [hcommits] at hws
    exact .inr ⟨w, docs, hws, hinserts w hw, rfl⟩
  · intro v' _ hcommitted
    cases hcommitted

theorem insertOne_stores (hc : c.WellIndexed) (d : Document) (hv : c.Sound v.memory)
    (hcommits : v.commits = []) :
    Action.Upholds c.inserting (fun d v' => c.Stores v'.commits [d]) (c.insertOne d) v := by
  refine Action.Reads.bindUpholds (prepare_reads d hv) fun p v' hv' hp => ?_
  refine Action.Upholds.bind ((commit_stores hc [p] (by simp) (by simpa using hp)
    (hv'.commits_eq.trans hcommits)).imp fun result v'' hresult => ?_)
  cases result with
  | committed version => exact .pure (hresult rfl)
  | conflict => exact .throw _

theorem insertMany_stores (hc : c.WellIndexed) (ds : List Document) (hv : c.Sound v.memory)
    (hcommits : v.commits = []) :
    Action.Upholds c.inserting (fun ds v' => c.Stores v'.commits ds) (c.insertMany ds) v := by
  unfold insertMany
  split
  · exact .pure (.inl ⟨hcommits, rfl⟩)
  · refine Action.Reads.bindUpholds (prepareAll_reads ds hv) fun docs v' hv' hdocs => ?_
    dsimp only
    split
    · exact Action.Upholds.bind (.throw _)
    · rename_i hnone
      have hnodup : (docs.map Prod.fst).Nodup := by
        -- no repetition was found
        refine (firstRepeated_eq_none [] ?_).1
        exact Option.eq_none_iff_forall_ne_some.2 hnone
      refine Action.Upholds.bind ((commit_stores hc docs hnodup hdocs
        (hv'.commits_eq.trans hcommits)).imp fun result v'' hresult => ?_)
      cases result with
      | committed version => exact .pure (hresult rfl)
      | conflict => exact .throw _

end Collection

end DocumentStore

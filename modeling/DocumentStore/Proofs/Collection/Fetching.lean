import DocumentStore.Proofs.Collection.Cursors
import DocumentStore.Proofs.Program.Handing

/-!
# What a search is handed

A source keeps the entries that it was handed and has not passed on yet.  What it keeps before a step and
what it is handed in the step are what it passes on and what it keeps after the step, in the same order.
So a search for all matches, which passes on every entry of its strategy and keeps none in the end, was
handed these entries and no others (`Collection.findMany_hands`).
-/

namespace DocumentStore

variable {db : MemoryDatabase}

/-! ## One entry further -/

namespace Scan

theorem pop_page (s : Scan) : s.page = s.pop.1.toList ++ s.pop.2.page := by
  unfold pop
  split
  · rename_i hpage
    rw [hpage]
    rfl
  · rename_i hpage
    rw [hpage]
    rfl

theorem next_hands (hopen : db.memory.closed = false) (s : Scan) :
    s.next.Hands (fun es r _ => ∃ item, r.1 = Option.map .ok item ∧
      s.page ++ es = item.toList ++ r.2.page) db := by
  unfold next
  by_cases hask : (s.page.isEmpty && !s.exhausted) = true
  · rw [if_pos hask]
    have hempty : s.page = [] := List.isEmpty_iff.1 (Bool.and_eq_true_iff.1 hask).1
    refine Program.Hands.bind (Program.Hands.imp ?_ (Action.Hands.scan hopen))
    intro es r db' hr
    obtain ⟨page, rfl, rfl⟩ := hr
    apply Program.Hands.pure
    refine ⟨(s.refill es).pop.1, rfl, ?_⟩
    rw [hempty, List.append_nil]
    exact (s.refill es).pop_page
  · rw [if_neg hask]
    apply Program.Hands.pure
    refine ⟨s.pop.1, rfl, ?_⟩
    rw [List.append_nil]
    exact s.pop_page

theorem begin_hands {base : Key} {pageSize : Nat} (hopen : db.memory.closed = false)
    (hpos : 0 < pageSize) :
    (begin base pageSize).Hands (fun es s _ => es = [] ∧ s = start base pageSize) db := by
  unfold begin
  rw [if_neg (Nat.ne_of_gt hpos)]
  refine .bind (.lift (Program.Hands.imp ?_ .isClosed))
  intro es closed db' hr
  obtain ⟨rfl, rfl, rfl⟩ := hr
  rw [if_neg (by simp [hopen])]
  exact .pure ⟨rfl, rfl⟩

end Scan

namespace EntrySource

/-- The entries that a source was handed and has not passed on. -/
def pending : EntrySource → List Entry
  | nothing => []
  | single e => e.toList
  | scan s => s.page

theorem next_hands (hopen : db.memory.closed = false) (source : EntrySource) :
    source.next.Hands (fun es r _ => ∃ item, r.1 = Option.map .ok item ∧
      source.pending ++ es = item.toList ++ r.2.pending) db := by
  cases source with
  | nothing => exact .pure ⟨none, rfl, rfl⟩
  | single e => exact .pure ⟨e, rfl, rfl⟩
  | scan s =>
    refine Program.Hands.bind ((s.next_hands hopen).imp ?_)
    intro es r db' hr
    obtain ⟨item, hitem, hpage⟩ := hr
    apply Program.Hands.pure
    refine ⟨item, hitem, ?_⟩
    rw [List.append_nil]
    exact hpage

/-- What a source keeps is the beginning of what is still to come. -/
theorem Holds.exists_eq_pending {reads : Nat → Nat} {seen rest : List Entry} {source : EntrySource}
    (h : source.Holds db reads seen rest) : ∃ later, rest = source.pending ++ later := by
  cases source with
  | nothing => exact ⟨[], h.1⟩
  | single e => exact ⟨[], h.1.trans (List.append_nil _).symm⟩
  | scan s =>
    obtain ⟨later, hrest, _⟩ := Scan.At.page h
    exact ⟨later, hrest⟩

end EntrySource

/-! ## Candidates -/

namespace Candidates

variable {c : Collection} {q : CompiledQuery} {candidates : Candidates} {reads : Nat → Nat}
  {seen rest : List Entry} {fuel : Nat}

/-- A match is passed on with the entries before it that do not match. -/
theorem next_hands (hopen : db.memory.closed = false) (h : candidates.Holds db reads q seen rest)
    (hfuel : rest.length < fuel) :
    (candidates.next fuel).Hands (fun es r _ =>
      candidates.source.pending ++ es = q.lookedAt (some 1) rest ++ r.2.source.pending) db := by
  induction fuel generalizing candidates seen rest db with
  | zero => exact absurd hfuel (Nat.not_lt_zero _)
  | succ fuel ih =>
    obtain ⟨hquery, hsource, hdocs⟩ := h
    refine Program.Hands.bind (((candidates.source.next_hands hopen).also
      (EntrySource.next_finishes hopen hsource)).imp ?_)
    rintro es ⟨item, source⟩ db' ⟨⟨e, hitem, hpending⟩, hdb', hhead, hsource⟩
    obtain rfl : item = Option.map .ok e := hitem
    obtain rfl : e = rest.head? := Option.map_injective (fun _ _ => Except.ok.inj) hhead
    have hpending : candidates.source.pending ++ es = rest.head?.toList ++ source.pending := hpending
    cases rest with
    | nil =>
      apply Program.Hands.pure
      rw [CompiledQuery.lookedAt_nil, List.append_nil]
      exact hpending
    | cons e rest =>
      obtain ⟨⟨s, hes⟩, hdocs⟩ := List.forall_mem_cons.1 hdocs
      have hsource : source.Holds db' reads (seen ++ [e]) rest := hsource
      have hpending : candidates.source.pending ++ es = e :: source.pending := hpending
      have hbind : (Except.ok e >>= Candidate.ofEntry) = .ok s := hes
      simp only [List.head?_cons, Option.map_some]
      rw [hbind, hquery, CompiledQuery.lookedAt_cons (by simp) hes]
      by_cases haccepts : q.accepts s.document = true
      · simp only [haccepts, if_true, Option.map_some, Nat.sub_self, CompiledQuery.lookedAt_zero]
        apply Program.Hands.pure
        rw [List.append_nil]
        exact hpending
      -- an entry that is passed over is followed by those up to the next match
      · simp only [haccepts, Bool.false_eq_true, if_false]
        have hholds : Candidates.Holds db' reads q (seen ++ [e]) rest ⟨source, q⟩ :=
          ⟨rfl, hsource, hdocs⟩
        have hlt : rest.length < fuel := by
          rw [List.length_cons] at hfuel
          omega
        apply (ih (hdb'.closed.trans hopen) hholds hlt).imp
        intro es' r db'' hr
        have hr : source.pending ++ es' = q.lookedAt (some 1) rest ++ r.2.source.pending := hr
        rw [← List.append_assoc, hpending, List.cons_append, hr, List.cons_append]

/-- A search for all matches is handed what is still to come. -/
theorem collect_hands (hopen : db.memory.closed = false)
    (h : candidates.Holds db reads q seen rest) (hfuel : rest.length < fuel) :
    (candidates.collect fuel none).Hands
      (fun es _ _ => candidates.source.pending ++ es = rest) db := by
  induction fuel generalizing candidates seen rest db with
  | zero => exact absurd hfuel (Nat.not_lt_zero _)
  | succ fuel ih =>
    rw [collect_succ (by simp)]
    refine .bind (.lift (((next_hands hopen h hfuel).also (next_finishes hopen h hfuel)).imp ?_))
    rintro es ⟨item, candidates'⟩ db' ⟨hpending, hdb', hitem, later, hsplit, hlater, hholds⟩
    obtain rfl : item = (q.candidates rest).head?.map .ok := hitem
    have hpending : candidates.source.pending ++ es =
      q.lookedAt (some 1) rest ++ candidates'.source.pending := hpending
    cases hfound : q.candidates rest with
    | nil =>
      -- all entries were passed, so that the source has none to keep
      rw [CompiledQuery.lookedAt_of_no_candidates (by simp) h.documents hfound] at hsplit hpending
      obtain rfl : later = [] := List.self_eq_append_right.1 hsplit
      obtain ⟨kept, hkept⟩ := hholds.source.exists_eq_pending
      apply Action.Hands.pure
      rw [List.append_nil, hpending, (List.append_eq_nil_iff.1 hkept.symm).1, List.append_nil]
    | cons candidate found =>
      have hlt : later.length < fuel := by
        have hpassed := length_later_lt h.documents hfound hsplit
        omega
      refine .bind ((ih (hdb'.closed.trans hopen) hholds hlt).imp ?_)
      intro es' found' db'' hrest
      apply Action.Hands.pure
      have hrest : candidates'.source.pending ++ es' = later := hrest
      rw [List.append_nil, ← List.append_assoc, hpending, List.append_assoc, hrest, ← hsplit]

theorem sourceOf_hands (hopen : db.memory.closed = false) (hbatch : 0 < c.defaults.scanBatch)
    (strategy : Strategy) :
    (sourceOf c none strategy).Hands (fun es source _ => source.pending = es) db := by
  cases strategy with
  | nothing => exact .pure rfl
  | byId id =>
    refine .bind ((Action.Hands.get hopen).imp ?_)
    intro es e db' hes
    apply Action.Hands.pure
    rw [List.append_nil]
    exact hes.symm
  | byIndex field part =>
    refine .bind ((Scan.begin_hands hopen hbatch).imp ?_)
    intro es s db' hs
    obtain ⟨rfl, rfl⟩ := hs
    exact .pure rfl
  | everything =>
    refine .bind ((Scan.begin_hands hopen hbatch).imp ?_)
    intro es s db' hs
    obtain ⟨rfl, rfl⟩ := hs
    exact .pure rfl

theorem ofPlan_hands (hopen : db.memory.closed = false) (hbatch : 0 < c.defaults.scanBatch)
    (plan : Plan) :
    (ofPlan c plan none).Hands (fun es candidates _ => candidates.source.pending = es) db := by
  unfold ofPlan
  rw [if_neg (by simp)]
  refine .bind ((sourceOf_hands hopen hbatch plan.strategy).imp ?_)
  intro es source db' hsource
  apply Action.Hands.pure
  rw [List.append_nil]
  exact hsource

end Candidates

/-- A search for all matches is handed the entries of its strategy, each once and in their order. -/
theorem Collection.findMany_hands {c : Collection} {fuel : Nat} (h : c.Consistent db.memory.table)
    (hopen : db.memory.closed = false) (hbatch : 0 < c.defaults.scanBatch)
    (hfuel : db.memory.table.size < fuel) (q : Query) :
    (c.findMany q fuel).Hands (fun es _ _ =>
      es = (c.plan q.compile).strategy.entries c db.memory.table) db := by
  refine .bind (((Candidates.ofPlan_hands hopen hbatch _).also
    (Collection.ofPlan_finishes h hopen hbatch none)).imp ?_)
  intro es candidates db' hr
  obtain ⟨hpending, hdb', hholds⟩ := hr
  have hlength := Nat.lt_of_le_of_lt (Strategy.length_entries_le c db.memory.table
    (c.plan q.compile).strategy) hfuel
  refine .bind ((Candidates.collect_hands (hdb'.closed.trans hopen) hholds hlength).imp ?_)
  intro es' found db'' hrest
  apply Action.Hands.pure
  rw [List.append_nil, ← hpending]
  exact hrest

end DocumentStore

import DocumentStore.Proofs.Collection.Reading
import DocumentStore.Proofs.Program.Finishing

/-!
# Scans of a table that does not change

A scan hands out the entries under its base one after another, whatever the size of its pages
(`Scan.next_finishes`).  The candidates of a plan are therefore what the query accepts among the
entries that the strategy reads.

All states carry a count `reads`: how many entries the store has handed out once the scan has handed
out a number of them.  The store hands out whole pages, so this is a multiple of the page size, or all
there is (`Scan.fetched`).
-/

namespace DocumentStore

variable {seen rest : List Entry} {db : MemoryDatabase} {reads : Nat → Nat}

/-! ## Scans -/

namespace Scan

variable {s : Scan}

/-- How many of `n` entries are fetched in pages of size `p` to hand out `i`. -/
def fetched (n p i : Nat) : Nat := min n (p * ((i + p - 1) / p))

theorem fetched_zero (n p : Nat) : fetched n p 0 = 0 := by
  unfold fetched
  have hzero : p * ((0 + p - 1) / p) = 0 := by
    rcases Nat.eq_zero_or_pos p with rfl | hp
    · exact Nat.zero_mul _
    · rw [Nat.div_eq_of_lt (by omega), Nat.mul_zero]
  omega

/-- An entry of a page that was fetched costs nothing. -/
theorem fetched_succ_of_lt {n p i : Nat} (h : i < fetched n p i) :
    fetched n p (i + 1) = fetched n p i := by
  unfold fetched at h ⊢
  have hlt : i < p * ((i + p - 1) / p) := by omega
  have hp : 0 < p := Nat.pos_of_mul_pos_right (Nat.zero_lt_of_lt hlt)
  -- the quotient is behind that of `i`, and can be no further behind than by one
  have hquotient : i / p < (i + p - 1) / p := Nat.div_lt_of_lt_mul hlt
  have hnext : (i + 1 + p - 1) / p = i / p + 1 := by
    rw [show i + 1 + p - 1 = i + p by omega, Nat.add_div_right i hp]
  have hle : (i + p - 1) / p ≤ (i + 1 + p - 1) / p := Nat.div_le_div_right (by omega)
  have heq : (i + 1 + p - 1) / p = (i + p - 1) / p := by omega
  rw [heq]

/-- An entry behind all that were fetched costs a page. -/
theorem fetched_succ_of_eq {n p i : Nat} (hp : 0 < p) (h : fetched n p i = i) (hlt : i < n) :
    fetched n p (i + 1) = i + min p (n - i) := by
  unfold fetched at h ⊢
  have hmul : p * ((i + p - 1) / p) = i := by omega
  have hnext : (i + 1 + p - 1) / p = (i + p - 1) / p + 1 := by
    have hdiv : i / p = (i + p - 1) / p :=
      Nat.div_eq_of_eq_mul_right hp hmul.symm
    rw [show i + 1 + p - 1 = i + p by omega, Nat.add_div_right i hp, hdiv]
  rw [hnext, Nat.mul_add, hmul, Nat.mul_one]
  omega

/-- Where a scan of a table stands: what it has handed out, and what is still to come.  The page is
the beginning of the latter, and is all of it if no other page will be asked for. -/
structure At (db : MemoryDatabase) (reads : Nat → Nat) (seen rest : List Entry) (s : Scan) :
    Prop where
  pageSize_pos : 0 < s.pageSize
  under : db.memory.table.under s.base = seen ++ rest
  last : s.last = seen.getLast?.map (·.key)
  page : ∃ later, rest = s.page ++ later ∧ (s.exhausted = true → later = [])
  fetched : seen.length + s.page.length =
    fetched (seen.length + rest.length) s.pageSize seen.length
  counts : ∃ start, ∀ i, reads i = start + Scan.fetched (seen.length + rest.length) s.pageSize i
  read : db.memory.entriesRead = reads seen.length

theorem at_start {base : Key} {pageSize : Nat} (h : 0 < pageSize) :
    (start base pageSize).At db
      (fun i => db.memory.entriesRead +
        Scan.fetched (db.memory.table.under base).length pageSize i) []
      (db.memory.table.under base) := by
  refine ⟨h, rfl, rfl, ⟨_, rfl, fun he => by cases he⟩, ?_, ⟨db.memory.entriesRead, fun i => ?_⟩, ?_⟩
  · rw [List.length_nil, fetched_zero]
    rfl
  · rw [List.length_nil, Nat.zero_add]
    rfl
  · rw [List.length_nil, fetched_zero]
    rfl

theorem At.pop (h : s.At db reads seen rest) (hpage : s.page = [] → rest = []) :
    s.pop.1 = rest.head? ∧ s.pop.2.At db reads (seen ++ rest.head?.toList) rest.tail := by
  obtain ⟨later, hrest, hlater⟩ := h.page
  unfold Scan.pop
  split
  · -- a page that is used up was the last one
    rename_i hempty
    have hnil := hpage hempty
    subst hnil
    refine ⟨rfl, ?_⟩
    rw [List.head?_nil, Option.toList_none, List.append_nil]
    exact h
  · rename_i e page hcons
    have hfetched := h.fetched
    obtain ⟨start, hcounts⟩ := h.counts
    have hread := h.read
    rw [hcons] at hrest hfetched
    rw [List.cons_append] at hrest
    subst hrest
    -- the entry lies in the page already, so handing it out costs no read
    have hsame : Scan.fetched (seen.length + (e :: (page ++ later)).length) s.pageSize
        (seen.length + 1) =
        Scan.fetched (seen.length + (e :: (page ++ later)).length) s.pageSize seen.length := by
      refine fetched_succ_of_lt ?_
      rw [← hfetched, List.length_cons]
      omega
    have htotal : (seen ++ [e]).length + (page ++ later).length =
        seen.length + (e :: (page ++ later)).length := by
      simp only [List.length_append, List.length_cons, List.length_nil]
      omega
    refine ⟨rfl, h.pageSize_pos, ?_, ?_, ⟨later, rfl, hlater⟩, ?_, ⟨start, ?_⟩, ?_⟩
    · rw [h.under, List.append_assoc]
      rfl
    · simp
    · show (seen ++ [e]).length + page.length = Scan.fetched ((seen ++ [e]).length +
        (page ++ later).length) s.pageSize (seen ++ [e]).length
      rw [htotal, List.length_append, List.length_singleton, hsame, ← hfetched, List.length_cons]
      omega
    · show ∀ i, reads i = start + Scan.fetched ((seen ++ [e]).length + (page ++ later).length)
        s.pageSize i
      rw [htotal]
      exact hcounts
    · show db.memory.entriesRead = reads (seen ++ [e]).length
      rw [hread, hcounts, hcounts, List.length_append, List.length_singleton, hsame]

theorem At.refill {db' : MemoryDatabase} (h : s.At db reads seen rest) (hpage : s.page = [])
    (hdb' : db.Alike db')
    (hread : db'.memory.entriesRead =
      db.memory.entriesRead + (db.memory.table.scan s.base s.last s.pageSize).length) :
    (s.refill (db.memory.table.scan s.base s.last s.pageSize)).pop.1 = rest.head? ∧
      (s.refill (db.memory.table.scan s.base s.last s.pageSize)).pop.2.At db' reads
        (seen ++ rest.head?.toList) rest.tail := by
  -- the page goes on behind the last entry that was handed out
  have hscan : db.memory.table.scan s.base s.last s.pageSize = rest.take s.pageSize := by
    rw [h.last]
    exact Table.scan_eq_take_of_seen s.pageSize h.under
  rw [hscan] at hread ⊢
  have hpos := h.pageSize_pos
  have hfetched := h.fetched
  rw [hpage, List.length_nil, Nat.add_zero] at hfetched
  obtain ⟨start, hcounts⟩ := h.counts
  rcases rest with _ | ⟨e, rest⟩
  · rw [List.take_nil] at hread ⊢
    rw [List.head?_nil, Option.toList_none, List.append_nil]
    refine ⟨rfl, hpos, hdb'.table ▸ h.under, h.last, ⟨[], rfl, fun _ => rfl⟩, hfetched,
      ⟨start, hcounts⟩, ?_⟩
    rw [hread, h.read]
    rfl
  · obtain ⟨k, hk⟩ : ∃ k, s.pageSize = k + 1 := ⟨s.pageSize - 1, by omega⟩
    have htake : (e :: rest).take s.pageSize = e :: rest.take k := by
      rw [hk, List.take_succ_cons]
    have htotal : (seen ++ [e]).length + rest.length = seen.length + (e :: rest).length := by
      simp only [List.length_append, List.length_cons, List.length_nil]
      omega
    have hnext : Scan.fetched (seen.length + (e :: rest).length) s.pageSize (seen.length + 1) =
        seen.length + min s.pageSize (rest.length + 1) := by
      have hlt : seen.length < seen.length + (e :: rest).length := by
        rw [List.length_cons]
        omega
      rw [fetched_succ_of_eq hpos hfetched.symm hlt, Nat.add_sub_cancel_left, List.length_cons]
    unfold Scan.refill Scan.pop
    rw [htake]
    refine ⟨rfl, hpos, ?_, ?_, ⟨rest.drop k, ?_, fun hlast => ?_⟩, ?_, ⟨start, ?_⟩, ?_⟩
    · show db'.memory.table.under s.base = (seen ++ [e]) ++ rest
      rw [hdb'.table, h.under, List.append_assoc]
      rfl
    · simp
    · exact (List.take_append_drop k rest).symm
    -- a page that is not full is the last one
    · have hshort : (e :: rest.take k).length < s.pageSize := of_decide_eq_true hlast
      rw [List.length_cons, List.length_take] at hshort
      exact List.drop_eq_nil_of_le (by omega)
    · show (seen ++ [e]).length + (rest.take k).length = Scan.fetched ((seen ++ [e]).length +
        rest.length) s.pageSize (seen ++ [e]).length
      rw [htotal, List.length_append, List.length_singleton, hnext, List.length_take]
      omega
    · show ∀ i, reads i = start + Scan.fetched ((seen ++ [e]).length + rest.length) s.pageSize i
      rw [htotal]
      exact hcounts
    · show db'.memory.entriesRead = reads (seen ++ [e]).length
      rw [hread, h.read, hcounts, hcounts, List.length_append, List.length_singleton, hnext,
        ← hfetched, htake, List.length_cons, List.length_take]
      omega

theorem next_finishes (hopen : db.memory.closed = false) (h : s.At db reads seen rest) :
    s.next.Finishes (fun r db' => db.Alike db' ∧ r.1 = rest.head?.map .ok ∧
      r.2.At db' reads (seen ++ rest.head?.toList) rest.tail) db := by
  unfold next
  by_cases hask : (s.page.isEmpty && !s.exhausted) = true
  · rw [if_pos hask]
    have hpage : s.page = [] := List.isEmpty_iff.1 (Bool.and_eq_true_iff.1 hask).1
    refine Program.Finishes.bind (Program.Finishes.imp ?_ (Action.Finishes.scan hopen))
    rintro r db' ⟨page, rfl, rfl, hdb', hread⟩
    obtain ⟨hfirst, hseen⟩ := h.refill hpage hdb' hread
    exact .pure ⟨hdb', congrArg (Option.map Except.ok) hfirst, hseen⟩
  · rw [if_neg hask]
    -- without a request the page is not empty, or nothing is to come
    have hempty : s.page = [] → rest = [] := by
      intro hpage
      obtain ⟨later, hrest, hlater⟩ := h.page
      rw [hrest, hpage, hlater (by simpa [hpage] using hask)]
      rfl
    obtain ⟨hfirst, hseen⟩ := h.pop hempty
    exact .pure ⟨.refl db, congrArg (Option.map Except.ok) hfirst, hseen⟩

theorem begin_finishes {base : Key} {pageSize : Nat} (hopen : db.memory.closed = false)
    (hpos : 0 < pageSize) :
    (begin base pageSize).Finishes (fun s db' => db' = db ∧ s = start base pageSize) db := by
  unfold begin
  rw [if_neg (Nat.ne_of_gt hpos)]
  refine .bind (.lift (Program.Finishes.imp ?_ .isClosed))
  rintro closed db' ⟨rfl, rfl⟩
  rw [if_neg (by simp [hopen])]
  exact .pure ⟨rfl, rfl⟩

end Scan

/-! ## Sources -/

namespace EntrySource

/-- What a source has handed out, and what it is still going to hand out.  A source that is not a scan
asks for nothing more. -/
def Holds (db : MemoryDatabase) (reads : Nat → Nat) (seen rest : List Entry) : EntrySource → Prop
  | nothing => rest = [] ∧ ∀ i, db.memory.entriesRead = reads i
  | single e => rest = e.toList ∧ ∀ i, db.memory.entriesRead = reads i
  | scan s => s.At db reads seen rest

theorem Holds.read {source : EntrySource} (h : source.Holds db reads seen rest) :
    db.memory.entriesRead = reads seen.length := by
  cases source with
  | nothing => exact h.2 _
  | single e => exact h.2 _
  | scan s => exact Scan.At.read h

theorem next_finishes {source : EntrySource} (hopen : db.memory.closed = false)
    (h : source.Holds db reads seen rest) :
    source.next.Finishes (fun r db' => db.Alike db' ∧ r.1 = rest.head?.map .ok ∧
      r.2.Holds db' reads (seen ++ rest.head?.toList) rest.tail) db := by
  cases source with
  | nothing =>
    obtain ⟨rfl, hread⟩ := h
    exact .pure ⟨.refl db, rfl, rfl, hread⟩
  | single e =>
    obtain ⟨rfl, hread⟩ := h
    cases e <;> exact .pure ⟨.refl db, rfl, rfl, hread⟩
  | scan s =>
    exact Program.Finishes.bind ((Scan.next_finishes hopen h).imp fun r db' hr => .pure hr)

end EntrySource

/-! ## Candidates -/

def upTo {α : Type} (limit : Option Nat) (l : List α) : List α :=
  match limit with
  | none => l
  | some n => l.take n

namespace CompiledQuery

/-- The documents in a list of entries that a query accepts. -/
def candidates (q : CompiledQuery) (entries : List Entry) : List Candidate :=
  entries.filterMap fun e =>
    (Candidate.ofEntry e).toOption.filter fun candidate => q.accepts candidate.document

theorem candidate_eq_some_iff {q : CompiledQuery} {e : Entry} {candidate : Candidate} :
    ((Candidate.ofEntry e).toOption.filter fun s => q.accepts s.document) = some candidate ↔
      Candidate.ofEntry e = .ok candidate ∧ q.accepts candidate.document = true := by
  rw [Option.filter_eq_some_iff]
  cases Candidate.ofEntry e <;> simp [Except.toOption]

theorem candidates_cons {q : CompiledQuery} {e : Entry} {candidate : Candidate}
    (h : Candidate.ofEntry e = .ok candidate) (rest : List Entry) :
    q.candidates (e :: rest) =
      if q.accepts candidate.document then candidate :: q.candidates rest else q.candidates rest := by
  unfold candidates
  by_cases hq : q.accepts candidate.document = true <;>
    simp [h, Except.toOption, Option.filter, hq]

theorem mem_candidates {q : CompiledQuery} {entries : List Entry} {candidate : Candidate} :
    candidate ∈ q.candidates entries ↔
      (∃ e ∈ entries, Candidate.ofEntry e = .ok candidate) ∧
        q.accepts candidate.document = true := by
  unfold candidates
  rw [List.mem_filterMap]
  constructor
  · rintro ⟨e, he, hsome⟩
    obtain ⟨hes, haccepts⟩ := candidate_eq_some_iff.1 hsome
    exact ⟨⟨e, he, hes⟩, haccepts⟩
  · rintro ⟨⟨e, he, hes⟩, haccepts⟩
    exact ⟨e, he, candidate_eq_some_iff.2 ⟨hes, haccepts⟩⟩

end CompiledQuery

namespace CompiledQuery

variable {q : CompiledQuery} {e : Entry} {s : Candidate} {limit : Option Nat}

/-- The entries that are looked at for all matches in a list, or for so many of them. -/
def lookedAt (q : CompiledQuery) : Option Nat → List Entry → List Entry
  | some 0, _ => []
  | _, [] => []
  | limit, e :: rest =>
    e :: q.lookedAt (if (q.candidates [e]).isEmpty then limit else limit.map (· - 1)) rest

@[simp]
theorem lookedAt_zero (q : CompiledQuery) (l : List Entry) : q.lookedAt (some 0) l = [] := by
  unfold lookedAt
  rfl

@[simp]
theorem lookedAt_nil (q : CompiledQuery) (limit : Option Nat) : q.lookedAt limit [] = [] := by
  rcases limit with _ | _ | n <;> rfl

theorem lookedAt_cons (hlimit : limit ≠ some 0) (h : Candidate.ofEntry e = .ok s)
    (rest : List Entry) : q.lookedAt limit (e :: rest) =
      e :: q.lookedAt (if q.accepts s.document then limit.map (· - 1) else limit) rest := by
  have hmatch : (q.candidates [e]).isEmpty = !q.accepts s.document := by
    rw [candidates_cons h]
    cases q.accepts s.document <;> rfl
  conv => lhs; unfold lookedAt
  split
  · exact absurd rfl hlimit
  · rename_i hnil
    cases hnil
  · rename_i hcons
    cases hcons
    rw [hmatch]
    cases q.accepts s.document <;> rfl

theorem lookedAt_of_no_candidates (hlimit : limit ≠ some 0)
    (hdocs : ∀ e ∈ rest, ∃ s, Candidate.ofEntry e = .ok s) (h : q.candidates rest = []) :
    q.lookedAt limit rest = rest := by
  induction rest with
  | nil => exact q.lookedAt_nil limit
  | cons e rest ih =>
    obtain ⟨⟨s, hes⟩, hdocs⟩ := List.forall_mem_cons.1 hdocs
    rw [candidates_cons hes] at h
    by_cases haccepts : q.accepts s.document = true
    · rw [if_pos haccepts] at h
      cases h
    · rw [if_neg haccepts] at h
      rw [lookedAt_cons hlimit hes, if_neg haccepts, ih hdocs h]

/-- After the first match the others are looked for. -/
theorem lookedAt_append {later : List Entry} (hlimit : limit ≠ some 0)
    (hdocs : ∀ e ∈ rest, ∃ s, Candidate.ofEntry e = .ok s) (hfound : q.candidates rest ≠ [])
    (h : rest = q.lookedAt (some 1) rest ++ later) :
    q.lookedAt limit rest = q.lookedAt (some 1) rest ++ q.lookedAt (limit.map (· - 1)) later := by
  induction rest with
  | nil => exact absurd rfl hfound
  | cons e rest ih =>
    obtain ⟨⟨s, hes⟩, hdocs⟩ := List.forall_mem_cons.1 hdocs
    rw [lookedAt_cons (by simp) hes, List.cons_append, List.cons_eq_cons] at h
    rw [candidates_cons hes] at hfound
    rw [lookedAt_cons hlimit hes, lookedAt_cons (by simp) hes]
    by_cases haccepts : q.accepts s.document = true
    · simp only [haccepts, if_true, Option.map_some, Nat.sub_self, lookedAt_zero,
        List.nil_append] at h ⊢
      rw [← h.2]
      rfl
    · rw [if_neg haccepts] at hfound
      simp only [haccepts, Bool.false_eq_true, if_false] at h ⊢
      rw [ih hdocs hfound h.2, List.cons_append]

end CompiledQuery

namespace Candidates

variable {candidates : Candidates} {q : CompiledQuery}

structure Holds (db : MemoryDatabase) (reads : Nat → Nat) (q : CompiledQuery)
    (seen rest : List Entry) (candidates : Candidates) : Prop where
  query : candidates.query = q
  source : candidates.source.Holds db reads seen rest
  documents : ∀ e ∈ rest, ∃ s, Candidate.ofEntry e = .ok s

theorem next_finishes {fuel : Nat} (hopen : db.memory.closed = false)
    (h : candidates.Holds db reads q seen rest) (hfuel : rest.length < fuel) :
    (candidates.next fuel).Finishes (fun r db' => db.Alike db' ∧
      r.1 = (q.candidates rest).head?.map .ok ∧
      ∃ later, rest = q.lookedAt (some 1) rest ++ later ∧
        q.candidates later = (q.candidates rest).tail ∧
        r.2.Holds db' reads q (seen ++ q.lookedAt (some 1) rest) later) db := by
  induction fuel generalizing candidates seen rest db with
  | zero => exact absurd hfuel (Nat.not_lt_zero _)
  | succ fuel ih =>
    obtain ⟨hquery, hsource, hdocs⟩ := h
    refine Program.Finishes.bind ((EntrySource.next_finishes hopen hsource).imp ?_)
    rintro ⟨item, source⟩ db' ⟨hdb', hitem, hsource⟩
    have hitem : item = rest.head?.map .ok := hitem
    subst hitem
    rcases rest with _ | ⟨e, rest⟩
    · refine .pure ⟨hdb', rfl, [], ?_, rfl, hquery, ?_, hdocs⟩
      · rw [CompiledQuery.lookedAt_nil]
        rfl
      · rw [CompiledQuery.lookedAt_nil]
        exact hsource
    -- the entry is handed out if the query accepts its document, and passed over if not
    · obtain ⟨⟨s, hes⟩, hdocs⟩ := List.forall_mem_cons.1 hdocs
      have hsource : source.Holds db' reads (seen ++ [e]) rest := hsource
      have hbind : (Except.ok e >>= Candidate.ofEntry) = .ok s := hes
      simp only [List.head?_cons, Option.map_some]
      rw [hbind, hquery, CompiledQuery.candidates_cons hes,
        CompiledQuery.lookedAt_cons (by simp) hes]
      by_cases haccepts : q.accepts s.document = true
      · simp only [haccepts, if_true, Option.map_some, Nat.sub_self, CompiledQuery.lookedAt_zero]
        exact .pure ⟨hdb', rfl, rest, rfl, rfl, rfl, hsource, hdocs⟩
      · simp only [haccepts, Bool.false_eq_true, if_false]
        have hholds : Candidates.Holds db' reads q (seen ++ [e]) rest ⟨source, q⟩ :=
          ⟨rfl, hsource, hdocs⟩
        have hlt : rest.length < fuel := by
          rw [List.length_cons] at hfuel
          omega
        refine (ih (hdb'.closed.trans hopen) hholds hlt).imp ?_
        rintro r db'' ⟨hdb'', hitem, later, hsplit, hlater, hr⟩
        refine ⟨hdb'.trans hdb'', hitem, later, congrArg (e :: ·) hsplit, hlater, ?_⟩
        rw [List.append_assoc] at hr
        exact hr

/-- A match that is found is one of the entries that were passed. -/
theorem length_later_lt {later : List Entry} {candidate : Candidate} {found : List Candidate}
    (hdocs : ∀ e ∈ rest, ∃ s, Candidate.ofEntry e = .ok s)
    (hfound : q.candidates rest = candidate :: found)
    (h : rest = q.lookedAt (some 1) rest ++ later) : later.length < rest.length := by
  rcases rest with _ | ⟨e, rest⟩
  · cases hfound
  · obtain ⟨s, hes⟩ := hdocs e List.mem_cons_self
    rw [CompiledQuery.lookedAt_cons (by simp) hes] at h
    have hlength := congrArg List.length h
    simp only [List.length_cons, List.length_append] at hlength ⊢
    omega

/-- All candidates that are still to come, or so many of them. -/
theorem collect_finishes {fuel : Nat} {limit : Option Nat} (hopen : db.memory.closed = false)
    (h : candidates.Holds db reads q seen rest) (hfuel : rest.length < fuel) :
    (candidates.collect fuel limit).Finishes (fun found db' => db.Alike db' ∧
      found = upTo limit (q.candidates rest) ∧
      db'.memory.entriesRead = reads (seen ++ q.lookedAt limit rest).length) db := by
  -- on the fuel, of which every entry that is looked at takes one at most
  induction fuel generalizing candidates limit seen rest db with
  | zero => exact absurd hfuel (Nat.not_lt_zero _)
  | succ fuel ih =>
    by_cases hlimit : limit = some 0
    · subst hlimit
      rw [CompiledQuery.lookedAt_zero, List.append_nil]
      exact .pure ⟨.refl db, rfl, h.source.read⟩
    rw [collect_succ hlimit]
    refine .bind (.lift ((next_finishes hopen h hfuel).imp ?_))
    rintro ⟨item, c⟩ db' ⟨hdb', hitem, later, hsplit, hlater, hc⟩
    have hitem : item = (q.candidates rest).head?.map .ok := hitem
    subst hitem
    cases hfound : q.candidates rest with
    | nil =>
      have hall : ∀ limit, limit ≠ some 0 → q.lookedAt limit rest = rest := fun _ hlimit =>
        CompiledQuery.lookedAt_of_no_candidates hlimit h.documents hfound
      rw [hall limit hlimit, ← hall (some 1) (by simp)]
      refine .pure ⟨hdb', ?_, hc.source.read⟩
      cases limit <;> simp [upTo]
    | cons candidate found =>
      rw [hfound] at hlater
      have hlt : later.length < fuel := by
        have hpassed := length_later_lt h.documents hfound hsplit
        omega
      refine .bind ((ih (hdb'.closed.trans hopen) hc hlt).imp ?_)
      rintro all db'' ⟨hdb'', rfl, hread⟩
      refine .pure ⟨hdb'.trans hdb'', ?_, ?_⟩
      · rw [hlater]
        rcases limit with _ | _ | n
        · rfl
        · exact absurd rfl hlimit
        · rfl
      · rw [CompiledQuery.lookedAt_append hlimit h.documents (by simp [hfound]) hsplit,
          ← List.append_assoc]
        exact hread

end Candidates

/-! ## Plans -/

namespace Strategy

def entries (c : Collection) (t : Table) : Strategy → List Entry
  | nothing => []
  | byId id => (t.find? (c.primaryKey id)).toList
  | byIndex field part => t.under (Layout.indexBase c.name field part)
  | everything => t.under (Layout.primaryBase c.name)

theorem length_entries_le (c : Collection) (t : Table) (strategy : Strategy) :
    (strategy.entries c t).length ≤ t.size := by
  cases strategy with
  | nothing => exact Nat.zero_le _
  | byId id =>
    cases hfind : t.find? (c.primaryKey id) with
    | none =>
      rw [entries, hfind]
      exact Nat.zero_le _
    | some e =>
      rw [entries, hfind]
      exact List.length_pos_of_mem (Table.find?_eq_some_iff.1 hfind).1
  | byIndex field part => exact t.length_under_le _
  | everything => exact t.length_under_le _

theorem mem_of_mem_entries {c : Collection} {t : Table} {strategy : Strategy} {e : Entry}
    (h : e ∈ strategy.entries c t) :
    e ∈ t.entries ∧ e.key.parts.head? = some (.string c.name) := by
  cases strategy with
  | nothing => cases h
  | byId id =>
    obtain ⟨hmem, hkey⟩ := Table.find?_eq_some_iff.1 (Option.mem_toList.1 h)
    refine ⟨hmem, ?_⟩
    rw [Collection.same_primaryKey_iff.1 hkey]
    rfl
  | byIndex field part =>
    obtain ⟨hmem, hunder⟩ := Table.mem_under.1 h
    exact ⟨hmem, Key.head?_of_isUnder hunder rfl⟩
  | everything =>
    obtain ⟨hmem, hunder⟩ := Table.mem_under.1 h
    exact ⟨hmem, Key.head?_of_isUnder hunder rfl⟩

end Strategy

/-- How many entries of a table are fetched along a strategy to hand out `i`, if at most `bound`
candidates are wanted. -/
def Strategy.fetched (c : Collection) (t : Table) (bound : Option Nat) (strategy : Strategy)
    (i : Nat) : Nat :=
  match bound, strategy with
  | some 0, _ => 0
  | _, .nothing => 0
  | _, .byId _ => (strategy.entries c t).length
  | _, .byIndex .. | _, .everything =>
    Scan.fetched (strategy.entries c t).length (Candidates.pageSize c bound) i

namespace Candidates

variable {c : Collection} {plan : Plan} {bound : Option Nat}

theorem pageSize_pos (hbatch : 0 < c.defaults.scanBatch) (hbound : bound ≠ some 0) :
    0 < pageSize c bound := by
  rcases bound with _ | _ | n
  · exact hbatch
  · exact absurd rfl hbound
  · exact Nat.lt_min.2 ⟨Nat.succ_pos n, hbatch⟩

theorem sourceOf_finishes (hopen : db.memory.closed = false) (hbatch : 0 < c.defaults.scanBatch)
    (hbound : bound ≠ some 0) (strategy : Strategy) :
    (sourceOf c bound strategy).Finishes (fun source db' => db.Alike db' ∧
      source.Holds db' (fun i => db.memory.entriesRead + strategy.fetched c db.memory.table bound i)
        [] (strategy.entries c db.memory.table)) db := by
  have hpos := pageSize_pos hbatch hbound
  have hfetched : ∀ i, strategy.fetched c db.memory.table bound i = match strategy with
      | .nothing => 0
      | .byId _ => (strategy.entries c db.memory.table).length
      | .byIndex .. | .everything =>
        Scan.fetched (strategy.entries c db.memory.table).length (pageSize c bound) i := by
    intro i
    rcases bound with _ | _ | n
    · cases strategy <;> rfl
    · exact absurd rfl hbound
    · cases strategy <;> rfl
  simp only [hfetched]
  cases strategy with
  | nothing => exact .pure ⟨.refl db, rfl, fun _ => rfl⟩
  | byId id =>
    refine .bind ((Action.Finishes.get hopen).imp ?_)
    rintro e db' ⟨rfl, hdb', hread⟩
    exact .pure ⟨hdb', rfl, fun _ => hread⟩
  | byIndex field part =>
    refine .bind ((Scan.begin_finishes hopen hpos).imp ?_)
    rintro s db' ⟨rfl, rfl⟩
    exact .pure ⟨.refl db', Scan.at_start hpos⟩
  | everything =>
    refine .bind ((Scan.begin_finishes hopen hpos).imp ?_)
    rintro s db' ⟨rfl, rfl⟩
    exact .pure ⟨.refl db', Scan.at_start hpos⟩

/-- The entries that a plan looks at; none if no candidate is wanted. -/
def wanted (c : Collection) (t : Table) (bound : Option Nat) (strategy : Strategy) : List Entry :=
  if bound = some 0 then [] else strategy.entries c t

/-- The candidates of a plan are what its query accepts of the entries that its strategy reads. -/
theorem ofPlan_finishes (hopen : db.memory.closed = false) (hbatch : 0 < c.defaults.scanBatch)
    (hdocs : ∀ e ∈ plan.strategy.entries c db.memory.table, ∃ s, Candidate.ofEntry e = .ok s) :
    (ofPlan c plan bound).Finishes (fun candidates db' => db.Alike db' ∧
      candidates.Holds db'
        (fun i => db.memory.entriesRead + plan.strategy.fetched c db.memory.table bound i)
        plan.query [] (wanted c db.memory.table bound plan.strategy)) db := by
  unfold ofPlan wanted
  by_cases hbound : bound = some 0
  · rw [if_pos hbound, if_pos hbound]
    subst hbound
    refine .pure ⟨.refl db, rfl, ⟨rfl, fun i => rfl⟩, fun e he => by cases he⟩
  · rw [if_neg hbound, if_neg hbound]
    refine .bind ((sourceOf_finishes hopen hbatch hbound plan.strategy).imp ?_)
    rintro source db' ⟨hdb', hsource⟩
    exact .pure ⟨hdb', rfl, hsource, hdocs⟩

end Candidates

end DocumentStore
